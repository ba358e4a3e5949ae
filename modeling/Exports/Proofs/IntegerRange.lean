import Exports.Settings.Document
import Mathlib.Algebra.Ring.Nat

namespace Exports

namespace Text.Reader

variable {α β : Type}

/-- Whatever the reader takes off a text is of this kind. -/
def Yields (p : Reader α) (good : α → Prop) : Prop :=
  ∀ s a rest, p s = some (a, rest) → good a

namespace Yields

variable {p q : Reader α} {f : α → Reader β} {good : α → Prop} {goodAfter : β → Prop}

theorem all (p : Reader α) : p.Yields fun _ => True := fun _ _ _ _ => trivial

theorem pure {a : α} (h : good a) : Yields (Pure.pure a) good := by
  intro s b rest hb
  cases hb
  exact h

theorem bind (hp : p.Yields good) (hf : ∀ a, good a → (f a).Yields goodAfter) :
    (p >>= f).Yields goodAfter := by
  intro s b rest h
  cases hr : p s with
  | none => simp [Bind.bind, hr] at h
  | some r =>
    simp only [Bind.bind, hr] at h
    exact hf r.1 (hp s r.1 r.2 hr) r.2 b rest h

/-- As `bind`, where it does not matter what is read first. -/
theorem after (p : Reader α) (hf : ∀ a, (f a).Yields goodAfter) : (p >>= f).Yields goodAfter :=
  (all p).bind fun a _ => hf a

theorem fail : Yields Reader.fail good := by
  intro s a rest h
  cases h

theorem orElse (hp : p.Yields good) (hq : q.Yields good) : (p.orElse q).Yields good := by
  intro s a rest h
  unfold Reader.orElse at h
  split at h
  · exact hq s a rest h
  · rename_i r hr
    cases h
    exact hp s a rest hr

theorem attempt (hp : p.Yields good) : p.attempt.Yields fun found => ∀ a ∈ found, good a := by
  intro s found rest h
  unfold Reader.attempt at h
  split at h
  · cases h
    simp
  · rename_i a s' ha
    cases h
    intro b hb
    cases hb
    exact hp s a _ ha

theorem guard (b : Bool) : (Reader.guard b).Yields fun _ => b = true := by
  intro s a rest h
  unfold Reader.guard at h
  split at h
  · assumption
  · cases h

theorem many (hp : p.Yields good) : p.many.Yields fun as => ∀ a ∈ as, good a := by
  intro s as rest h
  unfold Reader.many at h
  generalize s.length + 1 = rounds at h
  induction rounds generalizing s as with
  | zero =>
    cases h
    simp
  | succ rounds ih =>
    simp only [manyBounded] at h
    split at h
    · cases h
      simp
    · rename_i a s' ha
      have hgood := hp s a s' ha
      split at h
      · cases h
        simpa using hgood
      · rename_i more s'' hmore
        cases h
        intro b hb
        rcases List.mem_cons.mp hb with rfl | hb
        · exact hgood
        · exact ih s' more hmore b hb

end Yields

end Text.Reader

namespace Toml

open Text Text.Reader

/-- All integers in a value are within range. -/
inductive Fitting : Toml → Prop where
  | string (text : String) : Fitting (.string text)
  | integer {n : Int} (h : fits n = true) : Fitting (.integer n)
  | float (x : Float) : Fitting (.float x)
  | boolean (b : Bool) : Fitting (.boolean b)
  | datetime : Fitting .datetime
  | array {items : List Toml} (h : ∀ v ∈ items, Fitting v) : Fitting (.array items)
  | table (implied dotted : Bool) {entries : Entries} (h : ∀ e ∈ entries, Fitting e.2) :
      Fitting (.table implied dotted entries)
  | braced {entries : Entries} (h : ∀ e ∈ entries, Fitting e.2) : Fitting (.braced entries)
  | tables {items : List Toml} (h : ∀ v ∈ items, Fitting v) : Fitting (.tables items)

def AllFitting (entries : Entries) : Prop := ∀ e ∈ entries, Fitting e.2

namespace AllFitting

variable {entries after : Entries} {key : String} {value : Toml}

theorem nil : AllFitting [] := by simp [AllFitting]

theorem lookup (h : AllFitting entries) (hv : lookup entries key = some value) :
    Fitting value := by
  obtain ⟨e, he, rfl⟩ := Option.map_eq_some_iff.mp hv
  exact h e (List.mem_of_find?_eq_some he)

theorem concat (h : AllFitting entries) (hv : Fitting value) (key : String) :
    AllFitting (entries ++ [(key, value)]) := by
  intro e he
  rcases List.mem_append.mp he with he | he
  · exact h e he
  · rw [List.mem_singleton.mp he]
    exact hv

theorem store (h : AllFitting entries) (hv : Fitting value) (key : String) :
    AllFitting (store entries key value) := by
  unfold Toml.store
  split
  · intro e he
    obtain ⟨old, hold, rfl⟩ := List.mem_map.mp he
    split
    · exact hv
    · exact h old hold
  · exact h.concat hv key

/-- A change somewhere below keeps to the range if it does so on the spot. -/
theorem descend {dotted : Bool} {change : Bool → Entries → Option Entries}
    (hchange : ∀ isDotted inner outer, AllFitting inner → change isDotted inner = some outer →
      AllFitting outer)
    (path : List String) (isDotted : Bool) (h : AllFitting entries)
    (hd : descend dotted change path isDotted entries = some after) : AllFitting after := by
  induction path generalizing isDotted entries after with
  | nil => exact hchange isDotted entries after h hd
  | cons key path ih =>
    unfold Toml.descend at hd
    split at hd
    · obtain ⟨inner, hinner, hstore⟩ := Option.bind_eq_some_iff.mp hd
      cases hstore
      exact h.store (.table _ _ (ih _ nil hinner)) key
    · rename_i implied isDotted inner hl
      cases h.lookup hl with
      | table _ _ hin =>
        split at hd
        · cases hd
        · obtain ⟨outer, houter, hstore⟩ := Option.bind_eq_some_iff.mp hd
          cases hstore
          exact h.store (.table _ _ (ih _ hin houter)) key
    · rename_i implied isDotted inner before hl
      cases h.lookup hl with
      | tables hitems =>
        cases hitems _ (List.mem_cons_self ..) with
        | table _ _ hin =>
          obtain ⟨outer, houter, hstore⟩ := Option.bind_eq_some_iff.mp hd
          cases hstore
          exact h.store (.tables (List.forall_mem_cons.mpr ⟨.table _ _ (ih _ hin houter),
            (List.forall_mem_cons.mp hitems).2⟩)) key
    · cases hd

theorem assign {path : List String} (h : AllFitting entries) (hv : Fitting value)
    (ha : assign path value entries = some after) : AllFitting after := by
  unfold Toml.assign at ha
  split at ha
  · cases ha
  · refine h.descend ?_ _ _ ha
    intro isDotted inner outer hin hout
    split at hout
    · cases hout
    · cases hout
      exact hin.concat hv _

theorem openTable {path : List String} (h : AllFitting entries)
    (ho : openTable path entries = some after) : AllFitting after := by
  unfold Toml.openTable at ho
  split at ho
  · cases ho
  · refine h.descend ?_ _ _ ho
    intro isDotted inner outer hin hout
    split at hout
    · cases hout
      exact hin.store (.table _ _ nil) _
    · rename_i old hl
      cases hout
      cases hin.lookup hl with
      | table _ _ hold => exact hin.store (.table _ _ hold) _
    · cases hout

theorem openRepeated {path : List String} (h : AllFitting entries)
    (ho : openRepeated path entries = some after) : AllFitting after := by
  unfold Toml.openRepeated at ho
  split at ho
  · cases ho
  · refine h.descend ?_ _ _ ho
    intro isDotted inner outer hin hout
    split at hout
    · cases hout
      exact hin.store (.tables (by simpa using .table _ _ nil)) _
    · rename_i before hl
      cases hout
      cases hin.lookup hl with
      | tables hbefore =>
        exact hin.store (.tables (List.forall_mem_cons.mpr ⟨.table _ _ nil, hbefore⟩)) _
    · cases hout

theorem assignUnder {header path : List String} (h : AllFitting entries) (hv : Fitting value)
    (ha : assignUnder header path value entries = some after) : AllFitting after :=
  h.descend (fun _ _ _ hin hout => hin.assign hv hout) _ _ ha

end AllFitting

/-- What each step of a fold keeps, the fold keeps. -/
theorem foldlM_keeps {σ α : Type} {step : σ → α → Option σ} {good : α → Prop} (keeps : σ → Prop)
    (hstep : ∀ s a t, keeps s → good a → step s a = some t → keeps t) (as : List α) {s t : σ}
    (hs : keeps s) (has : ∀ a ∈ as, good a) (h : as.foldlM step s = some t) : keeps t := by
  induction as generalizing s with
  | nil =>
    cases h
    exact hs
  | cons a as ih =>
    rw [List.foldlM_cons] at h
    obtain ⟨next, hnext, hrest⟩ := Option.bind_eq_some_iff.mp h
    exact ih (hstep s a next hs (has a (by simp)) hnext) (fun b hb => has b (by simp [hb])) hrest

theorem yields_integerValue : integerValue.Yields Fitting := by
  have hfits : ∀ n, Yields (do Reader.guard (fits n); return .integer n) Fitting := fun n =>
    (Yields.guard _).bind fun _ h => .pure (.integer h)
  refine .after _ fun based => ?_
  cases based with
  | some n => exact hfits n
  | none => exact .after _ fun _ => hfits _

theorem yields_dateValue : dateValue.Yields Fitting :=
  .orElse (.after _ fun _ => .after _ fun _ => .pure .datetime) (.after _ fun _ => .pure .datetime)

theorem yields_scalar : scalar.Yields Fitting := by
  refine .after _ fun next => ?_
  split
  · exact .after _ fun _ => .pure (.string _)
  · exact .after _ fun _ => .pure (.string _)
  · exact .after _ fun _ => .pure (.boolean _)
  · exact .after _ fun _ => .pure (.boolean _)
  · exact .orElse yields_dateValue (.orElse (.after _ fun _ => .pure (.float _))
      (.orElse (.after _ fun _ => .pure (.float _)) yields_integerValue))

section Nested

variable {value : Reader Toml}

theorem yields_arrayValue (h : value.Yields Fitting) : (arrayValue value).Yields Fitting := by
  have hitems : (arrayItems value).Yields fun items => ∀ v ∈ items, Fitting v := by
    refine h.attempt.bind fun found hfound => ?_
    cases found with
    | none => exact .pure (by simp)
    | some first =>
      have hmore : Yields (do gap; char ','; gap; value) Fitting :=
        .after _ fun _ => .after _ fun _ => .after _ fun _ => h
      exact hmore.many.bind fun more hmore => .after _ fun _ =>
        .pure (List.forall_mem_cons.mpr ⟨hfound first rfl, hmore⟩)
  refine .after _ fun _ => .after _ fun _ => hitems.bind fun items h => ?_
  exact .after _ fun _ => .after _ fun _ => .pure (.array h)

theorem yields_pair (h : value.Yields Fitting) : (pair value).Yields fun p => Fitting p.2 := by
  -- Blanks, the key, blanks, the sign and blanks come first.
  refine .after _ fun _ => .after _ fun _ => .after _ fun _ => .after _ fun _ => ?_
  exact .after _ fun _ => h.bind fun v hv => .after _ fun _ => .pure hv

theorem yields_inlineTable (h : value.Yields Fitting) : (inlineTable value).Yields Fitting := by
  refine .after _ fun _ => .after _ fun _ => ?_
  refine (yields_pair h).attempt.bind fun found hfound => ?_
  cases found with
  | none =>
    have hempty : Yields (char '\x7d' >>= fun _ => pure (.braced [])) Fitting :=
      .after _ fun _ => .pure (.braced AllFitting.nil)
    exact hempty
  | some first =>
    have hmore : Yields (do char ','; pair value) fun p => Fitting p.2 :=
      .after _ fun _ => yields_pair h
    refine hmore.many.bind fun more hmore => ?_
    have hpairs : Yields (pure (first :: more)) fun pairs => ∀ p ∈ pairs, Fitting p.2 :=
      .pure (List.forall_mem_cons.mpr ⟨hfound first rfl, hmore⟩)
    refine hpairs.bind fun pairs hpairs => .after _ fun _ => ?_
    split
    · rename_i entries hfold
      refine .pure (.braced (foldlM_keeps AllFitting ?_ pairs .nil hpairs hfold))
      intro entries p next hentries hp hassign
      exact hentries.assign hp hassign
    · exact .fail

end Nested

theorem yields_value (depth : Nat) : (value depth).Yields Fitting := by
  induction depth with
  | zero => exact .after _ fun _ => .after _ fun _ => yields_scalar
  | succ depth ih =>
    refine .after _ fun next => ?_
    split
    · exact yields_arrayValue ih
    · exact yields_inlineTable ih
    · exact yields_scalar

def Line.Fitting : Line → Prop
  | .assignment _ value => Toml.Fitting value
  | _ => True

theorem yields_line : line.Yields Line.Fitting := by
  have hcontent : content.Yields Line.Fitting := by
    refine .after _ fun _ => .after _ fun next => ?_
    split
    · exact .pure trivial
    · exact .pure trivial
    · exact .pure trivial
    · exact .pure trivial
    · refine .orElse ?_ ?_
      · exact .after _ fun _ => .after _ fun _ => .after _ fun _ => .after _ fun _ =>
          .after _ fun _ => .pure trivial
      · exact .after _ fun _ => .after _ fun _ => .after _ fun _ => .after _ fun _ =>
          .after _ fun _ => .pure trivial
    · exact (yields_pair (yields_value _)).bind fun p hp => .pure hp
  exact hcontent.bind fun l hl => .after _ fun _ => .after _ fun _ => .pure hl

theorem yields_lines : lines.Yields fun ls => ∀ l ∈ ls, l.Fitting := by
  refine .after _ fun _ => yields_line.bind fun first hfirst => ?_
  have hmore : Yields (do newline; line) Line.Fitting := .after _ fun _ => yields_line
  exact hmore.many.bind fun more hmore => .pure (List.forall_mem_cons.mpr ⟨hfirst, hmore⟩)

theorem AllFitting.addLine {doc next : Document} {l : Line} (h : AllFitting doc.2)
    (hl : l.Fitting) (ha : addLine doc l = some next) : AllFitting next.2 := by
  cases l with
  | empty =>
    cases ha
    exact h
  | header path =>
    obtain ⟨entries, ho, hnext⟩ := Option.bind_eq_some_iff.mp ha
    cases hnext
    exact h.openTable ho
  | repeated path =>
    obtain ⟨entries, ho, hnext⟩ := Option.bind_eq_some_iff.mp ha
    cases hnext
    exact h.openRepeated ho
  | assignment path value =>
    obtain ⟨entries, ho, hnext⟩ := Option.bind_eq_some_iff.mp ha
    cases hnext
    exact h.assignUnder hl ho

theorem allFitting_of_parse? {text : String} {entries : Entries}
    (h : parse? text = some entries) : AllFitting entries := by
  obtain ⟨ls, hls, h⟩ := Option.bind_eq_some_iff.mp h
  obtain ⟨doc, hdoc, h⟩ := Option.bind_eq_some_iff.mp h
  cases h
  have hfit : ∀ l ∈ ls, l.Fitting := by
    unfold all? at hls
    split at hls
    · rename_i read hread
      cases hls
      exact yields_lines _ _ _ hread
    · cases hls
  exact foldlM_keeps (fun doc : Document => AllFitting doc.2)
    (fun doc l next hk hl ha => hk.addLine hl ha) ls .nil hfit hdoc

namespace Fitting

variable {toml : Toml}

theorem asSize? {size : UInt64} (h : Fitting toml) (hs : toml.asSize? = some size) :
    size.toNat < 2 ^ 63 := by
  cases h with
  | @integer n hfits =>
    simp only [fits, Bool.and_eq_true, decide_eq_true_eq] at hfits
    simp only [Toml.asSize?] at hs
    split at hs
    · cases hs
      rw [Nat.toUInt64_eq, UInt64.toNat_ofNat']
      omega
    · cases hs
  | string | float | boolean | datetime | array | table | braced | tables => cases hs

theorem fields? {names : List String} {fields : List (Option Toml)} (h : Fitting toml)
    (hf : toml.fields? names = some fields) : ∀ v, some v ∈ fields → Fitting v := by
  intro v hv
  cases h with
  | table _ _ hentries | braced hentries =>
    cases hf
    obtain ⟨name, -, hname⟩ := List.mem_map.mp hv
    exact AllFitting.lookup hentries hname
  | array hitems =>
    cases hf
    obtain ⟨i, -, hi⟩ := List.mem_map.mp hv
    exact hitems v (List.mem_of_getElem? hi)
  | tables hitems =>
    cases hf
    obtain ⟨i, -, hi⟩ := List.mem_map.mp hv
    exact hitems v (List.mem_reverse.mp (List.mem_of_getElem? hi))
  | datetime =>
    cases hf
    obtain ⟨name, -, hname⟩ := List.mem_map.mp hv
    cases hname
  | string | integer | float | boolean => cases hf

theorem fieldOr_asSize? {given size : UInt64} {field : Option Toml} (hgiven : given.toNat < 2 ^ 63)
    (h : ∀ v, some v = field → Fitting v) (hs : fieldOr Toml.asSize? given field = some size) :
    size.toNat < 2 ^ 63 := by
  cases field with
  | none =>
    cases hs
    exact hgiven
  | some v => exact (h v rfl).asSize? hs

end Fitting

end Toml

/-- No size of a cache takes more than sixty-three bits. -/
structure CacheSettings.Bounded (s : CacheSettings) : Prop where
  maxBytes : s.maxBytes.toNat < 2 ^ 63
  parsedFileBytes : s.parsedFileBytes.toNat < 2 ^ 63
  entityBytes : s.entityBytes.toNat < 2 ^ 63

theorem CacheSettings.bounded_default : ({} : CacheSettings).Bounded :=
  ⟨by decide, by decide, by decide⟩

theorem Toml.Fitting.asCache? {toml : Toml} {s : CacheSettings} (h : Toml.Fitting toml)
    (hs : toml.asCache? = some s) : s.Bounded := by
  obtain ⟨fields, hf, hs⟩ := Option.bind_eq_some_iff.mp hs
  have hfit := h.fields? hf
  split at hs
  · rename_i enabled maxBytes threshold parsedFileBytes entityBytes
    obtain ⟨enabled', -, hs⟩ := Option.bind_eq_some_iff.mp hs
    obtain ⟨maxBytes', hmax, hs⟩ := Option.bind_eq_some_iff.mp hs
    obtain ⟨threshold', -, hs⟩ := Option.bind_eq_some_iff.mp hs
    obtain ⟨parsedFileBytes', hparsed, hs⟩ := Option.bind_eq_some_iff.mp hs
    obtain ⟨entityBytes', hentity, hs⟩ := Option.bind_eq_some_iff.mp hs
    cases hs
    have hgiven := CacheSettings.bounded_default
    refine ⟨fieldOr_asSize? hgiven.maxBytes ?_ hmax,
      fieldOr_asSize? hgiven.parsedFileBytes ?_ hparsed,
      fieldOr_asSize? hgiven.entityBytes ?_ hentity⟩ <;>
    · intro v hv
      exact hfit v (by simp [hv])
  · cases hs

theorem Settings.eq_of_validate {s t : Settings} (h : s.validate = .ok t) : t = s := by
  simp only [validate] at h
  split at h
  · cases h
  · split at h
    · cases h
    · exact (Except.ok.inj h).symm

/-- A reader of documents whose integers have sixty-four bits with their sign, as the format says
of them. -/
def Toml.Ranged (read : String → Option Entries) : Prop :=
  ∀ text entries, read text = some entries → AllFitting entries

theorem Toml.ranged_parse? : Ranged parse? := fun _ _ h => allFitting_of_parse? h

theorem Settings.bounded_of_ofDocumentBy {read : String → Option Toml.Entries}
    (hr : Toml.Ranged read) {text : String} {s : Settings}
    (h : Settings.ofDocumentBy read text = .ok s) : s.cache.Bounded := by
  unfold ofDocumentBy at h
  split at h
  · cases h
  · rename_i settings hsettings
    obtain ⟨entries, hentries, hsettings⟩ := Option.bind_eq_some_iff.mp hsettings
    obtain ⟨cache, hcache, hsettings⟩ := Option.bind_eq_some_iff.mp hsettings
    obtain ⟨logging, -, hsettings⟩ := Option.bind_eq_some_iff.mp hsettings
    obtain ⟨resolve, -, hsettings⟩ := Option.bind_eq_some_iff.mp hsettings
    cases hsettings
    rw [eq_of_validate h]
    cases hl : Toml.lookup entries "cache" with
    | none =>
      rw [hl] at hcache
      cases hcache
      exact CacheSettings.bounded_default
    | some toml =>
      rw [hl] at hcache
      exact ((hr text entries hentries).lookup hl).asCache? hcache

end Exports
