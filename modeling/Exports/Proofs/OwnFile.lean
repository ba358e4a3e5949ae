import Exports.Proofs.EntityFiles
import Exports.Proofs.Index

namespace Exports

theorem Request.exists_of_inFile?_ofEntities {entries : List String} {key name : String}
    {isDefault : Bool} {es : List Entity} {id : String}
    (h : inFile? entries ⟨key, name, isDefault⟩ (.ofEntities es) = some id) :
    ∃ x ∈ es, x.file = key ∧ x.id = id := by
  rw [inFile?_eq, Index.file?_ofEntities] at h
  split at h
  · cases h
  · obtain ⟨x, hx, hid⟩ := Option.map_eq_some_iff.mp h
    obtain ⟨hmem, hfile⟩ := List.mem_filter.mp (FileEntities.mem_ofEntities (mem_of_own? hx))
    exact ⟨x, hmem, of_decide_eq_true hfile, hid⟩

namespace Roots

variable {roots : Roots} {e : Engine} {files : Files}

theorem get?_of_note {operation : Operation} {key : Extractor × Place} {root : Path}
    (h : (roots.note e files operation).get? key = some root) :
    roots.get? key = some root ∨ ∃ file, operation = .extract root file := by
  cases operation with
  | extract base file =>
    rw [get?_note_extract] at h
    split at h
    · cases h
      exact .inr ⟨file, rfl⟩
    · exact .inl h
  | _ => exact .inl h

/-- Where all results were drawn with one root, so is every extraction with that root. -/
theorem drawn_of_single {root : Path} (h : ∀ key first, roots.get? key = some first → first = root)
    (e : Engine) (files : Files) (file : Path) : roots.drawn e files root file = root := by
  unfold drawn
  split
  · cases hb : (Path.resultKey? root file).bind roots.get? with
    | none => rfl
    | some first =>
      obtain ⟨key, -, hk⟩ := Option.bind_eq_some_iff.mp hb
      exact h key first hk
  · rfl

end Roots

/-- A new engine that was asked anything, but to extract from one root only, with the files that
it was to extract and the entities that it gave. -/
inductive Surveyed (resolve : ResolveSettings) (limits : CacheLimits) (root : Path) :
    List Path → List Entity → Engine → Prop where
  | start : Surveyed resolve limits root [] [] { resolve, limits }
  | extract {all : List Path} {es : List Entity} {e : Engine}
      (h : Surveyed resolve limits root all es e) (files : Files) (file : Path) :
      Surveyed resolve limits root (file :: all) (es ++ e.extracted files root file)
        (e.perform files (.extract root file))
  | perform {all : List Path} {es : List Entity} {e : Engine}
      (h : Surveyed resolve limits root all es e) (files : Files) {operation : Operation}
      (ho : ∀ base file, operation ≠ .extract base file) :
      Surveyed resolve limits root all es (e.perform files operation)

namespace Surveyed

variable {resolve : ResolveSettings} {limits : CacheLimits} {root : Path} {all : List Path}
  {es : List Entity} {e : Engine}

theorem asked (h : Surveyed resolve limits root all es e) :
    ∃ roots, Asked resolve limits roots e ∧
      ∀ key first, roots.get? key = some first → first = root := by
  induction h with
  | start => exact ⟨{}, .start, fun key first hf => nomatch hf⟩
  | extract _ files file ih =>
    obtain ⟨roots, ha, hroots⟩ := ih
    refine ⟨_, ha.perform files (.extract root file), fun key first hf => ?_⟩
    rcases Roots.get?_of_note hf with hf | ⟨_, heq⟩
    · exact hroots key first hf
    · cases heq
      rfl
  | perform _ files ho ih =>
    obtain ⟨roots, ha, hroots⟩ := ih
    refine ⟨_, ha.perform files _, fun key first hf => ?_⟩
    rcases Roots.get?_of_note hf with hf | ⟨file, heq⟩
    · exact hroots key first hf
    · exact absurd heq (ho first file)

theorem exists_key (h : Surveyed resolve limits root all es e) (hr : root.isAbsolute = true)
    {x : Entity} (hx : x ∈ es) : ∃ f ∈ all, x.file = Path.relative root f := by
  induction h with
  | start => cases hx
  | @extract all es e h files file ih =>
    rcases List.mem_append.mp hx with hx | hx
    · obtain ⟨f, hf, hfile⟩ := ih hx
      exact ⟨f, List.mem_cons_of_mem file hf, hfile⟩
    · obtain ⟨roots, ha, hroots⟩ := h.asked
      obtain ⟨given, hgiven, hx⟩ := Engine.exists_of_mem_extracted hx
      have htold := ha.file_of_extract hgiven x hx
      rw [Roots.drawn_of_single hroots, Path.relative_absolute hr] at htold
      exact ⟨file, List.mem_cons_self, htold⟩
  | perform _ _ _ ih => exact ih hx

/-- What is found in the file of an import was extracted from that very file, or from one of which
it is the mirror image; and no other two files share a key. This is so of files whose names are
texts where they go into the key. -/
theorem inFile?_own_or_mirrored (h : Surveyed resolve limits root all es e)
    (hr : root.isAbsolute = true) (ha : ∀ f ∈ all, Path.HasTextKey root f)
    {indexed : List Entity} (hi : indexed ⊆ es) (entries : List String) {t : Path}
    (ht : Path.HasTextKey root t) (name : String) (isDefault : Bool) :
    (∀ id, Request.inFile? entries ⟨Path.relative root t, name, isDefault⟩
        (.ofEntities indexed) = some id →
      ∃ f ∈ all, Path.absolute root f = Path.absolute root t ∨ Path.Mirrors root f t ∨
        Path.Mirrors root t f) ∧
    ∀ p q, Path.HasTextKey root p → Path.HasTextKey root q →
      (Path.relative root p = Path.relative root q ↔
        Path.absolute root p = Path.absolute root q ∨ Path.Mirrors root p q ∨
          Path.Mirrors root q p) := by
  refine ⟨fun id hid => ?_, fun p q hp hq => Path.relative_eq_iff hr hp hq⟩
  obtain ⟨x, hx, hfile, -⟩ := Request.exists_of_inFile?_ofEntities hid
  obtain ⟨f, hf, hkey⟩ := h.exists_key hr (hi hx)
  exact ⟨f, hf, (Path.relative_eq_iff hr (ha f hf) ht).mp (hkey.symm.trans hfile)⟩

/-- A component below the root is found under another spelling of its path. -/
theorem inFile?_own_respelled :
    ∃ es e, Surveyed {} ⟨true, 0, 0, 0⟩ ⟨"/repo"⟩ [⟨"elsewhere/Card.vue"⟩] es e ∧
      Request.inFile? ({} : ResolveSettings).entryFiles
        ⟨Path.relative ⟨"/repo"⟩ ⟨"/repo/./elsewhere/Card.vue"⟩, "limit", false⟩
        (.ofEntities es) = some "Component:Card" ∧
      ∃ f ∈ [⟨"elsewhere/Card.vue"⟩], Path.absolute ⟨"/repo"⟩ f =
          Path.absolute ⟨"/repo"⟩ ⟨"/repo/./elsewhere/Card.vue"⟩ ∨
        Path.Mirrors ⟨"/repo"⟩ f ⟨"/repo/./elsewhere/Card.vue"⟩ ∨
        Path.Mirrors ⟨"/repo"⟩ ⟨"/repo/./elsewhere/Card.vue"⟩ f := by
  have hs : Surveyed {} ⟨true, 0, 0, 0⟩ ⟨"/repo"⟩ [⟨"elsewhere/Card.vue"⟩] _ _ :=
    .extract .start (MemoryFiles.ofCard ⟨"/repo/elsewhere/Card.vue"⟩).view ⟨"elsewhere/Card.vue"⟩
  have ht : ∀ s : String, Path.HasTextKey ⟨"/repo"⟩ ⟨s⟩ := fun s =>
    (Path.isText_encode _).hasTextKey (Path.isText_encode s)
  have hall : ∀ f ∈ [(⟨"elsewhere/Card.vue"⟩ : Path)], Path.HasTextKey ⟨"/repo"⟩ f := by
    simp [ht]
  exact ⟨_, _, hs, by decide +kernel,
    (inFile?_own_or_mirrored hs (by decide +kernel) hall (List.Subset.refl _)
      ({} : ResolveSettings).entryFiles (ht "/repo/./elsewhere/Card.vue") "limit" false).1
      "Component:Card" (by decide +kernel)⟩

/-- A component below the root is found for a path outside that mirrors it, where no file was
extracted. -/
theorem inFile?_mirrored :
    ∃ es e, Surveyed {} ⟨true, 0, 0, 0⟩ ⟨"/repo"⟩ [⟨"elsewhere/Card.vue"⟩] es e ∧
      Request.inFile? ({} : ResolveSettings).entryFiles
        ⟨Path.relative ⟨"/repo"⟩ ⟨"/elsewhere/Card.vue"⟩, "limit", false⟩
        (.ofEntities es) = some "Component:Card" ∧
      Path.absolute ⟨"/repo"⟩ ⟨"elsewhere/Card.vue"⟩ ≠
        Path.absolute ⟨"/repo"⟩ ⟨"/elsewhere/Card.vue"⟩ :=
  ⟨_, _, .extract .start (MemoryFiles.ofCard ⟨"/repo/elsewhere/Card.vue"⟩).view
    ⟨"elsewhere/Card.vue"⟩, by decide +kernel, by decide +kernel⟩

end Surveyed

end Exports
