import Exports.Script.Walk

namespace Exports.Script

namespace Tree

/-- The node that numbers of children lead to. -/
def nodeAt? : Tree → List Nat → Option Tree
  | t, [] => some t
  | t, i :: address => t.children[i]?.bind (nodeAt? · address)

theorem nodeAt?_append (t : Tree) (front back : List Nat) :
    t.nodeAt? (front ++ back) = (t.nodeAt? front).bind (nodeAt? · back) := by
  induction front generalizing t with
  | nil => rfl
  | cons i front ih =>
    simp only [List.cons_append, nodeAt?]
    cases t.children[i]? with
    | none => rfl
    | some s => simp [ih]

mutual

/-- The nodes with their addresses, in preorder. -/
def addressed : Tree → List (List Nat × Tree)
  | node t r s e ts => ([], node t r s e ts) :: addressedFrom 0 ts

def addressedFrom (number : Nat) : List Tree → List (List Nat × Tree)
  | [] => []
  | t :: ts => t.addressed.map (fun x => (number :: x.1, x.2)) ++ addressedFrom (number + 1) ts

end

theorem addressed_eq (t : Tree) : t.addressed = ([], t) :: addressedFrom 0 t.children := by
  cases t
  rfl

mutual

theorem map_snd_addressed : ∀ t : Tree, t.addressed.map Prod.snd = t.preorder
  | node t r s e ts => by simp [addressed, preorder, map_snd_addressedFrom 0 ts]

theorem map_snd_addressedFrom (number : Nat) :
    ∀ ts : List Tree, (addressedFrom number ts).map Prod.snd = preorderAll ts
  | [] => rfl
  | t :: ts => by
    simp [addressedFrom, preorderAll, Function.comp_def, ← map_snd_addressed t,
      map_snd_addressedFrom (number + 1) ts]

end

theorem mem_addressedFrom {ts : List Tree} {number : Nat} {address : List Nat} {n : Tree} :
    (address, n) ∈ addressedFrom number ts ↔
      ∃ i rest t, address = (number + i) :: rest ∧ ts[i]? = some t ∧ (rest, n) ∈ t.addressed := by
  induction ts generalizing number with
  | nil => simp [addressedFrom]
  | cons t ts ih =>
    have hnumber : ∀ i, number + 1 + i = number + (i + 1) := Nat.add_right_comm number 1
    simp only [addressedFrom, List.mem_append, List.mem_map, Prod.mk.injEq, Prod.exists, ih,
      hnumber]
    constructor
    · rintro (⟨rest, m, hm, rfl, rfl⟩ | ⟨i, rest, s, rfl, hs, hm⟩)
      · exact ⟨0, rest, t, rfl, rfl, hm⟩
      · exact ⟨i + 1, rest, s, rfl, hs, hm⟩
    · rintro ⟨i, rest, s, rfl, hs, hm⟩
      cases i with
      | zero =>
        cases hs
        exact .inl ⟨rest, n, hm, rfl, rfl⟩
      | succ i => exact .inr ⟨i, rest, s, rfl, hs, hm⟩

theorem mem_addressed {t n : Tree} {address : List Nat} :
    (address, n) ∈ t.addressed ↔ t.nodeAt? address = some n := by
  induction address generalizing t with
  | nil =>
    rw [addressed_eq, List.mem_cons, mem_addressedFrom]
    simp [nodeAt?, eq_comm]
  | cons i rest ih =>
    have hchild : (i :: rest, n) ∈ addressedFrom 0 t.children ↔
        ∃ s, t.children[i]? = some s ∧ (rest, n) ∈ s.addressed := by
      rw [mem_addressedFrom]
      constructor
      · rintro ⟨j, more, s, h, hs, hm⟩
        obtain ⟨rfl, rfl⟩ : i = j ∧ rest = more := by simpa using h
        exact ⟨s, hs, hm⟩
      · rintro ⟨s, hs, hm⟩
        exact ⟨i, rest, s, by simp, hs, hm⟩
    rw [addressed_eq, List.mem_cons, hchild]
    simp [nodeAt?, Option.bind_eq_some_iff, ih]

mutual

/-- A node comes before those below it, and before those to the right of it. -/
theorem addressed_sorted : ∀ t : Tree, t.addressed.Pairwise fun x y => x.1 < y.1
  | node t r s e ts => by
    rw [addressed, List.pairwise_cons]
    refine ⟨?_, addressedFrom_sorted 0 ts⟩
    rintro ⟨address, n⟩ hn
    obtain ⟨i, rest, _, rfl, _, _⟩ := mem_addressedFrom.mp hn
    exact List.nil_lt_cons _ _

theorem addressedFrom_sorted (number : Nat) :
    ∀ ts : List Tree, (addressedFrom number ts).Pairwise fun x y => x.1 < y.1
  | [] => List.Pairwise.nil
  | t :: ts => by
    rw [addressedFrom, List.pairwise_append, List.pairwise_map]
    refine ⟨?_, addressedFrom_sorted (number + 1) ts, ?_⟩
    · apply (addressed_sorted t).imp
      intro x y hxy
      simpa using hxy
    · rintro x hx ⟨address, n⟩ hn
      obtain ⟨y, hy, rfl⟩ := List.mem_map.mp hx
      obtain ⟨i, rest, _, rfl, _, _⟩ := mem_addressedFrom.mp hn
      rw [List.cons_lt_cons_iff]
      exact .inl (by omega)

end

end Tree

namespace Cursor

/-- The address of a node below the start, from the nodes above it. A child has the number of the
children that do not follow it. -/
def addressUnder : List (Tree × List Tree) → List Nat
  | [] => []
  | (parent, later) :: above =>
    addressUnder above ++ [parent.children.length - (later.length + 1)]

def address (c : Cursor) : List Nat := addressUnder c.above

/-- A walk from a cursor to its end: the rounds that it takes, and where it meets nodes. -/
inductive Ends : Nat → Bool → Cursor → List Cursor → Prop where
  | last {done : Bool} {c : Cursor} (stays : c.next? done = none) : Ends 1 done c (c.met done)
  | round {rounds : Nat} {done flag : Bool} {c c' : Cursor} {rest : List Cursor}
      (goes : c.next? done = some (flag, c')) (ends : Ends rounds flag c' rest) :
      Ends (rounds + 1) done c (c.met done ++ rest)

theorem visit_of_some {done flag : Bool} {c c' : Cursor} (h : c.next? done = some (flag, c')) :
    visit done c = c.met done ++ visit flag c' := by
  rw [visit]
  split
  case h_1 hnext =>
    cases hnext.symm.trans h
    rfl
  case h_2 hnext => cases hnext.symm.trans h

theorem visit_of_none {done : Bool} {c : Cursor} (h : c.next? done = none) :
    visit done c = c.met done := by
  rw [visit]
  split
  case h_1 hnext => cases hnext.symm.trans h
  case h_2 => rfl

/-- From wherever a walk goes on, it comes to its end. -/
theorem ends_visit (done : Bool) (c : Cursor) :
    ∃ rounds ≤ c.roundsLeft done, Ends rounds done c (visit done c) := by
  fun_induction visit done c with
  | case1 done c flag c' h hlt ih =>
    obtain ⟨rounds, hle, hends⟩ := ih
    exact ⟨rounds + 1, by omega, .round h hends⟩
  | case2 done c h =>
    exact ⟨1, Nat.zero_lt_of_lt (roundsLeft_gt done c), .last h⟩

section

variable (t parent : Tree) (above : List (Tree × List Tree))

theorem visit_top : visit true ⟨t, []⟩ = [] := visit_of_none rfl

theorem visit_up : visit true ⟨t, (parent, []) :: above⟩ = visit true ⟨parent, above⟩ :=
  visit_of_some rfl

theorem visit_beside (s : Tree) (later : List Tree) :
    visit true ⟨t, (parent, s :: later) :: above⟩ = visit false ⟨s, (parent, later) :: above⟩ :=
  visit_of_some rfl

/-- After a node, a walk goes on as before the first of its children. -/
theorem visit_down :
    visit false ⟨t, above⟩ = ⟨t, above⟩ :: visit true ⟨t, (t, t.children) :: above⟩ := by
  cases hc : t.children with
  | nil =>
    -- Without children, the cursor leaves the node as if it had come up to it.
    have hnext : next? false ⟨t, above⟩ = next? true ⟨t, above⟩ := by
      simp [next?, firstChild?, hc]
    rw [visit_up]
    cases h : next? true ⟨t, above⟩ with
    | none =>
      rw [visit_of_none h, visit_of_none (hnext.trans h)]
      rfl
    | some round =>
      rw [visit_of_some h, visit_of_some (hnext.trans h)]
      rfl
  | cons s later =>
    have hnext : next? false ⟨t, above⟩ = some (false, ⟨s, (t, later) :: above⟩) := by
      simp [next?, firstChild?, hc]
    rw [visit_of_some hnext, visit_beside]
    rfl

end

def entry (c : Cursor) : List Nat × Tree := (c.address, c.focus)

/-- A node with its address from a focus, under the address from the start. -/
def under (above : List (Tree × List Tree)) (x : List Nat × Tree) : List Nat × Tree :=
  (addressUnder above ++ x.1, x.2)

mutual

/-- A walk meets the nodes of the focus in preorder, and goes on as if it had come up to it. -/
theorem map_entry_visit : ∀ (t : Tree) (above : List (Tree × List Tree)),
    (visit false ⟨t, above⟩).map entry =
      t.addressed.map (under above) ++ (visit true ⟨t, above⟩).map entry
  | .node tag role start stop ts, above => by
    let t : Tree := .node tag role start stop ts
    have hself : entry ⟨t, above⟩ = under above ([], t) := by
      simp [entry, under, address]
    have hbelow := map_entry_visit_later ts t t above (Nat.le_refl _)
    have hfirst : t.children.length - ts.length = 0 := Nat.sub_self _
    rw [visit_down, List.map_cons, Tree.addressed_eq, List.map_cons, hself, List.cons_append]
    rw [hfirst] at hbelow
    exact congrArg _ hbelow

theorem map_entry_visit_later : ∀ (later : List Tree) (t parent : Tree)
    (above : List (Tree × List Tree)), later.length ≤ parent.children.length →
    (visit true ⟨t, (parent, later) :: above⟩).map entry =
      (Tree.addressedFrom (parent.children.length - later.length) later).map (under above) ++
        (visit true ⟨parent, above⟩).map entry
  | [], t, parent, above, _ => by simp [visit_up, Tree.addressedFrom]
  | s :: later, t, parent, above, h => by
    rw [List.length_cons] at h
    have hnumber : parent.children.length - (later.length + 1) + 1 =
        parent.children.length - later.length := by omega
    have hunder : ∀ x, under ((parent, later) :: above) x =
        under above ((parent.children.length - (later.length + 1)) :: x.1, x.2) := by
      simp [under, addressUnder]
    have hlater := map_entry_visit_later later s parent above (by omega)
    rw [visit_beside, map_entry_visit s, hlater, Tree.addressedFrom, List.length_cons, hnumber,
      List.map_append, List.map_map, List.append_assoc]
    congr 2
    funext x
    exact hunder x

end

/-- From its start on, a walk meets all nodes in preorder, with their addresses. -/
theorem map_entry_stops (t : Tree) : t.stops.map entry = t.addressed := by
  have hstart : under [] = id := rfl
  have hvisit := map_entry_visit t []
  rw [visit_top, hstart, List.map_id, List.map_nil, List.append_nil] at hvisit
  exact hvisit

end Cursor

namespace Tree

theorem walk_eq_preorder (t : Tree) : t.walk = t.preorder := by
  rw [← map_snd_addressed, ← Cursor.map_entry_stops, List.map_map]
  rfl

theorem stops_sorted (t : Tree) : t.stops.Pairwise fun c d => c.address < d.address := by
  have hsorted := t.addressed_sorted
  rw [← Cursor.map_entry_stops, List.pairwise_map] at hsorted
  exact hsorted

theorem exists_stop_iff {t n : Tree} {address : List Nat} :
    (∃ c ∈ t.stops, c.address = address ∧ c.focus = n) ↔ t.nodeAt? address = some n := by
  rw [← mem_addressed, ← Cursor.map_entry_stops, List.mem_map]
  simp [Cursor.entry]

theorem mem_walk_iff {t n : Tree} : n ∈ t.walk ↔ ∃ address, t.nodeAt? address = some n := by
  rw [walk_eq_preorder, ← map_snd_addressed]
  simp [mem_addressed]

section

variable {root t : Tree} {top : List Nat}

/-- The nodes of a node are those of the root whose addresses begin with the address of the node. -/
theorem nodeAt?_under_iff (h : root.nodeAt? top = some t) {address : List Nat} {n : Tree} :
    top <+: address ∧ root.nodeAt? address = some n ↔
      ∃ rest, top ++ rest = address ∧ t.nodeAt? rest = some n := by
  constructor
  · rintro ⟨⟨rest, rfl⟩, hn⟩
    rw [nodeAt?_append, h] at hn
    exact ⟨rest, rfl, hn⟩
  · rintro ⟨rest, rfl, hn⟩
    refine ⟨List.prefix_append top rest, ?_⟩
    rw [nodeAt?_append, h]
    exact hn

theorem contains_iff (h : root.nodeAt? top = some t) (tags : List Tag) :
    t.contains tags = true ↔
      ∃ address n, top <+: address ∧ root.nodeAt? address = some n ∧ n.tag ∈ tags := by
  rw [contains, List.any_eq_true]
  constructor
  · rintro ⟨n, hn, htag⟩
    obtain ⟨rest, hrest⟩ := mem_walk_iff.mp hn
    obtain ⟨hunder, hroot⟩ := (nodeAt?_under_iff h).mpr ⟨rest, rfl, hrest⟩
    exact ⟨top ++ rest, n, hunder, hroot, by simpa using htag⟩
  · rintro ⟨address, n, hunder, hroot, htag⟩
    obtain ⟨rest, -, hrest⟩ := (nodeAt?_under_iff h).mp ⟨hunder, hroot⟩
    exact ⟨n, mem_walk_iff.mpr ⟨rest, hrest⟩, by simpa using htag⟩

/-- A walk of a node of a tree comes to its end. It meets the nodes of the tree whose addresses
begin with the address of the node and no others, each of them once and in the order of their
addresses, which is preorder. So the node contains a tag exactly if it or a node below it has the
tag, and it builds markup exactly if it or a node below it is an element. -/
theorem walk_meets_subtree (h : root.nodeAt? top = some t) :
    (∃ rounds ≤ 2 * t.size, Cursor.Ends rounds false (.ofTree t) t.stops) ∧
    (t.stops.map fun c => top ++ c.address).Pairwise (· < ·) ∧
    (∀ address n, (∃ c ∈ t.stops, top ++ c.address = address ∧ c.focus = n) ↔
      top <+: address ∧ root.nodeAt? address = some n) ∧
    t.walk = t.preorder ∧
    (∀ tags, t.contains tags = true ↔
      ∃ address n, top <+: address ∧ root.nodeAt? address = some n ∧ n.tag ∈ tags) ∧
    (t.buildsMarkup = true ↔
      ∃ address n, top <+: address ∧ root.nodeAt? address = some n ∧
        (n.tag = .phrase .markupElement ∨ n.tag = .phrase .markupEmpty)) := by
  refine ⟨Cursor.ends_visit false (.ofTree t), ?_, fun address n => ?_, t.walk_eq_preorder,
    contains_iff h, ?_⟩
  · rw [List.pairwise_map]
    exact t.stops_sorted.imp List.append_left_lt
  · rw [nodeAt?_under_iff h]
    constructor
    · rintro ⟨c, hc, haddress, hn⟩
      exact ⟨c.address, haddress, exists_stop_iff.mp ⟨c, hc, rfl, hn⟩⟩
    · rintro ⟨rest, haddress, hrest⟩
      obtain ⟨c, hc, rfl, hn⟩ := exists_stop_iff.mpr hrest
      exact ⟨c, hc, haddress, hn⟩
  · rw [buildsMarkup, contains_iff h]
    simp

end

/-- The first of two functions. The number that the second one returns is not met. -/
theorem walk_meets_first_function :
    let function (offset row : Nat) : Tree :=
      .node (.phrase .functionDeclaration) none ⟨offset, row⟩ ⟨offset + 26, row⟩
        [.node (.phrase .block) (some .body) ⟨offset + 13, row⟩ ⟨offset + 26, row⟩
          [.node (.phrase .returnStatement) none ⟨offset + 15, row⟩ ⟨offset + 24, row⟩
            [.node (.lexeme .number) none ⟨offset + 22, row⟩ ⟨offset + 23, row⟩ []]]]
    let first := function 0 0
    let root : Tree :=
      .node (.phrase .program) none ⟨0, 0⟩ ⟨53, 1⟩ [first, function 27 1]
    root.nodeAt? [0] = some first ∧
      (∃ rounds ≤ 8, Cursor.Ends rounds false (.ofTree first) first.stops) ∧
      (first.stops.map fun c => [0] ++ c.address).Pairwise (· < ·) ∧
      (∀ address n, (∃ c ∈ first.stops, [0] ++ c.address = address ∧ c.focus = n) ↔
        [0] <+: address ∧ root.nodeAt? address = some n) ∧
      first.walk.map tag =
        [.phrase .functionDeclaration, .phrase .block, .phrase .returnStatement,
          .lexeme .number] ∧
      first.contains [.lexeme .number] = true ∧ first.buildsMarkup = false := by
  intro function first root
  have hfirst : root.nodeAt? [0] = some first := rfl
  obtain ⟨hends, hsorted, hmet, hwalk, hcontains, -⟩ := walk_meets_subtree hfirst
  refine ⟨hfirst, hends, hsorted, hmet, ?_, ?_, ?_⟩
  · rw [hwalk]
    rfl
  · rw [hcontains]
    exact ⟨[0, 0, 0, 0], _, ⟨[0, 0, 0], rfl⟩, rfl, by decide⟩
  · rw [buildsMarkup, contains, hwalk]
    rfl

end Tree

end Exports.Script
