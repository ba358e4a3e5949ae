import Exports.Proofs.Lookup

namespace Exports

structure Import where
  file : Path
  name : String
  isDefault : Bool
  deriving DecidableEq, Repr

namespace Engine

variable {files : Files} {root : Path} {e e' : Engine}

/-- The answer to an import that is the first to be asked for. -/
def answer (e : Engine) (files : Files) (root : Path) (i : Import) : Resolved :=
  (e.lookup files root i.file i.name i.isDefault).1

/-- Imports with their answers, asked for one after the other. -/
def answers (e : Engine) (files : Files) (root : Path) :
    List Import → List (Import × Resolved) × Engine
  | [] => ([], e)
  | i :: rest =>
    let (resolved, e) := e.lookup files root i.file i.name i.isDefault
    let (more, e) := e.answers files root rest
    ((i, resolved) :: more, e)

theorem answers_cons (e : Engine) (files : Files) (root : Path) (i : Import)
    (rest : List Import) :
    e.answers files root (i :: rest) =
      ((i, e.answer files root i) ::
          ((e.lookup files root i.file i.name i.isDefault).2.answers files root rest).1,
        ((e.lookup files root i.file i.name i.isDefault).2.answers files root rest).2) := by
  rw [answers]
  rfl

theorem answer_lookup (hc : files.Coherent) (hr : root.isAbsolute = true) (ht : root.IsText)
    (e : Engine) {i j : Import} (hi : i.file.IsText) (hj : j.file.IsText) :
    (e.lookup files root i.file i.name i.isDefault).2.answer files root j =
      e.answer files root j := by
  obtain ⟨hs, hf⟩ := lookup_same hc hr ht hi e i.name i.isDefault
  exact lookup_fst_congr hr ht hj hs hf j.name j.isDefault

theorem answer_answers (hc : files.Coherent) (hr : root.isAbsolute = true) (ht : root.IsText)
    (e : Engine) {imports : List Import} (hi : ∀ i ∈ imports, i.file.IsText) {j : Import}
    (hj : j.file.IsText) :
    (e.answers files root imports).2.answer files root j = e.answer files root j := by
  induction imports generalizing e with
  | nil => rfl
  | cons i rest ih =>
    rw [answers_cons, ih _ fun i hm => hi i (List.mem_cons_of_mem _ hm)]
    exact answer_lookup hc hr ht e (hi i List.mem_cons_self) hj

theorem answers_fst (hc : files.Coherent) (hr : root.isAbsolute = true) (ht : root.IsText)
    (e : Engine) {imports : List Import} (hi : ∀ i ∈ imports, i.file.IsText) :
    (e.answers files root imports).1 = imports.map fun i => (i, e.answer files root i) := by
  induction imports generalizing e with
  | nil => rfl
  | cons i rest ih =>
    have hrest : ∀ j ∈ rest, j.file.IsText := fun j hj => hi j (List.mem_cons_of_mem _ hj)
    simp only [answers_cons, ih _ hrest, List.map_cons, List.cons.injEq, true_and]
    apply List.map_congr_left
    intro j hj
    rw [answer_lookup hc hr ht e (hi i List.mem_cons_self) (hrest j hj)]

/-- An engine that was given a new index and still holds what a lookup found in the old one. -/
def reindexed : Engine :=
  let card (kind : Kind) : Entity :=
    { id := kind.idFor "card", kind, file := "src/Card.ts", span := ⟨1, 1⟩, rawName := "card" }
  let old := ({ resolve := {}, limits := ⟨true, 0, 0, 0⟩ } : Engine).setIndex [card .binding]
  (old.lookup ({} : MemoryFiles).view ⟨"/repo"⟩ ⟨"src/Panel.ts"⟩ "card" false).2.setIndex
    [card .function]

end Engine

end Exports
