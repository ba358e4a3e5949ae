import Exports.Script.Machine

namespace Exports.Script

namespace Reading

/-- What a step of a clause says about the node of its part. -/
structure Dress where
  tag : Option Tag := none
  role : Option Role := none

def Dress.ofStep (s : Step) : Dress := ⟨s.tag, s.role⟩

/-- A lexeme has a node unless it takes up no room. -/
def leafTrees (l : Lexeme) (d : Dress) (start stop : Mark) : List Tree :=
  match l with
  | .lineEnd | .signatureEnd => []
  | _ => [.node (d.tag.getD (.lexeme l)) d.role start stop []]

/-- The tag of a phrase's own node. -/
def tagOf? (d : Dress) (result : Symbol) : Option Tag :=
  match d.tag, result with
  | some tag, _ => some tag
  | none, .phrase p => if p.isHidden then none else some (.phrase p)
  | none, _ => none

/-- A part without a role of its own plays that of the group it is in. -/
def withRole (role : Option Role) (t : Tree) : Tree :=
  match t.role, role with
  | none, some r => t.withRole r
  | _, _ => t

mutual

def trees (t : Table) (d : Dress) : Reading → List Tree
  | leaf l _ start stop => leafTrees (t.lexemes.getD l .finish) d start stop
  | branch n _ _ start stop parts =>
    let production := (t.clause n).production
    let children := treesOf t production.steps parts
    match tagOf? d production.result with
    | some tag => [.node tag d.role start stop children]
    | none => children.map (withRole d.role)

/-- Nodes of the parts of a clause. Extra lexemes take up none of its steps. -/
def treesOf (t : Table) : List Step → List Reading → List Tree
  | _, [] => []
  | steps, r :: rest =>
    if r.isExtra then trees t {} r ++ treesOf t steps rest
    else match steps with
      | [] => trees t {} r ++ treesOf t [] rest
      | s :: steps => trees t (.ofStep s) r ++ treesOf t steps rest

end

end Reading

/-- The tree of a source, as an incremental parser from outside gives it. What the grammar has no
reading for is taken here as a source with nothing in it, where that parser recovers. What is proved
of declarations and engines holds of any trees. -/
def parse (d : Dialect) (source : List Char) : Tree :=
  let parts := if source.isEmpty then [] else (readings? d source).getD []
  let stop := (Place.ofSource source).advance source.length
  .node (.phrase .program) none ⟨0, 0⟩ stop.mark
    (parts.flatMap (Reading.trees (.ofDialect d) {}))

end Exports.Script
