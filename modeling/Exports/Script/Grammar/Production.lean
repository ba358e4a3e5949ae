import Exports.Script.Grammar.Rule

namespace Exports.Script

inductive Symbol where
  | lexeme (l : Lexeme)
  | phrase (p : Phrase)
  /-- A repetition, by its number. -/
  | list (n : Nat)
  deriving DecidableEq, Repr

/-- One symbol of a production, with the strength that holds it to what follows, and with what
its node is in the tree. -/
structure Step where
  symbol : Symbol
  strength : Strength
  side : Option Side
  tag : Option Tag
  role : Option Role
  deriving DecidableEq, Repr

/-- The right side of a production. -/
structure Draft where
  steps : List Step
  weight : Int
  deriving DecidableEq, Repr

namespace Draft

def empty : Draft := ⟨[], 0⟩

/-- The weight that is farther from zero counts for the whole. -/
def heavier (a b : Int) : Int := if a.natAbs < b.natAbs then b else a

def append (a b : Draft) : Draft := ⟨a.steps ++ b.steps, heavier a.weight b.weight⟩

/-- What surrounds a part of a rule. -/
structure Context where
  strength : Strength := .unset
  side : Option Side := none
  tag : Option Tag := none
  role : Option Role := none
  /-- Whether the part ends the rule. -/
  atEnd : Bool := true

/-- The last step of a part belongs to what follows the part. -/
def release (context : Context) (side : Option Side) (d : Draft) : Draft :=
  match d.steps.reverse with
  | [] => d
  | last :: before =>
    let last := { last with
      strength := context.strength
      side := if side.isSome then context.side else last.side }
    { d with steps := (last :: before).reverse }

def ofSymbol (context : Context) (symbol : Symbol) : Draft :=
  ⟨[⟨symbol, context.strength, context.side, context.tag, context.role⟩], 0⟩

/-- Drafts of a repeated part, one entry a list symbol. -/
abbrev Lists := Array (List Draft)

/-- The list symbol of a repeated part. -/
def listSymbol (parts : List Draft) (lists : Lists) : Symbol × Lists :=
  match lists.findIdx? (· = parts) with
  | some n => (.list n, lists)
  | none => (.list lists.size, lists.push parts)

mutual

/-- All drafts of a rule. Two choices that come to the same draft give it once. -/
def ofRule (context : Context) : Rule → Lists → List Draft × Lists
  | .lexeme l, lists => ([ofSymbol context (.lexeme l)], lists)
  | .phrase p, lists => ([ofSymbol context (.phrase p)], lists)
  | .sequence parts, lists => ofSequence context parts lists
  | .choice options, lists => ofChoice context options lists
  | .several r, lists =>
    let (parts, lists) := ofRule {} r lists
    let (symbol, lists) := listSymbol parts lists
    ([ofSymbol context symbol], lists)
  | .role role r, lists => ofRule { context with role := some role } r lists
  | .tagged p r, lists => ofRule { context with tag := some (.phrase p) } r lists
  | .asIdentifier r, lists =>
    ofRule { context with tag := some (.lexeme .identifier) } r lists
  | .strong s side r, lists =>
    let inner := { context with strength := s, side := side.or context.side }
    let (drafts, lists) := ofRule inner r lists
    (if context.atEnd then drafts else drafts.map (release context side), lists)
  | .weighted w r, lists =>
    let (drafts, lists) := ofRule context r lists
    (drafts.map fun d => { d with weight := heavier w d.weight }, lists)

def ofSequence (context : Context) : List Rule → Lists → List Draft × Lists
  | [], lists => ([empty], lists)
  | r :: rest, lists =>
    let (heads, lists) :=
      ofRule { context with atEnd := context.atEnd && rest.isEmpty } r lists
    let (tails, lists) := ofSequence context rest lists
    (heads.flatMap fun a => tails.map (append a), lists)

def ofChoice (context : Context) : List Rule → Lists → List Draft × Lists
  | [], lists => ([], lists)
  | r :: rest, lists =>
    let (heads, lists) := ofRule context r lists
    let (tails, lists) := ofChoice context rest lists
    (heads.filter (!tails.contains ·) ++ tails, lists)

end

end Draft

structure Production where
  result : Symbol
  steps : List Step
  weight : Int
  deriving Repr

namespace Production

def ofDraft (result : Symbol) (d : Draft) : Production := ⟨result, d.steps, d.weight⟩

/-- A list is a part, or a shorter list with one more part. -/
def ofList (n : Nat) (parts : List Draft) : List Production :=
  parts.flatMap fun d => [
    ofDraft (.list n) d,
    ofDraft (.list n) ((Draft.ofSymbol {} (.list n)).append d)]

/-- Productions of all rules, then those of the lists in them. Only a source may be empty, so
productions without steps are left out. -/
def ofGrammar (g : Grammar) : List Production :=
  let (ofRules, lists) := g.rules.foldl (fun (done, lists) (p, r) =>
    let (drafts, lists) := Draft.ofRule {} r lists
    (done ++ drafts.map (ofDraft (.phrase p)), lists)) ([], #[])
  let ofLists := (lists.toList.zipIdx).flatMap fun (parts, n) => ofList n parts
  (ofRules ++ ofLists).filter fun p => !p.steps.isEmpty

end Production

end Exports.Script
