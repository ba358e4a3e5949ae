import Std.Data.HashMap
import Exports.Script.Grammar.Order
import Exports.Script.Grammar.Production

namespace Exports.Script

/-- A set of lexemes: bit `n` stands for the lexeme of number `n`. -/
abbrev LexemeSet := Nat

/-- Phrases in the order of their enumeration, then lists in the order of their numbers. -/
def Symbol.rank : Symbol → Nat
  | .lexeme _ => 0
  | .phrase p => p.ctorIdx
  | .list n => Phrase.interfaceBody.ctorIdx + 1 + n

/-- A production by numbers of symbols. -/
structure Clause where
  production : Production
  result : Nat
  symbols : Array Nat

instance : Inhabited Clause := ⟨⟨⟨.list 0, [], 0⟩, 0, #[]⟩⟩

namespace Clause

def length (c : Clause) : Nat := c.symbols.size

/-- The step that was taken last when `dot` symbols have been read. -/
def stepBefore? (c : Clause) (dot : Nat) : Option Step :=
  if dot = 0 then none else c.production.steps[dot - 1]?

end Clause

/-- A production that may begin where some phrase is expected. -/
structure Corner where
  clause : Nat
  /-- Lexemes that may follow it inside the phrase. -/
  follow : LexemeSet
  /-- Whether it may also be followed by what follows the phrase. -/
  isLast : Bool

structure Table where
  lexemes : Array Lexeme
  clauses : Array Clause
  /-- By symbol: the lexemes that it may start with. -/
  first : Array LexemeSet
  /-- By phrase or list, and by the first symbol of a production: what may begin there. -/
  corners : Array (Array (Array Corner))
  orders : List (List Rival)
  /-- The clause of a whole source. -/
  whole : Nat
  /-- The clause of a source with nothing in it. -/
  nothing : Nat
  /-- The number of a sign that may stand wherever an operand has ended. -/
  operator : Nat
  /-- Words that look like names. -/
  words : Std.HashMap String Nat
  /-- All other signs, longer ones first. -/
  signs : List (List Char × Nat)

namespace Table

/-- Applies a step until nothing changes, at most `n` times. -/
def settle {α : Type} [DecidableEq α] (step : α → α) : Nat → α → α
  | 0, a => a
  | n + 1, a =>
    let b := step a
    if a = b then a else settle step n b

def firstOf (clauses : Array Clause) (lexemeCount symbolCount : Nat) : Array LexemeSet :=
  let start := (Array.range symbolCount).map fun s => if s < lexemeCount then 1 <<< s else 0
  let step := fun (first : Array LexemeSet) => clauses.foldl (fun first c =>
    let head := first.getD (c.symbols.getD 0 0) 0
    first.modify c.result (· ||| head)) first
  settle step symbolCount start

/-- A phrase that another one may begin with. -/
structure Edge where
  target : Nat
  follow : LexemeSet
  /-- Whether it may also be the whole of it. -/
  isWhole : Bool

/-- What is known of the phrases that may begin where one phrase is expected. -/
structure Reach where
  seen : Array Bool
  follow : Array LexemeSet
  isLast : Array Bool

/-- Takes in one edge, and tells whether that brought anything new. -/
def Reach.take (r : Reach) (source : Nat) (e : Edge) : Bool × Reach :=
  let follow := r.follow.getD e.target 0
  let isLast := r.isLast.getD e.target false
  let follow' := follow ||| e.follow ||| if e.isWhole then r.follow.getD source 0 else 0
  let isLast' := isLast || (e.isWhole && r.isLast.getD source false)
  if r.seen.getD e.target false && follow = follow' && isLast = isLast' then (false, r)
  else (true, {
    seen := r.seen.setIfInBounds e.target true
    follow := r.follow.setIfInBounds e.target follow'
    isLast := r.isLast.setIfInBounds e.target isLast' })

/-- Follows edges from the phrases on the list until nothing new is found. -/
def Reach.close (edges : Array (List Edge)) : Nat → List Nat → Reach → Reach
  | 0, _, r => r
  | _, [], r => r
  | n + 1, source :: rest, r =>
    let (r, rest) := (edges.getD source []).foldl (fun (r, rest) e =>
      match r.take source e with
      | (true, r) => (r, e.target :: rest)
      | (false, r) => (r, rest)) (r, rest)
    close edges n rest r

/-- Edges to the same phrase count as one. -/
def mergeEdge (es : List Edge) (e : Edge) : List Edge :=
  match es with
  | [] => [e]
  | old :: rest =>
    if old.target = e.target then
      ⟨e.target, old.follow ||| e.follow, old.isWhole || e.isWhole⟩ :: rest
    else old :: mergeEdge rest e

def edgesOf (clauses : Array Clause) (first : Array LexemeSet) (lexemeCount symbolCount : Nat) :
    Array (List Edge) :=
  clauses.foldl (fun edges c =>
    let head := c.symbols.getD 0 0
    if head < lexemeCount then edges
    else
      let edge : Edge := {
        target := head
        follow := (c.symbols[1]?.map fun s => first.getD s 0).getD 0
        isWhole := c.length = 1 }
      edges.modify c.result (mergeEdge · edge)) (Array.replicate symbolCount [])

def cornersOf (clauses : Array Clause) (first : Array LexemeSet) (lexemeCount symbolCount : Nat) :
    Array (Array (Array Corner)) :=
  let edges := edgesOf clauses first lexemeCount symbolCount
  let byResult := (Array.range clauses.size).foldl (fun found n =>
    found.modify (clauses.getD n default).result (n :: ·)) (Array.replicate symbolCount [])
  (Array.range (symbolCount - lexemeCount)).map fun k =>
    let source := k + lexemeCount
    let none : Reach := {
      seen := Array.replicate symbolCount false
      follow := Array.replicate symbolCount 0
      isLast := Array.replicate symbolCount false }
    let start := { none with
      seen := none.seen.setIfInBounds source true
      isLast := none.isLast.setIfInBounds source true }
    let reach := Reach.close edges (symbolCount * symbolCount) [source] start
    (Array.range symbolCount).foldl (fun found s =>
      if !reach.seen.getD s false then found
      else (byResult.getD s []).foldl (fun found n =>
        let corner := ⟨n, reach.follow.getD s 0, reach.isLast.getD s false⟩
        found.modify ((clauses.getD n default).symbols.getD 0 0) (·.push corner)) found)
      (Array.replicate symbolCount #[])

/-- Whether a word of the grammar is read like a name. -/
def isNameLike (text : String) : Bool := text.all fun c => c.isAlphanum || c = '_'

/-- Words of the grammar in the order in which productions use them. -/
def spellings (productions : List Production) : List String :=
  (productions.flatMap fun p => p.steps.filterMap fun s =>
    match s.symbol with
    | .lexeme (.word text) => some text
    | _ => none).eraseDups

def ofGrammar (g : Grammar) : Table :=
  let productions := Production.ofGrammar g
  let texts := spellings productions
  let lexemeCount := Lexeme.patterns.length + texts.length
  let ranks := (productions.map fun p => p.result.rank).eraseDups.mergeSort
  let symbolCount := lexemeCount + ranks.length
  let wordNumbers : Std.HashMap String Nat :=
    .ofList (texts.zipIdx Lexeme.patterns.length)
  let rankNumbers : Std.HashMap Nat Nat := .ofList (ranks.zipIdx lexemeCount)
  let numberOf : Symbol → Nat
    | .lexeme (.word text) => wordNumbers.getD text 0
    | .lexeme l => l.patternNumber
    | s => rankNumbers.getD s.rank 0
  let clauses := (productions.map fun p =>
    (⟨p, numberOf p.result, (p.steps.map (numberOf ·.symbol)).toArray⟩ : Clause)).toArray
  let first := firstOf clauses lexemeCount symbolCount
  let program := numberOf (.phrase .program)
  { lexemes := (Lexeme.patterns ++ texts.map Lexeme.word).toArray
    clauses := clauses ++ #[
      ⟨⟨.phrase .program, [], 0⟩, symbolCount, #[program]⟩,
      ⟨⟨.phrase .program, [], 0⟩, program, #[]⟩]
    first
    corners := cornersOf clauses first lexemeCount symbolCount
    orders := g.orders
    whole := clauses.size
    nothing := clauses.size + 1
    operator := wordNumbers.getD "||" 0
    words := wordNumbers.filter fun text _ => isNameLike text
    signs := ((texts.filter (!isNameLike ·)).map fun text =>
      (text.toList, wordNumbers.getD text 0)).mergeSort fun a b => a.1.length ≥ b.1.length }

/-- The table of the sources that have no types. -/
def plain : Table := ofGrammar (.ofDialect ⟨false, true⟩)

def typed : Table := ofGrammar (.ofDialect ⟨true, false⟩)

def typedMarkup : Table := ofGrammar (.ofDialect ⟨true, true⟩)

def ofDialect : Dialect → Table
  | ⟨false, _⟩ => plain
  | ⟨true, false⟩ => typed
  | ⟨true, true⟩ => typedMarkup

variable (t : Table)

def lexemeCount : Nat := t.lexemes.size

def isLexeme (symbol : Nat) : Bool := symbol < t.lexemeCount

def clause (n : Nat) : Clause := t.clauses.getD n default

def firstOfSymbol (symbol : Nat) : LexemeSet := t.first.getD symbol 0

def cornersAt (phrase symbol : Nat) : Array Corner :=
  (t.corners.getD (phrase - t.lexemeCount) #[]).getD symbol #[]

end Table

end Exports.Script
