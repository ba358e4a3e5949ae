namespace Exports.Text

/-- The pieces between separators. A text without separator is its own only piece. -/
def pieces {α : Type} [DecidableEq α] (sep : α) : List α → List (List α)
  | [] => [[]]
  | c :: cs =>
    if c = sep then [] :: pieces sep cs
    else match pieces sep cs with
      | [] => [[c]]
      | p :: ps => (c :: p) :: ps

def split (sep : Char) (s : String) : List String :=
  (pieces sep s.toList).map String.ofList

/-- The piece after the last separator, the whole text when there is none. -/
def lastPiece (sep : Char) (s : String) : String :=
  (split sep s).getLastD s

/-- What stands before and after the first separator. -/
def cutFirst (sep : Char) : List Char → Option (List Char × List Char)
  | [] => none
  | c :: cs =>
    if c = sep then some ([], cs)
    else (cutFirst sep cs).map fun (a, b) => (c :: a, b)

/-- What stands before the last separator. -/
def beforeLast {α : Type} [DecidableEq α] (sep : α) : List α → Option (List α)
  | [] => none
  | c :: cs =>
    match beforeLast sep cs with
    | some a => some (c :: a)
    | none => if c = sep then some [] else none

/-- Whether `needle` stands somewhere in the text. -/
def occursIn (needle : List Char) : List Char → Bool
  | [] => needle.isEmpty
  | c :: cs => needle.isPrefixOf (c :: cs) || occursIn needle cs

def hasPart (s part : String) : Bool := occursIn part.toList s.toList

def endsIn (s tail : String) : Bool := tail.toList.isSuffixOf s.toList

/-- What stands before the first `needle`, and what follows it. -/
def cutAt (needle : List Char) : List Char → Option (List Char × List Char)
  | [] => if needle.isEmpty then some ([], []) else none
  | c :: cs =>
    match needle.isPrefixOf? (c :: cs) with
    | some rest => some ([], rest)
    | none => (cutAt needle cs).map fun (a, b) => (c :: a, b)

/-- Lines of a text: each newline ends one, and what follows the last newline is a line only if
it is not empty. -/
def lineCount (s : List Char) : Nat :=
  s.count '\n' + (match s.getLast? with
    | none => 0
    | some c => if c = '\n' then 0 else 1)

def lowerAscii (s : String) : String := s.map Char.toLower

end Exports.Text
