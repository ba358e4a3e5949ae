import Exports.Declaration.Lift
import Exports.ScriptBlock

namespace Exports

/-- The script block of a component file, by lines of the file. -/
structure BlockFacts where
  hasScript : Bool
  isSetup : Bool
  /-- Lines of the file before the script. -/
  lineOffset : Nat
  endLine : Nat
  deriving DecidableEq, Repr

namespace BlockFacts

def ofBlock (block : ScriptBlock) : BlockFacts where
  hasScript := true
  isSetup := block.isSetup
  lineOffset := block.firstLine - 1
  endLine := block.firstLine - 1 + max 1 (Text.lineCount block.content)

/-- Of a file without script. -/
def none : BlockFacts := ⟨false, false, 0, 0⟩

end BlockFacts

structure ParsedSource where
  language : Language
  /-- Language of the script, which a component file chooses by itself. -/
  scriptLanguage : Language
  content : String
  /-- The text that the tree covers. -/
  source : List Char
  tree : Script.Tree
  block : Option BlockFacts

namespace ParsedSource

/-- The tree of a script, in its language. -/
def ofScript (language scriptLanguage : Language) (content : String) (source : List Char)
    (block : Option BlockFacts) : ParsedSource where
  language
  scriptLanguage
  content
  source
  tree := Script.parse (.ofLanguage scriptLanguage) source
  block

/-- A component file is read for its script block only. -/
def ofContent (language : Language) (content : String) : ParsedSource :=
  if language.isComponentFile then
    match ScriptBlock.find? content.toList with
    | some block =>
      ofScript language block.language content block.content (some (.ofBlock block))
    | none => ofScript language .javascript content [] (some .none)
  else ofScript language language content content.toList none

/-- What to add to a line of the tree to get the line of the file. -/
def lineOffset (p : ParsedSource) : Nat := (p.block.map (·.lineOffset)).getD 0

def declarations (p : ParsedSource) : List Declaration := p.tree.declarations p.source

end ParsedSource

end Exports
