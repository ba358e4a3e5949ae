import Exports.Classifier
import Exports.Settings

namespace Exports

structure Module where
  path : String
  resolve : ResolveSettings
  deriving DecidableEq, Repr

namespace Module

def name (m : Module) : String := ModuleName.ofPath m.resolve.entryFiles m.path

/-- Name of the default export, given the name that it is declared under. -/
def defaultName (m : Module) (declared : Option String) : String :=
  ModuleName.ofDefault m.resolve.entryFiles m.path declared

def classifier (m : Module) (markup componentFile : Bool) (declarations : List Declaration) :
    Classifier :=
  ⟨declarations, ⟨markup, componentFile, m.resolve.keywords⟩, m.path⟩

end Module

/-- Ways to draw entities from a file. -/
inductive Extractor where
  | script
  | component
  deriving DecidableEq, Repr

def Extractor.ofLanguage (language : Language) : Extractor :=
  if language.isComponentFile then .component else .script

end Exports
