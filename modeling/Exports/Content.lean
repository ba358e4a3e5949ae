import Exports.Module
import Exports.ParsedSource

namespace Exports

/-- A kind, and the name that an id is minted under. -/
structure Identity where
  kind : Kind
  name : String
  deriving DecidableEq, Repr

def Identity.resolved (i : Identity) (confidence : Confidence) : Resolved :=
  .mint confidence i.kind i.name

namespace Module

/-- What one declaration alone tells. -/
def ofDeclaration (m : Module) (language : Option Language) (markup : Option Bool)
    (d : Declaration) (name : String) (isDefault : Bool) : Identity :=
  let markup := markup.getD (language.any Language.allowsMarkup)
  let c := m.classifier markup (language.any Language.isComponentFile) [d]
  if isDefault then
    let (kind, name) := c.defaultIdentity m.resolve.entryFiles d
    ⟨kind, name⟩
  else ⟨c.kindOf d name, name⟩

/-- What the content of the file tells, if it has such an export. -/
def ofContent? (m : Module) (markup : Option Bool) (parsed : ParsedSource) (name : String)
    (isDefault : Bool) : Option Identity :=
  if parsed.language.isComponentFile then
    if isDefault then some ⟨.component, m.defaultName none⟩ else none
  else
    let markup := markup.getD parsed.language.allowsMarkup
    let c := m.classifier markup false parsed.declarations
    if isDefault then
      c.defaultExport?.map fun d =>
        let (kind, name) := c.defaultIdentity m.resolve.entryFiles d
        ⟨kind, name⟩
    else (c.namedExport? name).map fun d => ⟨c.kindOf d name, name⟩

/-- What names alone tell. A default export goes by the name of its module. -/
def ofName (m : Module) (markup : Bool) (name : String) (isDefault : Bool) : Identity :=
  let name := if isDefault then m.name else name
  ⟨Naming.guess ⟨m.path, name, markup, m.resolve.keywords⟩, name⟩

end Module

end Exports
