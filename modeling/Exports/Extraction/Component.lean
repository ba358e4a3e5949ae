import Exports.Module
import Exports.ParsedSource

namespace Exports.Module

/-- Only what `defineComponent` returns is not exported. -/
def componentEntity (m : Module) (content : String) (span : LineSpan) (rawName : String) :
    Entity :=
  { id := Kind.component.idFor (m.defaultName none), kind := .component, file := m.path, span
    rawName, isDefault := rawName ≠ "defineComponent", codeHash := Digest.ofText content }

/-- Lines of a setup block, at least one. -/
def setupSpan (facts : BlockFacts) : LineSpan :=
  ⟨facts.lineOffset + 1, max facts.endLine (facts.lineOffset + 1)⟩

/-- What a declaration makes of the component, if anything. -/
def componentName? (d : Declaration) : Option String :=
  if d.body = .defineComponent then some "defineComponent"
  else if d.isDefault then some "default"
  else none

/-- A setup block is the component; otherwise the declarations that define it are. -/
def componentEntities (m : Module) (parsed : ParsedSource) : List Entity :=
  match parsed.block with
  | none => []
  | some facts =>
    if !facts.hasScript then []
    else if facts.isSetup then [m.componentEntity parsed.content (setupSpan facts) "setup"]
    else parsed.declarations.filterMap fun d =>
      (componentName? d).map fun name =>
        m.componentEntity parsed.content (d.span.shift facts.lineOffset) name

end Exports.Module
