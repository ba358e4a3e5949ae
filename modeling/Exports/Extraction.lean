import Exports.Extraction.Component
import Exports.Extraction.Script

namespace Exports

namespace Extractor

def entities (extractor : Extractor) (m : Module) (parsed : ParsedSource) : List Entity :=
  match extractor with
  | .script => m.scriptEntities parsed.language.allowsMarkup parsed.declarations
  | .component => m.componentEntities parsed

end Extractor

end Exports
