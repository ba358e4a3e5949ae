import Exports.Classifier
import Exports.Content
import Exports.Decimal
import Exports.Declaration
import Exports.Declaration.Lift
import Exports.Digest
import Exports.Edit
import Exports.Engine
import Exports.Entity
import Exports.Error
import Exports.Extraction
import Exports.Extraction.Component
import Exports.Extraction.Script
import Exports.Files
import Exports.Files.Disk
import Exports.Files.Entry
import Exports.Files.Memory
import Exports.Index
import Exports.Json
import Exports.Json.Decode
import Exports.Language
import Exports.Lookup
import Exports.Memo
import Exports.Module
import Exports.ModuleName
import Exports.Naming
import Exports.ParsedSource
import Exports.Path
import Exports.Proofs.Alias
import Exports.Proofs.AliasEnd
import Exports.Proofs.Bytes
import Exports.Proofs.Ceiling
import Exports.Proofs.Cleanup
import Exports.Proofs.ComponentFile
import Exports.Proofs.Contents
import Exports.Proofs.DeclarationOrder
import Exports.Proofs.Declared
import Exports.Proofs.DefaultImport
import Exports.Proofs.DefaultKind
import Exports.Proofs.DefaultNames
import Exports.Proofs.Directories
import Exports.Proofs.Edit
import Exports.Proofs.EntityFiles
import Exports.Proofs.EntityIds
import Exports.Proofs.EntityNames
import Exports.Proofs.EntryImport
import Exports.Proofs.Estimate
import Exports.Proofs.ExportedNames
import Exports.Proofs.Extract
import Exports.Proofs.ExtractionTransparency
import Exports.Proofs.FileKeys
import Exports.Proofs.Files
import Exports.Proofs.Footprint
import Exports.Proofs.Index
import Exports.Proofs.IndexOrder
import Exports.Proofs.IntegerRange
import Exports.Proofs.Invalidation
import Exports.Proofs.KeyNames
import Exports.Proofs.KeyRoundTrip
import Exports.Proofs.KeySegments
import Exports.Proofs.Location
import Exports.Proofs.Lookup
import Exports.Proofs.LookupOrder
import Exports.Proofs.MarkupOverride
import Exports.Proofs.MemoTransparency
import Exports.Proofs.Mint
import Exports.Proofs.NamedImport
import Exports.Proofs.NamedKind
import Exports.Proofs.NearestSearch
import Exports.Proofs.NestedTags
import Exports.Proofs.Operation
import Exports.Proofs.OwnFile
import Exports.Proofs.ParsedSources
import Exports.Proofs.Path
import Exports.Proofs.Script
import Exports.Proofs.ScriptBlock
import Exports.Proofs.ScriptFile
import Exports.Proofs.ScriptTags
import Exports.Proofs.SearchMemo
import Exports.Proofs.SingleDeclaration
import Exports.Proofs.Source
import Exports.Proofs.Store
import Exports.Proofs.SuppliedContent
import Exports.Proofs.Table
import Exports.Proofs.TreeWalk
import Exports.Proofs.WellFormedIds
import Exports.Proofs.WrapperCalls
import Exports.Script.Automaton
import Exports.Script.Automaton.Move
import Exports.Script.Grammar.Class
import Exports.Script.Grammar.Expression
import Exports.Script.Grammar.Lexical
import Exports.Script.Grammar.Markup
import Exports.Script.Grammar.Module
import Exports.Script.Grammar.Order
import Exports.Script.Grammar.Production
import Exports.Script.Grammar.Rule
import Exports.Script.Grammar.Statement
import Exports.Script.Grammar.Table
import Exports.Script.Grammar.Type
import Exports.Script.Machine
import Exports.Script.Phrase
import Exports.Script.Reading
import Exports.Script.Scan
import Exports.Script.Scan.Pattern
import Exports.Script.Scan.Place
import Exports.Script.Scan.Surroundings
import Exports.Script.Stack
import Exports.Script.Syntax
import Exports.Script.Tree
import Exports.Script.Walk
import Exports.ScriptBlock
import Exports.Settings
import Exports.Settings.Document
import Exports.SourceCache
import Exports.Table
import Exports.Text
import Exports.Text.Bytes
import Exports.Text.Class
import Exports.Text.Reader
import Exports.Toml
import Exports.Toml.Parser
