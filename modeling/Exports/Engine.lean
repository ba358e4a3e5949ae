import Exports.Files.Entry
import Exports.Memo
import Exports.SourceCache

namespace Exports

structure Engine where
  resolve : ResolveSettings
  limits : CacheLimits
  cache : SourceCache := {}
  index : Index := {}
  memo : Memo := {}
  counters : Counters := {}

namespace Engine

def ofSettings (s : Settings) : Engine :=
  { resolve := s.resolve, limits := .ofSettings s.cache }

/-- Entities of one file, in the order of the source. Where they cannot be stored, the call does
not return, and the engine is left with the source that was parsed. -/
def extract (e : Engine) (files : Files) (root file : Path) : Option (List Entity) × Engine :=
  let path := Path.absolute root file
  match Language.ofPath path with
  | .error _ => (some [], e)
  | .ok language =>
    let extractor := Extractor.ofLanguage language
    match e.cache.getResult e.limits files extractor path with
    | (some entities, cache) => (some entities, { e with cache })
    | (none, cache) =>
      match cache.parse? files path none with
      | (none, cache) => (some [], { e with cache })
      | (some parsed, cache) =>
        let entities := extractor.entities ⟨Path.relative root path, e.resolve⟩ parsed
        let stored := cache.setResult? e.limits files extractor path entities
        (stored.map fun _ => entities, { e with cache := stored.getD cache })

/-- Entities of many files, one file after the other, up to a call that does not return. -/
def extractAll (e : Engine) (files : Files) (root : Path) :
    List Path → Option (List Entity) × Engine
  | [] => (some [], e)
  | file :: rest =>
    match e.extract files root file with
    | (none, e) => (none, e)
    | (some entities, e) =>
      let (more, e) := e.extractAll files root rest
      (more.map (entities ++ ·), e)

/-- Replaces the index. What earlier lookups found is kept. -/
def setIndex (e : Engine) (entities : List Entity) : Engine :=
  { e with index := .ofEntities entities }

/-- The file that a path stands for: of a directory, its entry file. -/
def target? (e : Engine) (files : Files) (file : Path) : Option Path :=
  if files.isDirectory file then files.entryFile? e.resolve.entryFiles file else some file

/-- What the content of a file tells about a name. -/
def classify (e : Engine) (files : Files) (file : Path) (name : String) (isDefault : Bool)
    (markup : Option Bool) : Option Identity × Engine :=
  match e.target? files file with
  | none => (none, e)
  | some target =>
    match e.cache.parse? files target none with
    | (none, cache) => (none, { e with cache })
    | (some parsed, cache) =>
      let m : Module := ⟨target.slashed, e.resolve⟩
      (m.ofContent? markup parsed name isDefault, { e with cache })

/-- Identity of a name in a file, from its content if that has it, else from the name. Only what
the content tells is kept. -/
def infer (e : Engine) (files : Files) (file : Path) (name : String) (isDefault : Bool)
    (markup : Option Bool) : Identity × Engine :=
  let key : Request := ⟨file.slashed, name, isDefault⟩
  match e.memo.identities.get? key with
  | some identity =>
    (identity, { e with counters.identityHits := e.counters.identityHits + 1 })
  | none =>
    match e.classify files file name isDefault markup with
    | (some identity, e) =>
      (identity, { e with memo.identities := e.memo.identities.insert key identity })
    | (none, e) =>
      let allowed := (Language.ofPath file).toOption.any Language.allowsMarkup
      (Module.ofName ⟨file.slashed, e.resolve⟩ (markup.getD allowed) name isDefault, e)

/-- The id of a name in a file. A declaration settles it; otherwise it is inferred. `markup`
overrides what the file's extension says of markup. -/
def generate (e : Engine) (files : Files) (file : Path) (name : String) (isDefault : Bool)
    (d : Option Declaration) (markup : Option Bool) : Resolved × Engine :=
  match d with
  | some d =>
    let m : Module := ⟨file.slashed, e.resolve⟩
    let identity := m.ofDeclaration (Language.ofPath file).toOption markup d name isDefault
    (identity.resolved .declared, e)
  | none =>
    let (identity, e) := e.infer files file name isDefault markup
    (identity.resolved .inferred, e)

/-- Candidates at or below a key, gathered once. -/
def candidates (e : Engine) (top : String) : List Entity × Engine :=
  match e.memo.candidates.get? top with
  | some es => (es, { e with counters.candidateHits := e.counters.candidateHits + 1 })
  | none =>
    let es := e.index.candidates top
    (es, { e with
      memo.candidates := e.memo.candidates.insert top es
      counters.candidateGathers := e.counters.candidateGathers + 1 })

/-- Searches directories one after the other. -/
def searchIn (e : Engine) (r : Request) : List String → Option String × Engine
  | [] => (none, e)
  | top :: rest =>
    let (es, e) := e.candidates top
    match r.choose? e.resolve.entryFiles es with
    | some found => (some found.id, e)
    | none => e.searchIn r rest

/-- Searches the directories above a file, once for each request. -/
def searchNearby (e : Engine) (r : Request) : Option String × Engine :=
  match e.memo.outcomes.get? r with
  | some outcome => (outcome, { e with counters.outcomeHits := e.counters.outcomeHits + 1 })
  | none =>
    let (outcome, e) := e.searchIn r r.directories
    (outcome, { e with memo.outcomes := e.memo.outcomes.insert r outcome })

/-- Id of the entity meant, if the index has one. -/
def findIndexed (e : Engine) (r : Request) : Option String × Engine :=
  match r.inFile? e.resolve.entryFiles e.index with
  | some id => (some id, e)
  | none => e.searchNearby r

/-- The file that an import leads to, and its key. A directory stands for its entry file, or for
itself if it has none. -/
def destination (e : Engine) (files : Files) (root file : Path) : Path × String :=
  let path := Path.absolute root file
  match if files.isDirectory path then files.entryFile? e.resolve.entryFiles path else none with
  | some entry => (entry, Path.relative root entry)
  | none => (path, Path.relative root file)

/-- The id that an import means. One from the index is preferred; an import under the name
`default` means the default export. -/
def lookup (e : Engine) (files : Files) (root file : Path) (name : String) (isDefault : Bool) :
    Resolved × Engine :=
  let isDefault := isDefault || name = "default"
  let (path, key) := e.destination files root file
  match e.findIndexed ⟨key, name, isDefault⟩ with
  | (some id, e) => (.ofIndexed id, e)
  | (none, e) =>
    { e with counters.fallbacks := e.counters.fallbacks + 1 }.generate files path name isDefault
      none none

/-- Forgets all that lookups found, and keeps index and sources. -/
def clearMemo (e : Engine) : Engine := { e with memo := {} }

/-- Forgets what lookups found in the index. -/
def clearLookups (e : Engine) : Engine := { e with memo := e.memo.clearLookups }

def clear (e : Engine) : Engine := { e.clearMemo with cache := e.cache.clear }

/-- Forgets the source of one file and what was drawn from it. -/
def invalidate (e : Engine) (root file : Path) : Engine :=
  { e with cache := e.cache.clearFile (Path.absolute root file) }

end Engine

end Exports
