import Exports.Extraction
import Exports.Files
import Exports.Table

namespace Exports

structure CacheLimits where
  enabled : Bool
  /-- Estimated size above which the older half of the results is dropped. -/
  trigger : UInt64
  parsedFileBytes : UInt64
  entityBytes : UInt64
  deriving DecidableEq, Repr

def CacheLimits.ofSettings (s : CacheSettings) : CacheLimits :=
  ⟨s.enabled, s.cleanupTrigger, s.parsedFileBytes, s.entityBytes⟩

structure CachedFile where
  parsed : ParsedSource
  stamp : Option Stamp

structure CachedResult where
  entities : List Entity
  stamp : Option Stamp
  /-- Results stored before this one, ever. -/
  seq : Nat
  deriving DecidableEq, Repr

/-- How a parse came about. -/
inductive ParseOutcome where
  | cached
  | full
  /-- From an older source of the same language. -/
  | incremental
  deriving DecidableEq, Repr

structure SourceCache where
  files : Table Place CachedFile := {}
  results : Table (Extractor × Place) CachedResult := {}
  /-- Results stored so far, a count that is taken never to outgrow its word. -/
  nextSeq : Nat := 0

namespace SourceCache

/-- Whether a cached file may be served: for a given content if that is its content, otherwise if
the file still bears its stamp. -/
def isFresh (cached : CachedFile) (current : Option Stamp) : Option String → Bool
  | some content => cached.parsed.content = content
  | none => cached.stamp.isSome && cached.stamp = current

/-- The content to parse, given or read. -/
def contentOf (files : Files) (path : Path) : Option String → Except Error String
  | some content => .ok content
  | none => if files.isFile path then files.read path else .error (.fileNotFound path)

/-- The parsed source of a file, with the cache afterwards. -/
def parse (cache : SourceCache) (files : Files) (path : Path) (content : Option String) :
    Except Error (ParsedSource × ParseOutcome) × SourceCache :=
  match Language.ofPath path with
  | .error error => (.error error, cache)
  | .ok language =>
    let stamp := files.stamp path
    let cached := cache.files.get? path.place
    match cached.filter fun c => isFresh c stamp content with
    | some c => (.ok (c.parsed, .cached), cache)
    | none =>
      match contentOf files path content with
      | .error error => (.error error, cache)
      | .ok text =>
        let parsed := ParsedSource.ofContent language text
        let again := cached.any fun c => c.parsed.scriptLanguage = parsed.scriptLanguage
        (.ok (parsed, if again then .incremental else .full),
          { cache with files := cache.files.insert path.place ⟨parsed, stamp⟩ })

/-- As `parse`, without a word on errors and on how the source came about. -/
def parse? (cache : SourceCache) (files : Files) (path : Path) (content : Option String) :
    Option ParsedSource × SourceCache :=
  let (result, cache) := cache.parse files path content
  (result.toOption.map (·.1), cache)

def contains (cache : SourceCache) (path : Path) : Bool := cache.files.contains path.place

/-- Entities of all results. -/
def entityCount (cache : SourceCache) : Nat :=
  (cache.results.entries.flatMap fun r => r.2.entities).length

/-- The word for a number, if one holds it. -/
def word? (n : Nat) : Option UInt64 := if n < UInt64.size then some n.toUInt64 else none

/-- A fixed size for each file and each entity. Each step of the sum has to fit into a word: there
is no estimate where one does not, and what needs it does not return. -/
def estimatedBytes? (cache : SourceCache) (limits : CacheLimits) : Option UInt64 := do
  let files ← word? (cache.files.size * limits.parsedFileBytes.toNat)
  let entities ← word? (cache.entityCount * limits.entityBytes.toNat)
  word? (files.toNat + entities.toNat)

/-- The result for a file, if it is still good. One that is not is dropped. -/
def getResult (cache : SourceCache) (limits : CacheLimits) (files : Files)
    (extractor : Extractor) (path : Path) : Option (List Entity) × SourceCache :=
  if !limits.enabled then (none, cache)
  else
    let key := (extractor, path.place)
    match cache.results.get? key with
    | none => (none, cache)
    | some result =>
      let current := files.stamp path
      if current.isSome && current = result.stamp then (some result.entities, cache)
      else (none, { cache with results := cache.results.erase key })

/-- Keys of the older half of the results, oldest first. -/
def olderHalf (cache : SourceCache) : List (Extractor × Place) :=
  let byAge := cache.results.entries.mergeSort fun a b => a.2.seq ≤ b.2.seq
  (byAge.take (byAge.length / 2)).map (·.1)

def dropOlderHalf (cache : SourceCache) : SourceCache :=
  let old := cache.olderHalf
  { cache with results := cache.results.keep fun key => !old.contains key }

/-- The stamp of the source that a result was drawn from. -/
def sourceStamp (cache : SourceCache) (files : Files) (path : Path) : Option Stamp :=
  ((cache.files.get? path.place).bind (·.stamp)).or (files.stamp path)

def store (cache : SourceCache) (files : Files) (extractor : Extractor) (path : Path)
    (entities : List Entity) : SourceCache :=
  let result := ⟨entities, cache.sourceStamp files path, cache.nextSeq⟩
  { cache with
    results := cache.results.insert (extractor, path.place) result
    nextSeq := cache.nextSeq + 1 }

/-- Stores a result, after a cleanup where one is due. Without an estimate, this does not return. -/
def setResult? (cache : SourceCache) (limits : CacheLimits) (files : Files)
    (extractor : Extractor) (path : Path) (entities : List Entity) : Option SourceCache :=
  if !limits.enabled then some cache
  else do
    let bytes ← cache.estimatedBytes? limits
    let cache := if limits.trigger < bytes then cache.dropOlderHalf else cache
    some (cache.store files extractor path entities)

def clear (cache : SourceCache) : SourceCache := { cache with files := {}, results := {} }

/-- Drops the results of one extractor, and tells how many there were. -/
def clearExtractor (cache : SourceCache) (extractor : Extractor) : Nat × SourceCache :=
  let kept := cache.results.keep (·.1 ≠ extractor)
  (cache.results.size - kept.size, { cache with results := kept })

/-- Forgets one file. -/
def clearFile (cache : SourceCache) (path : Path) : SourceCache :=
  { cache with
    files := cache.files.erase path.place
    results := cache.results.keep (·.2 ≠ path.place) }

end SourceCache

end Exports
