import Exports.Decimal
import Exports.Error

namespace Exports

/-- What the caches hold at most. -/
structure CacheSettings where
  enabled : Bool := true
  maxBytes : UInt64 := 104857600
  /-- Share of `maxBytes` above which the older half of the results is dropped. -/
  cleanupThreshold : Float := 0.8
  parsedFileBytes : UInt64 := 51200
  entityBytes : UInt64 := 1024

/-- The estimated size above which a cleanup is due. -/
def CacheSettings.cleanupTrigger (s : CacheSettings) : UInt64 :=
  (s.maxBytes.toFloat * s.cleanupThreshold).toUInt64

structure LoggingSettings where
  level : String := "info"
  deriving DecidableEq, Repr

structure ResolveSettings where
  /-- File names tried, in order, when a directory is imported. -/
  entryFiles : List String := ["index.ts", "index.tsx", "index.js", "index.jsx", "index.vue"]
  /-- Parts of capitalized names that speak for a component. -/
  keywords : List String :=
    ["Component", "Button", "Card", "Modal", "Icon", "Form", "Input", "Dialog", "Panel", "Header",
      "Footer"]
  deriving DecidableEq, Repr

structure Settings where
  cache : CacheSettings := {}
  logging : LoggingSettings := {}
  resolve : ResolveSettings := {}

namespace Settings

/-- Settings of that size and level of logging. -/
def sized (megabytes : UInt64) (level : String) : Settings :=
  { cache := { maxBytes := megabytes * 1048576 }, logging := { level } }

/-- A profile of unknown name has the default settings. -/
def ofProfile : String → Settings
  | "development" => sized 50 "debug"
  | "production" => sized 200 "warn"
  | "test" => sized 20 "warn"
  | _ => {}

/-- The profile that the environment names, if any. -/
def ofEnvironment (profile : Option String) : Settings :=
  ofProfile (profile.getD "development")

def validate (s : Settings) : Except Error Settings :=
  let threshold := s.cache.cleanupThreshold
  if !(0 ≤ threshold && threshold ≤ 1) then
    .error (.thresholdOutOfRange (Decimal.ofFloat threshold))
  else if s.resolve.entryFiles.isEmpty then .error .noEntryFiles
  else .ok s

end Settings

end Exports
