import Exports.Content
import Exports.Lookup

namespace Exports

structure Memo where
  /-- What contents told. -/
  identities : Table Request Identity := {}
  candidates : Table String (List Entity) := {}
  /-- Where searches nearby ended, also those that found nothing. -/
  outcomes : Table Request (Option String) := {}

/-- Forgets what depends on the index. -/
def Memo.clearLookups (m : Memo) : Memo := { m with candidates := {}, outcomes := {} }

/-- How often something was found, or had to be worked out. No count is taken to outgrow its
word. -/
structure Counters where
  candidateGathers : Nat := 0
  candidateHits : Nat := 0
  outcomeHits : Nat := 0
  identityHits : Nat := 0
  fallbacks : Nat := 0
  deriving DecidableEq, Repr

end Exports
