import Exports.Error

namespace Exports

/-- Tells two states of a file apart. Directories change too, when something is added to them or
taken away. -/
inductive Stamp where
  | written (tick : Nat)
  | listed (tick : Nat)
  deriving DecidableEq, Repr

structure Files where
  isFile : Path → Bool
  isDirectory : Path → Bool
  read : Path → Except Error String
  stamp : Path → Option Stamp

end Exports
