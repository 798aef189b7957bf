import Mathlib.Data.Nat.Notation

namespace Kkdb

-- The error constructors the modelled functions return.
inductive KkdbError where
  | ParseError (msg : String)
  | RuntimeError (msg : String)
  | TypeError (msg : String)
  | TableNotFound (name : String)
  | TableAlreadyExists (name : String)
  | ColumnNotFound (name : String)
  | ColumnCountMismatch (expected got : Nat)
  | PageOutOfRange (page : Nat)
  | BTreeError (msg : String)
  | DatabaseFull
  | CorruptDatabase (msg : String)
  | ConstraintViolation (msg : String)
  | Internal (msg : String)
  deriving DecidableEq, Repr

-- How a call can end without a value. A slice out of range panics; a loop or a
-- recursion that would follow page links forever hangs; a failpoint can abort
-- the process.
inductive Fault where
  | Err (error : KkdbError)
  | Panic
  | Hang
  | Abort
  deriving DecidableEq, Repr

abbrev Res := Except Fault

def corrupt (msg : String) : Fault := .Err (.CorruptDatabase msg)

end Kkdb
