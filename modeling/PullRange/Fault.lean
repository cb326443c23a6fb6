/-!
# Faults

Everything that can go wrong while results are pulled. A collaborator's own failure is passed on
unchanged as `Fault.raised`; the other faults are raised by ranges, cursors and buffers themselves.
-/

namespace PullRange

inductive Comparison where
  | equal
  | notEqual
  deriving DecidableEq, Repr

def Comparison.name : Comparison → String
  | .equal => "equal()"
  | .notEqual => "notEqual()"

inductive Fault (ε : Type) where
  | noExecutor
  /-- A read through a cursor of a range whose executor has not produced anything yet. -/
  | nothingFetched
  | badCapacity (written : String)
  | noCursor (comparison : Comparison)
  /-- A reference to an object that does not exist. -/
  | missing
  /-- A consumer used up its fuel before the range ended. -/
  | unfinished
  | raised (error : ε)
  deriving DecidableEq, Repr

def Fault.message? {ε : Type} : Fault ε → Option String
  | .noExecutor => some "No result executor available."
  | .nothingFetched => some "No result has been fetched."
  | .badCapacity written => some ("chunkSize must be a positive integer, got " ++ written)
  | .noCursor comparison => some (comparison.name ++ " needs a cursor on one side")
  | .missing => some "No such object."
  | .unfinished => some "The range did not end."
  | .raised _ => none

end PullRange
