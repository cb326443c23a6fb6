import PullRange.Event

/-!
# Writers

A writer accumulates text, passes it to a stream, or is a collaborator of its own that may fail on
any of its writes.
-/

namespace PullRange

inductive Writer (ε : Type) where
  | accumulator (pieces : Array String)
  | console (stream : Stream Unit)
  | custom (failures : Nat → Option ε) (writes : Nat)

namespace Writer

variable {ε V : Type}

/-- The writer after a write, the event that the write leaves, and the failure it ends with. The
writer is known to the event by its number. -/
def write (writer : Writer ε) (number : Nat) (text : String) :
    Writer ε × Option (Event Nat V) × Option ε :=
  match writer with
  | .accumulator pieces => (.accumulator (pieces.push text), none, none)
  | .console stream =>
      (.console stream, some (@Event.streamed _ _ number (stream.rename fun _ => number) text), none)
  | .custom failures writes =>
      (.custom failures (writes + 1), some (.wrote number text), failures writes)

def text? : Writer ε → Option String
  | .accumulator pieces => some (String.join pieces.toList)
  | _ => none

def clear : Writer ε → Writer ε
  | .accumulator _ => .accumulator #[]
  | writer => writer

end Writer

end PullRange
