import PullRange.Range

/-!
# Cursors and the sentinel

A cursor remembers only whether its own last advance found the end; the result that it stands on is
the cache of its range. A cursor is compared with the sentinel, never with another cursor, and is
equal to it exactly at the end.
-/

namespace PullRange

structure Cursor where
  atEnd : Bool
  deriving DecidableEq, Repr

/-- Every range ends at the shared sentinel. Another sentinel means the same. -/
inductive Sentinel where
  | shared
  | other
  deriving DecidableEq, Repr

def Sentinel.text : Sentinel → String := fun _ => "default_sentinel"

def Range.sentinel {H V : Type} : Range H V → Sentinel := fun _ => .shared

namespace Cursor

variable {H V ε ω : Type}

/-- The cursor after one more pull. If the pull fails there is no new cursor, and the old one stays
as it is. -/
def next (services : Services H V ε ω) (_cursor : Cursor) : Action ε (Range H V × ω) Cursor := do
  let pulled ← Range.pull services
  return { atEnd := !pulled }

def start (services : Services H V ε ω) : Action ε (Range H V × ω) Cursor :=
  next services { atEnd := true }

def equals (cursor : Cursor) (_sentinel : Sentinel) : Bool :=
  cursor.atEnd

def notEquals (cursor : Cursor) (sentinel : Sentinel) : Bool :=
  !cursor.equals sentinel

end Cursor

def Sentinel.equals (sentinel : Sentinel) (cursor : Cursor) : Bool :=
  cursor.equals sentinel

def Sentinel.notEquals (sentinel : Sentinel) (cursor : Cursor) : Bool :=
  cursor.notEquals sentinel

inductive Side where
  | cursor (cursor : Cursor)
  | sentinel (sentinel : Sentinel)
  deriving DecidableEq, Repr

/-- Whether the cursor among two sides is at the end. Of two cursors the left one decides. -/
def Side.atEnd? : Side → Side → Option Bool
  | .cursor left, _ => some left.atEnd
  | .sentinel _, .cursor right => some right.atEnd
  | .sentinel _, .sentinel _ => none

def Comparison.decide {ε : Type} (comparison : Comparison) (left right : Side) :
    Except (Fault ε) Bool :=
  match left.atEnd? right with
  | none => .error (.noCursor comparison)
  | some atEnd =>
      match comparison with
      | .equal => .ok atEnd
      | .notEqual => .ok (!atEnd)

/-- The eight ways to compare a cursor with a sentinel: by either one's own methods, then by the
comparisons of two sides in either order. -/
def Cursor.comparisons {ε : Type} (cursor : Cursor) (sentinel : Sentinel) :
    Except (Fault ε) (List Bool) := do
  let here := Side.cursor cursor
  let there := Side.sentinel sentinel
  return [cursor.equals sentinel, cursor.notEquals sentinel,
    sentinel.equals cursor, sentinel.notEquals cursor,
    ← Comparison.equal.decide here there, ← Comparison.equal.decide there here,
    ← Comparison.notEqual.decide here there, ← Comparison.notEqual.decide there here]

end PullRange
