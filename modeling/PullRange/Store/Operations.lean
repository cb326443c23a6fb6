import PullRange.Options
import PullRange.Store.Services

/-!
# What can be done with the objects of a store

Making executors, ranges, cursors, walks and writers; advancing, reading, moving and closing; and
the consumers. Every object is known by the number of objects of its kind that were there before.
-/

namespace PullRange.Store

variable {V ε : Type}

/-! ## Making objects -/

def addExecutor (source : Source V ε) : Act V ε Nat := do
  let store ← get
  set { store with executors := store.executors.push { source } }
  return store.executors.size

/-- Makes a buffer: the resource is opened first, and only then is the size looked at. -/
def addBuffered (source : Source V ε) (opening : Option ε) (compute : V → Nat → Reply ε V)
    (size : ChunkSize) : Act V ε Nat := do
  let number := (← get).executors.size
  match source with
  | .walk _ _ => pure ()
  | .script script =>
      unless script.silent do
        emit (.opened number)
  match opening with
  | some error => throw (.raised error)
  | none =>
      match size.capacity with
      | .error written => throw (.badCapacity written)
      | .ok ⟨capacity, capacity_pos⟩ =>
          let stage := { compute, buffer := .empty capacity capacity_pos }
          modify fun store =>
            { store with executors := store.executors.push { source, stage := some stage } }
          return number

def addRange (range : Range Nat V) : Act V ε Nat := do
  let store ← get
  set { store with ranges := store.ranges.push range }
  return store.ranges.size

def addWalk (range : Nat) : Act V ε Nat := do
  let store ← get
  set { store with walks := store.walks.push (range, .unstarted) }
  return store.walks.size

def addWriter (writer : Writer ε) : Act V ε Nat := do
  let store ← get
  set { store with writers := store.writers.push writer }
  return store.writers.size

/-! ## Executors -/

def ask [Textual V ε] (executor : Nat) : Act V ε (Step V) := do
  (← get).services.ask executor

def release [Textual V ε] (executor : Nat) : Act V ε Unit := do
  (← get).services.release executor

/-! ## Ranges and cursors -/

def move (range : Nat) : Act V ε Nat := do
  let (target, rest) := (← (rangeAt range).read).move
  modify ((rangeAt range).put rest)
  addRange target

def close [Textual V ε] (range : Nat) : Act V ε Unit := do
  (rangeAt range).focus (Range.close (← get).services)

def start [Textual V ε] (range : Nat) : Act V ε Nat := do
  let cursor ← (rangeAt range).focus (Cursor.start (← get).services)
  let store ← get
  set { store with cursors := store.cursors.push (range, cursor) }
  return store.cursors.size

def rangeOfCursor (cursor : Nat) : Act V ε Nat := do
  match (← get).cursors[cursor]? with
  | none => throw .missing
  | some (range, _) => return range

/-- A cursor that fails to advance stays as it is. -/
def advance [Textual V ε] (cursor : Nat) : Act V ε Unit := do
  let range ← rangeOfCursor cursor
  let current ← (cursorAt cursor).read
  let advanced ← (rangeAt range).focus (current.next (← get).services)
  modify ((cursorAt cursor).put advanced)

def advanceTimes [Textual V ε] (cursor : Nat) : (times : Nat) → Act V ε Unit
  | 0 => return ()
  | times + 1 => do
      advance cursor
      advanceTimes cursor times

def valueAt (cursor : Nat) : Act V ε V := do
  let range ← rangeOfCursor cursor
  (rangeAt range).focus Range.get

def valueAt? (cursor : Nat) : Act V ε (Option V) := do
  let range ← (rangeAt (← rangeOfCursor cursor)).read
  return range.cache

/-! ## Walks -/

def walkOn [Textual V ε] (walk : Nat) : Act V ε (Step V) := do
  let store ← get
  match store.walks[walk]? with
  | none => throw .missing
  | some (range, _) => (walkAt walk).focus (Walk.next (turnOn store.services range))

def stopWalk (walk : Nat) : Act V ε Unit := do
  let current ← (walkAt walk).read
  modify ((walkAt walk).put current.stop)

/-! ## Consumers -/

/-- Goes through a range by a walk of its own, which is forgotten afterwards. -/
def onFreshWalk {α : Type} (action : Action ε (Walk × Store V ε) α) : Act V ε α := fun store =>
  match action (.unstarted, store) with
  | .ok answer (_, store) => .ok answer store
  | .error fault (_, store) => .error fault store

def collect [Textual V ε] (fuel range : Nat) : Act V ε (Array V) := do
  onFreshWalk (Walk.collect (turnOn (← get).services range) fuel #[])

/-- A loop over a range that is left after so many results. Its failure is part of the answer. -/
def take [Textual V ε] (range wanted : Nat) : Act V ε (Taken V ε) := do
  onFreshWalk (.ofTotal (Walk.take (turnOn (← get).services range) wanted #[]))

def print [Textual V ε] (fuel range : Nat) (format : V → Nat → Act V ε String) (writer : Nat) :
    Act V ε Nat := do
  (rangeAt range).focus (Range.print (← get).services { format, write := write writer } fuel)

/-! ## Tracing -/

def setTracing (tracing : Bool) : Act V ε Unit :=
  modify fun store => { store with tracing }

def traceTo (writer : Nat) : Act V ε Nat := do
  let store ← get
  set { store with traceWriter := writer }
  return store.traceWriter

end PullRange.Store
