import PullRange.Action
import PullRange.Script

/-!
# Buffers

A buffer computes results from the inputs of a resource, a chunk at a time, and hands them out one
by one. Chunking stays invisible: a failure in the middle of a chunk is deferred until the results
before it are handed out. `Buffer.next` hands out, `Buffer.refill` computes a chunk, `Buffer.fill` is
the loop inside it.

While a call of a buffer is at work, its resource, the computation and the trace are taken not to
call the same buffer: they act on a state `ω` of their own, of which the buffer is no part. A release
from inside a computation is outside this model. So whatever is proved about the runs of a buffer is
about calls that come one after another.
-/

namespace PullRange

/-- What a buffer calls on: its resource, the computation of a result from an input and its index,
and the trace. -/
structure Feed (I R ε ω : Type) where
  ask : Action ε ω (Step I)
  release : Action ε ω Unit
  compute : I → Nat → Action ε ω R
  trace : (tag : String) → (message : Action ε ω String) → Action ε ω Unit

structure Buffer (R ε : Type) where
  capacity : Nat
  capacity_pos : 0 < capacity
  /-- Whether the resource is still held: it has not reported done, nor was it let go. -/
  held : Bool
  chunk : Array R
  position : Nat
  consumed : Nat
  deferred : Option (Fault ε)

inductive Stop (ε : Type) where
  | full
  | drained
  | failed (fault : Fault ε)

structure Filled (R ε : Type) where
  chunk : Array R
  consumed : Nat
  stop : Stop ε

namespace Buffer

variable {I R ε ω : Type}

def empty (capacity : Nat) (capacity_pos : 0 < capacity) : Buffer R ε :=
  { capacity, capacity_pos, held := true, chunk := #[], position := 0, consumed := 0,
    deferred := none }

/-- Asks and computes until `room` more results are there, the resource is done, or something fails.
An input counts as consumed before its result is computed. -/
def fill (feed : Feed I R ε ω) : (room consumed : Nat) → (chunk : Array R) → ω → Filled R ε × ω
  | 0, consumed, chunk, state => ({ chunk, consumed, stop := .full }, state)
  | room + 1, consumed, chunk, state =>
      match feed.ask state with
      | .error fault state => ({ chunk, consumed, stop := .failed fault }, state)
      | .ok (.done _) state => ({ chunk, consumed, stop := .drained }, state)
      | .ok (.yield input) state =>
          match feed.compute input consumed state with
          | .error fault state => ({ chunk, consumed := consumed + 1, stop := .failed fault }, state)
          | .ok result state => fill feed room (consumed + 1) (chunk.push result) state

def load (buffer : Buffer R ε) (filled : Filled R ε) : Buffer R ε :=
  { buffer with chunk := filled.chunk, position := 0, consumed := filled.consumed }

/-- Computes the next chunk and answers whether it holds anything. A failure is deferred if results
precede it, and otherwise passed on at once. The chunk is in place before it is traced. -/
def refill (feed : Feed I R ε ω) : Action ε (Buffer R ε × ω) Bool := do
  let buffer ← getOwn
  if buffer.held then
    let filled ← onRest (.ofTotal (fill feed buffer.capacity buffer.consumed #[]))
    let loaded := buffer.load filled
    match filled.stop with
    | .full => setOwn loaded
    | .drained => setOwn { loaded with held := false }
    | .failed fault =>
        if filled.chunk.isEmpty then
          setOwn loaded
          throw fault
        else
          setOwn { loaded with deferred := some fault }
    onRest (feed.trace "underflow" (pure (toString filled.chunk.size ++ " results")))
    return !filled.chunk.isEmpty
  else
    setOwn { buffer with chunk := #[], position := 0 }
    return false

theorem refill_of_not_held (feed : Feed I R ε ω) (buffer : Buffer R ε) (rest : ω)
    (hheld : buffer.held = false) :
    refill feed (buffer, rest) = .ok false ({ buffer with chunk := #[], position := 0 }, rest) := by
  simp [refill, bind, EStateM.bind, hheld, pure, EStateM.pure]

def handOut : Action ε (Buffer R ε × ω) (Step R) := do
  let buffer ← getOwn
  match buffer.chunk[buffer.position]? with
  | some result =>
      setOwn { buffer with position := buffer.position + 1 }
      return .yield result
  | none => return .done none

def next (feed : Feed I R ε ω) : Action ε (Buffer R ε × ω) (Step R) := do
  let buffer ← getOwn
  if buffer.position < buffer.chunk.size then
    handOut
  else
    match buffer.deferred with
    | some fault =>
        setOwn { buffer with deferred := none }
        throw fault
    | none =>
        if ← refill feed then
          handOut
        else
          return .done none

/-- Drops everything that waits, and then lets the resource go if it is still held. -/
def release (feed : Feed I R ε ω) : Action ε (Buffer R ε × ω) Unit := do
  let buffer ← getOwn
  setOwn { buffer with held := false, chunk := #[], position := 0, deferred := none }
  if buffer.held then
    onRest feed.release

def isEof (buffer : Buffer R ε) : Bool :=
  !buffer.held && decide (buffer.chunk.size ≤ buffer.position) && buffer.deferred.isNone

theorem isEof_iff (buffer : Buffer R ε) :
    buffer.isEof ↔
      buffer.held = false ∧ buffer.chunk.size ≤ buffer.position ∧ buffer.deferred = none := by
  simp [isEof, and_assoc]

end Buffer

end PullRange
