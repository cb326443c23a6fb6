import PullRange.Buffer
import PullRange.Consumer
import PullRange.Reply
import PullRange.Writer

/-!
# Stores

A store keeps every object by number, with the tracing switch and the log of events. Objects refer to
one another by number: a range to its executor, an executor to the range that it walks over, a cursor
to its range. The places of this module say where each kind of object is kept.
-/

namespace PullRange

inductive Source (V ε : Type) where
  | script (script : Script V ε)
  | walk (range : Nat) (walk : Walk)

structure Stage (V ε : Type) where
  compute : V → Nat → Reply ε V
  buffer : Buffer V ε

structure Executor (V ε : Type) where
  source : Source V ε
  stage : Option (Stage V ε) := none

/-- The source of an executor without a stage is the executor itself. -/
def Executor.role {V ε : Type} (executor : Executor V ε) : Role :=
  if executor.stage.isSome then .resource else .executor

/-- Only a script may lack the means to be released. -/
def Executor.canRelease {V ε : Type} (executor : Executor V ε) : Bool :=
  match executor.stage, executor.source with
  | none, .script script => script.releasing.isSome
  | _, _ => true

structure Store (V ε : Type) where
  executors : Array (Executor V ε)
  ranges : Array (Range Nat V)
  cursors : Array (Nat × Cursor)
  walks : Array (Nat × Walk)
  writers : Array (Writer ε)
  tracing : Bool
  traceWriter : Nat
  log : Array (Event Nat V)
  /-- Every call of an executor's own methods, in order. The log alone does not tell them, since a
  buffer and a walk leave no events when they are called. -/
  calls : Array Call

namespace Store

variable {V ε : Type}

abbrev Act (V ε α : Type) := Action ε (Store V ε) α

/-- Tracing is off, and goes to the error stream once it is switched on. -/
def initial : Store V ε :=
  { executors := #[], ranges := #[], cursors := #[], walks := #[],
    writers := #[.console .error], tracing := false, traceWriter := 0, log := #[],
    calls := #[] }

/-! ## Places -/

def rangeAt (number : Nat) : Place (Store V ε) (Range Nat V) where
  find store := store.ranges[number]?
  put range store := { store with ranges := store.ranges.setIfInBounds number range }

def cursorAt (number : Nat) : Place (Store V ε) Cursor where
  find store := store.cursors[number]?.map Prod.snd
  put cursor store :=
    { store with cursors := store.cursors.modify number fun entry => (entry.1, cursor) }

def walkAt (number : Nat) : Place (Store V ε) Walk where
  find store := store.walks[number]?.map Prod.snd
  put walk store := { store with walks := store.walks.modify number fun entry => (entry.1, walk) }

def writerAt (number : Nat) : Place (Store V ε) (Writer ε) where
  find store := store.writers[number]?
  put writer store := { store with writers := store.writers.setIfInBounds number writer }

def executorAt (number : Nat) : Place (Store V ε) (Executor V ε) where
  find store := store.executors[number]?
  put executor store :=
    { store with executors := store.executors.setIfInBounds number executor }

def scriptOf (number : Nat) : Place (Store V ε) (Script V ε) where
  find store :=
    match store.executors[number]? with
    | some { source := .script script, .. } => some script
    | _ => none
  put script store :=
    { store with
      executors := store.executors.modify number fun executor =>
        { executor with source := .script script } }

def walkOf (number : Nat) : Place (Store V ε) Walk where
  find store :=
    match store.executors[number]? with
    | some { source := .walk _ walk, .. } => some walk
    | _ => none
  put walk store :=
    { store with
      executors := store.executors.modify number fun executor =>
        match executor.source with
        | .walk range _ => { executor with source := .walk range walk }
        | .script _ => executor }

def bufferOf (number : Nat) : Place (Store V ε) (Buffer V ε) where
  find store := do
    let executor ← store.executors[number]?
    let stage ← executor.stage
    return stage.buffer
  put buffer store :=
    { store with
      executors := store.executors.modify number fun executor =>
        { executor with stage := executor.stage.map fun stage => { stage with buffer } } }

/-! ## Calls, events, writers and the trace -/

def note (call : Call) : Act V ε Unit :=
  modify fun store => { store with calls := store.calls.push call }

def emit (event : Event Nat V) : Act V ε Unit :=
  modify fun store => { store with log := store.log.push event }

def carryOut {α : Type} (reply : Reply ε α) : Act V ε α := do
  modify fun store =>
    { store with log := store.log ++ (reply.converted.map Event.converted).toArray }
  match reply.result with
  | .ok answer => return answer
  | .error error => throw (.raised error)

def write (number : Nat) (text : String) : Act V ε Unit := do
  let writer ← (writerAt number).read
  let (writer, event, failure) := writer.write number text
  modify ((writerAt number).put writer)
  event.forM emit
  match failure with
  | none => return ()
  | some error => throw (.raised error)

/-- Writes one line if tracing is on. The message is built only then. -/
def trace (tag : String) (message : Act V ε String) : Act V ε Unit := do
  let store ← get
  if store.tracing then
    let text ← message
    write store.traceWriter (tag ++ ": " ++ text ++ "\n")

def text [Textual V ε] (value : V) : Act V ε String :=
  carryOut (Textual.toText value)

end Store

end PullRange
