import PullRange.Store

/-!
# Calling the executors of a store

An object is made after everything that it refers to, so an executor only ever calls on executors
with smaller numbers. `Store.servicesBelow` makes that the structure of the calls: the executors
below a bound are served by those below them, and nothing else can be reached.
-/

namespace PullRange.Store

variable {V ε : Type}

abbrev StoreServices (V ε : Type) := Services Nat V ε (Store V ε)

def turnOn (services : StoreServices V ε) (range : Nat) : Turn V ε (Store V ε) := fun cursor? =>
  (rangeAt range).focus (Range.turn services cursor?)

def askScript (number : Nat) (role : Role) : Act V ε (Step V) := do
  let script ← (scriptOf number).read
  unless script.silent do
    emit (.asked role number)
  (scriptOf number).focus (onOwn Script.ask)

def releaseScript (number : Nat) (role : Role) : Act V ε Unit := do
  let script ← (scriptOf number).read
  if script.releasing.isSome then
    emit (.released role number)
  (scriptOf number).focus (onOwn Script.release)

def askSource (services : StoreServices V ε) (number : Nat) : Act V ε (Step V) := do
  let executor ← (executorAt number).read
  match executor.source with
  | .script _ => askScript number executor.role
  | .walk range _ => (walkOf number).focus (Walk.next (turnOn services range))

/-- Lets a source go. A walk is only stopped. -/
def releaseSource (number : Nat) : Act V ε Unit := do
  let executor ← (executorAt number).read
  match executor.source with
  | .script _ => releaseScript number executor.role
  | .walk _ walk => modify ((walkOf number).put walk.stop)

/-- What the buffer of a stage calls on. Every computation is noted before it is carried out. -/
def feed (services : StoreServices V ε) (number : Nat) (stage : Stage V ε) :
    Feed V V ε (Store V ε) where
  ask := askSource services number
  release := releaseSource number
  compute input index := do
    emit (.computing number input index)
    carryOut (stage.compute input index)
  trace := trace

def askExecutor (services : StoreServices V ε) (number : Nat) : Act V ε (Step V) := do
  let executor ← (executorAt number).read
  note (.ask number)
  match executor.stage with
  | none => askSource services number
  | some stage => (bufferOf number).focus (Buffer.next (feed services number stage))

def releaseExecutor (services : StoreServices V ε) (number : Nat) : Act V ε Unit := do
  let executor ← (executorAt number).read
  if executor.canRelease then
    note (.release number)
  match executor.stage with
  | none => releaseSource number
  | some stage => (bufferOf number).focus (Buffer.release (feed services number stage))

/-- The services of the executors with numbers below a bound. -/
def servicesBelow [Textual V ε] : (bound : Nat) → StoreServices V ε
  | 0 =>
      { ask := fun _ => throw .missing
        release := fun _ => throw .missing
        trace := trace
        text := text }
  | bound + 1 =>
      let lower := servicesBelow bound
      { lower with
        ask := fun number => if number = bound then askExecutor lower bound else lower.ask number
        release := fun number =>
          if number = bound then releaseExecutor lower bound else lower.release number }

def services [Textual V ε] (store : Store V ε) : StoreServices V ε :=
  servicesBelow store.executors.size

end PullRange.Store
