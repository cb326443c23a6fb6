import PullRange.Action
import PullRange.Script

/-!
# Ranges

A range holds an executor and the last result that was pulled from it. Nothing is pulled ahead:
`Range.pull` asks the executor exactly once, keeps the result in the cache, and only then traces it.
A range gives its executor away by `Range.move` and lets it go by `Range.close`; after either,
pulling fails.
-/

namespace PullRange

/-- What a range calls on: the executors, by their handles, and the trace. The message of a trace
line is an action of its own, which is run only if the line is written. -/
structure Services (H V ε ω : Type) where
  ask : H → Action ε ω (Step V)
  release : H → Action ε ω Unit
  trace : (tag : String) → (message : Action ε ω String) → Action ε ω Unit
  text : V → Action ε ω String

structure Range (H V : Type) where
  executor : Option H
  cache : Option V
  deriving DecidableEq, Repr

namespace Range

variable {H V ε ω : Type}

def holding (executor : Option H) : Range H V :=
  { executor, cache := none }

/-- Fetches the next result into the cache and answers whether there was one. Neither the end nor a
failure of the executor touches the cache. -/
def pull (services : Services H V ε ω) : Action ε (Range H V × ω) Bool := do
  let range ← getOwn
  match range.executor with
  | none => throw .noExecutor
  | some handle =>
      match ← onRest (services.ask handle) with
      | .done _ =>
          onRest (services.trace "pull" (pure "exhausted"))
          return false
      | .yield value =>
          setOwn { range with cache := some value }
          onRest (services.trace "pull" (services.text value))
          return true

theorem pull_of_no_executor (services : Services H V ε ω) (range : Range H V) (rest : ω)
    (hempty : range.executor = none) :
    pull services (range, rest) = .error .noExecutor (range, rest) := by
  simp only [pull, bind, EStateM.bind, getOwn_apply, hempty]
  rfl

/-- The cached result. A cached value is never confused with an empty cache. -/
def get : Action ε (Range H V × ω) V := do
  match (← getOwn).cache with
  | none => throw .nothingFetched
  | some value => return value

def move (range : Range H V) : Range H V × Range H V :=
  (range, holding none)

/-- Lets the executor go before it is told, so that it is told at most once. -/
def close (services : Services H V ε ω) : Action ε (Range H V × ω) Unit := do
  let range ← getOwn
  match range.executor with
  | none => return ()
  | some handle =>
      setOwn { range with executor := none }
      onRest (services.release handle)

end Range

end PullRange
