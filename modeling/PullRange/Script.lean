import PullRange.Action

/-!
# Steps and scripts

A producer is asked again and again, and answers each time with a value or with the report that it
is done. A `Script` is a producer whose answers are laid down in advance, one outcome for each call;
nothing stops it from yielding again after it has reported done or failed.
-/

namespace PullRange

/-- What a call of a producer brings. A producer that is done may leave a parting value. -/
inductive Step (V : Type) where
  | yield (value : V)
  | done (parting : Option V)
  deriving DecidableEq, Repr

inductive Outcome (V ε : Type) where
  | yield (value : V)
  | done (parting : Option V)
  | fail (error : ε)
  deriving DecidableEq, Repr

structure Script (V ε : Type) where
  outcome : Nat → Outcome V ε
  /-- What releasing the producer comes to; `none` if it cannot be released. -/
  releasing : Option (Except ε Unit) := none
  /-- A producer that ends on release answers done from then on. -/
  endsOnRelease : Bool := false
  /-- Calls of a silent producer leave no events. -/
  silent : Bool := false
  asked : Nat := 0
  released : Bool := false

namespace Script

variable {V ε : Type}

def ofOutcomes (outcomes : List (Outcome V ε)) (releasing : Option (Except ε Unit)) :
    Script V ε :=
  { outcome := fun call => outcomes[call]?.getD (.done none), releasing }

def ofList (items : List V) : Script V ε :=
  { outcome := fun call => (items[call]?.map .yield).getD (.done none), silent := true }

/-- Never done before it is released. -/
def endless (value : Nat → V) : Script V ε :=
  { outcome := fun call => .yield (value call), releasing := some (.ok ()), endsOnRelease := true }

def upcoming (script : Script V ε) : Outcome V ε :=
  if script.endsOnRelease && script.released then .done none else script.outcome script.asked

def ask : Action ε (Script V ε) (Step V) := do
  let script ← get
  set { script with asked := script.asked + 1 }
  match script.upcoming with
  | .yield value => return .yield value
  | .done parting => return .done parting
  | .fail error => throw (.raised error)

def release : Action ε (Script V ε) Unit := do
  let script ← get
  match script.releasing with
  | none => return ()
  | some outcome =>
      set { script with released := true }
      match outcome with
      | .ok _ => return ()
      | .error error => throw (.raised error)

end Script

end PullRange
