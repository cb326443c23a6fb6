import PullRange.Fault

/-!
# Actions and places

An `Action` changes a state and may fail; a failing action keeps what it changed before it failed.
Each component of the library acts on its own state paired with the state `ω` of everything it calls
on, so `onRest` lets it call on the rest, and a `Place` says where a component is kept in a larger
state, so that `Place.focus` runs the component's actions there.
-/

namespace PullRange

abbrev Action (ε ω α : Type) := EStateM (Fault ε) ω α

variable {ε σ ω α : Type}

def Action.ofTotal (change : ω → α × ω) : Action ε ω α := fun state =>
  let (answer, state) := change state
  .ok answer state

def onRest (action : Action ε ω α) : Action ε (σ × ω) α := fun (own, rest) =>
  match action rest with
  | .ok answer rest => .ok answer (own, rest)
  | .error fault rest => .error fault (own, rest)

def onOwn (action : Action ε σ α) : Action ε (σ × ω) α := fun (own, rest) =>
  match action own with
  | .ok answer own => .ok answer (own, rest)
  | .error fault own => .error fault (own, rest)

def getOwn : Action ε (σ × ω) σ := fun (own, rest) =>
  .ok own (own, rest)

def setOwn (own : σ) : Action ε (σ × ω) Unit := fun (_, rest) =>
  .ok () (own, rest)

@[simp]
theorem getOwn_apply (own : σ) (rest : ω) :
    (getOwn : Action ε (σ × ω) σ) (own, rest) = .ok own (own, rest) := rfl

@[simp]
theorem setOwn_apply (own replacement : σ) (rest : ω) :
    (setOwn replacement : Action ε (σ × ω) Unit) (own, rest) = .ok () (replacement, rest) := rfl

structure Place (ω σ : Type) where
  find : ω → Option σ
  put : σ → ω → ω

/-- Runs a component's action on the component found at the place. While it runs, the place still
shows the component as it was; afterwards, failed or not, the component is put back. -/
def Place.focus (place : Place ω σ) (action : Action ε (σ × ω) α) : Action ε ω α := fun state =>
  match place.find state with
  | none => .error .missing state
  | some own =>
      match action (own, state) with
      | .ok answer (own, state) => .ok answer (place.put own state)
      | .error fault (own, state) => .error fault (place.put own state)

def Place.read (place : Place ω σ) : Action ε ω σ := fun state =>
  match place.find state with
  | none => .error .missing state
  | some own => .ok own state

end PullRange
