import Mathlib.Tactic.Common
import PullRange.Script

/-!
# What actions come to

An action comes to an answer, which may be a fault, and leaves a state behind in either case.
`settle` pairs the two, so that one equation says what an action does whether or not it fails, and
`Action.answers` lists the answers of an action that is performed again and again.
-/

namespace PullRange

variable {ε σ ω α β : Type}

def settle (answer : Except (Fault ε) α) (state : ω) : EStateM.Result (Fault ε) ω α :=
  match answer with
  | .ok value => .ok value state
  | .error fault => .error fault state

@[simp]
theorem settle_ok (value : α) (state : ω) :
    settle (.ok value : Except (Fault ε) α) state = .ok value state := rfl

@[simp]
theorem settle_error (fault : Fault ε) (state : ω) :
    settle (.error fault : Except (Fault ε) α) state = .error fault state := rfl

namespace Action

@[simp]
theorem pure_apply (value : α) (state : ω) :
    (pure value : Action ε ω α) state = .ok value state := rfl

@[simp]
theorem throw_apply (fault : Fault ε) (state : ω) :
    (throw fault : Action ε ω α) state = .error fault state := rfl

@[simp]
theorem get_apply (state : ω) : (get : Action ε ω ω) state = .ok state state := rfl

@[simp]
theorem set_apply (replacement state : ω) :
    (set replacement : Action ε ω PUnit) state = .ok ⟨⟩ replacement := rfl

@[simp]
theorem modify_apply (change : ω → ω) (state : ω) :
    (modify change : Action ε ω PUnit) state = .ok ⟨⟩ (change state) := rfl

@[simp]
theorem ofTotal_apply (change : ω → α × ω) (state : ω) :
    (Action.ofTotal change : Action ε ω α) state = .ok (change state).1 (change state).2 := rfl

theorem bind_apply (action : Action ε ω α) (next : α → Action ε ω β) (state : ω) :
    (action >>= next) state =
      match action state with
      | .ok value state => next value state
      | .error fault state => .error fault state := by
  change EStateM.bind action next state = _
  unfold EStateM.bind
  cases action state <;> rfl

theorem bind_of_ok {action : Action ε ω α} {state state' : ω} {value : α}
    (haction : action state = .ok value state') (next : α → Action ε ω β) :
    (action >>= next) state = next value state' := by
  rw [bind_apply, haction]

theorem bind_of_error {action : Action ε ω α} {state state' : ω} {fault : Fault ε}
    (haction : action state = .error fault state') (next : α → Action ε ω β) :
    (action >>= next) state = .error fault state' := by
  rw [bind_apply, haction]

theorem bind_of_settle {action : Action ε ω α} {state state' : ω}
    {answer : Except (Fault ε) α} (next : α → Action ε ω β) :
    action state = settle answer state' →
    (action >>= next) state =
      match answer with
      | .ok value => next value state'
      | .error fault => .error fault state' := by
  intro haction
  cases answer with
  | ok value => exact bind_of_ok haction next
  | error fault => exact bind_of_error haction next

theorem map_of_settle {action : Action ε ω α} {state state' : ω} {answer : Except (Fault ε) α}
    (change : α → β) (haction : action state = settle answer state') :
    (change <$> action) state = settle (answer.map change) state' := by
  change EStateM.map change action state = _
  unfold EStateM.map
  rw [haction]
  cases answer <;> rfl

def answer (action : Action ε ω α) (state : ω) : Except (Fault ε) α :=
  match action state with
  | .ok value _ => .ok value
  | .error fault _ => .error fault

def after (action : Action ε ω α) (state : ω) : ω :=
  match action state with
  | .ok _ state => state
  | .error _ state => state

theorem apply_eq_settle (action : Action ε ω α) (state : ω) :
    action state = settle (action.answer state) (action.after state) := by
  unfold answer after
  cases action state <;> rfl

theorem answer_of_settle {action : Action ε ω α} {state state' : ω}
    {answer : Except (Fault ε) α} (haction : action state = settle answer state') :
    action.answer state = answer := by
  unfold Action.answer
  rw [haction]
  cases answer <;> rfl

theorem after_of_settle {action : Action ε ω α} {state state' : ω}
    {answer : Except (Fault ε) α} (haction : action state = settle answer state') :
    action.after state = state' := by
  unfold Action.after
  rw [haction]
  cases answer <;> rfl

theorem answer_of_ok {action : Action ε ω α} {state state' : ω} {value : α}
    (haction : action state = .ok value state') : action.answer state = .ok value := by
  unfold Action.answer
  rw [haction]

theorem answer_of_error {action : Action ε ω α} {state state' : ω} {fault : Fault ε}
    (haction : action state = .error fault state') : action.answer state = .error fault := by
  unfold Action.answer
  rw [haction]

theorem after_of_ok {action : Action ε ω α} {state state' : ω} {value : α}
    (haction : action state = .ok value state') : action.after state = state' := by
  unfold Action.after
  rw [haction]

theorem after_of_error {action : Action ε ω α} {state state' : ω} {fault : Fault ε}
    (haction : action state = .error fault state') : action.after state = state' := by
  unfold Action.after
  rw [haction]

theorem answer_bind (action : Action ε ω α) (next : α → Action ε ω β) (state : ω) :
    (action >>= next).answer state =
      match action.answer state with
      | .ok value => (next value).answer (action.after state)
      | .error fault => .error fault := by
  unfold answer after
  rw [bind_apply]
  cases action state <;> rfl

theorem after_bind (action : Action ε ω α) (next : α → Action ε ω β) (state : ω) :
    (action >>= next).after state =
      match action.answer state with
      | .ok value => (next value).after (action.after state)
      | .error _ => action.after state := by
  unfold answer after
  rw [bind_apply]
  cases action state <;> rfl

def answers (action : Action ε ω α) : (calls : Nat) → ω → List (Except (Fault ε) α)
  | 0, _ => []
  | calls + 1, state => action.answer state :: action.answers calls (action.after state)

/-- If every call answers what is expected of it and readies the state for the next one, then so
do all calls together. -/
theorem answers_eq_map (action : Action ε ω α) (expected : Nat → Except (Fault ε) α)
    (Ready : Nat → ω → Prop)
    (hcall : ∀ call state, Ready call state →
      ∃ state', Ready (call + 1) state' ∧ action state = settle (expected call) state')
    (calls call : Nat) (state : ω) (hready : Ready call state) :
    action.answers calls state = (List.range calls).map fun later => expected (call + later) := by
  induction calls generalizing call state with
  | zero => rfl
  | succ calls ih =>
      obtain ⟨state', hready', hsettle⟩ := hcall call state hready
      rw [answers, answer_of_settle hsettle, after_of_settle hsettle, ih (call + 1) state' hready',
        List.range_succ_eq_map, List.map_cons, List.map_map]
      refine congrArg₂ _ rfl (List.map_congr_left fun later _ => ?_)
      exact congrArg expected (by simp only [Nat.succ_eq_add_one]; omega)

end Action

@[simp]
theorem onRest_apply (action : Action ε ω α) (own : σ) (rest : ω) :
    onRest action (own, rest) = settle (action.answer rest) (own, action.after rest) := by
  unfold onRest Action.answer Action.after
  cases haction : action rest <;> simp [haction]

theorem onRest_of_settle {action : Action ε ω α} {rest rest' : ω} {answer : Except (Fault ε) α}
    (haction : action rest = settle answer rest') (own : σ) :
    onRest action (own, rest) = settle answer (own, rest') := by
  rw [onRest_apply, Action.answer_of_settle haction, Action.after_of_settle haction]

theorem onRest_of_ok {action : Action ε ω α} {rest rest' : ω} {value : α}
    (haction : action rest = .ok value rest') (own : σ) :
    onRest action (own, rest) = .ok value (own, rest') := by
  unfold onRest
  simp only [haction]

theorem onOwn_of_settle {action : Action ε σ α} {own own' : σ} {answer : Except (Fault ε) α}
    (haction : action own = settle answer own') (rest : ω) :
    onOwn action (own, rest) = settle answer (own', rest) := by
  unfold onOwn
  simp only [haction]
  cases answer <;> rfl

theorem Place.focus_of_settle {place : Place ω σ} {action : Action ε (σ × ω) α} {state state' : ω}
    {own own' : σ} {answer : Except (Fault ε) α} (hfind : place.find state = some own)
    (haction : action (own, state) = settle answer (own', state')) :
    place.focus action state = settle answer (place.put own' state') := by
  unfold Place.focus
  simp only [hfind, haction]
  cases answer <;> rfl

theorem Place.focus_apply {place : Place ω σ} {state : ω} {own : σ}
    (hfind : place.find state = some own) (action : Action ε (σ × ω) α) :
    place.focus action state =
      settle (action.answer (own, state))
        (place.put (action.after (own, state)).1 (action.after (own, state)).2) :=
  Place.focus_of_settle hfind (action.apply_eq_settle (own, state))

theorem Place.read_apply (place : Place ω σ) (state : ω) :
    (place.read : Action ε ω σ) state =
      settle ((place.find state).elim (.error .missing) .ok) state := by
  unfold Place.read
  cases place.find state <;> simp

theorem Place.read_of_find {place : Place ω σ} {state : ω} {own : σ}
    (hfind : place.find state = some own) :
    (place.read : Action ε ω σ) state = .ok own state := by
  unfold Place.read
  rw [hfind]

theorem Place.read_of_missing {place : Place ω σ} {state : ω} (hmissing : place.find state = none) :
    (place.read : Action ε ω σ) state = .error .missing state := by
  unfold Place.read
  rw [hmissing]

theorem Place.focus_of_missing {place : Place ω σ} {state : ω} (hmissing : place.find state = none)
    (action : Action ε (σ × ω) α) : place.focus action state = .error .missing state := by
  unfold Place.focus
  rw [hmissing]

/-! ## Scripts -/

def Outcome.answer {V ε : Type} : Outcome V ε → Except (Fault ε) (Step V)
  | .yield value => .ok (.yield value)
  | .done parting => .ok (.done parting)
  | .fail error => .error (.raised error)

def Outcome.value? {V ε : Type} : Outcome V ε → Option V
  | .yield value => some value
  | .done _ => none
  | .fail _ => none

def Outcome.isDone {V ε : Type} : Outcome V ε → Bool
  | .done _ => true
  | _ => false

namespace Script

variable {V : Type}

def later (script : Script V ε) (calls : Nat) : Script V ε :=
  { script with asked := script.asked + calls }

@[simp]
theorem later_zero (script : Script V ε) : script.later 0 = script := rfl

@[simp]
theorem later_later (script : Script V ε) (calls more : Nat) :
    (script.later calls).later more = script.later (calls + more) := by
  simp [later, Nat.add_assoc]

/-- The outcome of the call after so many others. -/
def coming (script : Script V ε) (call : Nat) : Outcome V ε :=
  (script.later call).upcoming

theorem coming_later (script : Script V ε) (calls call : Nat) :
    (script.later calls).coming call = script.coming (calls + call) := by
  rw [coming, later_later, coming]

theorem ask_apply (script : Script V ε) :
    (ask : Action ε (Script V ε) (Step V)) script =
      settle script.upcoming.answer (script.later 1) := by
  unfold ask
  simp only [Action.bind_apply, Action.get_apply, Action.set_apply]
  cases script.upcoming <;> rfl

/-- The script once it has been released, if it can be. -/
def letGo (script : Script V ε) : Script V ε :=
  { script with released := script.releasing.isSome || script.released }

theorem release_apply (script : Script V ε) :
    (release : Action ε (Script V ε) Unit) script =
      settle ((script.releasing.getD (.ok ())).mapError .raised) script.letGo := by
  obtain ⟨outcome, releasing, endsOnRelease, silent, asked, released⟩ := script
  cases releasing with
  | none => rfl
  | some outcome => cases outcome <;> rfl

end Script

end PullRange
