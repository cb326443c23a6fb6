import PullRange.Buffer
import PullRange.Consumer
import PullRange.Proofs.Answers

/-!
# What an action may change

`Action.Leads` bounds what an action may do to a state, whether or not it fails. The bound is a
relation that composes, so an action is bounded as soon as its parts are. A component with a state
of its own is bounded beside the rest: `Beside` says what may become of either.
-/

namespace PullRange

variable {ε σ ω α β : Type}

namespace Action

/-- From the state the action only leads to states that are related to it. -/
def Leads (bound : ω → ω → Prop) (action : Action ε ω α) (state : ω) : Prop :=
  bound state (action.after state)

variable {bound : ω → ω → Prop} {state : ω}

theorem Leads.of_settle {action : Action ε ω α} {answer : Except (Fault ε) α} {state' : ω}
    (haction : action state = settle answer state') (hbound : bound state state') :
    action.Leads bound state := by
  unfold Leads
  rw [after_of_settle haction]
  exact hbound

theorem Leads.of_ok {action : Action ε ω α} {value : α} {state' : ω}
    (haction : action state = .ok value state') (hbound : bound state state') :
    action.Leads bound state := by
  unfold Leads after
  rw [haction]
  exact hbound

theorem Leads.of_error {action : Action ε ω α} {fault : Fault ε} {state' : ω}
    (haction : action state = .error fault state') (hbound : bound state state') :
    action.Leads bound state := by
  unfold Leads after
  rw [haction]
  exact hbound

theorem Leads.mono {action : Action ε ω α} {wider : ω → ω → Prop}
    (hwider : ∀ state', bound state state' → wider state state')
    (haction : action.Leads bound state) : action.Leads wider state :=
  hwider _ haction

theorem Leads.to {action : Action ε ω α} {value : α} {state' : ω}
    (haction : action.Leads bound state) (hvalue : action state = .ok value state') :
    bound state state' := by
  unfold Leads after at haction
  rw [hvalue] at haction
  exact haction

theorem Leads.to_error {action : Action ε ω α} {fault : Fault ε} {state' : ω}
    (haction : action.Leads bound state) (hfault : action state = .error fault state') :
    bound state state' := by
  unfold Leads after at haction
  rw [hfault] at haction
  exact haction

/-- What follows need only be bounded where the action has come to an answer. -/
theorem Leads.bind [IsTrans ω bound] {action : Action ε ω α} {next : α → Action ε ω β}
    (haction : action.Leads bound state)
    (hnext : ∀ value state', bound state state' → (next value).Leads bound state') :
    (action >>= next).Leads bound state := by
  cases hresult : action state with
  | ok value state' =>
      have hfirst := haction.to hresult
      have hsecond := hnext value state' hfirst
      unfold Leads after at hsecond ⊢
      rw [bind_of_ok hresult]
      exact IsTrans.trans state state' _ hfirst hsecond
  | error fault state' =>
      exact .of_error (bind_of_error hresult next) (haction.to_error hresult)

theorem Leads.map {action : Action ε ω α} (change : α → β) (haction : action.Leads bound state) :
    (change <$> action).Leads bound state :=
  .of_settle (map_of_settle change (action.apply_eq_settle state)) haction

theorem Leads.of_step {action : Action ε ω α} {next : α → Action ε ω β} {value : α} {state' : ω}
    (haction : action state = .ok value state')
    (hnext : bound state ((next value).after state')) : (action >>= next).Leads bound state := by
  unfold Leads after at *
  rw [bind_of_ok haction]
  exact hnext

theorem Leads.of_read {action : Action ε ω α} {next : α → Action ε ω β} {value : α}
    (haction : action state = .ok value state) (hnext : (next value).Leads bound state) :
    (action >>= next).Leads bound state :=
  .of_step haction hnext

section Refl

variable [Std.Refl bound]

theorem leads_pure (value : α) : (pure value : Action ε ω α).Leads bound state :=
  Std.Refl.refl state

theorem leads_throw (fault : Fault ε) : (throw fault : Action ε ω α).Leads bound state :=
  Std.Refl.refl state

end Refl

end Action

/-- The component changes within `own` and the rest within `rest`. -/
def Beside (own : σ → σ → Prop) (rest : ω → ω → Prop) (before after : σ × ω) : Prop :=
  own before.1 after.1 ∧ rest before.2 after.2

section Beside

variable {own : σ → σ → Prop} {rest : ω → ω → Prop} [Std.Refl own] [Std.Refl rest]

instance : Std.Refl (Beside own rest) where
  refl state := ⟨Std.Refl.refl state.1, Std.Refl.refl state.2⟩

instance [IsTrans σ own] [IsTrans ω rest] : IsTrans (σ × ω) (Beside own rest) where
  trans _ _ _ hfirst hsecond :=
    ⟨IsTrans.trans _ _ _ hfirst.1 hsecond.1, IsTrans.trans _ _ _ hfirst.2 hsecond.2⟩

omit [Std.Refl rest] in
theorem leads_onRest {action : Action ε ω α} {state : σ × ω}
    (haction : action.Leads rest state.2) :
    (onRest action : Action ε (σ × ω) α).Leads (Beside own rest) state :=
  .of_settle (onRest_apply action state.1 state.2) ⟨Std.Refl.refl state.1, haction⟩

omit [Std.Refl own] in
theorem leads_setOwn {replacement : σ} {state : σ × ω} (hown : own state.1 replacement) :
    (setOwn replacement : Action ε (σ × ω) Unit).Leads (Beside own rest) state :=
  .of_ok rfl ⟨hown, Std.Refl.refl state.2⟩

omit [Std.Refl own] in
/-- A component at its place leads wherever it leads beside the rest, once it is put back. -/
theorem leads_focus {place : Place ω σ} {action : Action ε (σ × ω) α} {state : ω}
    (haction : ∀ component, place.find state = some component →
      action.Leads (Beside own rest) (component, state))
    (hput : ∀ component component' state', place.find state = some component →
      own component component' → rest state state' → rest state (place.put component' state')) :
    (place.focus action).Leads rest state := by
  cases hfind : place.find state with
  | none => exact .of_error (Place.focus_of_missing hfind action) (Std.Refl.refl state)
  | some component =>
      obtain ⟨hown, hrest⟩ := haction component hfind
      exact .of_settle
        (Place.focus_of_settle hfind (action.apply_eq_settle (component, state)))
        (hput component _ _ hfind hown hrest)

end Beside

theorem leads_read {bound : ω → ω → Prop} [Std.Refl bound] (place : Place ω σ) (state : ω) :
    (place.read : Action ε ω σ).Leads bound state := by
  cases hfind : place.find state with
  | none => exact .of_error (Place.read_of_missing hfind) (Std.Refl.refl state)
  | some component => exact .of_ok (Place.read_of_find hfind) (Std.Refl.refl state)

/-- A component of which nothing need be known. -/
def Freely : σ → σ → Prop := fun _ _ => True

instance : Std.Refl (Freely : σ → σ → Prop) where
  refl _ := trivial

instance : IsTrans σ Freely where
  trans _ _ _ _ _ := trivial

theorem leads_onOwn {rest : ω → ω → Prop} [Std.Refl rest] (action : Action ε σ α)
    (state : σ × ω) : (onOwn action : Action ε (σ × ω) α).Leads (Beside Freely rest) state :=
  .of_settle (onOwn_of_settle (action.apply_eq_settle state.1) state.2)
    ⟨trivial, Std.Refl.refl state.2⟩

section Components

variable {H V I R : Type} {rest : ω → ω → Prop} [Std.Refl rest] [IsTrans ω rest]

/-- The range keeps its executor, and a range without one stays as it is. -/
structure SameExecutor (before after : Range H V) : Prop where
  executor : after.executor = before.executor
  idle : before.executor = none → after = before

instance : Std.Refl (SameExecutor : Range H V → Range H V → Prop) where
  refl _ := ⟨rfl, fun _ => rfl⟩

instance : IsTrans (Range H V) SameExecutor where
  trans _ _ _ hfirst hsecond := by
    refine ⟨hsecond.executor.trans hfirst.executor, fun hnone => ?_⟩
    exact (hsecond.idle (hfirst.executor.trans hnone)).trans (hfirst.idle hnone)

variable {services : Services H V ε ω} {range : Range H V} {state : ω}

theorem pull_leads
    (hask : ∀ handle, range.executor = some handle → (services.ask handle).Leads rest state)
    (hend : ∀ state, (services.trace "pull" (pure "exhausted")).Leads rest state)
    (hvalue : ∀ value state, (services.trace "pull" (services.text value)).Leads rest state) :
    (Range.pull services).Leads (Beside SameExecutor rest) (range, state) := by
  cases hexecutor : range.executor with
  | none =>
      exact .of_error (Range.pull_of_no_executor services range state hexecutor)
        (Std.Refl.refl (range, state))
  | some handle =>
      unfold Range.pull
      refine .of_read (getOwn_apply range state) ?_
      simp only [hexecutor]
      refine .bind (leads_onRest (hask handle hexecutor)) ?_
      intro step state' hstate'
      cases step with
      | done parting =>
          exact .bind (leads_onRest (hend state'.2)) fun _ _ _ => Action.leads_pure false
      | yield value =>
          have hheld : state'.1.executor = some handle := hstate'.1.executor.trans hexecutor
          have hsame : SameExecutor state'.1 { executor := some handle, cache := some value } :=
            ⟨hheld.symm, fun hnone => nomatch hheld.symm.trans hnone⟩
          refine .bind (leads_setOwn hsame) ?_
          intro _ state'' _
          exact .bind (leads_onRest (hvalue value state''.2)) fun _ _ _ => Action.leads_pure true

theorem cursor_next_leads (cursor : Cursor)
    (hpull : (Range.pull services).Leads (Beside SameExecutor rest) (range, state)) :
    (cursor.next services).Leads (Beside SameExecutor rest) (range, state) := by
  unfold Cursor.next
  exact .bind hpull fun _ _ _ => Action.leads_pure _

omit [IsTrans ω rest] in
theorem get_leads (state : Range H V × ω) :
    (Range.get : Action ε (Range H V × ω) V).Leads (Beside SameExecutor rest) state := by
  unfold Range.get
  refine .of_read (getOwn_apply state.1 state.2) ?_
  cases state.1.cache with
  | none => exact Action.leads_throw _
  | some value => exact Action.leads_pure value

theorem turn_leads (cursor? : Option Cursor)
    (hpull : (Range.pull services).Leads (Beside SameExecutor rest) (range, state)) :
    (Range.turn services cursor?).Leads (Beside SameExecutor rest) (range, state) := by
  have hread (advance : Action ε (Range H V × ω) Cursor)
      (hadvance : advance.Leads (Beside SameExecutor rest) (range, state)) :
      (do
        let cursor ← advance
        if cursor.notEquals .shared then
          let value ← Range.get
          return some (cursor, value)
        else
          return none : Action ε (Range H V × ω) (Option (Cursor × V))).Leads
        (Beside SameExecutor rest) (range, state) := by
    refine .bind hadvance ?_
    intro cursor state' _
    split
    · exact .bind (get_leads state') fun _ _ _ => Action.leads_pure _
    · exact Action.leads_pure _
  cases cursor? with
  | none => exact hread _ (cursor_next_leads _ hpull)
  | some cursor => exact hread _ (cursor_next_leads cursor hpull)

theorem walk_next_leads {turn : Turn V ε ω}
    (hturn : ∀ cursor? state, (turn cursor?).Leads rest state) (state : Walk × ω) :
    (Walk.next turn).Leads (Beside Freely rest) state := by
  have hresume (cursor? : Option Cursor) :
      (Walk.resume turn cursor?).Leads (Beside Freely rest) state := by
    unfold Walk.resume
    refine .bind (leads_setOwn trivial) ?_
    intro _ state' _
    refine .bind (leads_onRest (hturn cursor? state'.2)) ?_
    intro turned state'' _
    cases turned with
    | none => exact Action.leads_pure _
    | some turned => exact .bind (leads_setOwn trivial) fun _ _ _ => Action.leads_pure _
  unfold Walk.next
  refine .of_read (getOwn_apply state.1 state.2) ?_
  cases state.1 with
  | unstarted => exact hresume none
  | suspended cursor => exact hresume (some cursor)
  | finished => exact Action.leads_pure _

section Walks

variable {turn : Turn V ε ω} (hturn : ∀ cursor? state, (turn cursor?).Leads rest state)

include hturn

theorem collect_leads (fuel : Nat) (collected : Array V) (state : Walk × ω) :
    (Walk.collect turn fuel collected).Leads (Beside Freely rest) state := by
  induction fuel generalizing collected state with
  | zero => exact Action.leads_throw _
  | succ fuel ih =>
      refine .bind (walk_next_leads hturn state) ?_
      intro step state' _
      cases step with
      | done parting => exact Action.leads_pure _
      | yield value => exact ih _ state'

theorem take_bounded (wanted : Nat) (got : Array V) (state : Walk × ω) :
    rest state.2 (Walk.take turn wanted got state).2.2 := by
  induction wanted generalizing got state with
  | zero => exact Std.Refl.refl state.2
  | succ wanted ih =>
      have hnext := walk_next_leads hturn state
      unfold Walk.take
      cases hstep : Walk.next turn state with
      | error fault state' => exact (hnext.to_error hstep).2
      | ok step state' =>
          cases step with
          | done parting => exact (hnext.to hstep).2
          | yield value => exact IsTrans.trans _ _ _ (hnext.to hstep).2 (ih _ state')

end Walks

section Printing

variable {printer : Printer V ε ω}
  (hformat : ∀ value index state, (printer.format value index).Leads rest state)
  (hwrite : ∀ text state, (printer.write text).Leads rest state)

include hformat hwrite

/-- Pulling need only be bounded in the states that printing comes to. -/
theorem printLines_leads (fuel count : Nat) (cursor : Cursor) {state : Range H V × ω}
    (hpull : ∀ later, Beside SameExecutor rest state later →
      (Range.pull services).Leads (Beside SameExecutor rest) later) :
    (cursor.printLines services printer fuel count).Leads (Beside SameExecutor rest) state := by
  induction fuel generalizing count cursor state with
  | zero => exact Action.leads_throw _
  | succ fuel ih =>
      unfold Cursor.printLines
      split
      · refine .bind (get_leads state) fun value read hread => ?_
        refine .bind (leads_onRest (hformat value count read.2)) fun line formatted hformatted => ?_
        refine .bind (leads_onRest (hwrite line formatted.2)) fun _ written hwritten => ?_
        refine .bind (leads_onRest (hwrite "\n" written.2)) fun _ ended hended => ?_
        have hreached : Beside SameExecutor rest state ended :=
          IsTrans.trans _ _ _ (IsTrans.trans _ _ _ hread hformatted)
            (IsTrans.trans _ _ _ hwritten hended)
        have hnext := cursor_next_leads cursor (hpull ended hreached)
        refine .bind hnext fun _ advanced hadvanced => ih _ _ fun later hlater => ?_
        exact hpull later
          (IsTrans.trans _ _ _ hreached (IsTrans.trans _ _ _ hadvanced hlater))
      · exact Action.leads_pure _

theorem range_print_leads (fuel : Nat) {state : Range H V × ω}
    (hpull : ∀ later, Beside SameExecutor rest state later →
      (Range.pull services).Leads (Beside SameExecutor rest) later) :
    (Range.print services printer fuel).Leads (Beside SameExecutor rest) state := by
  unfold Range.print
  have hstart := cursor_next_leads { atEnd := true } (hpull state (Std.Refl.refl state))
  refine .bind hstart fun cursor started hstarted => ?_
  exact printLines_leads hformat hwrite fuel 0 cursor fun later hlater =>
    hpull later (IsTrans.trans _ _ _ hstarted hlater)

end Printing

/-! ## Buffers -/

variable {feed : Feed I R ε ω}

theorem fill_bounded (hask : ∀ state, feed.ask.Leads rest state)
    (hcompute : ∀ input index state, (feed.compute input index).Leads rest state)
    (room consumed : Nat) (chunk : Array R) (state : ω) :
    rest state (Buffer.fill feed room consumed chunk state).2 := by
  induction room generalizing consumed chunk state with
  | zero => exact Std.Refl.refl state
  | succ room ih =>
      unfold Buffer.fill
      cases hstep : feed.ask state with
      | error fault state' => exact (hask state).to_error hstep
      | ok step state' =>
          have hasked := (hask state).to hstep
          cases step with
          | done parting => exact hasked
          | yield input =>
              have hcomputed := hcompute input consumed state'
              cases hresult : feed.compute input consumed state' with
              | error fault state'' =>
                  simp only [hresult]
                  exact IsTrans.trans _ _ _ hasked (hcomputed.to_error hresult)
              | ok result state'' =>
                  simp only [hresult]
                  have hcomputed := hcomputed.to hresult
                  exact IsTrans.trans _ _ _ (IsTrans.trans _ _ _ hasked hcomputed) (ih _ _ _)

theorem handOut_leads (state : Buffer R ε × ω) :
    (Buffer.handOut : Action ε (Buffer R ε × ω) (Step R)).Leads (Beside Freely rest) state := by
  unfold Buffer.handOut
  refine .of_read (getOwn_apply state.1 state.2) ?_
  split
  · exact .bind (leads_setOwn trivial) fun _ _ _ => Action.leads_pure _
  · exact Action.leads_pure _

theorem refill_leads (hask : ∀ state, feed.ask.Leads rest state)
    (hcompute : ∀ input index state, (feed.compute input index).Leads rest state)
    (htrace : ∀ message state, (feed.trace "underflow" (pure message)).Leads rest state)
    (state : Buffer R ε × ω) : (Buffer.refill feed).Leads (Beside Freely rest) state := by
  unfold Buffer.refill
  refine .of_read (getOwn_apply state.1 state.2) ?_
  split
  · have hfilled : (Action.ofTotal
        (Buffer.fill feed state.1.capacity state.1.consumed #[]) : Action ε ω _).Leads rest
          state.2 :=
      .of_ok (Action.ofTotal_apply _ state.2)
        (fill_bounded hask hcompute state.1.capacity state.1.consumed #[] state.2)
    refine .bind (leads_onRest hfilled) ?_
    intro filled state' _
    have htraced (state : Buffer R ε × ω) :
        (do
          onRest (feed.trace "underflow" (pure (toString filled.chunk.size ++ " results")))
          return !filled.chunk.isEmpty : Action ε (Buffer R ε × ω) Bool).Leads
            (Beside Freely rest) state :=
      .bind (leads_onRest (htrace _ state.2)) fun _ _ _ => Action.leads_pure _
    cases filled.stop with
    | full => exact .bind (leads_setOwn trivial) fun _ state' _ => htraced state'
    | drained => exact .bind (leads_setOwn trivial) fun _ state' _ => htraced state'
    | failed fault =>
        simp only
        split
        · refine .bind (leads_setOwn trivial) fun _ _ _ => ?_
          exact .bind (Action.leads_throw fault) fun _ state' _ => htraced state'
        · exact .bind (leads_setOwn trivial) fun _ state' _ => htraced state'
  · exact .bind (leads_setOwn trivial) fun _ _ _ => Action.leads_pure _

theorem buffer_next_leads (hask : ∀ state, feed.ask.Leads rest state)
    (hcompute : ∀ input index state, (feed.compute input index).Leads rest state)
    (htrace : ∀ message state, (feed.trace "underflow" (pure message)).Leads rest state)
    (state : Buffer R ε × ω) : (Buffer.next feed).Leads (Beside Freely rest) state := by
  unfold Buffer.next
  refine .of_read (getOwn_apply state.1 state.2) ?_
  split
  · exact handOut_leads state
  · split
    · exact .bind (leads_setOwn trivial) fun _ _ _ => Action.leads_throw _
    · refine .bind (refill_leads hask hcompute htrace state) ?_
      intro refilled state' _
      split
      · exact handOut_leads state'
      · exact Action.leads_pure _

def StaysAtEnd (before after : Buffer R ε) : Prop :=
  before.isEof → after.isEof

theorem buffer_next_of_isEof {buffer : Buffer R ε} (heof : buffer.isEof) (feed : Feed I R ε ω)
    (state : ω) :
    Buffer.next feed (buffer, state) =
      .ok (.done none) ({ buffer with chunk := #[], position := 0 }, state) := by
  obtain ⟨hheld, hdrained, hdeferred⟩ := buffer.isEof_iff.mp heof
  rw [Buffer.next, Action.bind_of_ok (getOwn_apply buffer state), if_neg (Nat.not_lt.mpr hdrained)]
  simp only [hdeferred]
  rw [Action.bind_of_ok (Buffer.refill_of_not_held feed buffer state hheld), hdeferred]
  rfl

theorem buffer_next_stays (feed : Feed I R ε ω) (state : Buffer R ε × ω) :
    StaysAtEnd state.1 ((Buffer.next feed).after state).1 := by
  intro heof
  have hafter : (Buffer.next feed).after state =
      ({ state.1 with chunk := #[], position := 0 }, state.2) :=
    Action.after_of_ok (buffer_next_of_isEof heof feed state.2)
  obtain ⟨hheld, -, hdeferred⟩ := state.1.isEof_iff.mp heof
  rw [hafter]
  exact (Buffer.isEof_iff _).mpr ⟨hheld, Nat.le_refl 0, hdeferred⟩

theorem buffer_release_leads (hrelease : ∀ state, feed.release.Leads rest state)
    (state : Buffer R ε × ω) : (Buffer.release feed).Leads (Beside Freely rest) state := by
  unfold Buffer.release
  refine .of_read (getOwn_apply state.1 state.2) ?_
  refine .bind (leads_setOwn trivial) ?_
  intro _ state' _
  split
  · exact leads_onRest (hrelease state'.2)
  · exact Action.leads_pure _

end Components

end PullRange
