import PullRange.Proofs.Advances

/-!
# Where the faults of a buffer come from

`Feed.marked` tags every fault with what it comes from: the resource, the computation or the trace.
A buffer does not look into the faults that it passes on or defers, so it does not notice, and the
origin of each of its failures can be told. An `Erasure` says what is forgotten of the faults and the
states of a run, and `Action.Erases` that another run does the same but for that.
-/

namespace PullRange

variable {I R ε ε' ω ω' α : Type}

structure Erasure (ε ω ε' ω' : Type) where
  fault : Fault ε' → Fault ε
  /-- The states are the same but for what is forgotten. -/
  alike : ω → ω' → Prop

/-- From alike states the actions come to the same answers and alike states. -/
def Action.Erases (erasure : Erasure ε ω ε' ω') (left : Action ε ω α) (right : Action ε' ω' α) :
    Prop :=
  ∀ state state', erasure.alike state state' →
    left.answer state = (right.answer state').mapError erasure.fault ∧
      erasure.alike (left.after state) (right.after state')

theorem Action.Erases.of_settle {erasure : Erasure ε ω ε' ω'} {left : Action ε ω α}
    {right : Action ε' ω' α} (herases : left.Erases erasure right) {state : ω} {state' after' : ω'}
    (halike : erasure.alike state state') (answer : Except (Fault ε') α)
    (hright : right state' = settle answer after') :
    ∃ after, left state = settle (answer.mapError erasure.fault) after ∧
      erasure.alike after after' := by
  obtain ⟨hanswer, hafter⟩ := herases state state' halike
  rw [answer_of_settle hright] at hanswer
  rw [after_of_settle hright] at hafter
  exact ⟨left.after state, hanswer ▸ left.apply_eq_settle state, hafter⟩

/-- The feeds do the same but for what is forgotten, leaving aside how they trace. -/
structure Feed.Shadows (erasure : Erasure ε ω ε' ω') (left : Feed I R ε ω)
    (right : Feed I R ε' ω') : Prop where
  ask : left.ask.Erases erasure right.ask
  release : left.release.Erases erasure right.release
  compute : ∀ input index, (left.compute input index).Erases erasure (right.compute input index)

structure Feed.Erases (erasure : Erasure ε ω ε' ω') (left : Feed I R ε ω)
    (right : Feed I R ε' ω') : Prop extends left.Shadows erasure right where
  trace : ∀ message, (left.trace "underflow" (pure message)).Erases erasure
    (right.trace "underflow" (pure message))

def Stop.mapFault (fault : Fault ε' → Fault ε) : Stop ε' → Stop ε
  | .full => .full
  | .drained => .drained
  | .failed failure => .failed (fault failure)

@[simps]
def Filled.mapFault (fault : Fault ε' → Fault ε) (filled : Filled R ε') : Filled R ε where
  chunk := filled.chunk
  consumed := filled.consumed
  stop := filled.stop.mapFault fault

namespace Buffer

@[simps]
def mapFault (fault : Fault ε' → Fault ε) (buffer : Buffer R ε') : Buffer R ε where
  capacity := buffer.capacity
  capacity_pos := buffer.capacity_pos
  held := buffer.held
  chunk := buffer.chunk
  position := buffer.position
  consumed := buffer.consumed
  deferred := buffer.deferred.map fault

theorem settled_mapFault (fault : Fault ε' → Fault ε) (buffer : Buffer R ε')
    (filled : Filled R ε') :
    (buffer.mapFault fault).settled (filled.mapFault fault) =
      (buffer.settled filled).mapFault fault := by
  obtain ⟨chunk, consumed, stop⟩ := filled
  cases stop with
  | full => rfl
  | drained => rfl
  | failed failure =>
      unfold settled load
      cases hempty : chunk.isEmpty <;> simp [mapFault, Filled.mapFault, Stop.mapFault, hempty]

theorem Dry.mapFault {buffer : Buffer R ε'} (hdry : buffer.Dry) (fault : Fault ε' → Fault ε) :
    (buffer.mapFault fault).Dry where
  drained := hdry.drained
  clear := by simp [hdry.clear]
  held := hdry.held

section Erases

variable {erasure : Erasure ε ω ε' ω'} {left : Feed I R ε ω} {right : Feed I R ε' ω'}

theorem fill_erases (hfeed : left.Shadows erasure right) (room consumed : Nat) (chunk : Array R)
    {state : ω} {state' : ω'} (halike : erasure.alike state state') :
    (fill left room consumed chunk state).1 =
        (fill right room consumed chunk state').1.mapFault erasure.fault ∧
      erasure.alike (fill left room consumed chunk state).2
        (fill right room consumed chunk state').2 := by
  induction room generalizing consumed chunk state state' with
  | zero => exact ⟨rfl, halike⟩
  | succ room ih =>
      cases hstep : right.ask state' with
      | error fault asked' =>
          obtain ⟨asked, hask, hasked⟩ := hfeed.ask.of_settle halike (.error fault) hstep
          rw [fill_of_fail hstep, fill_of_fail hask]
          exact ⟨rfl, hasked⟩
      | ok step asked' =>
          obtain ⟨asked, hask, hasked⟩ := hfeed.ask.of_settle halike (.ok step) hstep
          cases step with
          | done parting =>
              rw [fill_of_done hstep, fill_of_done hask]
              exact ⟨rfl, hasked⟩
          | yield input =>
              cases hresult : right.compute input consumed asked' with
              | error fault computed' =>
                  obtain ⟨computed, hcompute, hcomputed⟩ :=
                    (hfeed.compute input consumed).of_settle hasked (.error fault) hresult
                  rw [fill_of_error hstep hresult, fill_of_error hask hcompute]
                  exact ⟨rfl, hcomputed⟩
              | ok result computed' =>
                  obtain ⟨computed, hcompute, hcomputed⟩ :=
                    (hfeed.compute input consumed).of_settle hasked (.ok result) hresult
                  rw [fill_of_result hstep hresult, fill_of_result hask hcompute]
                  exact ih _ _ hcomputed

theorem Fills.mapFault (hfeed : left.Shadows erasure right) {buffer : Buffer R ε'} {state : ω}
    {state' after' : ω'} {filled : Filled R ε'} (hfills : buffer.Fills right state' filled after')
    (halike : erasure.alike state state') :
    ∃ after, (buffer.mapFault erasure.fault).Fills left state (filled.mapFault erasure.fault) after ∧
      erasure.alike after after' := by
  obtain ⟨hfilled, hafter⟩ := fill_erases hfeed buffer.capacity buffer.consumed #[] halike
  rw [hfills] at hfilled hafter
  exact ⟨_, Prod.ext hfilled rfl, hafter⟩

/-- What goes on has not failed, or has results to hand out first. -/
theorem going_mapFault {filled : Filled R ε'}
    (hgoing : ∀ fault, filled.stop = .failed fault → filled.chunk.isEmpty = false)
    (change : Fault ε' → Fault ε) :
    ∀ fault, (filled.mapFault change).stop = .failed fault →
      (filled.mapFault change).chunk.isEmpty = false := by
  intro fault hfailed
  cases hstop : filled.stop with
  | failed failure => exact hgoing failure hstop
  | full => simp [hstop, Stop.mapFault] at hfailed
  | drained => simp [hstop, Stop.mapFault] at hfailed

/-- Every advance is one that forgets as well. -/
theorem Advance.mapFault (hfeed : left.Erases erasure right) {buffer buffer' : Buffer R ε'}
    {state : ω} {state' after' : ω'} {answer : Except (Fault ε') (Step R)}
    (hadvance : Advance right buffer state' answer buffer' after')
    (halike : erasure.alike state state') :
    ∃ after, Advance left (buffer.mapFault erasure.fault) state (answer.mapError erasure.fault)
        (buffer'.mapFault erasure.fault) after ∧ erasure.alike after after' := by
  cases hadvance with
  | waiting hwaits =>
      have hwaits' : (buffer.mapFault erasure.fault).position <
          (buffer.mapFault erasure.fault).chunk.size := hwaits
      exact ⟨state, .waiting hwaits', halike⟩
  | deferred hdrained hdeferred =>
      exact ⟨state, .deferred hdrained (by simp [hdeferred]), halike⟩
  | ended hdrained hclear hheld =>
      exact ⟨state, .ended hdrained (by simp [hclear]) hheld, halike⟩
  | failed hdry hfills hstop hempty =>
      obtain ⟨filledState, hfills', hfilled⟩ := hfills.mapFault hfeed.toShadows halike
      rw [← settled_mapFault]
      exact ⟨filledState, .failed (hdry.mapFault _) hfills' (by simp [hstop, Stop.mapFault]) hempty,
        hfilled⟩
  | interrupted hdry hfills hgoing htrace =>
      obtain ⟨filledState, hfills', hfilled⟩ := hfills.mapFault hfeed.toShadows halike
      obtain ⟨after, htrace', hafter⟩ := (hfeed.trace _).of_settle hfilled (.error _) htrace
      rw [← settled_mapFault]
      exact ⟨after, .interrupted (hdry.mapFault _) hfills' (going_mapFault hgoing _) htrace', hafter⟩
  | @refilled filled _ _ hdry hfills htrace hpos =>
      obtain ⟨filledState, hfills', hfilled⟩ := hfills.mapFault hfeed.toShadows halike
      obtain ⟨after, htrace', hafter⟩ := (hfeed.trace _).of_settle hfilled (.ok ()) htrace
      have hpos' : 0 < (filled.mapFault erasure.fault).chunk.size := hpos
      have hrefilled := Advance.refilled (hdry.mapFault erasure.fault) hfills' htrace' hpos'
      rw [settled_mapFault] at hrefilled
      exact ⟨after, hrefilled, hafter⟩
  | exhausted hdry hfills hstop hempty htrace =>
      obtain ⟨filledState, hfills', hfilled⟩ := hfills.mapFault hfeed.toShadows halike
      obtain ⟨after, htrace', hafter⟩ := (hfeed.trace _).of_settle hfilled (.ok ()) htrace
      rw [← settled_mapFault]
      exact ⟨after, .exhausted (hdry.mapFault _) hfills' (by simp [hstop, Stop.mapFault]) hempty
        htrace', hafter⟩

end Erases

end Buffer

/-- What is forgotten of a buffer and of what it calls on. -/
def Erasure.buffered (erasure : Erasure ε ω ε' ω') (R : Type) :
    Erasure ε (Buffer R ε × ω) ε' (Buffer R ε' × ω') where
  fault := erasure.fault
  alike state state' := state.1 = state'.1.mapFault erasure.fault ∧ erasure.alike state.2 state'.2

namespace BufferCall

variable {erasure : Erasure ε ω ε' ω'} {left : Feed I R ε ω} {right : Feed I R ε' ω'}

theorem next_erases (hfeed : left.Erases erasure right) :
    (Buffer.next left).Erases (erasure.buffered R) (Buffer.next right) := by
  rintro ⟨_, state⟩ ⟨buffer, state'⟩ ⟨rfl, halike⟩
  obtain ⟨answer, buffer', after', hright, hadvance⟩ := Buffer.next_advances right buffer state'
  obtain ⟨after, hadvance', hafter⟩ := hadvance.mapFault hfeed halike
  rw [Action.answer_of_settle hright, Action.after_of_settle hright,
    Action.answer_of_settle hadvance'.next_eq, Action.after_of_settle hadvance'.next_eq]
  exact ⟨rfl, rfl, hafter⟩

theorem release_erases (hfeed : left.Shadows erasure right) :
    (Buffer.release left).Erases (erasure.buffered R) (Buffer.release right) := by
  rintro ⟨_, state⟩ ⟨buffer, state'⟩ ⟨rfl, halike⟩
  cases hheld : buffer.held with
  | true =>
      have hright : Buffer.release right (buffer, state') = _ :=
        Buffer.release_of_held right hheld
      have hleft : Buffer.release left (buffer.mapFault erasure.fault, state) = _ :=
        Buffer.release_of_held left hheld
      obtain ⟨hanswer, hafter⟩ := hfeed.release state state' halike
      rw [Action.answer_of_settle hright, Action.after_of_settle hright,
        Action.answer_of_settle hleft, Action.after_of_settle hleft]
      exact ⟨hanswer, rfl, hafter⟩
  | false =>
      have hright : Buffer.release right (buffer, state') = settle (.ok ()) _ :=
        Buffer.release_of_not_held right hheld
      have hleft : Buffer.release left (buffer.mapFault erasure.fault, state) = settle (.ok ()) _ :=
        Buffer.release_of_not_held left hheld
      rw [Action.answer_of_settle hright, Action.after_of_settle hright,
        Action.answer_of_settle hleft, Action.after_of_settle hleft]
      exact ⟨rfl, rfl, halike⟩

theorem perform_erases (hfeed : left.Erases erasure right) (call : BufferCall) :
    (call.perform left).Erases (erasure.buffered R) (call.perform right) := by
  intro state state' halike
  cases call with
  | next =>
      obtain ⟨hanswer, hafter⟩ := next_erases hfeed state state' halike
      rw [Action.answer_of_settle (perform_next left state),
        Action.after_of_settle (perform_next left state),
        Action.answer_of_settle (perform_next right state'),
        Action.after_of_settle (perform_next right state'), hanswer]
      refine ⟨?_, hafter⟩
      cases (Buffer.next right).answer state' <;> rfl
  | release =>
      obtain ⟨hanswer, hafter⟩ := release_erases hfeed.toShadows state state' halike
      rw [Action.answer_of_settle (perform_release left state),
        Action.after_of_settle (perform_release left state),
        Action.answer_of_settle (perform_release right state'),
        Action.after_of_settle (perform_release right state'), hanswer]
      refine ⟨?_, hafter⟩
      cases (Buffer.release right).answer state' <;> rfl

/-- What is forgotten makes no difference to a run. -/
theorem run_erases (hfeed : left.Erases erasure right) (calls : List BufferCall)
    {state : Buffer R ε × ω} {state' : Buffer R ε' × ω'}
    (halike : (erasure.buffered R).alike state state') :
    answers left calls state = (answers right calls state').map (·.mapError erasure.fault) ∧
      (erasure.buffered R).alike (run left calls state) (run right calls state') := by
  induction calls generalizing state state' with
  | nil => exact ⟨rfl, halike⟩
  | cons call calls ih =>
      obtain ⟨hanswer, hafter⟩ := perform_erases hfeed call state state' halike
      obtain ⟨hanswers, hrun⟩ := ih hafter
      refine ⟨?_, hrun⟩
      rw [answers, answers, hanswer, hanswers, List.map_cons]
      rfl

end BufferCall

inductive Origin where
  | resource
  | computation
  | writer
  deriving DecidableEq, Repr

def Fault.unmarked : Fault (Origin × Fault ε) → Fault ε
  | .noExecutor => .noExecutor
  | .nothingFetched => .nothingFetched
  | .badCapacity written => .badCapacity written
  | .noCursor comparison => .noCursor comparison
  | .missing => .missing
  | .unfinished => .unfinished
  | .raised marked => marked.2

def Fault.origin? : Fault (Origin × Fault ε) → Option Origin
  | .raised marked => some marked.1
  | _ => none

namespace Action

def marked (origin : Origin) (action : Action ε ω α) : Action (Origin × Fault ε) ω α :=
  fun state =>
    settle ((action.answer state).mapError fun fault => .raised (origin, fault))
      (action.after state)

def unmarked (action : Action (Origin × Fault ε) ω α) : Action ε ω α := fun state =>
  settle ((action.answer state).mapError Fault.unmarked) (action.after state)

theorem marked_apply (origin : Origin) (action : Action ε ω α) (state : ω) :
    action.marked origin state =
      settle ((action.answer state).mapError fun fault => .raised (origin, fault))
        (action.after state) := rfl

theorem origin_of_marked {origin : Origin} {action : Action ε ω α} {state : ω}
    {fault : Fault (Origin × Fault ε)} (hfault : (action.marked origin).answer state = .error fault) :
    fault.origin? = some origin := by
  rw [answer_of_settle (marked_apply origin action state)] at hfault
  cases hanswer : action.answer state with
  | ok value =>
      rw [hanswer] at hfault
      exact nomatch hfault
  | error failure =>
      rw [hanswer] at hfault
      cases hfault
      rfl

theorem origin_of_marked_error {origin : Origin} {action : Action ε ω α} {state state' : ω}
    {fault : Fault (Origin × Fault ε)}
    (hfault : action.marked origin state = .error fault state') : fault.origin? = some origin := by
  have hanswer : (action.marked origin).answer state = .error fault := by
    unfold answer
    rw [hfault]
  exact origin_of_marked hanswer

/-- Marks make no difference. -/
theorem erases_marked {alike : ω → ω' → Prop} {left : Action ε ω α} {right : Action ε ω' α}
    (hagrees : ∀ state state', alike state state' →
      left.answer state = right.answer state' ∧ alike (left.after state) (right.after state'))
    (origin : Origin) : left.Erases ⟨Fault.unmarked, alike⟩ (right.marked origin) := by
  intro state state' halike
  obtain ⟨hanswer, hafter⟩ := hagrees state state' halike
  rw [answer_of_settle (marked_apply origin right state'),
    after_of_settle (marked_apply origin right state'), hanswer]
  refine ⟨?_, hafter⟩
  cases right.answer state' <;> rfl

theorem marked_erases (origin : Origin) (action : Action ε ω α) :
    action.Erases ⟨Fault.unmarked, Eq⟩ (action.marked origin) :=
  erases_marked (fun _ _ heq => heq ▸ ⟨rfl, rfl⟩) origin

end Action

/-- A feed whose faults tell what they come from. -/
def Feed.marked (feed : Feed I R ε ω) : Feed I R (Origin × Fault ε) ω where
  ask := feed.ask.marked .resource
  release := feed.release.marked .resource
  compute input index := (feed.compute input index).marked .computation
  trace tag message := (feed.trace tag message.unmarked).marked .writer

theorem marked_trace_after (feed : Feed I R ε ω) (message : String) (state : ω) :
    (feed.marked.trace "underflow" (pure message)).after state =
      (feed.trace "underflow" (pure message)).after state :=
  Action.after_of_settle
    (Action.marked_apply .writer (feed.trace "underflow" (pure message)) state)

theorem Feed.marked_erases (feed : Feed I R ε ω) : feed.Erases ⟨Fault.unmarked, Eq⟩ feed.marked where
  ask := feed.ask.marked_erases .resource
  release := feed.release.marked_erases .resource
  compute input index := (feed.compute input index).marked_erases .computation
  trace message := (feed.trace "underflow" (pure message)).marked_erases .writer

end PullRange
