import PullRange.Proofs.Chunking
import PullRange.Proofs.Frames
import PullRange.Proofs.Lockstep

/-!
# The end of a buffer

A buffer is at its end once its resource is gone and nothing waits any more. `Feed.watched` records
what a buffer calls its feed for, without the buffer noticing, so that the end can be told from the
record alone: the resource has reported done, or the buffer was released. Nothing leads away from
the end, and nothing is called there.
-/

namespace PullRange

variable {I R ε ω α : Type}

inductive Contact where
  | asked (reportedDone : Bool)
  | computed
  | released
  | traced
  deriving DecidableEq, Repr

namespace Action

/-- Performs the action and records it beside its state. -/
def recorded (contact : Except (Fault ε) α → Contact) (action : Action ε ω α) :
    Action ε (ω × List Contact) α := fun state =>
  settle (action.answer state.1) (action.after state.1, state.2 ++ [contact (action.answer state.1)])

theorem recorded_apply (contact : Except (Fault ε) α → Contact) (action : Action ε ω α)
    (state : ω × List Contact) :
    action.recorded contact state =
      settle (action.answer state.1)
        (action.after state.1, state.2 ++ [contact (action.answer state.1)]) := rfl

def unrecorded (contacts : List Contact) (action : Action ε (ω × List Contact) α) :
    Action ε ω α := fun state =>
  settle (action.answer (state, contacts)) (action.after (state, contacts)).1

end Action

def reportsDone : Except (Fault ε) (Step I) → Bool
  | .ok (.done _) => true
  | _ => false

def Feed.watched (feed : Feed I R ε ω) : Feed I R ε (ω × List Contact) where
  ask := feed.ask.recorded fun answer => .asked (reportsDone answer)
  release := feed.release.recorded fun _ => .released
  compute input index := (feed.compute input index).recorded fun _ => .computed
  trace tag message := fun state =>
    (feed.trace tag (message.unrecorded state.2)).recorded (fun _ => .traced) state

section Watched

variable (feed : Feed I R ε ω) (state : ω × List Contact)

theorem watched_ask :
    feed.watched.ask state =
      settle (feed.ask.answer state.1)
        (feed.ask.after state.1,
          state.2 ++ [.asked (reportsDone (feed.ask.answer state.1))]) := rfl

theorem watched_compute (input : I) (index : Nat) :
    feed.watched.compute input index state =
      settle ((feed.compute input index).answer state.1)
        ((feed.compute input index).after state.1, state.2 ++ [.computed]) := rfl

end Watched

/-- The states agree but for the record. -/
def watching (ω : Type) : Coupling ω (ω × List Contact) where
  alike state state' := state = state'.1
  spoiled _ := False

theorem recorded_inStep (contact : Except (Fault ε) α → Contact) (action : Action ε ω α) :
    action.InStep (watching ω) (action.recorded contact) :=
  Action.inStep_annotating (action.recorded_apply contact)

theorem watched_inStep (feed : Feed I R ε ω) : feed.InStep (watching ω) feed.watched where
  ask := recorded_inStep (fun answer => .asked (reportsDone answer)) feed.ask
  release := recorded_inStep (fun _ => .released) feed.release
  compute input index := recorded_inStep (fun _ => .computed) (feed.compute input index)
  trace message := recorded_inStep (fun _ => .traced) (feed.trace "underflow" (pure message))

inductive BufferCall where
  | next
  | release
  deriving DecidableEq, Repr

namespace BufferCall

def perform (feed : Feed I R ε ω) : BufferCall → Action ε (Buffer R ε × ω) (Option (Step R))
  | .next => some <$> Buffer.next feed
  | .release => (fun _ => none) <$> Buffer.release feed

def run (feed : Feed I R ε ω) (calls : List BufferCall) (state : Buffer R ε × ω) : Buffer R ε × ω :=
  calls.foldl (fun state call => (call.perform feed).after state) state

def answers (feed : Feed I R ε ω) :
    List BufferCall → Buffer R ε × ω → List (Except (Fault ε) (Option (Step R)))
  | [], _ => []
  | call :: calls, state =>
      (call.perform feed).answer state :: answers feed calls ((call.perform feed).after state)

/-- What a call answers at the end. -/
def atEnd : BufferCall → Except (Fault ε) (Option (Step R))
  | .next => .ok (some (.done none))
  | .release => .ok none

theorem perform_next (feed : Feed I R ε ω) (state : Buffer R ε × ω) :
    perform feed .next state =
      settle (((Buffer.next feed).answer state).map some) ((Buffer.next feed).after state) :=
  Action.map_of_settle some ((Buffer.next feed).apply_eq_settle state)

theorem perform_release (feed : Feed I R ε ω) (state : Buffer R ε × ω) :
    perform feed .release state =
      settle (((Buffer.release feed).answer state).map fun _ => none)
        ((Buffer.release feed).after state) :=
  Action.map_of_settle (fun _ => none) ((Buffer.release feed).apply_eq_settle state)

theorem run_next (feed : Feed I R ε ω) (calls : List BufferCall) (state : Buffer R ε × ω) :
    run feed (.next :: calls) state = run feed calls ((Buffer.next feed).after state) :=
  congrArg (run feed calls) (Action.after_of_settle (perform_next feed state))

theorem run_release (feed : Feed I R ε ω) (calls : List BufferCall) (state : Buffer R ε × ω) :
    run feed (.release :: calls) state = run feed calls ((Buffer.release feed).after state) :=
  congrArg (run feed calls) (Action.after_of_settle (perform_release feed state))

section InStep

variable {ω' : Type} {coupling : Coupling ω ω'} {left : Feed I R ε ω} {right : Feed I R ε ω'}
  (hfeed : left.InStep coupling right)

include hfeed

theorem perform_inStep (call : BufferCall) :
    (call.perform left).InStep (coupling.beside (Buffer R ε)) (call.perform right) := by
  cases call with
  | next => exact (buffer_next_inStep hfeed).map _
  | release => exact (buffer_release_inStep hfeed).map _

theorem run_inStep (hunspoiled : ∀ state', ¬ coupling.spoiled state') (calls : List BufferCall)
    {state : Buffer R ε × ω} {state' : Buffer R ε × ω'}
    (halike : (coupling.beside (Buffer R ε)).alike state state') :
    answers left calls state = answers right calls state' ∧
      (coupling.beside (Buffer R ε)).alike (run left calls state) (run right calls state') := by
  induction calls generalizing state state' with
  | nil => exact ⟨rfl, halike⟩
  | cons call calls ih =>
      have hkept := (call.perform_inStep hfeed).keeps state state' halike
      obtain ⟨hanswer, halike'⟩ := hkept.resolve_left (hunspoiled _)
      obtain ⟨hanswers, hrun⟩ := ih halike'
      refine ⟨?_, hrun⟩
      rw [answers, answers, hanswer, hanswers]

end InStep

/-- A buffer does not notice that its feed is watched. -/
theorem run_watched (feed : Feed I R ε ω) (calls : List BufferCall) (buffer : Buffer R ε)
    (state : ω) (contacts : List Contact) :
    answers feed.watched calls (buffer, (state, contacts)) = answers feed calls (buffer, state) ∧
    (run feed.watched calls (buffer, (state, contacts))).1 =
      (run feed calls (buffer, state)).1 := by
  have halike : ((watching ω).beside (Buffer R ε)).alike (buffer, state)
      (buffer, (state, contacts)) := ⟨rfl, rfl⟩
  obtain ⟨hanswers, hbuffer, -⟩ := run_inStep (watched_inStep feed) (fun _ => id) calls halike
  exact ⟨hanswers.symm, hbuffer.symm⟩

end BufferCall

/-! ## Whether the resource is held -/

def Stop.isDrained : Stop ε → Bool
  | .drained => true
  | _ => false

/-- The resource has reported done. -/
def Reported (contacts : List Contact) : Prop :=
  .asked true ∈ contacts

namespace Buffer

section Watched

variable (feed : Feed I R ε ω)

/-- While a chunk is filled, the resource reports done exactly if that is what ends the chunk. -/
theorem fill_watched (room consumed : Nat) (chunk : Array R) (state : ω × List Contact) :
    Reported (fill feed.watched room consumed chunk state).2.2 ↔
      Reported state.2 ∨ (fill feed.watched room consumed chunk state).1.stop.isDrained = true := by
  induction room generalizing consumed chunk state with
  | zero => simp [fill, Stop.isDrained]
  | succ room ih =>
      unfold fill
      rw [watched_ask]
      cases hanswer : feed.ask.answer state.1 with
      | error fault => simp [Reported, Stop.isDrained, reportsDone]
      | ok step =>
          cases step with
          | done parting => simp [Reported, Stop.isDrained, reportsDone]
          | yield input =>
              simp only [settle_ok, watched_compute]
              cases (feed.compute input consumed).answer (feed.ask.after state.1) with
              | error fault => simp [Reported, Stop.isDrained, reportsDone]
              | ok result =>
                  simp only [settle_ok, ih]
                  simp [Reported, reportsDone]

theorem settled_held {buffer : Buffer R ε} (hheld : buffer.held = true) (filled : Filled R ε) :
    (buffer.settled filled).held = !filled.stop.isDrained := by
  unfold settled
  cases filled.stop with
  | full => exact hheld
  | drained => rfl
  | failed fault =>
      simp only
      split <;> exact hheld

/-- Filling ends a refill, or the trace of what was filled. -/
theorem refill_cases (feed : Feed I R ε ω) {buffer : Buffer R ε} (hheld : buffer.held = true)
    (state : ω) :
    let filled := (fill feed buffer.capacity buffer.consumed #[] state).1
    let state' := (fill feed buffer.capacity buffer.consumed #[] state).2
    (∃ fault, filled.stop = .failed fault ∧ filled.chunk.isEmpty = true ∧
      refill feed (buffer, state) = settle (.error fault) (buffer.settled filled, state')) ∨
    ((∀ fault, filled.stop = .failed fault → filled.chunk.isEmpty = false) ∧
      refill feed (buffer, state) =
        settle (((traceChunk feed filled).answer state').map fun _ => !filled.chunk.isEmpty)
          (buffer.settled filled, (traceChunk feed filled).after state')) := by
  intro filled state'
  have hfill : fill feed buffer.capacity buffer.consumed #[] state = (filled, state') := rfl
  by_cases hgoing : ∀ fault, filled.stop = .failed fault → filled.chunk.isEmpty = false
  · exact .inr ⟨hgoing, refill_of_going hheld hfill hgoing⟩
  · simp only [not_forall, Bool.not_eq_false] at hgoing
    obtain ⟨fault, hstop, hempty⟩ := hgoing
    exact .inl ⟨fault, hstop, hempty, refill_of_failed hheld hfill hstop hempty⟩

/-- The resource is let go exactly when it reports done or the buffer is released. -/
def Tells (released : Prop) (state : Buffer R ε × ω × List Contact) : Prop :=
  state.1.held = false ↔ released ∨ Reported state.2.2

theorem refill_tells {released : Prop} {state : Buffer R ε × ω × List Contact}
    (htells : Tells released state) : Tells released ((refill feed.watched).after state) := by
  obtain ⟨buffer, rest⟩ := state
  cases hheld : buffer.held with
  | false =>
      rw [Action.after_of_ok (refill_of_not_held feed.watched buffer rest hheld)]
      exact htells
  | true =>
      have hopen : ¬ (released ∨ Reported rest.2) := by
        intro hgone
        have hnot := htells.mpr hgone
        rw [hheld] at hnot
        exact nomatch hnot
      have hfilled := fill_watched feed buffer.capacity buffer.consumed #[] rest
      have hsettled := settled_held hheld
        (fill feed.watched buffer.capacity buffer.consumed #[] rest).1
      rw [not_or] at hopen
      cases refill_cases feed.watched hheld rest with
      | inl hthrown =>
          obtain ⟨fault, hstop, -, hrefill⟩ := hthrown
          rw [Action.after_of_settle hrefill]
          simp [Tells, hsettled, hfilled, hopen]
      | inr htraced =>
          have htrace (filled : Filled R ε) (rest : ω × List Contact) :
              Reported ((traceChunk feed.watched filled).after rest).2 ↔ Reported rest.2 := by
            have hrecorded : traceChunk feed.watched filled rest = settle _ _ :=
              Action.recorded_apply (fun _ => .traced) _ rest
            rw [Action.after_of_settle hrecorded]
            simp [Reported]
          rw [Action.after_of_settle htraced.2]
          simp [Tells, hsettled, htrace, hfilled, hopen]

end Watched

/-- The order of a call, whatever is meant by refilling the buffer and by reading off its chunk. -/
def nextBy (refill : Action ε (Buffer R ε × ω) Bool) (read : Action ε (Buffer R ε × ω) (Step R)) :
    Action ε (Buffer R ε × ω) (Step R) := do
  let buffer ← getOwn
  if buffer.position < buffer.chunk.size then
    read
  else
    match buffer.deferred with
    | some fault =>
        setOwn { buffer with deferred := none }
        throw fault
    | none =>
        if ← refill then
          read
        else
          return .done none

theorem next_eq_nextBy (feed : Feed I R ε ω) : next feed = nextBy (refill feed) handOut := rfl

section Order

variable {refill : Action ε (Buffer R ε × ω) Bool} {read : Action ε (Buffer R ε × ω) (Step R)}
  {buffer : Buffer R ε} {state : ω}

theorem nextBy_of_waiting (hwaits : buffer.position < buffer.chunk.size) :
    nextBy refill read (buffer, state) = read (buffer, state) := by
  rw [nextBy, Action.bind_of_ok (getOwn_apply buffer state), if_pos hwaits]

theorem nextBy_of_deferred {fault : Fault ε} (hdrained : ¬ buffer.position < buffer.chunk.size)
    (hdeferred : buffer.deferred = some fault) :
    nextBy refill read (buffer, state) =
      .error fault ({ buffer with deferred := none }, state) := by
  rw [nextBy, Action.bind_of_ok (getOwn_apply buffer state), if_neg hdrained]
  simp only [hdeferred]
  rfl

theorem nextBy_of_drained (hdrained : ¬ buffer.position < buffer.chunk.size)
    (hdeferred : buffer.deferred = none) :
    nextBy refill read (buffer, state) =
      (refill >>= fun refilled => if refilled then read else pure (.done none))
        (buffer, state) := by
  rw [nextBy, Action.bind_of_ok (getOwn_apply buffer state), if_neg hdrained]
  simp only [hdeferred]

end Order

section Calls

variable {feed : Feed I R ε ω} {buffer : Buffer R ε} {state : ω}

theorem handOut_of_waiting (hwaits : buffer.position < buffer.chunk.size) :
    handOut (buffer, state) =
      (.ok (.yield buffer.chunk[buffer.position])
        ({ buffer with position := buffer.position + 1 }, state) :
          EStateM.Result (Fault ε) (Buffer R ε × ω) (Step R)) := by
  rw [handOut, Action.bind_of_ok (getOwn_apply buffer state)]
  simp only [Array.getElem?_eq_getElem hwaits]
  rfl

theorem next_of_waiting (hwaits : buffer.position < buffer.chunk.size) :
    next feed (buffer, state) = handOut (buffer, state) := by
  rw [next_eq_nextBy, nextBy_of_waiting hwaits]

theorem next_of_deferred {fault : Fault ε} (hdrained : ¬ buffer.position < buffer.chunk.size)
    (hdeferred : buffer.deferred = some fault) :
    next feed (buffer, state) = .error fault ({ buffer with deferred := none }, state) := by
  rw [next_eq_nextBy, nextBy_of_deferred hdrained hdeferred]

theorem next_of_drained (hdrained : ¬ buffer.position < buffer.chunk.size)
    (hdeferred : buffer.deferred = none) :
    next feed (buffer, state) =
      (refill feed >>= fun refilled => if refilled then handOut else pure (.done none))
        (buffer, state) := by
  rw [next_eq_nextBy, nextBy_of_drained hdrained hdeferred]

theorem fill_size_of_full (room consumed : Nat) (chunk : Array R)
    (hfull : (fill feed room consumed chunk state).1.stop = .full) :
    (fill feed room consumed chunk state).1.chunk.size = chunk.size + room := by
  induction room generalizing consumed chunk state with
  | zero => rfl
  | succ room ih =>
      unfold fill at hfull ⊢
      cases hask : feed.ask state with
      | error fault state' => simp [hask] at hfull
      | ok step state' =>
          cases step with
          | done parting => simp [hask] at hfull
          | yield input =>
              cases hcompute : feed.compute input consumed state' with
              | error fault state'' => simp [hask, hcompute] at hfull
              | ok result state'' =>
                  simp only [hask, hcompute] at hfull ⊢
                  rw [ih _ _ hfull, Array.size_push]
                  omega

theorem isEof_of_empty {filled : Filled R ε} (hempty : filled.chunk.isEmpty = true)
    (hfull : filled.stop = .full → 0 < filled.chunk.size)
    (hgoing : ∀ fault, filled.stop = .failed fault → filled.chunk.isEmpty = false)
    (hdeferred : buffer.deferred = none) : (buffer.settled filled).isEof := by
  have hsize : filled.chunk.size = 0 := by simpa [Array.isEmpty] using hempty
  cases hstop : filled.stop with
  | full => exact absurd (hfull hstop) (by omega)
  | failed fault => exact nomatch hempty.symm.trans (hgoing fault hstop)
  | drained =>
      rw [isEof_iff, settled, hstop]
      exact ⟨rfl, Nat.le_of_eq hsize, hdeferred⟩

theorem settled_waits {filled : Filled R ε} (hempty : filled.chunk.isEmpty = false) :
    (buffer.settled filled).position < (buffer.settled filled).chunk.size := by
  have hloaded : (buffer.settled filled).position = 0 ∧
      (buffer.settled filled).chunk = filled.chunk := by
    unfold settled load
    cases filled.stop <;> simp [hempty]
  rw [hloaded.1, hloaded.2]
  simpa [Array.isEmpty, Nat.pos_iff_ne_zero] using hempty

/-- A refill that does not fail brings results, or the end. -/
theorem refill_waits_or_ends {refilled : Bool} {state' : Buffer R ε × ω}
    (hdeferred : buffer.deferred = none)
    (hrefill : refill feed (buffer, state) = .ok refilled state') :
    (refilled = true ∧ state'.1.position < state'.1.chunk.size) ∨
      (refilled = false ∧ state'.1.isEof) := by
  cases hheld : buffer.held with
  | false =>
      rw [refill_of_not_held feed buffer state hheld] at hrefill
      cases hrefill
      exact .inr ⟨rfl, (isEof_iff _).mpr ⟨hheld, Nat.le_refl 0, hdeferred⟩⟩
  | true =>
      cases refill_cases feed hheld state with
      | inl hthrown =>
          obtain ⟨fault, -, -, hthrown⟩ := hthrown
          exact nomatch hthrown.symm.trans hrefill
      | inr htraced =>
          obtain ⟨hgoing, htraced⟩ := htraced
          have hfull (hfull : (fill feed buffer.capacity buffer.consumed #[] state).1.stop = .full) :
              0 < (fill feed buffer.capacity buffer.consumed #[] state).1.chunk.size := by
            rw [fill_size_of_full _ _ _ hfull]
            exact Nat.lt_of_lt_of_le buffer.capacity_pos (Nat.le_add_left _ _)
          generalize (fill feed buffer.capacity buffer.consumed #[] state).1 = filled at *
          rw [htraced] at hrefill
          cases htrace : (traceChunk feed filled).answer _ with
          | error fault =>
              rw [htrace] at hrefill
              exact nomatch hrefill
          | ok _ =>
              rw [htrace] at hrefill
              cases hrefill
              cases hempty : filled.chunk.isEmpty with
              | true => exact .inr ⟨rfl, isEof_of_empty hempty hfull hgoing hdeferred⟩
              | false => exact .inl ⟨rfl, settled_waits hempty⟩

/-- Only the end is reported as the end. -/
theorem isEof_of_done {state : Buffer R ε × ω} {parting : Option R}
    (hdone : (next feed).answer state = .ok (.done parting)) :
    ((next feed).after state).1.isEof := by
  obtain ⟨buffer, rest⟩ := state
  unfold Action.answer Action.after at *
  by_cases hwaits : buffer.position < buffer.chunk.size
  · rw [next_of_waiting hwaits, handOut_of_waiting hwaits] at hdone
    exact nomatch hdone
  · cases hdeferred : buffer.deferred with
    | some fault =>
        rw [next_of_deferred hwaits hdeferred] at hdone
        exact nomatch hdone
    | none =>
        rw [next_of_drained hwaits hdeferred] at hdone ⊢
        cases hrefill : refill feed (buffer, rest) with
        | error fault state' =>
            rw [Action.bind_of_error hrefill] at hdone
            exact nomatch hdone
        | ok refilled state' =>
            rw [Action.bind_of_ok hrefill] at hdone ⊢
            cases refill_waits_or_ends hdeferred hrefill with
            | inl hwaiting =>
                obtain ⟨rfl, hwaiting⟩ := hwaiting
                rw [if_pos rfl, handOut_of_waiting hwaiting] at hdone
                exact nomatch hdone
            | inr hends =>
                obtain ⟨rfl, heof⟩ := hends
                exact heof

theorem next_tells (feed : Feed I R ε ω) {released : Prop} {state : Buffer R ε × ω × List Contact}
    (htells : Tells released state) : Tells released ((next feed.watched).after state) := by
  obtain ⟨buffer, rest⟩ := state
  unfold Action.after
  by_cases hwaits : buffer.position < buffer.chunk.size
  · rw [next_of_waiting hwaits, handOut_of_waiting hwaits]
    exact htells
  · cases hdeferred : buffer.deferred with
    | some fault =>
        rw [next_of_deferred hwaits hdeferred]
        exact htells
    | none =>
        rw [next_of_drained hwaits hdeferred]
        have hrefilled := refill_tells feed htells
        unfold Action.after at hrefilled
        cases hrefill : refill feed.watched (buffer, rest) with
        | error fault state' =>
            rw [Action.bind_of_error hrefill]
            rwa [hrefill] at hrefilled
        | ok refilled state' =>
            rw [hrefill] at hrefilled
            rw [Action.bind_of_ok hrefill]
            cases refill_waits_or_ends hdeferred hrefill with
            | inl hwaiting =>
                obtain ⟨rfl, hwaiting⟩ := hwaiting
                rw [if_pos rfl, handOut_of_waiting hwaiting]
                exact hrefilled
            | inr hends =>
                obtain ⟨rfl, -⟩ := hends
                exact hrefilled

/-- The buffer once it has been released. -/
def dropped (buffer : Buffer R ε) : Buffer R ε :=
  { buffer with held := false, chunk := #[], position := 0, deferred := none }

theorem dropped_isEof (buffer : Buffer R ε) : buffer.dropped.isEof :=
  (isEof_iff _).mpr ⟨rfl, Nat.le_refl 0, rfl⟩

theorem release_of_held (feed : Feed I R ε ω) (hheld : buffer.held = true) :
    release feed (buffer, state) =
      settle (feed.release.answer state) (buffer.dropped, feed.release.after state) := by
  rw [release, Action.bind_of_ok (getOwn_apply _ _), Action.bind_of_ok (setOwn_apply _ _ _),
    if_pos hheld]
  exact onRest_apply feed.release buffer.dropped state

theorem release_of_not_held (feed : Feed I R ε ω) (hheld : buffer.held = false) :
    release feed (buffer, state) = .ok () (buffer.dropped, state) := by
  rw [release, Action.bind_of_ok (getOwn_apply _ _), Action.bind_of_ok (setOwn_apply _ _ _),
    hheld]
  rfl

theorem release_own (feed : Feed I R ε ω) (state : Buffer R ε × ω) :
    ((release feed).after state).1 = state.1.dropped := by
  obtain ⟨buffer, rest⟩ := state
  cases hheld : buffer.held with
  | true => rw [Action.after_of_settle (release_of_held feed hheld)]
  | false => rw [Action.after_of_ok (release_of_not_held feed hheld)]

end Calls

end Buffer

namespace BufferCall

variable {feed : Feed I R ε ω}

theorem tells_run (calls : List BufferCall) {released : Prop}
    {state : Buffer R ε × ω × List Contact} (htells : Buffer.Tells released state) :
    Buffer.Tells (released ∨ .release ∈ calls) (run feed.watched calls state) := by
  induction calls generalizing released state with
  | nil => simpa [run] using htells
  | cons call calls ih =>
      have hafter : Buffer.Tells (released ∨ call = .release)
          ((call.perform feed.watched).after state) := by
        cases call with
        | next =>
            rw [Action.after_of_settle (perform_next feed.watched state)]
            simpa using Buffer.next_tells feed htells
        | release =>
            rw [Action.after_of_settle (perform_release feed.watched state), Buffer.Tells,
              Buffer.release_own]
            simp [Buffer.dropped]
      have hrun := ih hafter
      simpa [run, or_assoc, eq_comm] using hrun

/-- At the end a call answers that nothing is left, and calls nothing. -/
theorem perform_of_isEof (feed : Feed I R ε ω) {buffer : Buffer R ε} (heof : buffer.isEof)
    (call : BufferCall) (state : ω) :
    ∃ buffer', buffer'.isEof ∧ call.perform feed (buffer, state) =
      settle call.atEnd (buffer', state) := by
  have hends := (Buffer.isEof_iff buffer).mp heof
  cases call with
  | next =>
      have hnext : Buffer.next feed (buffer, state) = settle (.ok (.done none)) _ :=
        buffer_next_of_isEof heof feed state
      have hstays := buffer_next_stays feed (buffer, state) heof
      rw [Action.after_of_settle hnext] at hstays
      exact ⟨_, hstays, Action.map_of_settle some hnext⟩
  | release =>
      have hrelease : Buffer.release feed (buffer, state) = settle (.ok ()) _ :=
        Buffer.release_of_not_held feed hends.1
      exact ⟨_, buffer.dropped_isEof, Action.map_of_settle (fun _ => none) hrelease⟩

theorem run_of_isEof {buffer : Buffer R ε} (heof : buffer.isEof) (calls : List BufferCall)
    (state : ω) :
    ∃ buffer', buffer'.isEof ∧ run feed calls (buffer, state) = (buffer', state) ∧
      answers feed calls (buffer, state) = calls.map atEnd := by
  induction calls generalizing buffer with
  | nil => exact ⟨buffer, heof, rfl, rfl⟩
  | cons call calls ih =>
      obtain ⟨buffer', heof', hperform⟩ := perform_of_isEof feed heof call state
      obtain ⟨buffer'', heof'', hrun, hanswers⟩ := ih heof'
      have hafter := Action.after_of_settle hperform
      refine ⟨buffer'', heof'', ?_, ?_⟩
      · change run feed calls ((call.perform feed).after (buffer, state)) = _
        rw [hafter, hrun]
      · rw [answers, hafter, hanswers, Action.answer_of_settle hperform, List.map_cons]

end BufferCall

end PullRange
