import PullRange.Proofs.Origins

/-!
# Interrupted refills

The trace of a refill may fail after the buffer has been filled. The call that refills then fails
with what the writer raised, and the filled buffer is left to the following calls. Beside the traced
run there is a silent one that makes the same calls except for those that the writer interrupted: it
gives the same answers, and is one refill behind as long as an interrupted call has not been made up
for (`Trails`).
-/

namespace PullRange

variable {I R ε ε' ω ω' τ α : Type}

/-- A feed that traces to a writer with a state of its own. -/
def Feed.tracedBy (feed : Feed I R ε ω) (write : String → Action ε τ Unit) :
    Feed I R ε (ω × τ) where
  ask := onOwn feed.ask
  release := onOwn feed.release
  compute input index := onOwn (feed.compute input index)
  trace tag message := do
    let text ← message
    onRest (write (tag ++ ": " ++ text ++ "\n"))

def Feed.silenced (feed : Feed I R ε ω) : Feed I R ε ω :=
  { feed with trace := fun _ _ => pure () }

/-- The traced feed does what the silent one does, but for a trace that leaves everything else
alone. -/
structure Feed.Hushes (erasure : Erasure ε ω ε' ω') (silent : Feed I R ε ω)
    (traced : Feed I R ε' ω') : Prop extends silent.Shadows erasure traced where
  silent : ∀ message state state', erasure.alike state state' →
    silent.trace "underflow" (pure message) state = .ok () state
  trace : ∀ message state state', erasure.alike state state' →
    erasure.alike state ((traced.trace "underflow" (pure message)).after state')

theorem onOwn_agrees (action : Action ε ω α) (state : ω) (state' : ω × τ) (heq : state = state'.1) :
    action.answer state = (onOwn action : Action ε (ω × τ) α).answer state' ∧
      action.after state = ((onOwn action : Action ε (ω × τ) α).after state').1 := by
  obtain ⟨own, sink⟩ := state'
  subst heq
  have hown := onOwn_of_settle (action.apply_eq_settle state) sink
  rw [Action.answer_of_settle hown, Action.after_of_settle hown]
  exact ⟨rfl, rfl⟩

theorem Feed.tracedBy_hushes (feed : Feed I R ε ω) (write : String → Action ε τ Unit) :
    feed.silenced.Hushes ⟨Fault.unmarked, fun state state' => state = state'.1⟩
      (feed.tracedBy write).marked where
  ask := Action.erases_marked (onOwn_agrees feed.ask) .resource
  release := Action.erases_marked (onOwn_agrees feed.release) .resource
  compute input index := Action.erases_marked (onOwn_agrees (feed.compute input index)) .computation
  silent _ _ _ _ := rfl
  trace message state state' heq := by
    rw [marked_trace_after]
    change state = ((onRest (write ("underflow" ++ ": " ++ message ++ "\n"))).after state').1
    rw [Action.after_of_settle (onRest_apply _ state'.1 state'.2)]
    exact heq

/-- The writer raised what the call ends with. -/
def byWriter : Except (Fault (Origin × Fault ε)) α → Bool
  | .ok _ => false
  | .error fault => fault.origin? = some .writer

theorem byWriter_of_origin {fault : Fault (Origin × Fault ε)} {origin : Origin}
    (horigin : fault.origin? = some origin) (hother : origin ≠ .writer) :
    byWriter (.error fault : Except (Fault (Origin × Fault ε)) α) = false := by
  simp [byWriter, horigin, hother]

/-- How a filled buffer answers first. -/
def Filled.step (filled : Filled R ε) : Step R :=
  match filled.chunk[0]? with
  | some result => .yield result
  | none => .done none

namespace Buffer

/-- No failure of the writer waits. -/
def Clean (buffer : Buffer R (Origin × Fault ε)) : Prop :=
  ∀ fault, buffer.deferred = some fault →
    byWriter (.error fault : Except (Fault (Origin × Fault ε)) Unit) = false

section Marked

variable (feed : Feed I R ε ω)

/-- The writer has no part in filling a chunk. -/
theorem fill_clean (room consumed : Nat) (chunk : Array R) (state : ω)
    (fault : Fault (Origin × Fault ε))
    (hstop : (fill feed.marked room consumed chunk state).1.stop = .failed fault) :
    byWriter (.error fault : Except (Fault (Origin × Fault ε)) α) = false := by
  induction room generalizing consumed chunk state with
  | zero => exact nomatch hstop
  | succ room ih =>
      cases hask : feed.marked.ask state with
      | error failure state' =>
          rw [fill_of_fail hask] at hstop
          cases hstop
          exact byWriter_of_origin (Action.origin_of_marked_error hask) (by decide)
      | ok step state' =>
          cases step with
          | done parting =>
              rw [fill_of_done hask] at hstop
              exact nomatch hstop
          | yield input =>
              cases hcompute : feed.marked.compute input consumed state' with
              | error failure state'' =>
                  rw [fill_of_error hask hcompute] at hstop
                  cases hstop
                  exact byWriter_of_origin (Action.origin_of_marked_error hcompute) (by decide)
              | ok result state'' =>
                  rw [fill_of_result hask hcompute] at hstop
                  exact ih _ _ _ hstop

theorem Fills.not_byWriter {feed : Feed I R ε ω} {buffer : Buffer R (Origin × Fault ε)}
    {state state' : ω} {filled : Filled R (Origin × Fault ε)} {fault : Fault (Origin × Fault ε)}
    (hfills : buffer.Fills feed.marked state filled state') (hstop : filled.stop = .failed fault) :
    byWriter (.error fault : Except (Fault (Origin × Fault ε)) α) = false := by
  refine fill_clean feed buffer.capacity buffer.consumed #[] state fault ?_
  rw [hfills, hstop]

theorem settled_clean {feed : Feed I R ε ω} {buffer : Buffer R (Origin × Fault ε)}
    {state state' : ω} {filled : Filled R (Origin × Fault ε)} (hdry : buffer.Dry)
    (hfills : buffer.Fills feed.marked state filled state') : (buffer.settled filled).Clean := by
  intro fault hdeferred
  rw [settled_deferred hdry.clear] at hdeferred
  have hstop : filled.stop = .failed fault := by
    cases hstop : filled.stop <;> simp_all [Stop.failure?]
  exact hfills.not_byWriter hstop

theorem Advance.clean {feed : Feed I R ε ω} {buffer buffer' : Buffer R (Origin × Fault ε)}
    {state state' : ω} {answer : Except (Fault (Origin × Fault ε)) (Step R)}
    (hadvance : Advance feed.marked buffer state answer buffer' state') (hclean : buffer.Clean) :
    buffer'.Clean := by
  cases hadvance with
  | waiting hwaits => exact hclean
  | deferred hdrained hdeferred => exact nofun
  | ended hdrained hclear hheld => exact hclean
  | failed hdry hfills hstop hempty => exact settled_clean hdry hfills
  | interrupted hdry hfills hgoing htrace => exact settled_clean hdry hfills
  | refilled hdry hfills htrace hpos => exact settled_clean hdry hfills
  | exhausted hdry hfills hstop hempty htrace => exact settled_clean hdry hfills

theorem next_clean (feed : Feed I R ε ω) {state : Buffer R (Origin × Fault ε) × ω}
    (hclean : state.1.Clean) : ((next feed.marked).after state).1.Clean := by
  obtain ⟨answer, after, rest, hnext, hadvance⟩ := next_advances feed.marked state.1 state.2
  rw [Action.after_of_settle hnext]
  exact hadvance.clean hclean

end Marked

/-- The filled buffer after its first answer. -/
def handed (buffer : Buffer R ε) (filled : Filled R ε) : Buffer R ε :=
  { buffer.settled filled with position := min 1 filled.chunk.size }

section Handed

variable {feed : Feed I R ε ω} {buffer : Buffer R ε} {filled : Filled R ε} {state state' state'' : ω}

theorem next_of_fills (hdry : buffer.Dry) (hfills : buffer.Fills feed state filled state')
    (hgoing : ∀ fault, filled.stop = .failed fault → filled.chunk.isEmpty = false)
    (htrace : traceChunk feed filled state' = .ok () state'') :
    next feed (buffer, state) = settle (.ok filled.step) (buffer.handed filled, state'') := by
  cases hempty : filled.chunk.isEmpty with
  | true =>
      have hstop := drained_of_empty hfills hgoing hempty
      have hsize : filled.chunk.size = 0 := by simpa [Array.isEmpty] using hempty
      have hhanded : buffer.handed filled = buffer.settled filled := by
        rw [handed, hsize, Nat.min_zero, ← settled_position buffer filled]
      have hstep : filled.step = .done none := by simp [Filled.step, hsize]
      rw [hhanded, hstep]
      exact (Advance.exhausted hdry hfills hstop hempty htrace).next_eq
  | false =>
      have hpos : 0 < filled.chunk.size := by
        simpa [Array.isEmpty, Nat.pos_iff_ne_zero] using hempty
      have hhanded : buffer.handed filled = { buffer.settled filled with position := 1 } := by
        rw [handed, Nat.min_eq_left hpos]
      have hstep : filled.step = .yield filled.chunk[0] := by simp [Filled.step, hpos]
      rw [hhanded, hstep]
      exact (Advance.refilled hdry hfills htrace hpos).next_eq

/-- The call after an interrupted one finds everything in place. -/
theorem next_of_settled (feed : Feed I R ε ω) (hdry : buffer.Dry)
    (hdrained : filled.chunk.isEmpty = true → filled.stop = .drained) (state : ω) :
    next feed (buffer.settled filled, state) =
      settle (.ok filled.step) (buffer.handed filled, state) := by
  cases hempty : filled.chunk.isEmpty with
  | true =>
      have hsize : filled.chunk.size = 0 := by simpa [Array.isEmpty] using hempty
      have hstop := hdrained hempty
      have hdry' : ¬ (buffer.settled filled).position < (buffer.settled filled).chunk.size := by
        simp [hsize]
      have hclear : (buffer.settled filled).deferred = none := by
        rw [settled_deferred hdry.clear, hempty, if_pos rfl]
      have hheld : (buffer.settled filled).held = false := by
        rw [settled_held hdry.held, hstop]
        rfl
      have hhanded : buffer.handed filled =
          { buffer.settled filled with chunk := #[], position := 0 } := by
        have hchunk : filled.chunk = #[] := Array.eq_empty_of_size_eq_zero hsize
        rw [handed, hsize, Nat.min_zero, ← hchunk, ← settled_chunk buffer filled]
      have hstep : filled.step = .done none := by simp [Filled.step, hsize]
      rw [hhanded, hstep]
      exact (Advance.ended hdry' hclear hheld).next_eq
  | false =>
      have hpos : 0 < filled.chunk.size := by
        simpa [Array.isEmpty, Nat.pos_iff_ne_zero] using hempty
      have hwaits : (buffer.settled filled).position < (buffer.settled filled).chunk.size := by
        simpa using hpos
      have hhanded : buffer.handed filled =
          { buffer.settled filled with position := (buffer.settled filled).position + 1 } := by
        rw [handed, Nat.min_eq_left hpos, settled_position]
      have hstep : filled.step =
          .yield (buffer.settled filled).chunk[(buffer.settled filled).position] := by
        simp [Filled.step, hpos]
      rw [hhanded, hstep]
      exact (Advance.waiting hwaits).next_eq

end Handed

theorem handed_mapFault (fault : Fault ε' → Fault ε) (buffer : Buffer R ε')
    (filled : Filled R ε') :
    (buffer.mapFault fault).handed (filled.mapFault fault) = (buffer.handed filled).mapFault fault := by
  rw [handed, settled_mapFault]
  rfl

/-- An interrupted call leaves the whole chunk behind, with the failure that ended it. The next call
gives the first of it, and calls on nothing. -/
theorem left_by_interrupted (feed : Feed I R ε ω) {state : Buffer R (Origin × Fault ε) × ω}
    (hclean : state.1.Clean) (hwriter : byWriter ((next feed.marked).answer state) = true) :
    let left := (next feed.marked).after state
    ∃ filled filledState, state.1.Dry ∧ state.1.Fills feed.marked state.2 filled filledState ∧
      left.1.chunk = filled.chunk ∧ left.1.position = 0 ∧ left.1.deferred = filled.stop.failure? ∧
      (next feed.marked).answer left = .ok filled.step ∧
      ((next feed.marked).after left).2 = left.2 := by
  obtain ⟨answer, after, rest, hnext, hadvance⟩ := next_advances feed.marked state.1 state.2
  rw [Action.answer_of_settle hnext] at hwriter
  rw [Action.after_of_settle hnext]
  cases hadvance with
  | waiting hwaits => exact nomatch hwriter
  | deferred hdrained hdeferred => exact nomatch hwriter.symm.trans (hclean _ hdeferred)
  | ended hdrained hclear hheld => exact nomatch hwriter
  | failed hdry hfills hstop hempty =>
      exact nomatch hwriter.symm.trans (hfills.not_byWriter hstop)
  | @interrupted filled filledState _ fault hdry hfills hgoing htrace =>
      have hdeferred : (state.1.settled filled).deferred = filled.stop.failure? := by
        rw [settled_deferred hdry.clear]
        cases hempty : filled.chunk.isEmpty with
        | false => rfl
        | true => rw [drained_of_empty hfills hgoing hempty, if_pos rfl]; rfl
      have hresumed := next_of_settled feed.marked hdry (drained_of_empty hfills hgoing) rest
      refine ⟨filled, filledState, hdry, hfills, settled_chunk _ _, settled_position _ _, hdeferred,
        ?_, ?_⟩
      · exact Action.answer_of_settle hresumed
      · rw [Action.after_of_settle hresumed]
  | refilled hdry hfills htrace hpos => exact nomatch hwriter
  | exhausted hdry hfills hstop hempty htrace => exact nomatch hwriter

/-! ## The silent run trails the traced one -/

/-- A silent state and a traced one, and by how many refills the silent one is behind. -/
inductive Trails (erasure : Erasure ε ω ε' ω') (silent : Feed I R ε ω) :
    Nat → Buffer R ε × ω → Buffer R ε' × ω' → Prop where
  | level {buffer : Buffer R ε'} {state : ω} {state' : ω'} (halike : erasure.alike state state') :
      Trails erasure silent 0 (buffer.mapFault erasure.fault, state) (buffer, state')
  | behind {buffer : Buffer R ε'} {filled : Filled R ε'} {state filledState : ω} {state' : ω'}
      (hdry : buffer.Dry)
      (hfills : (buffer.mapFault erasure.fault).Fills silent state (filled.mapFault erasure.fault)
        filledState)
      (hgoing : ∀ fault, filled.stop = .failed fault → filled.chunk.isEmpty = false)
      (hdrained : filled.chunk.isEmpty = true → filled.stop = .drained)
      (halike : erasure.alike filledState state') :
      Trails erasure silent 1 (buffer.mapFault erasure.fault, state) (buffer.settled filled, state')

section Trails

variable {silent : Feed I R ε ω}

theorem Trails.alike {erasure : Erasure ε ω ε' ω'} {state : Buffer R ε × ω}
    {state' : Buffer R ε' × ω'} (htrails : Trails erasure silent 0 state state') :
    erasure.alike state.2 state'.2 := by
  cases htrails with
  | level halike => exact halike

/-- The next call makes up for an interrupted one, and calls on nothing. -/
theorem Trails.catch_up {erasure : Erasure ε ω ε' ω'} {traced : Feed I R ε' ω'}
    (hhushes : silent.Hushes erasure traced) {state : Buffer R ε × ω} {state' : Buffer R ε' × ω'}
    (htrails : Trails erasure silent 1 state state') :
    ∃ step buffer, state.1.Dry ∧ next traced state' = settle (.ok step) (buffer, state'.2) ∧
      (next silent).answer state = .ok step ∧
      Trails erasure silent 0 ((next silent).after state) (buffer, state'.2) := by
  cases htrails with
  | @behind buffer filled start filledState rest hdry hfills hgoing hdrained halike =>
      have htrace : traceChunk silent (filled.mapFault erasure.fault) filledState =
          .ok () filledState := hhushes.silent _ _ _ halike
      have hsilent := next_of_fills (hdry.mapFault erasure.fault) hfills (going_mapFault hgoing _)
        htrace
      rw [handed_mapFault] at hsilent
      refine ⟨filled.step, _, hdry.mapFault _, next_of_settled traced hdry hdrained rest, ?_, ?_⟩
      · rw [Action.answer_of_settle hsilent]
        rfl
      · rw [Action.after_of_settle hsilent]
        exact .level halike

variable {erasure : Erasure ε ω (Origin × Fault ε') ω'} {traced : Feed I R ε' ω'}
  (hhushes : silent.Hushes erasure traced.marked)

include hhushes

theorem hushes_traceChunk {filled : Filled R (Origin × Fault ε')} {silentState : ω}
    {state state' : ω'} (answer : Except (Fault (Origin × Fault ε')) Unit)
    (halike : erasure.alike silentState state)
    (htrace : traceChunk traced.marked filled state = settle answer state') :
    traceChunk silent (filled.mapFault erasure.fault) silentState = .ok () silentState ∧
      erasure.alike silentState state' := by
  have hafter : erasure.alike silentState ((traceChunk traced.marked filled).after state) :=
    hhushes.trace _ _ _ halike
  rw [Action.after_of_settle htrace] at hafter
  exact ⟨hhushes.silent _ _ _ halike, hafter⟩

/-- Unless the writer interrupts it, the silent run advances in the same way. -/
theorem Advance.hushed {buffer buffer' : Buffer R (Origin × Fault ε')} {state : ω}
    {state' after' : ω'} {answer : Except (Fault (Origin × Fault ε')) (Step R)}
    (hadvance : Advance traced.marked buffer state' answer buffer' after')
    (halike : erasure.alike state state') (hclean : buffer.Clean) :
    (byWriter answer = true ∧ buffer.Dry ∧
      Trails erasure silent 1 (buffer.mapFault erasure.fault, state) (buffer', after')) ∨
    (byWriter answer = false ∧ ∃ after,
      Advance silent (buffer.mapFault erasure.fault) state (answer.mapError erasure.fault)
        (buffer'.mapFault erasure.fault) after ∧ erasure.alike after after') := by
  cases hadvance with
  | waiting hwaits =>
      have hwaits' : (buffer.mapFault erasure.fault).position <
          (buffer.mapFault erasure.fault).chunk.size := hwaits
      exact .inr ⟨rfl, state, .waiting hwaits', halike⟩
  | deferred hdrained hdeferred =>
      exact .inr ⟨hclean _ hdeferred, state, .deferred hdrained (by simp [hdeferred]), halike⟩
  | ended hdrained hclear hheld =>
      exact .inr ⟨rfl, state, .ended hdrained (by simp [hclear]) hheld, halike⟩
  | failed hdry hfills hstop hempty =>
      obtain ⟨after, hfills', hafter⟩ := hfills.mapFault hhushes.toShadows halike
      rw [← settled_mapFault]
      exact .inr ⟨hfills.not_byWriter hstop, after,
        .failed (hdry.mapFault _) hfills' (by simp [hstop, Stop.mapFault]) hempty, hafter⟩
  | @interrupted filled _ _ fault hdry hfills hgoing htrace =>
      obtain ⟨after, hfills', hfilled⟩ := hfills.mapFault hhushes.toShadows halike
      obtain ⟨-, hafter⟩ := hushes_traceChunk hhushes (.error fault) hfilled htrace
      have horigin : fault.origin? = some .writer := Action.origin_of_marked_error htrace
      exact .inl ⟨by simp [byWriter, horigin], hdry,
        .behind hdry hfills' hgoing (drained_of_empty hfills hgoing) hafter⟩
  | @refilled filled _ _ hdry hfills htrace hpos =>
      obtain ⟨after, hfills', hfilled⟩ := hfills.mapFault hhushes.toShadows halike
      obtain ⟨htrace', hafter⟩ := hushes_traceChunk hhushes (.ok ()) hfilled htrace
      have hpos' : 0 < (filled.mapFault erasure.fault).chunk.size := hpos
      have hrefilled := Advance.refilled (hdry.mapFault erasure.fault) hfills' htrace' hpos'
      rw [settled_mapFault] at hrefilled
      exact .inr ⟨rfl, after, hrefilled, hafter⟩
  | exhausted hdry hfills hstop hempty htrace =>
      obtain ⟨after, hfills', hfilled⟩ := hfills.mapFault hhushes.toShadows halike
      obtain ⟨htrace', hafter⟩ := hushes_traceChunk hhushes (.ok ()) hfilled htrace
      rw [← settled_mapFault]
      exact .inr ⟨rfl, after, .exhausted (hdry.mapFault _) hfills'
        (by simp [hstop, Stop.mapFault]) hempty htrace', hafter⟩

/-- The writer interrupts the call, so that the silent run falls behind, or both answer the same and
are level again. -/
theorem Trails.next {lag : Nat} {state : Buffer R ε × ω}
    {state' : Buffer R (Origin × Fault ε') × ω'} (htrails : Trails erasure silent lag state state')
    (hclean : state'.1.Clean) :
    let answer := (next traced.marked).answer state'
    let after := (next traced.marked).after state'
    (byWriter answer = true ∧ lag = 0 ∧ state.1.Dry ∧ Trails erasure silent 1 state after) ∨
      (byWriter answer = false ∧ (Buffer.next silent).answer state = answer.mapError erasure.fault ∧
        (lag = 0 ∨ lag = 1 ∧ state.1.Dry) ∧
        Trails erasure silent 0 ((Buffer.next silent).after state) after) := by
  intro answer after
  cases htrails with
  | @level buffer rest rest' halike =>
      obtain ⟨given, buffer', restAfter, hnext, hadvance⟩ :=
        next_advances traced.marked buffer rest'
      have hanswer : answer = given := Action.answer_of_settle hnext
      have hafter : after = (buffer', restAfter) := Action.after_of_settle hnext
      rw [hanswer, hafter]
      cases hadvance.hushed hhushes halike hclean with
      | inl hinterrupted =>
          obtain ⟨hwriter, hdry, hbehind⟩ := hinterrupted
          exact .inl ⟨hwriter, rfl, hdry.mapFault _, hbehind⟩
      | inr hsame =>
          obtain ⟨hcalm, silentRest, hsilent, halike'⟩ := hsame
          rw [Action.answer_of_settle hsilent.next_eq, Action.after_of_settle hsilent.next_eq]
          exact .inr ⟨hcalm, rfl, .inl rfl, .level halike'⟩
  | behind hdry hfills hgoing hdrained halike =>
      have hbehind := Trails.behind hdry hfills hgoing hdrained halike
      obtain ⟨step, buffer', hdry', hnext, hsilent, hlevel⟩ := hbehind.catch_up hhushes
      have hanswer : answer = .ok step := Action.answer_of_settle hnext
      have hafter : after = _ := Action.after_of_settle hnext
      rw [hanswer, hafter]
      exact .inr ⟨rfl, hsilent, .inr ⟨rfl, hdry'⟩, hlevel⟩

end Trails

/-- Whether the next call has to refill. -/
def isDry (buffer : Buffer R ε) : Bool :=
  decide (buffer.chunk.size ≤ buffer.position) && buffer.deferred.isNone && buffer.held

theorem isDry_of_dry {buffer : Buffer R ε} (hdry : buffer.Dry) : buffer.isDry = true := by
  have hdrained := hdry.drained
  have hle : buffer.chunk.size ≤ buffer.position := by omega
  simp [isDry, hle, hdry.clear, hdry.held]

end Buffer

namespace BufferCall

/-- The answers of the calls for a next result. -/
def nexts (feed : Feed I R ε ω) :
    List BufferCall → Buffer R ε × ω → List (Except (Fault ε) (Step R))
  | [], _ => []
  | .next :: calls, state =>
      (Buffer.next feed).answer state :: nexts feed calls ((Buffer.next feed).after state)
  | .release :: calls, state => nexts feed calls ((Buffer.release feed).after state)

/-- The calls that the writer does not interrupt. -/
def undisturbed (feed : Feed I R (Origin × Fault ε) ω) :
    List BufferCall → Buffer R (Origin × Fault ε) × ω → List BufferCall
  | [], _ => []
  | .next :: calls, state =>
      let kept := undisturbed feed calls ((Buffer.next feed).after state)
      if byWriter ((Buffer.next feed).answer state) then kept else .next :: kept
  | .release :: calls, state => .release :: undisturbed feed calls ((Buffer.release feed).after state)

/-- How many calls have to refill. -/
def refills (feed : Feed I R ε ω) : List BufferCall → Buffer R ε × ω → Nat
  | [], _ => 0
  | .next :: calls, state =>
      (if state.1.isDry then 1 else 0) + refills feed calls ((Buffer.next feed).after state)
  | .release :: calls, state => refills feed calls ((Buffer.release feed).after state)

theorem next_at_end (feed : Feed I R ε ω) {state : Buffer R ε × ω} (heof : state.1.isEof) :
    (Buffer.next feed).answer state = .ok (.done none) ∧
      ((Buffer.next feed).after state).1.isEof :=
  ⟨Action.answer_of_settle (buffer_next_of_isEof heof feed state.2),
    buffer_next_stays feed state heof⟩

theorem release_at_end (feed : Feed I R ε ω) (state : Buffer R ε × ω) :
    ((Buffer.release feed).after state).1.isEof := by
  rw [Buffer.release_own]
  exact state.1.dropped_isEof

/-- At the end there is nothing to interrupt. -/
theorem nexts_of_isEof (silent : Feed I R ε ω) (traced : Feed I R (Origin × Fault ε') ω')
    (fault : Fault (Origin × Fault ε') → Fault ε) (calls : List BufferCall)
    {state : Buffer R ε × ω} {state' : Buffer R (Origin × Fault ε') × ω'} (heof : state.1.isEof)
    (heof' : state'.1.isEof) :
    nexts silent (undisturbed traced calls state') state =
      ((nexts traced calls state').filter fun answer => !byWriter answer).map
        (·.mapError fault) := by
  induction calls generalizing state state' with
  | nil => rfl
  | cons call calls ih =>
      cases call with
      | next =>
          obtain ⟨hanswer, hends⟩ := next_at_end silent heof
          obtain ⟨hanswer', hends'⟩ := next_at_end traced heof'
          have hrest := ih hends hends'
          simp [nexts, undisturbed, hanswer, hanswer', byWriter, hrest, Except.mapError]
      | release => exact ih (release_at_end silent state) (release_at_end traced state')

section Trails

variable {silent : Feed I R ε ω} {erasure : Erasure ε ω (Origin × Fault ε') ω'}
  {traced : Feed I R ε' ω'} (hhushes : silent.Hushes erasure traced.marked)

include hhushes

/-- What remains of the answers without the interrupted calls are the answers of the silent run. -/
theorem nexts_of_trails (calls : List BufferCall) {lag : Nat} {state : Buffer R ε × ω}
    {state' : Buffer R (Origin × Fault ε') × ω'}
    (htrails : Buffer.Trails erasure silent lag state state') (hclean : state'.1.Clean) :
    nexts silent (undisturbed traced.marked calls state') state =
      ((nexts traced.marked calls state').filter fun answer => !byWriter answer).map
        (·.mapError erasure.fault) := by
  induction calls generalizing lag state state' with
  | nil => rfl
  | cons call calls ih =>
      cases call with
      | next =>
          have hclean' := Buffer.next_clean traced hclean
          cases htrails.next hhushes hclean with
          | inl hinterrupted =>
              obtain ⟨hwriter, -, -, hbehind⟩ := hinterrupted
              have hrest := ih hbehind hclean'
              simp [nexts, undisturbed, hwriter, hrest]
          | inr hsame =>
              obtain ⟨hcalm, hanswer, -, hlevel⟩ := hsame
              have hrest := ih hlevel hclean'
              simp [nexts, undisturbed, hcalm, hanswer, hrest]
      | release =>
          exact nexts_of_isEof silent traced.marked erasure.fault calls (release_at_end silent state)
            (release_at_end traced.marked state')

/-- The silent run ends up where the traced one does, once it has made up for the last interrupted
call. No refill is interrupted twice. -/
theorem refills_of_trails {calls : List BufferCall} (hcalls : .release ∉ calls) {lag : Nat}
    {state : Buffer R ε × ω} {state' : Buffer R (Origin × Fault ε') × ω'}
    (htrails : Buffer.Trails erasure silent lag state state') (hclean : state'.1.Clean) :
    let kept := undisturbed traced.marked calls state'
    ∃ ahead, (ahead = [] ∨ ahead = [.next]) ∧
      erasure.alike (run silent (kept ++ ahead) state).2 (run traced.marked calls state').2 ∧
      lag + (nexts traced.marked calls state').countP byWriter ≤
        refills silent (kept ++ ahead) state := by
  induction calls generalizing lag state state' with
  | nil =>
      cases htrails with
      | level halike => exact ⟨[], .inl rfl, halike, Nat.zero_le _⟩
      | behind hdry hfills hgoing hdrained halike =>
          have hbehind := Buffer.Trails.behind hdry hfills hgoing hdrained halike
          obtain ⟨step, buffer, hdry', -, -, hlevel⟩ := hbehind.catch_up hhushes
          refine ⟨[.next], .inr rfl, ?_, ?_⟩
          · rw [undisturbed, List.nil_append, run_next]
            exact hlevel.alike
          · simp [undisturbed, nexts, refills, Buffer.isDry_of_dry hdry']
  | cons call calls ih =>
      cases call with
      | release => exact absurd List.mem_cons_self hcalls
      | next =>
          have hclean' := Buffer.next_clean traced hclean
          have hrest : .release ∉ calls := fun hmem => hcalls (List.mem_cons_of_mem _ hmem)
          cases htrails.next hhushes hclean with
          | inl hinterrupted =>
              obtain ⟨hwriter, rfl, -, hbehind⟩ := hinterrupted
              obtain ⟨ahead, hahead, halike, hcount⟩ := ih hrest hbehind hclean'
              rw [run_next]
              simp only [undisturbed, nexts, hwriter, if_true, List.countP_cons_of_pos]
              exact ⟨ahead, hahead, halike, by omega⟩
          | inr hsame =>
              obtain ⟨hcalm, -, hlag, hlevel⟩ := hsame
              obtain ⟨ahead, hahead, halike, hcount⟩ := ih hrest hlevel hclean'
              rw [run_next]
              simp only [undisturbed, nexts, hcalm, Bool.false_eq_true, if_false, List.cons_append,
                not_false_eq_true, List.countP_cons_of_neg, refills]
              refine ⟨ahead, hahead, ?_, ?_⟩
              · rw [run_next]
                exact halike
              · obtain rfl | ⟨rfl, hdry⟩ := hlag
                · omega
                · rw [if_pos (Buffer.isDry_of_dry hdry)]
                  omega

end Trails

theorem run_clean (feed : Feed I R ε ω) (calls : List BufferCall)
    {state : Buffer R (Origin × Fault ε) × ω} (hclean : state.1.Clean) :
    (run feed.marked calls state).1.Clean := by
  induction calls generalizing state with
  | nil => exact hclean
  | cons call calls ih =>
      cases call with
      | next =>
          rw [run_next]
          exact ih (Buffer.next_clean feed hclean)
      | release =>
          rw [run_release]
          refine ih ?_
          rw [Buffer.release_own]
          exact nofun

/-- What is forgotten makes no difference to the answers. -/
theorem nexts_erases {erasure : Erasure ε ω ε' ω'} {left : Feed I R ε ω} {right : Feed I R ε' ω'}
    (hfeed : left.Erases erasure right) (calls : List BufferCall) {state : Buffer R ε × ω}
    {state' : Buffer R ε' × ω'} (halike : (erasure.buffered R).alike state state') :
    nexts left calls state = (nexts right calls state').map (·.mapError erasure.fault) := by
  induction calls generalizing state state' with
  | nil => rfl
  | cons call calls ih =>
      cases call with
      | next =>
          obtain ⟨hanswer, hafter⟩ := next_erases hfeed state state' halike
          rw [nexts, nexts, hanswer, ih hafter, List.map_cons]
          rfl
      | release =>
          obtain ⟨-, hafter⟩ := release_erases hfeed.toShadows state state' halike
          exact ih hafter

/-- A traced run beside the silent run of the calls that the writer does not interrupt. -/
structure LosesNothing (alike : ω → ω' → Prop) (silent : Feed I R ε ω) (traced : Feed I R ε ω')
    {capacity : Nat} (hpos : 0 < capacity) (calls : List BufferCall) (state : ω) (state' : ω') :
    Prop where
  /-- The traced run does not notice that its faults are marked. -/
  unnoticed : nexts traced calls (.empty capacity hpos, state') =
    (nexts traced.marked calls (.empty capacity hpos, state')).map (·.mapError Fault.unmarked)
  /-- What remains of its answers are the answers of the silent run. -/
  answers : nexts silent (undisturbed traced.marked calls (.empty capacity hpos, state'))
      (.empty capacity hpos, state) =
    ((nexts traced.marked calls (.empty capacity hpos, state')).filter fun answer =>
      !byWriter answer).map (·.mapError Fault.unmarked)
  /-- An interrupted call leaves the whole chunk to the following calls. -/
  leaves :
    let reached := run traced.marked calls (.empty capacity hpos, state')
    let left := (Buffer.next traced.marked).after reached
    byWriter ((Buffer.next traced.marked).answer reached) = true →
    ∃ filled filledState, reached.1.Dry ∧
      reached.1.Fills traced.marked reached.2 filled filledState ∧
      left.1.chunk = filled.chunk ∧ left.1.position = 0 ∧ left.1.deferred = filled.stop.failure? ∧
      (Buffer.next traced.marked).answer left = .ok filled.step ∧
      ((Buffer.next traced.marked).after left).2 = left.2
  /-- The silent run makes the same refills, at most one of them after the last of its calls. -/
  refills : .release ∉ calls →
    let kept := undisturbed traced.marked calls (.empty capacity hpos, state')
    ∃ ahead, (ahead = [] ∨ ahead = [.next]) ∧
      alike (run silent (kept ++ ahead) (.empty capacity hpos, state)).2
        (run traced.marked calls (.empty capacity hpos, state')).2 ∧
      (nexts traced.marked calls (.empty capacity hpos, state')).countP byWriter ≤
        BufferCall.refills silent (kept ++ ahead) (.empty capacity hpos, state)

theorem losesNothing_of_hushes {alike : ω → ω' → Prop} {silent : Feed I R ε ω}
    {traced : Feed I R ε ω'} (hhushes : silent.Hushes ⟨Fault.unmarked, alike⟩ traced.marked)
    {capacity : Nat} (hpos : 0 < capacity) (calls : List BufferCall) {state : ω} {state' : ω'}
    (halike : alike state state') : LosesNothing alike silent traced hpos calls state state' := by
  let fresh : Buffer R (Origin × Fault ε) := .empty capacity hpos
  have hclean : fresh.Clean := fun _ hdeferred => nomatch hdeferred
  have hlevel : Buffer.Trails ⟨Fault.unmarked, alike⟩ silent 0 (.empty capacity hpos, state)
      (fresh, state') :=
    (.level halike : Buffer.Trails _ silent 0 (fresh.mapFault Fault.unmarked, state) _)
  refine ⟨nexts_erases traced.marked_erases calls ⟨rfl, rfl⟩,
    nexts_of_trails hhushes calls hlevel hclean,
    Buffer.left_by_interrupted traced (run_clean traced calls hclean), fun hcalls => ?_⟩
  obtain ⟨ahead, hahead, halike', hcount⟩ := refills_of_trails hhushes hcalls hlevel hclean
  rw [Nat.zero_add] at hcount
  exact ⟨ahead, hahead, halike', hcount⟩

end BufferCall

end PullRange
