import PullRange.Proofs.Accounts
import PullRange.Proofs.ChunkedAnswers
import PullRange.Proofs.Records

/-!
# Well-formed buffers

A buffer stands at a position in a chunk of results, and a failure may wait behind them.
`Buffer.WellFormed` says how these fit together between two calls, whatever has failed in them.
`Buffer.noticedNext` notices every attempt to refill the buffer and every look into its chunk, and
`Feed.recalled` remembers the results that were computed, so that it can be said that a buffer never
looks past its chunk and hands out computed results only.
-/

namespace PullRange

variable {I R ε ω α : Type}

namespace Buffer

/-- A failure is deferred by a chunk that it has cut short, behind the results in it, and while the
resource can still be asked for what comes after it. -/
structure WellFormed (buffer : Buffer R ε) (capacity : Nat) : Prop where
  sized : buffer.capacity = capacity
  position_le : buffer.position ≤ buffer.chunk.size
  size_le : buffer.chunk.size ≤ capacity
  deferring : ∀ fault, buffer.deferred = some fault →
    buffer.held = true ∧ 0 < buffer.chunk.size ∧ buffer.chunk.size < capacity

theorem empty_wellFormed (capacity : Nat) (hpos : 0 < capacity) :
    (empty capacity hpos : Buffer R ε).WellFormed capacity where
  sized := rfl
  position_le := Nat.le_refl 0
  size_le := Nat.zero_le capacity
  deferring := nofun

section Calls

variable {feed : Feed I R ε ω} {buffer buffer' : Buffer R ε} {capacity : Nat} {state state' : ω}

theorem WellFormed.dropped (hformed : buffer.WellFormed capacity) :
    buffer.dropped.WellFormed capacity where
  sized := hformed.sized
  position_le := Nat.le_refl 0
  size_le := Nat.zero_le capacity
  deferring := nofun

theorem WellFormed.settled {filled : Filled R ε} (hformed : buffer.WellFormed capacity)
    (hdry : buffer.Dry) (hfills : buffer.Fills feed state filled state') :
    (buffer.settled filled).WellFormed capacity := by
  have hfits := hfills.fits
  rw [hformed.sized] at hfits
  refine ⟨?_, ?_, ?_, fun fault hdeferred => ?_⟩
  · rw [settled_capacity, hformed.sized]
  · rw [settled_position]
    exact Nat.zero_le _
  · rw [settled_chunk]
    omega
  · rw [settled_deferred hdry.clear] at hdeferred
    by_cases hempty : filled.chunk.isEmpty = true
    · rw [if_pos hempty] at hdeferred
      exact nomatch hdeferred
    · rw [if_neg hempty] at hdeferred
      -- The failure has the place of a result, so the chunk before it is not full.
      have hroom : filled.chunk.size + 1 ≤ capacity := by simpa [hdeferred] using hfits
      have hpos : 0 < filled.chunk.size := by
        simpa [Array.isEmpty, Nat.pos_iff_ne_zero] using hempty
      have hopen : filled.stop.isDrained = false := by
        cases hstop : filled.stop with
        | failed failure => rfl
        | full => rfl
        | drained => simp [hstop, Stop.failure?] at hdeferred
      rw [settled_held hdry.held, settled_chunk, hopen]
      exact ⟨rfl, hpos, hroom⟩

theorem Advance.wellFormed {answer : Except (Fault ε) (Step R)}
    (hadvance : Advance feed buffer state answer buffer' state')
    (hformed : buffer.WellFormed capacity) : buffer'.WellFormed capacity := by
  cases hadvance with
  | waiting hwaits => exact ⟨hformed.sized, hwaits, hformed.size_le, hformed.deferring⟩
  | deferred hdrained hdeferred =>
      exact ⟨hformed.sized, hformed.position_le, hformed.size_le, nofun⟩
  | ended hdrained hclear hheld =>
      refine ⟨hformed.sized, Nat.le_refl 0, Nat.zero_le capacity, fun fault hdeferred => ?_⟩
      exact nomatch hclear.symm.trans hdeferred
  | failed hdry hfills hstop hempty => exact hformed.settled hdry hfills
  | interrupted hdry hfills hgoing htrace => exact hformed.settled hdry hfills
  | refilled hdry hfills htrace hpos =>
      have hsettled := hformed.settled hdry hfills
      refine ⟨hsettled.sized, ?_, hsettled.size_le, hsettled.deferring⟩
      rw [settled_chunk]
      exact hpos
  | exhausted hdry hfills hstop hempty htrace => exact hformed.settled hdry hfills

theorem next_wellFormed (feed : Feed I R ε ω) (state : ω) (hformed : buffer.WellFormed capacity) :
    ((next feed).after (buffer, state)).1.WellFormed capacity := by
  obtain ⟨answer, buffer', state', hnext, hadvance⟩ := next_advances feed buffer state
  rw [Action.after_of_settle hnext]
  exact hadvance.wellFormed hformed

theorem release_wellFormed (feed : Feed I R ε ω) (state : ω)
    (hformed : buffer.WellFormed capacity) :
    ((release feed).after (buffer, state)).1.WellFormed capacity := by
  rw [release_own]
  exact hformed.dropped

end Calls

end Buffer

theorem BufferCall.run_wellFormed (feed : Feed I R ε ω) {capacity : Nat} (calls : List BufferCall)
    {state : Buffer R ε × ω} (hformed : state.1.WellFormed capacity) :
    (run feed calls state).1.WellFormed capacity := by
  induction calls generalizing state with
  | nil => exact hformed
  | cons call calls ih =>
      cases call with
      | next =>
          rw [run_next]
          exact ih (Buffer.next_wellFormed feed state.2 hformed)
      | release =>
          rw [run_release]
          exact ih (Buffer.release_wellFormed feed state.2 hformed)

namespace Buffer

/-- What a call sets about, with the buffer as it is at that moment. -/
inductive Moment (R ε : Type) where
  | refilling (buffer : Buffer R ε)
  | reading (buffer : Buffer R ε)

def Moment.buffer : Moment R ε → Buffer R ε
  | .refilling buffer => buffer
  | .reading buffer => buffer

/-- A buffer is refilled when nothing waits in it, and read where something does. -/
def Moment.Due : Moment R ε → Prop
  | .refilling buffer => buffer.chunk.size ≤ buffer.position ∧ buffer.deferred = none
  | .reading buffer => buffer.position < buffer.chunk.size

/-- Nothing is set about before it is due, and what is due with this buffer is set about. -/
structure Timely (buffer : Buffer R ε) (moments : List (Moment R ε)) : Prop where
  due : ∀ moment ∈ moments, moment.Due
  complete : ∀ moment, moment.buffer = buffer → moment.Due → moment ∈ moments

/-- Reads without looking where the chunk ends. Beyond its end there is `absent`. -/
def readOff (absent : R) : Action ε (Buffer R ε × ω) (Step R) := do
  let buffer ← getOwn
  setOwn { buffer with position := buffer.position + 1 }
  return .yield (buffer.chunk.getD buffer.position absent)

def noticed (moment : Buffer R ε → Moment R ε) (action : Action ε (Buffer R ε × ω) α) :
    Action ε (Buffer R ε × ω × List (Moment R ε)) α := fun (buffer, state, moments) =>
  let after := action.after (buffer, state)
  settle (action.answer (buffer, state)) (after.1, after.2, moments ++ [moment buffer])

def noticedNext (feed : Feed I R ε ω) (absent : R) :
    Action ε (Buffer R ε × ω × List (Moment R ε)) (Step R) :=
  nextBy (noticed .refilling (refill feed)) (noticed .reading (readOff absent))

section Noticed

variable {buffer buffer' : Buffer R ε} {state state' : ω} {moments : List (Moment R ε)}

theorem noticed_of_settle {moment : Buffer R ε → Moment R ε}
    {action : Action ε (Buffer R ε × ω) α} {answer : Except (Fault ε) α}
    (haction : action (buffer, state) = settle answer (buffer', state')) :
    noticed moment action (buffer, state, moments) =
      settle answer (buffer', state', moments ++ [moment buffer]) := by
  unfold noticed
  simp only [Action.answer_of_settle haction, Action.after_of_settle haction]

theorem reading_of_waiting (hwaits : buffer.position < buffer.chunk.size) (absent : R) (state : ω)
    (moments : List (Moment R ε)) :
    ∃ answer buffer', handOut (buffer, state) = settle answer (buffer', state) ∧
      noticed .reading (readOff absent) (buffer, state, moments) =
        settle answer (buffer', state, moments ++ [.reading buffer]) := by
  have hread : readOff absent (buffer, state) =
      settle (.ok (.yield buffer.chunk[buffer.position]) : Except (Fault ε) (Step R))
        ({ buffer with position := buffer.position + 1 }, state) := by
    rw [readOff, Action.bind_of_ok (getOwn_apply buffer state)]
    simp [Array.getD, hwaits, Action.bind_apply]
  exact ⟨_, _, handOut_of_waiting hwaits, noticed_of_settle hread⟩

theorem Timely.of_waiting (hwaits : buffer.position < buffer.chunk.size) :
    Timely buffer [.reading buffer] where
  due moment hmoment := by
    cases List.mem_singleton.mp hmoment
    exact hwaits
  complete moment hbuffer hdue := by
    cases moment with
    | reading _ => exact List.mem_singleton.mpr (congrArg Moment.reading hbuffer)
    | refilling _ =>
        cases hbuffer
        exact absurd hdue.1 (Nat.not_le_of_lt hwaits)

theorem Timely.of_deferred {fault : Fault ε} (hdrained : ¬ buffer.position < buffer.chunk.size)
    (hdeferred : buffer.deferred = some fault) : Timely buffer [] where
  due _ := nofun
  complete moment hbuffer hdue := by
    cases moment with
    | reading _ =>
        cases hbuffer
        exact absurd hdue hdrained
    | refilling _ =>
        cases hbuffer
        exact nomatch hdue.2.symm.trans hdeferred

theorem Timely.of_drained (hdrained : ¬ buffer.position < buffer.chunk.size)
    (hdeferred : buffer.deferred = none) {later : List (Moment R ε)}
    (hlater : ∀ moment ∈ later, moment.Due) : Timely buffer (.refilling buffer :: later) where
  due := List.forall_mem_cons.mpr ⟨⟨Nat.le_of_not_lt hdrained, hdeferred⟩, hlater⟩
  complete moment hbuffer hdue := by
    cases moment with
    | reading _ =>
        cases hbuffer
        exact absurd hdue hdrained
    | refilling _ => exact List.mem_cons.mpr (.inl (congrArg Moment.refilling hbuffer))

/-- Everything is set about when it is due, and that this is noticed makes no difference. -/
theorem noticedNext_advances (feed : Feed I R ε ω) (absent : R) (buffer : Buffer R ε) (state : ω)
    (moments : List (Moment R ε)) :
    ∃ answer buffer' state' more, next feed (buffer, state) = settle answer (buffer', state') ∧
      noticedNext feed absent (buffer, state, moments) =
        settle answer (buffer', state', moments ++ more) ∧
      Timely buffer more := by
  unfold noticedNext
  by_cases hwaits : buffer.position < buffer.chunk.size
  · obtain ⟨answer, buffer', hread, hnoticed⟩ := reading_of_waiting hwaits absent state moments
    rw [next_of_waiting hwaits, nextBy_of_waiting hwaits]
    exact ⟨answer, buffer', state, _, hread, hnoticed, .of_waiting hwaits⟩
  · cases hdeferred : buffer.deferred with
    | some fault =>
        rw [next_of_deferred hwaits hdeferred, nextBy_of_deferred hwaits hdeferred]
        refine ⟨.error fault, _, _, [], rfl, ?_, .of_deferred hwaits hdeferred⟩
        rw [List.append_nil]
        rfl
    | none =>
        rw [next_of_drained hwaits hdeferred, nextBy_of_drained hwaits hdeferred]
        cases hrefill : refill feed (buffer, state) with
        | error fault after =>
            have hnoticed : noticed .refilling (refill feed) (buffer, state, moments) =
                settle (.error fault) _ := noticed_of_settle hrefill
            rw [Action.bind_of_error hrefill, Action.bind_of_error hnoticed]
            exact ⟨.error fault, _, _, _, rfl, rfl, .of_drained hwaits hdeferred nofun⟩
        | ok refilled after =>
            have hnoticed : noticed .refilling (refill feed) (buffer, state, moments) =
                settle (.ok refilled) _ := noticed_of_settle hrefill
            rw [Action.bind_of_ok hrefill, Action.bind_of_ok hnoticed]
            cases refill_waits_or_ends hdeferred hrefill with
            | inl hwaiting =>
                obtain ⟨rfl, hwaiting⟩ := hwaiting
                obtain ⟨answer, buffer', hread, hreading⟩ := reading_of_waiting hwaiting absent
                  after.2 (moments ++ [.refilling buffer])
                rw [List.append_assoc] at hreading
                rw [if_pos rfl, if_pos rfl]
                have hdue := (Timely.of_waiting hwaiting).due
                exact ⟨answer, buffer', after.2, _, hread, hreading,
                  .of_drained hwaits hdeferred hdue⟩
            | inr hends =>
                obtain ⟨rfl, -⟩ := hends
                exact ⟨.ok (.done none), after.1, after.2, _, rfl, rfl,
                  .of_drained hwaits hdeferred nofun⟩

end Noticed

end Buffer

/-! ## What was computed -/

def Action.recalled (results : Except (Fault ε) α → List R) (action : Action ε ω α) :
    Action ε (ω × List R) α := fun state =>
  settle (action.answer state.1) (action.after state.1, state.2 ++ results (action.answer state.1))

theorem Action.recalled_apply (results : Except (Fault ε) α → List R) (action : Action ε ω α)
    (state : ω × List R) :
    action.recalled results state =
      settle (action.answer state.1)
        (action.after state.1, state.2 ++ results (action.answer state.1)) := rfl

def Action.unrecalled (results : List R) (action : Action ε (ω × List R) α) : Action ε ω α :=
  fun state => settle (action.answer (state, results)) (action.after (state, results)).1

/-- Remembers every result that is computed, in the order in which they are. -/
def Feed.recalled (feed : Feed I R ε ω) : Feed I R ε (ω × List R) where
  ask := feed.ask.recalled fun _ => []
  release := feed.release.recalled fun _ => []
  compute input index := (feed.compute input index).recalled fun answer => answer.toOption.toList
  trace tag message := fun state =>
    (feed.trace tag (message.unrecalled state.2)).recalled (fun _ => []) state

section Recalled

theorem results_of_recalled (results : Except (Fault ε) α → List R) (action : Action ε ω α)
    (state : ω × List R) :
    ((action.recalled results).after state).2 =
      state.2 ++ results ((action.recalled results).answer state) := by
  have hrecalled := action.recalled_apply results state
  rw [Action.after_of_settle hrecalled, Action.answer_of_settle hrecalled]

theorem results_of_compute (feed : Feed I R ε ω) (input : I) (index : Nat) (state : ω × List R) :
    ((feed.recalled.compute input index).after state).2 =
      state.2 ++ ((feed.recalled.compute input index).answer state).toOption.toList :=
  results_of_recalled (fun answer => answer.toOption.toList) (feed.compute input index) state

/-- Nothing but a computation adds to the results. -/
theorem results_of_other (feed : Feed I R ε ω) (state : ω × List R) :
    (feed.recalled.ask.after state).2 = state.2 ∧
      (feed.recalled.release.after state).2 = state.2 ∧
      ∀ tag message, ((feed.recalled.trace tag message).after state).2 = state.2 := by
  refine ⟨?_, ?_, fun tag message => ?_⟩
  · exact (results_of_recalled (fun _ => []) feed.ask state).trans (List.append_nil _)
  · exact (results_of_recalled (fun _ => []) feed.release state).trans (List.append_nil _)
  · have htraced := results_of_recalled (fun _ => []) (feed.trace tag (message.unrecalled state.2))
      state
    exact htraced.trans (List.append_nil _)

theorem recalled_inStep (results : Except (Fault ε) α → List R) (action : Action ε ω α) :
    action.InStep (.annotating ω (List R)) (action.recalled results) :=
  Action.inStep_annotating (action.recalled_apply results)

theorem feed_recalled_inStep (feed : Feed I R ε ω) :
    feed.InStep (.annotating ω (List R)) feed.recalled where
  ask := recalled_inStep (fun _ => []) feed.ask
  release := recalled_inStep (fun _ => []) feed.release
  compute input index :=
    recalled_inStep (fun answer => answer.toOption.toList) (feed.compute input index)
  trace message := recalled_inStep (fun _ => []) (feed.trace "underflow" (pure message))

end Recalled

namespace Buffer

/-- The results that wait. -/
def stock (buffer : Buffer R ε) : List R :=
  buffer.chunk.toList.drop buffer.position

section Stock

variable {feed : Feed I R ε ω}

/-- The chunk takes in whatever is computed. -/
theorem fill_recalled (feed : Feed I R ε ω) (room consumed : Nat) (chunk : Array R)
    (state : ω × List R) :
    let outcome := fill feed.recalled room consumed chunk state
    ∃ computed, outcome.1.chunk.toList = chunk.toList ++ computed ∧
      outcome.2.2 = state.2 ++ computed := by
  induction room generalizing consumed chunk state with
  | zero => exact ⟨[], (List.append_nil _).symm, (List.append_nil _).symm⟩
  | succ room ih =>
      have hasked := (results_of_other feed state).1
      cases hask : feed.recalled.ask state with
      | error fault state' =>
          rw [Action.after_of_error hask] at hasked
          rw [fill_of_fail hask]
          exact ⟨[], (List.append_nil _).symm, hasked.trans (List.append_nil _).symm⟩
      | ok step state' =>
          rw [Action.after_of_ok hask] at hasked
          cases step with
          | done parting =>
              rw [fill_of_done hask]
              exact ⟨[], (List.append_nil _).symm, hasked.trans (List.append_nil _).symm⟩
          | yield input =>
              have hcomputed := results_of_compute feed input consumed state'
              rw [hasked] at hcomputed
              cases hcompute : feed.recalled.compute input consumed state' with
              | error fault state'' =>
                  rw [Action.after_of_error hcompute, Action.answer_of_error hcompute] at hcomputed
                  rw [fill_of_error hask hcompute]
                  exact ⟨[], (List.append_nil _).symm, hcomputed⟩
              | ok result state'' =>
                  rw [Action.after_of_ok hcompute, Action.answer_of_ok hcompute] at hcomputed
                  obtain ⟨computed, hchunk, hlater⟩ :=
                    ih (consumed + 1) (chunk.push result) state''
                  rw [fill_of_result hask hcompute]
                  refine ⟨result :: computed, ?_, ?_⟩
                  · rw [hchunk, Array.toList_push, List.append_assoc]
                    rfl
                  · rw [hlater, hcomputed, List.append_assoc]
                    rfl

theorem Fills.recalled {buffer : Buffer R ε} {filled : Filled R ε} {state state' : ω × List R}
    (hfills : buffer.Fills feed.recalled state filled state') :
    state'.2 = state.2 ++ filled.chunk.toList := by
  obtain ⟨computed, hchunk, hresults⟩ :=
    fill_recalled feed buffer.capacity buffer.consumed #[] state
  rw [hfills] at hchunk hresults
  rw [hresults, hchunk, List.nil_append]

theorem settled_stock (buffer : Buffer R ε) (filled : Filled R ε) :
    (buffer.settled filled).stock = filled.chunk.toList := by
  rw [stock, settled_chunk, settled_position, List.drop_zero]

theorem stock_of_drained {buffer : Buffer R ε} (hdrained : ¬ buffer.position < buffer.chunk.size) :
    buffer.stock = [] := by
  rw [stock, List.drop_eq_nil_iff, Array.length_toList]
  exact Nat.le_of_not_lt hdrained

theorem stock_of_waiting {buffer : Buffer R ε} (hwaits : buffer.position < buffer.chunk.size) :
    buffer.stock = buffer.chunk[buffer.position] ::
      ({ buffer with position := buffer.position + 1 } : Buffer R ε).stock := by
  unfold stock
  rw [List.drop_eq_getElem_cons (by simpa using hwaits), Array.getElem_toList]

/-- What fills a dry buffer has been computed just now, and is handed out or waits. -/
theorem Fills.passes {buffer buffer' : Buffer R ε} {filled : Filled R ε}
    {state state' state'' : ω × List R} {answer : Except (Fault ε) (Step R)} (hdry : buffer.Dry)
    (hfills : buffer.Fills feed.recalled state filled state') (hresults : state''.2 = state'.2)
    (hstock : filled.chunk.toList = (yielded? answer).toList ++ buffer'.stock) :
    ∃ computed, state''.2 = state.2 ++ computed ∧
      buffer.stock ++ computed = (yielded? answer).toList ++ buffer'.stock := by
  refine ⟨filled.chunk.toList, hresults.trans hfills.recalled, ?_⟩
  rw [stock_of_drained hdry.drained, List.nil_append, hstock]

/-- What a call computes waits behind what waited, and what it hands out comes from the front. -/
theorem Advance.passes {buffer buffer' : Buffer R ε} {state state' : ω × List R}
    {answer : Except (Fault ε) (Step R)}
    (hadvance : Advance feed.recalled buffer state answer buffer' state') :
    ∃ computed, state'.2 = state.2 ++ computed ∧
      buffer.stock ++ computed = (yielded? answer).toList ++ buffer'.stock := by
  have htraced (filled : Filled R ε) (state : ω × List R) :
      ((traceChunk feed.recalled filled).after state).2 = state.2 :=
    (results_of_other feed state).2.2 "underflow" _
  cases hadvance with
  | waiting hwaits =>
      refine ⟨[], (List.append_nil _).symm, ?_⟩
      rw [List.append_nil, stock_of_waiting hwaits]
      rfl
  | deferred hdrained hdeferred => exact ⟨[], (List.append_nil _).symm, List.append_nil _⟩
  | ended hdrained hclear hheld =>
      refine ⟨[], (List.append_nil _).symm, ?_⟩
      rw [stock_of_drained hdrained]
      rfl
  | @failed filled _ fault hdry hfills hstop hempty =>
      exact hfills.passes hdry rfl (settled_stock buffer filled).symm
  | @interrupted filled filledState _ fault hdry hfills hgoing htrace =>
      have hresults := htraced filled filledState
      rw [Action.after_of_error htrace] at hresults
      exact hfills.passes hdry hresults (settled_stock buffer filled).symm
  | @refilled filled filledState _ hdry hfills htrace hpos =>
      have hresults := htraced filled filledState
      rw [Action.after_of_ok htrace] at hresults
      have hwaits : (buffer.settled filled).position < (buffer.settled filled).chunk.size := by
        simpa using hpos
      refine hfills.passes hdry hresults ?_
      rw [← settled_stock buffer, stock_of_waiting hwaits]
      simp [yielded?]
  | @exhausted filled filledState _ hdry hfills hstop hempty htrace =>
      have hresults := htraced filled filledState
      rw [Action.after_of_ok htrace] at hresults
      exact hfills.passes hdry hresults (settled_stock buffer filled).symm

theorem next_passes (feed : Feed I R ε ω) (state : Buffer R ε × ω × List R) :
    ∃ computed, ((next feed.recalled).after state).2.2 = state.2.2 ++ computed ∧
      state.1.stock ++ computed = (yielded? ((next feed.recalled).answer state)).toList ++
        ((next feed.recalled).after state).1.stock := by
  obtain ⟨answer, buffer', state', hnext, hadvance⟩ := next_advances feed.recalled state.1 state.2
  rw [Action.answer_of_settle hnext, Action.after_of_settle hnext]
  exact hadvance.passes

theorem release_passes (feed : Feed I R ε ω) (state : Buffer R ε × ω × List R) :
    ((release feed.recalled).after state).1.stock = [] ∧
      ((release feed.recalled).after state).2.2 = state.2.2 := by
  obtain ⟨buffer, rest⟩ := state
  refine ⟨by rw [release_own]; rfl, ?_⟩
  cases hheld : buffer.held with
  | true =>
      rw [Action.after_of_settle (release_of_held feed.recalled hheld)]
      exact (results_of_other feed rest).2.1
  | false => rw [Action.after_of_ok (release_of_not_held feed.recalled hheld)]

end Stock

end Buffer

namespace BufferCall

/-- The results that are handed out. -/
def given (answers : List (Except (Fault ε) (Option (Step R)))) : List R :=
  answers.filterMap fun
    | .ok (some (.yield result)) => some result
    | _ => none

theorem given_next (answer : Except (Fault ε) (Step R))
    (answers : List (Except (Fault ε) (Option (Step R)))) :
    given (answer.map some :: answers) = (yielded? answer).toList ++ given answers := by
  cases answer with
  | error fault => rfl
  | ok step => cases step <;> rfl

theorem given_release (answer : Except (Fault ε) Unit)
    (answers : List (Except (Fault ε) (Option (Step R)))) :
    given (answer.map (fun _ => none) :: answers) = given answers := by
  cases answer <;> rfl

/-- Whatever is handed out or waits was computed, and in this order. -/
theorem run_passes (feed : Feed I R ε ω) (calls : List BufferCall)
    {state : Buffer R ε × ω × List R} {earlier : List R}
    (hpasses : (earlier ++ state.1.stock).Sublist state.2.2) :
    let reached := run feed.recalled calls state
    (earlier ++ given (answers feed.recalled calls state) ++ reached.1.stock).Sublist
      reached.2.2 := by
  induction calls generalizing state earlier with
  | nil => simpa [run, answers, given] using hpasses
  | cons call calls ih =>
      cases call with
      | next =>
          have hperform := perform_next feed.recalled state
          obtain ⟨computed, hresults, hstock⟩ := Buffer.next_passes feed state
          have hpasses' := hpasses.append_right computed
          rw [List.append_assoc, hstock, ← hresults, ← List.append_assoc] at hpasses'
          have hrun := ih hpasses'
          rw [answers, Action.answer_of_settle hperform, Action.after_of_settle hperform,
            given_next, run_next]
          rwa [List.append_assoc earlier] at hrun
      | release =>
          have hperform := perform_release feed.recalled state
          obtain ⟨hstock, hresults⟩ := Buffer.release_passes feed state
          have hpasses' : (earlier ++ ((Buffer.release feed.recalled).after state).1.stock).Sublist
              ((Buffer.release feed.recalled).after state).2.2 := by
            rw [hstock, hresults, List.append_nil]
            exact (List.sublist_append_left _ _).trans hpasses
          rw [answers, Action.answer_of_settle hperform, Action.after_of_settle hperform,
            given_release, run_release]
          exact ih hpasses'

end BufferCall

namespace Store

variable {V : Type}

def Formed (capacity : Nat) : Knowledge V ε := fun executor _ =>
  ∃ stage, executor.stage = some stage ∧ stage.buffer.WellFormed capacity

section Formed

variable {number capacity : Nat}

/-- Whatever else a call has changed, the executor has its buffer put back. -/
theorem formed_putBuffer {store after : Store V ε} {executor : Executor V ε} {buffer : Buffer V ε}
    (hexecutor : store.executors[number]? = some executor) (hbuffered : executor.stage.isSome)
    (hages : store.Ages ((bufferOf number).put buffer after))
    (hformed : buffer.WellFormed capacity) :
    ((bufferOf number).put buffer after).Knows number (Formed capacity) := by
  obtain ⟨executor', hexecutor', hages'⟩ := hages number executor hexecutor
  rw [← hages'.buffered] at hbuffered
  obtain ⟨stage, hstage, rfl⟩ := stage_of_bufferOf_put hexecutor' hbuffered
  exact ⟨executor', hexecutor', stage, hstage, hformed⟩

theorem formed_addBuffered (source : Source V ε) (compute : V → Nat → Reply ε V) {size : ChunkSize}
    {hpos : 0 < capacity} (hsize : size.capacity = .ok ⟨capacity, hpos⟩) (store : Store V ε) :
    ((addBuffered source none compute size).after store).Knows store.executors.size
      (Formed capacity) := by
  obtain ⟨events, hadd⟩ := addBuffered_apply source compute hsize store
  rw [Action.after_of_ok hadd]
  exact ⟨_, Array.getElem?_push_size, _, rfl, Buffer.empty_wellFormed capacity hpos⟩

variable [Textual V ε]

theorem formed_lasting (number capacity : Nat) :
    Lasting number (Formed capacity : Knowledge V ε) where
  ask store := by
    rintro ⟨⟨source, _⟩, hexecutor, stage, ⟨⟩, hformed⟩
    have hages := (askExecutor_elapses store number).ages
    rw [Action.after_of_settle (askExecutor_of_buffered hexecutor _)] at hages ⊢
    exact formed_putBuffer hexecutor rfl hages (Buffer.next_wellFormed _ _ hformed)
  release store := by
    rintro ⟨⟨source, _⟩, hexecutor, stage, ⟨⟩, hformed⟩
    have helapses : (releaseExecutor (servicesBelow number) number).Leads Elapses store :=
      releaseExecutor_leads elapses_bound trivial (fun _ => ⟨.of_executors rfl, rfl, rfl, rfl⟩) _ _
    have hages := helapses.ages
    rw [Action.after_of_settle (releaseExecutor_of_buffered hexecutor _)] at hages ⊢
    exact formed_putBuffer hexecutor rfl hages (Buffer.release_wellFormed _ _ hformed)

/-- **A buffer is well-formed after any calls, whatever has failed in them.** It is refilled when it
is drained and no failure is deferred, and it is read where a result waits, so that it makes no
difference what is beyond the end of its chunk. Whatever it has handed out and whatever waits in it
was computed, each result once and in this order. In a store it stays well-formed too, whatever else
is at work there. -/
theorem buffers_stay_wellFormed {I R ε' ω : Type} (hpos : 0 < capacity) (feed : Feed I R ε' ω)
    (state : ω) (calls : List BufferCall) (source : Source V ε) (compute : V → Nat → Reply ε V)
    (size : ChunkSize) (origin : Store V ε) (entries : List (Entry V ε)) :
    let fresh : Buffer R ε' := .empty capacity hpos
    let reached := BufferCall.run feed.recalled calls (fresh, state, [])
    let answers := BufferCall.answers feed.recalled calls (fresh, state, [])
    let next := Buffer.next feed
    let made := (addBuffered source none compute size).after origin
    (answers = BufferCall.answers feed calls (fresh, state) ∧
      (reached.1, reached.2.1) = BufferCall.run feed calls (fresh, state)) ∧
    reached.1.WellFormed capacity ∧
    (∀ (absent : R) (rest : ω), ∃ moments,
      Buffer.noticedNext feed absent (reached.1, rest, []) =
        settle (next.answer (reached.1, rest))
          ((next.after (reached.1, rest)).1, (next.after (reached.1, rest)).2, moments) ∧
      Buffer.Timely reached.1 moments) ∧
    (BufferCall.given answers ++ reached.1.stock).Sublist reached.2.2 ∧
    (size.capacity = .ok ⟨capacity, hpos⟩ →
      ∃ buffer, (bufferOf origin.executors.size).find (Entry.run entries made) = some buffer ∧
        buffer.WellFormed capacity) := by
  intro fresh reached answers next made
  refine ⟨?_, ?_, fun absent rest => ?_, ?_, fun hsize => ?_⟩
  · have halike : (Coupling.beside (.annotating ω (List R)) (Buffer R ε')).alike (fresh, state)
        (fresh, state, []) := ⟨rfl, rfl⟩
    obtain ⟨hanswers, hbuffer, hstate⟩ :=
      BufferCall.run_inStep (feed_recalled_inStep feed) (fun _ => id) calls halike
    exact ⟨hanswers.symm, Prod.ext hbuffer.symm hstate.symm⟩
  · have hfresh : fresh.WellFormed capacity := Buffer.empty_wellFormed capacity hpos
    exact BufferCall.run_wellFormed feed.recalled calls hfresh
  · obtain ⟨answer, buffer', rest', moments, hnext, hnoticed, htimely⟩ :=
      Buffer.noticedNext_advances feed absent reached.1 rest []
    refine ⟨moments, ?_, htimely⟩
    rw [Action.answer_of_settle hnext, Action.after_of_settle hnext]
    exact hnoticed
  · have hpassed : ([] ++ BufferCall.given answers ++ reached.1.stock).Sublist reached.2.2 :=
      BufferCall.run_passes feed calls (List.Sublist.refl [])
    exact hpassed
  · obtain ⟨executor, hexecutor, stage, hstage, hformed⟩ :=
      Knows.run (formed_lasting _ capacity) (formed_addBuffered source compute hsize origin) entries
    exact ⟨stage.buffer, bufferOf_find_of_stage hexecutor hstage, hformed⟩

/-- The first chunk is cut short, and its trace has failed as well. -/
theorem buffers_stay_wellFormed_cut_short :
    let calls := [BufferCall.next, BufferCall.next]
    let fresh : Buffer Nat String := .empty 2 (by decide)
    let inputs : Script Nat String := .ofList [0, 1, 2]
    let reached := BufferCall.run BufferCall.faltering.recalled calls (fresh, inputs, [])
    let made := (addBuffered (.script interrupted) none (fun input _ => .pure input)
      (.number (.integer 2))).after (initial : Store Value Thrown)
    reached.1.deferred = some (.raised "uncomputable") ∧
    (reached.1.held = true ∧ 0 < reached.1.chunk.size ∧ reached.1.chunk.size < 2) ∧
    [0].Sublist reached.2.2 ∧
    ∃ buffer, (bufferOf 0).find
      (Entry.run [.perform (.makeRange (some 0)), .perform (.start 0)] made) = some buffer ∧
      buffer.WellFormed 2 := by
  intro calls fresh inputs reached made
  obtain ⟨-, hformed, -, hpassed, hstore⟩ :=
    buffers_stay_wellFormed (by decide : 0 < 2) BufferCall.faltering inputs calls
      (.script interrupted) (fun input _ => .pure input) (.number (.integer 2))
      (initial : Store Value Thrown) [.perform (.makeRange (some 0)), .perform (.start 0)]
  exact ⟨rfl, hformed.deferring _ rfl, hpassed, hstore rfl⟩

end Formed

end Store

end PullRange
