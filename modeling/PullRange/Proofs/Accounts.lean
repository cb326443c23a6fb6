import PullRange.Proofs.Origins
import PullRange.Value

/-!
# What becomes of every input

`Feed.transcribed` writes down what the resource yields and what is computed from it. Every input
that a buffer has consumed is then accounted for: its result was handed out, waits, or was dropped,
or its computation failed, and this failure was thrown, waits, or was dropped. Nor does a buffer ever
look further ahead than one chunk.
-/

namespace PullRange

variable {I R ε ε' ω ω' α : Type}

inductive Exchange (I : Type) where
  | asked (yielded : Option I)
  | computed (input : I) (index : Nat)

def Exchange.isAsk : Exchange I → Bool
  | .asked _ => true
  | .computed _ _ => false

/-- The inputs that the resource has yielded. -/
def inputsOf (exchanges : List (Exchange I)) : List I :=
  exchanges.filterMap fun
    | .asked yielded => yielded
    | .computed _ _ => none

/-- The inputs that results were computed from, with their indices. -/
def computationsOf (exchanges : List (Exchange I)) : List (I × Nat) :=
  exchanges.filterMap fun
    | .asked _ => none
    | .computed input index => some (input, index)

def asksOf (exchanges : List (Exchange I)) : Nat :=
  exchanges.countP Exchange.isAsk

@[simp]
theorem asksOf_asked (exchanges : List (Exchange I)) (yielded : Option I) :
    asksOf (exchanges ++ [.asked yielded]) = asksOf exchanges + 1 := by
  simp [asksOf, Exchange.isAsk]

@[simp]
theorem asksOf_computed (exchanges : List (Exchange I)) (input : I) (index : Nat) :
    asksOf (exchanges ++ [.computed input index]) = asksOf exchanges := by
  simp [asksOf, Exchange.isAsk]

/-- The transcript tells of this many inputs, of which each has been computed from in its turn. -/
structure Tallied (exchanges : List (Exchange I)) (consumed : Nat) : Prop where
  computations : computationsOf exchanges = (inputsOf exchanges).zipIdx
  consumed : consumed = (inputsOf exchanges).length

theorem Tallied.asked {exchanges : List (Exchange I)} {consumed : Nat}
    (htallied : Tallied exchanges consumed) : Tallied (exchanges ++ [.asked none]) consumed where
  computations := by simpa [computationsOf, inputsOf] using htallied.computations
  consumed := by simpa [inputsOf] using htallied.consumed

theorem Tallied.computed {exchanges : List (Exchange I)} {consumed : Nat}
    (htallied : Tallied exchanges consumed) (input : I) :
    Tallied (exchanges ++ [.asked (some input)] ++ [.computed input consumed]) (consumed + 1) where
  computations := by
    have hcomputations := htallied.computations
    have hconsumed := htallied.consumed
    simp only [computationsOf, inputsOf] at hcomputations hconsumed ⊢
    simp [hcomputations, hconsumed, List.zipIdx_append]
  consumed := by
    have hconsumed := htallied.consumed
    simp only [inputsOf] at hconsumed ⊢
    simp [hconsumed]

def Action.transcribed (exchanges : Except (Fault ε) α → List (Exchange I))
    (action : Action ε ω α) : Action ε (ω × List (Exchange I)) α := fun state =>
  settle (action.answer state.1) (action.after state.1, state.2 ++ exchanges (action.answer state.1))

def Action.untranscribed (exchanges : List (Exchange I))
    (action : Action ε (ω × List (Exchange I)) α) : Action ε ω α := fun state =>
  settle (action.answer (state, exchanges)) (action.after (state, exchanges)).1

def yielded? : Except (Fault ε) (Step I) → Option I
  | .ok (.yield input) => some input
  | _ => none

def Feed.transcribed (feed : Feed I R ε ω) : Feed I R ε (ω × List (Exchange I)) where
  ask := feed.ask.transcribed fun answer => [.asked (yielded? answer)]
  release := feed.release.transcribed fun _ => []
  compute input index := (feed.compute input index).transcribed fun _ => [.computed input index]
  trace tag message := fun state =>
    (feed.trace tag (message.untranscribed state.2)).transcribed (fun _ => []) state

/-- Forgets the transcript as well. -/
def Erasure.transcript (erasure : Erasure ε ω ε' ω') (I : Type) :
    Erasure ε ω ε' (ω' × List (Exchange I)) where
  fault := erasure.fault
  alike state state' := erasure.alike state state'.1

theorem Action.Erases.transcribed {erasure : Erasure ε ω ε' ω'} {left : Action ε ω α}
    {right : Action ε' ω' α} (herases : left.Erases erasure right)
    (exchanges : Except (Fault ε') α → List (Exchange I)) :
    left.Erases (erasure.transcript I) (right.transcribed exchanges) := by
  intro state state' halike
  have hright : right.transcribed exchanges state' = settle (right.answer state'.1) _ := rfl
  rw [answer_of_settle hright, after_of_settle hright]
  exact herases state state'.1 halike

/-- The transcript makes no difference. -/
theorem Feed.Erases.transcribed {erasure : Erasure ε ω ε' ω'} {left : Feed I R ε ω}
    {right : Feed I R ε' ω'} (hfeed : left.Erases erasure right) :
    left.Erases (erasure.transcript I) right.transcribed where
  ask := hfeed.ask.transcribed fun answer => [.asked (yielded? answer)]
  release := hfeed.release.transcribed fun _ => []
  compute input index := (hfeed.compute input index).transcribed fun _ => [.computed input index]
  trace message := (hfeed.trace message).transcribed fun _ => []

/-! ## Counting -/

/-- Whether the failure is that of a computation, so that it stands for an input. -/
def Fault.loss (fault : Fault (Origin × Fault ε)) : Nat :=
  if fault.origin? = some .computation then 1 else 0

theorem Fault.loss_of_computation {fault : Fault (Origin × Fault ε)}
    (horigin : fault.origin? = some .computation) : fault.loss = 1 :=
  if_pos horigin

theorem Fault.loss_of_other {fault : Fault (Origin × Fault ε)} {origin : Origin}
    (horigin : fault.origin? = some origin) (hother : origin ≠ .computation) : fault.loss = 0 := by
  refine if_neg fun hcomputation => hother ?_
  exact Option.some.inj (horigin.symm.trans hcomputation)

/-- The transcript tells of every performance of the action, and its faults tell their origin. -/
def Action.Tells (transcript : ω → List (Exchange I)) (origin : Origin)
    (exchanges : Except (Fault (Origin × Fault ε)) α → List (Exchange I))
    (action : Action (Origin × Fault ε) ω α) : Prop :=
  ∀ (answer : Except (Fault (Origin × Fault ε)) α) (state state' : ω),
    action state = settle answer state' →
    transcript state' = transcript state ++ exchanges answer ∧
      ∀ fault, answer = .error fault → fault.origin? = some origin

structure Feed.Audits (feed : Feed I R (Origin × Fault ε) ω)
    (transcript : ω → List (Exchange I)) : Prop where
  ask : feed.ask.Tells transcript .resource fun answer => [.asked (yielded? answer)]
  release : feed.release.Tells transcript .resource fun _ => []
  compute : ∀ input index, (feed.compute input index).Tells transcript .computation
    fun _ => [.computed input index]
  trace : ∀ message, (feed.trace "underflow" (pure message)).Tells transcript .writer fun _ => []

theorem marked_transcribed_tells (origin : Origin) (action : Action ε ω α)
    (exchanges : Except (Fault (Origin × Fault ε)) α → List (Exchange I)) :
    ((action.marked origin).transcribed exchanges).Tells Prod.snd origin exchanges := by
  intro answer state state' htranscribed
  have happly : (action.marked origin).transcribed exchanges state =
      settle ((action.marked origin).answer state.1) _ := rfl
  have hanswer := (Action.answer_of_settle happly).symm.trans (Action.answer_of_settle htranscribed)
  have hstate := (Action.after_of_settle happly).symm.trans (Action.after_of_settle htranscribed)
  subst hanswer hstate
  exact ⟨rfl, fun fault hfault => Action.origin_of_marked hfault⟩

theorem transcribed_audits (feed : Feed I R ε ω) : feed.marked.transcribed.Audits Prod.snd where
  ask := marked_transcribed_tells .resource feed.ask _
  release := marked_transcribed_tells .resource feed.release _
  compute input index := marked_transcribed_tells .computation (feed.compute input index) _
  trace message := marked_transcribed_tells .writer (feed.trace "underflow" (pure message)) _

def Stop.loss (stop : Stop (Origin × Fault ε)) : Nat :=
  (stop.failure?.map Fault.loss).getD 0

/-- What an answer takes away: a result, or the failure of a computation. -/
def worth : Except (Fault (Origin × Fault ε)) (Step R) → Nat
  | .ok (.yield _) => 1
  | .ok (.done _) => 0
  | .error fault => fault.loss

namespace Buffer

/-- How many inputs wait, as results or as the failure of their computation. -/
def waiting (buffer : Buffer R (Origin × Fault ε)) : Nat :=
  buffer.chunk.size - buffer.position + (buffer.deferred.map Fault.loss).getD 0

/-- How much waits: results, and a failure from wherever. -/
def pending (buffer : Buffer R ε) : Nat :=
  buffer.chunk.size - buffer.position + buffer.deferred.toList.length

/-- The chunk and the failure behind it. -/
def extent (buffer : Buffer R ε) : Nat :=
  buffer.chunk.size + buffer.deferred.toList.length

theorem pending_le_extent (buffer : Buffer R ε) : buffer.pending ≤ buffer.extent :=
  Nat.add_le_add_right (Nat.sub_le _ _) _

theorem Dry.waiting_eq {buffer : Buffer R (Origin × Fault ε)} (hdry : buffer.Dry) :
    buffer.waiting = 0 := by
  have hdrained := hdry.drained
  simp only [waiting, hdry.clear, Option.map_none, Option.getD_none]
  omega

theorem Dry.pending_eq {buffer : Buffer R ε} (hdry : buffer.Dry) : buffer.pending = 0 := by
  have hdrained := hdry.drained
  simp only [pending, hdry.clear, Option.toList_none, List.length_nil]
  omega

theorem settled_extent {buffer : Buffer R ε} (hclear : buffer.deferred = none)
    (filled : Filled R ε) :
    (buffer.settled filled).extent ≤
      filled.chunk.size + filled.stop.failure?.toList.length := by
  simp only [extent, settled_chunk, settled_deferred hclear]
  cases filled.chunk.isEmpty <;> simp

theorem settled_waiting {buffer : Buffer R (Origin × Fault ε)} (hclear : buffer.deferred = none)
    {filled : Filled R (Origin × Fault ε)}
    (hgoing : ∀ fault, filled.stop = .failed fault → filled.chunk.isEmpty = false) :
    (buffer.settled filled).waiting = filled.chunk.size + filled.stop.loss := by
  simp only [waiting, settled_chunk, settled_position, settled_deferred hclear, Nat.sub_zero]
  cases hempty : filled.chunk.isEmpty with
  | false => rfl
  | true =>
      cases hstop : filled.stop with
      | failed fault => exact nomatch hempty.symm.trans (hgoing fault hstop)
      | full => rfl
      | drained => rfl

section Audits

variable {feed : Feed I R (Origin × Fault ε) ω} {transcript : ω → List (Exchange I)}
  (haudits : feed.Audits transcript)

include haudits

/-- Filling keeps the transcript tallied, and every input becomes a result or a failure of its
computation. -/
theorem fill_account (room consumed : Nat) (chunk : Array R) (state : ω) :
    let filled := (fill feed room consumed chunk state).1
    let after := transcript (fill feed room consumed chunk state).2
    (Tallied (transcript state) consumed → Tallied after filled.consumed) ∧
    filled.chunk.size + filled.stop.loss + consumed = chunk.size + filled.consumed ∧
    asksOf after ≤ asksOf (transcript state) + room := by
  induction room generalizing consumed chunk state with
  | zero => exact ⟨id, rfl, Nat.le_refl _⟩
  | succ room ih =>
      cases hask : feed.ask state with
      | error fault state' =>
          obtain ⟨hasked, horigin⟩ := haudits.ask (.error fault) state state' hask
          have hloss := Fault.loss_of_other (horigin fault rfl) (by decide)
          simp only [fill_of_fail hask, hasked, asksOf_asked]
          exact ⟨Tallied.asked, by simp [Stop.loss, Stop.failure?, hloss], by omega⟩
      | ok step state' =>
          obtain ⟨hasked, -⟩ := haudits.ask (.ok step) state state' hask
          cases step with
          | done parting =>
              simp only [fill_of_done hask, hasked, asksOf_asked]
              exact ⟨Tallied.asked, by simp [Stop.loss, Stop.failure?], by omega⟩
          | yield input =>
              cases hcompute : feed.compute input consumed state' with
              | error fault state'' =>
                  obtain ⟨hcomputed, horigin⟩ :=
                    haudits.compute input consumed (.error fault) state' state'' hcompute
                  have hloss := Fault.loss_of_computation (horigin fault rfl)
                  simp only [fill_of_error hask hcompute, hcomputed, hasked, asksOf_computed,
                    asksOf_asked]
                  refine ⟨fun htallied => htallied.computed input, ?_, by omega⟩
                  simp only [Stop.loss, Stop.failure?, Option.map_some, Option.getD_some, hloss]
                  omega
              | ok result state'' =>
                  obtain ⟨hcomputed, -⟩ :=
                    haudits.compute input consumed (.ok result) state' state'' hcompute
                  obtain ⟨htallied, hconserved, hasks⟩ :=
                    ih (consumed + 1) (chunk.push result) state''
                  rw [fill_of_result hask hcompute]
                  rw [hcomputed, hasked] at htallied
                  rw [hcomputed, asksOf_computed, hasked, asksOf_asked] at hasks
                  rw [Array.size_push] at hconserved
                  exact ⟨fun hbefore => htallied (hbefore.computed input), by omega, by omega⟩

/-- What one call of a buffer comes to. -/
structure Accounts (transcript : ω → List (Exchange I)) (before : Buffer R (Origin × Fault ε))
    (state : ω) (answer : Except (Fault (Origin × Fault ε)) (Step R))
    (after : Buffer R (Origin × Fault ε)) (state' : ω) : Prop where
  tallied : Tallied (transcript state) before.consumed → Tallied (transcript state') after.consumed
  conserved : before.waiting + after.consumed = after.waiting + before.consumed + worth answer
  capacity : after.capacity = before.capacity
  extent : before.extent ≤ before.capacity → after.extent ≤ before.capacity
  ahead : ∀ result, answer = .ok (.yield result) → after.pending < after.extent
  asks : asksOf (transcript state') ≤ asksOf (transcript state) + before.capacity
  idle : 0 < before.pending → state' = state

omit haudits in
/-- A call that calls on nothing. -/
theorem Accounts.of_idle {before after : Buffer R (Origin × Fault ε)} {state : ω}
    {answer : Except (Fault (Origin × Fault ε)) (Step R)}
    (hconsumed : after.consumed = before.consumed) (hcapacity : after.capacity = before.capacity)
    (hconserved : before.waiting = after.waiting + worth answer)
    (hextent : after.extent ≤ before.extent)
    (hahead : ∀ result, answer = .ok (.yield result) → after.pending < after.extent) :
    Accounts transcript before state answer after state where
  tallied htallied := hconsumed ▸ htallied
  conserved := by omega
  capacity := hcapacity
  extent hbefore := by omega
  ahead := hahead
  asks := Nat.le_add_right _ _
  idle _ := rfl

/-- A call that fills the buffer. What is filled may wait, or be handed out or thrown at once. -/
theorem Accounts.of_fills {before after : Buffer R (Origin × Fault ε)} {state state' state'' : ω}
    {filled : Filled R (Origin × Fault ε)}
    {answer : Except (Fault (Origin × Fault ε)) (Step R)} (hdry : before.Dry)
    (hfills : before.Fills feed state filled state')
    (htranscript : transcript state'' = transcript state')
    (hconsumed : after.consumed = filled.consumed) (hcapacity : after.capacity = before.capacity)
    (hwaiting : after.waiting + worth answer = filled.chunk.size + filled.stop.loss)
    (hextent : after.extent ≤ filled.chunk.size + filled.stop.failure?.toList.length)
    (hahead : ∀ result, answer = .ok (.yield result) → after.pending < after.extent) :
    Accounts transcript before state answer after state'' := by
  have haccount := fill_account haudits before.capacity before.consumed #[] state
  rw [hfills] at haccount
  obtain ⟨htallied, hconserved, hasks⟩ := haccount
  simp only [Array.size_empty] at hconserved
  have hroom := hfills.fits
  have hwaited := hdry.waiting_eq
  have hpended := hdry.pending_eq
  exact {
    tallied := by rw [htranscript, hconsumed]; exact htallied
    conserved := by omega
    capacity := hcapacity
    extent := fun _ => by omega
    ahead := hahead
    asks := by rw [htranscript]; exact hasks
    idle := by omega }

theorem Advance.accounts {buffer buffer' : Buffer R (Origin × Fault ε)} {state state' : ω}
    {answer : Except (Fault (Origin × Fault ε)) (Step R)}
    (hadvance : Advance feed buffer state answer buffer' state') :
    Accounts transcript buffer state answer buffer' state' := by
  cases hadvance with
  | waiting hwaits =>
      refine .of_idle rfl rfl ?_ (Nat.le_refl _) fun _ _ => ?_
      · simp only [Buffer.waiting, worth]
        omega
      · simp only [pending, extent]
        omega
  | deferred hdrained hdeferred =>
      refine .of_idle rfl rfl ?_ ?_ (by simp)
      · simp only [Buffer.waiting, worth, hdeferred, Option.map_some, Option.getD_some,
          Option.map_none, Option.getD_none]
        omega
      · simp [extent]
  | ended hdrained hclear hheld =>
      refine .of_idle rfl rfl ?_ ?_ (by simp)
      · simp only [Buffer.waiting, worth, List.size_toArray, List.length_nil]
        omega
      · simp [extent]
  | @failed filled _ fault hdry hfills hstop hempty =>
      refine .of_fills haudits hdry hfills rfl (settled_consumed _ _) (settled_capacity _ _) ?_
        (settled_extent hdry.clear filled) (by simp)
      have hsize : filled.chunk.size = 0 := by simpa [Array.isEmpty] using hempty
      simp only [Buffer.waiting, settled_chunk, settled_position, settled_deferred hdry.clear, hempty,
        hsize, hstop, worth, Stop.loss, Stop.failure?, ↓reduceIte, Option.map_none,
        Option.map_some, Option.getD_none, Option.getD_some]
  | @interrupted filled filledState _ fault hdry hfills hgoing htrace =>
      obtain ⟨htranscript, horigin⟩ := haudits.trace _ (.error fault) filledState _ htrace
      refine .of_fills haudits hdry hfills (by simpa using htranscript) (settled_consumed _ _)
        (settled_capacity _ _) ?_ (settled_extent hdry.clear filled) (by simp)
      have hloss := Fault.loss_of_other (horigin fault rfl) (by decide)
      rw [settled_waiting hdry.clear hgoing, worth, hloss]
      rfl
  | @refilled filled filledState _ hdry hfills htrace hpos =>
      obtain ⟨htranscript, -⟩ := haudits.trace _ (.ok ()) filledState _ htrace
      have hextent := settled_extent hdry.clear filled
      have hfilled : filled.chunk.isEmpty = false := by
        simpa [Array.isEmpty, Nat.pos_iff_ne_zero] using hpos
      have hwaiting : (buffer.settled filled).waiting = _ :=
        settled_waiting hdry.clear fun _ _ => hfilled
      refine .of_fills haudits hdry hfills (by simpa using htranscript) (settled_consumed _ _)
        (settled_capacity _ _) ?_ hextent fun _ _ => ?_
      · simp only [Buffer.waiting, settled_chunk, settled_position, Nat.sub_zero] at hwaiting ⊢
        simp only [worth]
        omega
      · simp only [pending, extent, settled_chunk]
        omega
  | @exhausted filled filledState _ hdry hfills hstop hempty htrace =>
      obtain ⟨htranscript, -⟩ := haudits.trace _ (.ok ()) filledState _ htrace
      refine .of_fills haudits hdry hfills (by simpa using htranscript) (settled_consumed _ _)
        (settled_capacity _ _) ?_ (settled_extent hdry.clear filled) (by simp)
      have hgoing (fault : Fault (Origin × Fault ε)) (hfailed : filled.stop = .failed fault) :
          filled.chunk.isEmpty = false := by simp [hstop] at hfailed
      rw [settled_waiting hdry.clear hgoing]
      rfl

theorem next_accounts (state : Buffer R (Origin × Fault ε) × ω) :
    Accounts transcript state.1 state.2 ((next feed).answer state) ((next feed).after state).1
      ((next feed).after state).2 := by
  obtain ⟨answer, buffer', state', hnext, hadvance⟩ := next_advances feed state.1 state.2
  rw [Action.answer_of_settle hnext, Action.after_of_settle hnext]
  exact hadvance.accounts haudits

theorem release_transcript (buffer : Buffer R (Origin × Fault ε)) (state : ω) :
    transcript ((release feed).after (buffer, state)).2 = transcript state ∧
      ∀ fault, (release feed).answer (buffer, state) = .error fault → fault.loss = 0 := by
  cases hheld : buffer.held with
  | true =>
      have hrelease : release feed (buffer, state) = _ := release_of_held feed hheld
      rw [Action.answer_of_settle hrelease, Action.after_of_settle hrelease]
      obtain ⟨htranscript, horigin⟩ :=
        haudits.release _ state _ (feed.release.apply_eq_settle state)
      refine ⟨by simpa using htranscript, fun fault hfault => ?_⟩
      exact Fault.loss_of_other (horigin fault hfault) (by decide)
  | false =>
      have hrelease : release feed (buffer, state) = settle (.ok ()) _ :=
        release_of_not_held feed hheld
      rw [Action.answer_of_settle hrelease, Action.after_of_settle hrelease]
      exact ⟨rfl, nofun⟩

end Audits

end Buffer

/-- How many results were handed out. -/
def handedOut (answers : List (Except (Fault ε) (Option (Step R)))) : Nat :=
  answers.countP fun
    | .ok (some (.yield _)) => true
    | _ => false

/-- How many failures of the computation were thrown. -/
def computationsThrown
    (answers : List (Except (Fault (Origin × Fault ε)) (Option (Step R)))) : Nat :=
  answers.countP fun
    | .error fault => fault.origin? = some .computation
    | _ => false

section Counts

variable (answers : List (Except (Fault (Origin × Fault ε)) (Option (Step R))))

theorem counts_next (answer : Except (Fault (Origin × Fault ε)) (Step R)) :
    handedOut (answer.map some :: answers) + computationsThrown (answer.map some :: answers) =
      worth answer + (handedOut answers + computationsThrown answers) := by
  cases answer with
  | ok step => cases step <;> simp +arith [handedOut, computationsThrown, worth, Except.map]
  | error fault =>
      by_cases horigin : fault.origin? = some .computation <;>
        simp +arith [handedOut, computationsThrown, worth, Except.map, Fault.loss, horigin]

theorem counts_release {answer : Except (Fault (Origin × Fault ε)) Unit}
    (hloss : ∀ fault, answer = .error fault → fault.loss = 0) :
    handedOut (answer.map (fun _ => none) :: answers) +
        computationsThrown (answer.map (fun _ => none) :: answers) =
      handedOut answers + computationsThrown answers := by
  cases answer with
  | ok _ => simp [handedOut, computationsThrown, Except.map]
  | error fault =>
      have hother : fault.origin? ≠ some .computation := by
        simpa [Fault.loss] using hloss fault rfl
      simp [handedOut, computationsThrown, Except.map, hother]

end Counts

namespace BufferCall

/-- How many inputs a call lets go, as results or as the failure of their computation. -/
def drops (call : BufferCall) (buffer : Buffer R (Origin × Fault ε)) : Nat :=
  match call with
  | .next => 0
  | .release => buffer.waiting

def dropped (feed : Feed I R (Origin × Fault ε) ω) :
    List BufferCall → Buffer R (Origin × Fault ε) × ω → Nat
  | [], _ => 0
  | call :: calls, state => call.drops state.1 + dropped feed calls ((call.perform feed).after state)

/-- The transcript and the counter agree, and the chunk fits. -/
structure Balanced (transcript : ω → List (Exchange I)) (capacity : Nat)
    (state : Buffer R (Origin × Fault ε) × ω) : Prop where
  tallied : Tallied (transcript state.2) state.1.consumed
  sized : state.1.capacity = capacity
  fits : state.1.extent ≤ capacity

section Audits

variable {feed : Feed I R (Origin × Fault ε) ω} {transcript : ω → List (Exchange I)}
  {capacity : Nat} (haudits : feed.Audits transcript)

include haudits

theorem perform_balanced (call : BufferCall) {state : Buffer R (Origin × Fault ε) × ω}
    (hbalanced : Balanced transcript capacity state)
    (answers : List (Except (Fault (Origin × Fault ε)) (Option (Step R)))) :
    let after := (call.perform feed).after state
    let answers' := (call.perform feed).answer state :: answers
    Balanced transcript capacity after ∧
      state.1.waiting + after.1.consumed + (handedOut answers + computationsThrown answers) =
        after.1.waiting + state.1.consumed + call.drops state.1 +
          (handedOut answers' + computationsThrown answers') := by
  intro after answers'
  cases call with
  | next =>
      have hperform := perform_next feed state
      have hafter : after = _ := Action.after_of_settle hperform
      have hanswers : answers' = _ := congrArg (· :: answers) (Action.answer_of_settle hperform)
      have haccounts := Buffer.next_accounts haudits state
      rw [hafter, hanswers, counts_next]
      refine ⟨⟨haccounts.tallied hbalanced.tallied, ?_, ?_⟩, ?_⟩
      · rw [haccounts.capacity, hbalanced.sized]
      · rw [← hbalanced.sized]
        refine haccounts.extent ?_
        rw [hbalanced.sized]
        exact hbalanced.fits
      · have hconserved := haccounts.conserved
        simp only [drops]
        omega
  | release =>
      have hperform := perform_release feed state
      have hafter : after = _ := Action.after_of_settle hperform
      have hanswers : answers' = _ := congrArg (· :: answers) (Action.answer_of_settle hperform)
      obtain ⟨htranscript, hloss⟩ := Buffer.release_transcript haudits state.1 state.2
      rw [hafter, hanswers, counts_release answers hloss, Buffer.release_own]
      refine ⟨⟨?_, ?_, ?_⟩, ?_⟩
      · rw [htranscript, Buffer.release_own]
        exact hbalanced.tallied
      · rw [Buffer.release_own]
        exact hbalanced.sized
      · rw [Buffer.release_own]
        exact Nat.zero_le _
      · simp only [drops, Buffer.dropped, Buffer.waiting, List.size_toArray, List.length_nil,
          Option.map_none, Option.getD_none]
        omega

theorem run_balanced (calls : List BufferCall) {state : Buffer R (Origin × Fault ε) × ω}
    (hbalanced : Balanced transcript capacity state) :
    let reached := run feed calls state
    let given := answers feed calls state
    Balanced transcript capacity reached ∧
      state.1.waiting + reached.1.consumed =
        reached.1.waiting + state.1.consumed + dropped feed calls state +
          (handedOut given + computationsThrown given) := by
  induction calls generalizing state with
  | nil => exact ⟨hbalanced, rfl⟩
  | cons call calls ih =>
      obtain ⟨hafter, hconserved⟩ := perform_balanced haudits call hbalanced
        (answers feed calls ((call.perform feed).after state))
      obtain ⟨hreached, hrun⟩ := ih hafter
      refine ⟨hreached, ?_⟩
      simp only [run, List.foldl_cons, dropped, answers] at hrun ⊢
      omega

end Audits

/-- **Every input is accounted for, and the lookahead is bounded by one chunk.** The buffer does not
notice the audit. What it has consumed is what its resource has yielded, and each of these inputs was
computed from once, in its turn; its result was handed out, waits or was dropped, or its computation
failed and this failure was thrown, waits or was dropped. What waits fits into one chunk, and leaves
room for the result that was just handed out. One call asks for one chunk at most, and does not call
on anything while something waits. -/
theorem inputs_accounted_for {capacity : Nat} (hpos : 0 < capacity) (feed : Feed I R ε ω)
    (state : ω) (calls : List BufferCall) :
    let audited := feed.marked.transcribed
    let fresh : Buffer R (Origin × Fault ε) := .empty capacity hpos
    let reached := run audited calls (fresh, state, [])
    let given := answers audited calls (fresh, state, [])
    let next := Buffer.next audited
    (answers feed calls (.empty capacity hpos, state) = given.map (·.mapError Fault.unmarked) ∧
      run feed calls (.empty capacity hpos, state) =
        (reached.1.mapFault Fault.unmarked, reached.2.1)) ∧
    reached.1.consumed = (inputsOf reached.2.2).length ∧
    computationsOf reached.2.2 = (inputsOf reached.2.2).zipIdx ∧
    reached.1.consumed = handedOut given + computationsThrown given + reached.1.waiting +
      dropped audited calls (fresh, state, []) ∧
    reached.1.pending ≤ capacity ∧
    (∀ result, next.answer reached = .ok (.yield result) →
      (next.after reached).1.pending ≤ capacity - 1) ∧
    asksOf (next.after reached).2.2 ≤ asksOf reached.2.2 + capacity ∧
    (0 < reached.1.pending → (next.after reached).2 = reached.2) := by
  intro audited fresh reached given next
  have hstart : ((Erasure.transcript ⟨Fault.unmarked, Eq⟩ I).buffered R).alike
      (.empty capacity hpos, state) (fresh, state, []) := ⟨rfl, rfl⟩
  have hunnoticed := run_erases feed.marked_erases.transcribed calls hstart
  have hbalanced : Balanced Prod.snd capacity (fresh, state, ([] : List (Exchange I))) :=
    ⟨⟨rfl, rfl⟩, rfl, Nat.zero_le _⟩
  obtain ⟨hreached, hconserved⟩ : Balanced Prod.snd capacity reached ∧ fresh.waiting +
      reached.1.consumed = reached.1.waiting + fresh.consumed +
        dropped audited calls (fresh, state, []) + (handedOut given + computationsThrown given) :=
    run_balanced (transcribed_audits feed) calls hbalanced
  have haccounts : Buffer.Accounts Prod.snd reached.1 reached.2 (next.answer reached)
      (next.after reached).1 (next.after reached).2 :=
    Buffer.next_accounts (transcribed_audits feed) reached
  have hextent : (next.after reached).1.extent ≤ capacity := by
    rw [← hreached.sized]
    refine haccounts.extent ?_
    rw [hreached.sized]
    exact hreached.fits
  refine ⟨⟨hunnoticed.1, Prod.ext hunnoticed.2.1 hunnoticed.2.2⟩,
    hreached.tallied.consumed, hreached.tallied.computations, ?_, ?_, ?_, ?_, haccounts.idle⟩
  · have hwaited : fresh.waiting = 0 := rfl
    have hfresh : fresh.consumed = 0 := rfl
    simp only [hwaited, hfresh] at hconserved
    omega
  · exact Nat.le_trans reached.1.pending_le_extent hreached.fits
  · intro result hresult
    have hahead := haccounts.ahead result hresult
    omega
  · have hasks := haccounts.asks
    rwa [hreached.sized] at hasks

/-- One input cannot be computed from, and nothing can be traced. -/
def faltering : Feed Nat Nat String (Script Nat String) where
  ask := Script.ask
  release := Script.release
  compute input _ := if input = 1 then throw (.raised "uncomputable") else pure input
  trace _ _ := throw (.raised "unwritable")

theorem inputs_accounted_for_dropped_failure :
    let audited := faltering.marked.transcribed
    let fresh : Buffer Nat (Origin × Fault String) := .empty 2 (by decide)
    let calls := [.next, .next, .release]
    let reached := run audited calls (fresh, .ofList [0, 1, 2], [])
    inputsOf reached.2.2 = [0, 1] ∧ reached.1.consumed = (inputsOf reached.2.2).length ∧
    reached.1.consumed = 1 + 0 + 0 + dropped audited calls (fresh, .ofList [0, 1, 2], []) := by
  intro audited fresh calls reached
  obtain ⟨-, hconsumed, -, hconserved, -⟩ :=
    inputs_accounted_for (by decide : 0 < 2) faltering (.ofList [0, 1, 2]) calls
  exact ⟨rfl, hconsumed, hconserved⟩

end BufferCall

end PullRange
