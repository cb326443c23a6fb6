import Mathlib.Algebra.Order.Floor.Div
import PullRange.Proofs.Interruptions

/-!
# When a buffer refills

Over a resource that does not fail a buffer reads ahead in whole chunks. After so many calls it has
asked for as many inputs as the chunks need that these calls have opened (`horizon`), or for all
inputs and the end if there are not so many. `Buffer.Scheduled` says so between any two calls, and
`Buffer.next_of_scheduled` what one call answers, asks for and traces.
-/

namespace PullRange

variable {I R ε ω : Type}

/-- How many inputs the chunks take that so many calls open. -/
def horizon (size calls : Nat) : Nat :=
  size * (calls ⌈/⌉ size)

section Horizon

variable {size calls : Nat}

@[simp]
theorem horizon_zero (size : Nat) : horizon size 0 = 0 := by
  simp [horizon]

theorem le_horizon (hpos : 0 < size) (calls : Nat) : calls ≤ horizon size calls := by
  have hceil := (ceilDiv_le_iff_le_smul hpos).mp (le_refl (calls ⌈/⌉ size))
  rwa [smul_eq_mul] at hceil

theorem mul_ceilDiv (hpos : 0 < size) (chunks : Nat) : (size * chunks) ⌈/⌉ size = chunks := by
  rw [Nat.ceilDiv_eq_add_pred_div, Nat.add_sub_assoc hpos, Nat.mul_add_div hpos,
    Nat.div_eq_of_lt (by omega), Nat.add_zero]

/-- A chunk counts as soon as it is opened. -/
theorem mul_add_ceilDiv (hpos : 0 < size) (chunks : Nat) {offset : Nat} (hoffset : 0 < offset)
    (hle : offset ≤ size) : (size * chunks + offset) ⌈/⌉ size = chunks + 1 := by
  have hpred : size * chunks + offset + size - 1 = size * (chunks + 1) + (offset - 1) := by
    rw [Nat.mul_add_one]
    omega
  rw [Nat.ceilDiv_eq_add_pred_div, hpred, Nat.mul_add_div hpos, Nat.div_eq_of_lt (by omega),
    Nat.add_zero]

theorem horizon_of_dvd (hpos : 0 < size) (hdvd : size ∣ calls) : horizon size calls = calls := by
  obtain ⟨chunks, rfl⟩ := hdvd
  rw [horizon, mul_ceilDiv hpos]

theorem horizon_one (calls : Nat) : horizon 1 calls = calls :=
  horizon_of_dvd Nat.one_pos (Nat.one_dvd calls)

theorem horizon_succ_of_dvd (hpos : 0 < size) (hdvd : size ∣ calls) :
    horizon size (calls + 1) = calls + size := by
  obtain ⟨chunks, rfl⟩ := hdvd
  rw [horizon, mul_add_ceilDiv hpos chunks Nat.one_pos hpos, Nat.mul_add_one]

theorem horizon_of_not_dvd (hpos : 0 < size) (hdvd : ¬ size ∣ calls) :
    horizon size (calls + 1) = horizon size calls ∧ calls < horizon size calls := by
  have hoffset : 0 < calls % size := Nat.pos_of_ne_zero fun hzero =>
    hdvd (Nat.dvd_of_mod_eq_zero hzero)
  have hlt := Nat.mod_lt calls hpos
  have hcalls := Nat.div_add_mod calls size
  have hceil := mul_add_ceilDiv hpos (calls / size) hoffset (Nat.le_of_lt hlt)
  have hnext := mul_add_ceilDiv hpos (calls / size) (Nat.succ_pos _) hlt
  rw [Nat.succ_eq_add_one, ← Nat.add_assoc] at hnext
  rw [hcalls] at hceil hnext
  rw [horizon, horizon, hceil, hnext, Nat.mul_add_one]
  constructor
  · rfl
  · omega

end Horizon

/-- The line of a trace. -/
def traceLine (tag text : String) : String :=
  tag ++ ": " ++ text ++ "\n"

/-- A feed brings an input for each of the results and is then done, and nothing in it fails. `At`
tells the states in which it has been asked so many times and its trace has got the lines. -/
structure Feed.Flows (feed : Feed I R ε ω) (results : List R)
    (At : Nat → List String → ω → Prop) : Prop where
  intake : ∀ index result lines state, results[index]? = some result → At index lines state →
    ∃ input state' state'', feed.ask state = .ok (.yield input) state' ∧
      feed.compute input index state' = .ok result state'' ∧ At (index + 1) lines state''
  finish : ∀ lines state, At results.length lines state →
    ∃ parting state', feed.ask state = .ok (.done parting) state' ∧
      At (results.length + 1) lines state'
  trace : ∀ asked lines text state, At asked lines state →
    ∃ state', feed.trace "underflow" (pure text) state = .ok () state' ∧
      At asked (lines ++ [traceLine "underflow" text]) state'

/-- The chunk holds the results from the call `first` on for which there is room, and the end has
been noticed if room was left for it. -/
structure Filled.Takes (filled : Filled R ε) (results : List R) (first room : Nat) : Prop where
  chunk : filled.chunk.toList = (results.drop first).take room
  consumed : filled.consumed = min (first + room) results.length
  stop : filled.stop = if first + room ≤ results.length then .full else .drained

namespace Filled.Takes

variable {filled : Filled R ε} {results : List R} {first room : Nat}

theorem size (htakes : filled.Takes results first room) :
    filled.chunk.size = min room (results.length - first) := by
  rw [← Array.length_toList, htakes.chunk, List.length_take, List.length_drop]

theorem failure?_eq (htakes : filled.Takes results first room) : filled.stop.failure? = none := by
  rw [htakes.stop]
  split <;> rfl

end Filled.Takes

namespace Buffer

variable {feed : Feed I R ε ω} {results : List R} {At : Nat → List String → ω → Prop}
  {lines : List String} {state : ω}

theorem fill_of_flows (hflows : feed.Flows results At) (room index : Nat) (chunk : Array R)
    (hle : index ≤ results.length) (hat : At index lines state) :
    ∃ filled state', fill feed room index chunk state = (filled, state') ∧
      At (min (index + room) (results.length + 1)) lines state' ∧
      filled.chunk.toList = chunk.toList ++ (results.drop index).take room ∧
      filled.consumed = min (index + room) results.length ∧
      filled.stop = if index + room ≤ results.length then .full else .drained := by
  induction room generalizing index chunk state with
  | zero =>
      have hasked : min (index + 0) (results.length + 1) = index := by omega
      refine ⟨_, state, rfl, hasked.symm ▸ hat, ?_, ?_, ?_⟩
      · simp
      · exact (Nat.min_eq_left hle).symm
      · simp [hle]
  | succ room ih =>
      by_cases hlt : index < results.length
      · obtain ⟨input, state', state'', hask, hcompute, hat''⟩ :=
          hflows.intake index results[index] lines state (List.getElem?_eq_getElem hlt) hat
        obtain ⟨filled, last, hfill, hlast, hchunk, hconsumed, hstop⟩ :=
          ih (index + 1) (chunk.push results[index]) hlt hat''
        have hsucc : index + 1 + room = index + (room + 1) := by omega
        rw [hsucc] at hlast hconsumed hstop
        have hfilled := (fill_of_result hask hcompute).trans hfill
        refine ⟨filled, last, hfilled, hlast, ?_, hconsumed, hstop⟩
        rw [hchunk, Array.toList_push, List.append_assoc, List.drop_eq_getElem_cons hlt,
          List.take_succ_cons]
        rfl
      · -- Nothing is left but the report that the resource is done.
        have hend : index = results.length := by omega
        subst hend
        obtain ⟨parting, state', hask, hat'⟩ := hflows.finish lines state hat
        have hasked : min (results.length + (room + 1)) (results.length + 1) =
            results.length + 1 := by omega
        refine ⟨_, state', fill_of_done hask, hasked.symm ▸ hat', ?_, ?_, ?_⟩ <;> simp

theorem fill_takes (hflows : feed.Flows results At) (room index : Nat)
    (hle : index ≤ results.length) (hat : At index lines state) :
    ∃ filled state', fill feed room index #[] state = (filled, state') ∧
      At (min (index + room) (results.length + 1)) lines state' ∧
      filled.Takes results index room := by
  obtain ⟨filled, state', hfill, hat', hchunk, hconsumed, hstop⟩ :=
    fill_of_flows hflows room index #[] hle hat
  exact ⟨filled, state', hfill, hat', hchunk, hconsumed, hstop⟩

/-- The answer to a call. -/
def stepAt (results : List R) (call : Nat) : Step R :=
  results[call]?.elim (.done none) .yield

/-- The trace of a call: a line if the call refills. -/
def refillLines (size count call : Nat) : List String :=
  if size ∣ call ∧ call ≤ count then
    [traceLine "underflow" (toString (min size (count - call)) ++ " results")]
  else []

/-- Whole chunks have been read ahead, and what they hold waits except for what so many calls have
been given. The resource is held until it is found to have no more than they take. -/
structure Scheduled (buffer : Buffer R ε) (size : Nat) (results : List R) (calls : Nat) :
    Prop where
  capacity : buffer.capacity = size
  clear : buffer.deferred = none
  consumed : buffer.consumed = min results.length (horizon size calls)
  held : buffer.held = decide (horizon size calls ≤ results.length)
  waiting : buffer.chunk.toList.drop buffer.position = (results.take buffer.consumed).drop calls

theorem empty_scheduled (size : Nat) (hpos : 0 < size) (results : List R) :
    (empty size hpos : Buffer R ε).Scheduled size results 0 where
  capacity := rfl
  clear := rfl
  consumed := by simp [empty]
  held := by simp [empty]
  waiting := by simp [empty]

section Scheduled

variable {buffer : Buffer R ε} {size calls : Nat}

theorem Scheduled.pos (hscheduled : buffer.Scheduled size results calls) : 0 < size :=
  hscheduled.capacity ▸ buffer.capacity_pos

/-- How many results wait. -/
theorem Scheduled.left (hscheduled : buffer.Scheduled size results calls) :
    buffer.chunk.size - buffer.position = buffer.consumed - calls := by
  have hlength := congrArg List.length hscheduled.waiting
  have hconsumed := hscheduled.consumed
  simp only [List.length_drop, List.length_take, Array.length_toList] at hlength
  omega

theorem Scheduled.dry (hscheduled : buffer.Scheduled size results calls) (hdvd : size ∣ calls)
    (hle : calls ≤ results.length) : buffer.Dry ∧ buffer.consumed = calls := by
  have hhorizon := horizon_of_dvd hscheduled.pos hdvd
  have hleft := hscheduled.left
  have hconsumed : buffer.consumed = calls := by
    rw [hscheduled.consumed, hhorizon]
    exact Nat.min_eq_right hle
  have hheld : buffer.held = true := by
    rw [hscheduled.held, hhorizon]
    exact decide_eq_true hle
  exact ⟨⟨by omega, hscheduled.clear, hheld⟩, hconsumed⟩

section Refilling

variable {filled : Filled R ε}

theorem step_of_takes (htakes : filled.Takes results calls size) (hpos : 0 < size) :
    filled.step = stepAt results calls := by
  have hhead : filled.chunk[0]? = results[calls]? := by
    rw [← Array.getElem?_toList, htakes.chunk, List.getElem?_take_of_lt hpos, List.getElem?_drop,
      Nat.add_zero]
  rw [Filled.step, stepAt, hhead]
  cases results[calls]? <;> rfl

/-- The first of a new chunk is handed out, and the others wait. -/
theorem handed_scheduled (hscheduled : buffer.Scheduled size results calls) (hdvd : size ∣ calls)
    (hle : calls ≤ results.length) (htakes : filled.Takes results calls size) :
    (buffer.handed filled).Scheduled size results (calls + 1) := by
  obtain ⟨hdry, -⟩ := hscheduled.dry hdvd hle
  have hnext := horizon_succ_of_dvd hscheduled.pos hdvd
  have hconsumed : (buffer.handed filled).consumed = min (calls + size) results.length :=
    (settled_consumed buffer filled).trans htakes.consumed
  constructor
  · exact (settled_capacity buffer filled).trans hscheduled.capacity
  · refine (settled_deferred hdry.clear filled).trans ?_
    rw [htakes.failure?_eq, ite_self]
  · rw [hnext, Nat.min_comm]
    exact hconsumed
  · rw [hnext]
    refine (settled_held hdry.held filled).trans ?_
    rw [htakes.stop]
    by_cases hfull : calls + size ≤ results.length <;> simp [hfull, Stop.isDrained]
  · have hchunk : (buffer.handed filled).chunk = filled.chunk := settled_chunk buffer filled
    have hposition : (buffer.handed filled).position = min 1 filled.chunk.size := rfl
    rw [hconsumed, hchunk, hposition, ← List.take_eq_take_min, ← List.drop_drop, List.drop_take,
      Nat.add_sub_cancel_left, ← htakes.chunk]
    cases hsize : filled.chunk.size with
    | zero =>
        have hnil : filled.chunk.toList = [] := List.eq_nil_of_length_eq_zero hsize
        simp [hnil]
    | succ count => rw [Nat.min_eq_left (by omega)]

end Refilling

/-- A result that waits is handed out. -/
theorem next_of_ahead (feed : Feed I R ε ω) (hscheduled : buffer.Scheduled size results calls)
    (hahead : calls < buffer.consumed) (hsame : horizon size (calls + 1) = horizon size calls)
    (state : ω) :
    ∃ buffer' : Buffer R ε, buffer'.Scheduled size results (calls + 1) ∧
      next feed (buffer, state) = settle (.ok (stepAt results calls)) (buffer', state) := by
  have hleft := hscheduled.left
  have hwaits : buffer.position < buffer.chunk.size := by omega
  have hresult : results[calls]? = some buffer.chunk[buffer.position] := by
    have hhead := congrArg List.head? hscheduled.waiting
    rw [List.head?_drop, List.head?_drop, List.getElem?_take_of_lt hahead,
      Array.getElem?_toList, Array.getElem?_eq_getElem hwaits] at hhead
    exact hhead.symm
  refine ⟨{ buffer with position := buffer.position + 1 }, ?_, ?_⟩
  · exact {
      capacity := hscheduled.capacity
      clear := hscheduled.clear
      consumed := hsame ▸ hscheduled.consumed
      held := hsame ▸ hscheduled.held
      waiting := by
        simp only
        rw [← List.drop_drop, hscheduled.waiting, List.drop_drop] }
  · rw [stepAt, hresult]
    exact (Advance.waiting hwaits).next_eq

/-- After the end nothing is called on. -/
theorem next_of_behind (feed : Feed I R ε ω) (hscheduled : buffer.Scheduled size results calls)
    (hend : results.length ≤ calls) (hlt : results.length < horizon size calls)
    (hle : horizon size calls ≤ horizon size (calls + 1)) (state : ω) :
    ∃ buffer' : Buffer R ε, buffer'.Scheduled size results (calls + 1) ∧
      next feed (buffer, state) = settle (.ok (stepAt results calls)) (buffer', state) := by
  have hleft := hscheduled.left
  have hconsumed := hscheduled.consumed
  have hdrained : ¬ buffer.position < buffer.chunk.size := by omega
  have hheld : buffer.held = false := by
    rw [hscheduled.held]
    exact decide_eq_false (by omega)
  refine ⟨{ buffer with chunk := #[], position := 0 }, ?_, ?_⟩
  · exact {
      capacity := hscheduled.capacity
      clear := hscheduled.clear
      consumed := by
        simp only
        omega
      held := hheld.trans (decide_eq_false (by omega)).symm
      waiting := by
        have hlength : (results.take buffer.consumed).length ≤ calls + 1 := by
          rw [List.length_take]
          omega
        exact (List.drop_eq_nil_of_le hlength).symm }
  · rw [stepAt, List.getElem?_eq_none hend]
    exact (Advance.ended hdrained hscheduled.clear hheld).next_eq

/-- At the horizon a whole chunk is read, or what is left and the end. -/
theorem next_of_dry (hflows : feed.Flows results At)
    (hscheduled : buffer.Scheduled size results calls) (hdvd : size ∣ calls)
    (hle : calls ≤ results.length) (hat : At calls lines state) :
    ∃ buffer' state', buffer'.Scheduled size results (calls + 1) ∧
      At (min (calls + size) (results.length + 1))
        (lines ++ [traceLine "underflow"
          (toString (min size (results.length - calls)) ++ " results")]) state' ∧
      next feed (buffer, state) = settle (.ok (stepAt results calls)) (buffer', state') := by
  obtain ⟨hdry, hconsumed⟩ := hscheduled.dry hdvd hle
  obtain ⟨filled, state', hfill, hat', htakes⟩ := fill_takes hflows size calls hle hat
  have hfills : buffer.Fills feed state filled state' := by
    rw [Fills, hscheduled.capacity, hconsumed]
    exact hfill
  have hgoing : ∀ fault, filled.stop = .failed fault → filled.chunk.isEmpty = false := by
    intro fault hfailed
    have hnone := htakes.failure?_eq
    rw [hfailed] at hnone
    exact nomatch hnone
  obtain ⟨state'', htrace, hat''⟩ := hflows.trace _ lines
    (toString filled.chunk.size ++ " results") state' hat'
  rw [htakes.size] at hat''
  refine ⟨buffer.handed filled, state'', handed_scheduled hscheduled hdvd hle htakes, hat'', ?_⟩
  rw [← step_of_takes htakes hscheduled.pos]
  exact next_of_fills hdry hfills hgoing htrace

/-- One call: it hands out what waits, refills at the end of a chunk, and answers done for good once
the end has been found. -/
theorem next_of_scheduled (hflows : feed.Flows results At)
    (hscheduled : buffer.Scheduled size results calls)
    (hat : At (min (horizon size calls) (results.length + 1)) lines state) :
    ∃ buffer' state', buffer'.Scheduled size results (calls + 1) ∧
      At (min (horizon size (calls + 1)) (results.length + 1))
        (lines ++ refillLines size results.length calls) state' ∧
      next feed (buffer, state) = settle (.ok (stepAt results calls)) (buffer', state') := by
  have hpos := hscheduled.pos
  by_cases hdvd : size ∣ calls
  · have hhorizon := horizon_of_dvd hpos hdvd
    have hnext := horizon_succ_of_dvd hpos hdvd
    by_cases hle : calls ≤ results.length
    · rw [hhorizon, Nat.min_eq_left (by omega)] at hat
      rw [hnext, refillLines, if_pos ⟨hdvd, hle⟩]
      exact next_of_dry hflows hscheduled hdvd hle hat
    · obtain ⟨buffer', hscheduled', hanswer⟩ :=
        next_of_behind feed hscheduled (by omega) (by omega) (by omega) state
      refine ⟨buffer', state, hscheduled', ?_, hanswer⟩
      rw [refillLines, if_neg fun hrefills => hle hrefills.2, List.append_nil, hnext]
      rw [hhorizon] at hat
      rwa [Nat.min_eq_right (by omega)] at hat ⊢
  · obtain ⟨hsame, hlt⟩ := horizon_of_not_dvd hpos hdvd
    rw [refillLines, if_neg fun hrefills => hdvd hrefills.1, List.append_nil, hsame]
    have hconsumed := hscheduled.consumed
    by_cases hahead : calls < results.length
    · obtain ⟨buffer', hscheduled', hanswer⟩ :=
        next_of_ahead feed hscheduled (by omega) hsame state
      exact ⟨buffer', state, hscheduled', hat, hanswer⟩
    · obtain ⟨buffer', hscheduled', hanswer⟩ :=
        next_of_behind feed hscheduled (by omega) (by omega) (by omega) state
      exact ⟨buffer', state, hscheduled', hat, hanswer⟩

end Scheduled

end Buffer

end PullRange
