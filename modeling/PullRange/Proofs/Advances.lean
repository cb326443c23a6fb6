import PullRange.Proofs.Exhaustion

/-!
# What a call of a buffer comes to

`Buffer.Advance` lists the seven ways in which a buffer answers `Buffer.next`, each with the buffer
and the state that it leaves. Only a `Dry` buffer asks its resource, and what it has filled is in
place before it is traced. Whatever holds of every advance is proved by these cases.
-/

namespace PullRange

variable {I R ε ω : Type}

def Stop.failure? : Stop ε → Option (Fault ε)
  | .failed fault => some fault
  | _ => none

namespace Buffer

/-- However filling ends, there is room for the results and for a failure behind them. -/
theorem fill_fits (feed : Feed I R ε ω) (room consumed : Nat) (chunk : Array R) (state : ω) :
    let filled := (fill feed room consumed chunk state).1
    filled.chunk.size + filled.stop.failure?.toList.length ≤ chunk.size + room := by
  induction room generalizing consumed chunk state with
  | zero => exact Nat.le_refl _
  | succ room ih =>
      cases hask : feed.ask state with
      | error fault state' =>
          rw [fill_of_fail hask]
          simp [Stop.failure?]
      | ok step state' =>
          cases step with
          | done parting =>
              rw [fill_of_done hask]
              simp [Stop.failure?]
          | yield input =>
              cases hcompute : feed.compute input consumed state' with
              | error fault state'' =>
                  rw [fill_of_error hask hcompute]
                  simp [Stop.failure?]
              | ok result state'' =>
                  have hfits := ih (consumed + 1) (chunk.push result) state''
                  rw [Array.size_push] at hfits
                  rw [fill_of_result hask hcompute]
                  omega

section Settled

variable (buffer : Buffer R ε) (filled : Filled R ε)

@[simp]
theorem settled_chunk : (buffer.settled filled).chunk = filled.chunk := by
  unfold settled load
  cases filled.stop with
  | full => rfl
  | drained => rfl
  | failed fault => cases hempty : filled.chunk.isEmpty <;> simp

@[simp]
theorem settled_position : (buffer.settled filled).position = 0 := by
  unfold settled load
  cases filled.stop with
  | full => rfl
  | drained => rfl
  | failed fault => cases hempty : filled.chunk.isEmpty <;> simp

@[simp]
theorem settled_consumed : (buffer.settled filled).consumed = filled.consumed := by
  unfold settled load
  cases filled.stop with
  | full => rfl
  | drained => rfl
  | failed fault => cases hempty : filled.chunk.isEmpty <;> simp

@[simp]
theorem settled_capacity : (buffer.settled filled).capacity = buffer.capacity := by
  unfold settled load
  cases filled.stop with
  | full => rfl
  | drained => rfl
  | failed fault => cases hempty : filled.chunk.isEmpty <;> simp

end Settled

theorem settled_deferred {buffer : Buffer R ε} (hclear : buffer.deferred = none)
    (filled : Filled R ε) :
    (buffer.settled filled).deferred =
      if filled.chunk.isEmpty then none else filled.stop.failure? := by
  unfold settled load
  cases hstop : filled.stop with
  | full => simp [hclear, Stop.failure?]
  | drained => simp [hclear, Stop.failure?]
  | failed fault => cases hempty : filled.chunk.isEmpty <;> simp [hclear, Stop.failure?]

/-- Nothing waits and the resource is still held, so that the next call has to refill. -/
structure Dry (buffer : Buffer R ε) : Prop where
  drained : ¬ buffer.position < buffer.chunk.size
  clear : buffer.deferred = none
  held : buffer.held = true

/-- What filling the buffer comes to. -/
def Fills (feed : Feed I R ε ω) (buffer : Buffer R ε) (state : ω) (filled : Filled R ε)
    (state' : ω) : Prop :=
  fill feed buffer.capacity buffer.consumed #[] state = (filled, state')

theorem Fills.fits {feed : Feed I R ε ω} {buffer : Buffer R ε} {state state' : ω}
    {filled : Filled R ε} (hfills : buffer.Fills feed state filled state') :
    filled.chunk.size + filled.stop.failure?.toList.length ≤ buffer.capacity := by
  have hfits := fill_fits feed buffer.capacity buffer.consumed #[] state
  rwa [hfills, Array.size_empty, Nat.zero_add] at hfits

inductive Advance (feed : Feed I R ε ω) (buffer : Buffer R ε) (state : ω) :
    Except (Fault ε) (Step R) → Buffer R ε → ω → Prop where
  | waiting (hwaits : buffer.position < buffer.chunk.size) :
      Advance feed buffer state (.ok (.yield buffer.chunk[buffer.position]))
        { buffer with position := buffer.position + 1 } state
  | deferred {fault : Fault ε} (hdrained : ¬ buffer.position < buffer.chunk.size)
      (hdeferred : buffer.deferred = some fault) :
      Advance feed buffer state (.error fault) { buffer with deferred := none } state
  | ended (hdrained : ¬ buffer.position < buffer.chunk.size) (hclear : buffer.deferred = none)
      (hheld : buffer.held = false) :
      Advance feed buffer state (.ok (.done none)) { buffer with chunk := #[], position := 0 } state
  | failed {filled : Filled R ε} {state' : ω} {fault : Fault ε} (hdry : buffer.Dry)
      (hfills : buffer.Fills feed state filled state') (hstop : filled.stop = .failed fault)
      (hempty : filled.chunk.isEmpty = true) :
      Advance feed buffer state (.error fault) (buffer.settled filled) state'
  | interrupted {filled : Filled R ε} {state' state'' : ω} {fault : Fault ε} (hdry : buffer.Dry)
      (hfills : buffer.Fills feed state filled state')
      (hgoing : ∀ fault, filled.stop = .failed fault → filled.chunk.isEmpty = false)
      (htrace : traceChunk feed filled state' = .error fault state'') :
      Advance feed buffer state (.error fault) (buffer.settled filled) state''
  | refilled {filled : Filled R ε} {state' state'' : ω} (hdry : buffer.Dry)
      (hfills : buffer.Fills feed state filled state')
      (htrace : traceChunk feed filled state' = .ok () state'') (hpos : 0 < filled.chunk.size) :
      Advance feed buffer state (.ok (.yield filled.chunk[0]))
        { buffer.settled filled with position := 1 } state''
  | exhausted {filled : Filled R ε} {state' state'' : ω} (hdry : buffer.Dry)
      (hfills : buffer.Fills feed state filled state') (hstop : filled.stop = .drained)
      (hempty : filled.chunk.isEmpty = true)
      (htrace : traceChunk feed filled state' = .ok () state'') :
      Advance feed buffer state (.ok (.done none)) (buffer.settled filled) state''

section Next

variable {feed : Feed I R ε ω} {buffer : Buffer R ε} {state state' state'' : ω}
  {filled : Filled R ε}

theorem handOut_of_settled (hpos : 0 < filled.chunk.size) :
    handOut (buffer.settled filled, state) =
      (.ok (.yield filled.chunk[0]) ({ buffer.settled filled with position := 1 }, state) :
        EStateM.Result (Fault ε) (Buffer R ε × ω) (Step R)) := by
  have hwaits : (buffer.settled filled).position < (buffer.settled filled).chunk.size := by
    simpa using hpos
  rw [handOut_of_waiting hwaits]
  simp

/-- An empty chunk that is not thrown is that of a resource that is done. -/
theorem drained_of_empty (hfills : buffer.Fills feed state filled state')
    (hgoing : ∀ fault, filled.stop = .failed fault → filled.chunk.isEmpty = false)
    (hempty : filled.chunk.isEmpty = true) : filled.stop = .drained := by
  cases hstop : filled.stop with
  | drained => rfl
  | failed fault => exact nomatch hempty.symm.trans (hgoing fault hstop)
  | full =>
      have hfull : (fill feed buffer.capacity buffer.consumed #[] state).1.stop = .full := by
        rw [hfills, hstop]
      have hsize := fill_size_of_full buffer.capacity buffer.consumed #[] hfull
      rw [hfills] at hsize
      have hnone : filled.chunk.size = 0 := by simpa [Array.isEmpty] using hempty
      have hpos := buffer.capacity_pos
      simp only [hnone, Array.size_empty] at hsize
      omega

theorem refill_exists_advance (feed : Feed I R ε ω) (hdry : buffer.Dry) (state : ω) :
    ∃ answer buffer' state', Advance feed buffer state answer buffer' state' := by
  obtain ⟨filled, state', hfills⟩ : ∃ filled state', buffer.Fills feed state filled state' :=
    ⟨_, _, rfl⟩
  by_cases hgoing : ∀ fault, filled.stop = .failed fault → filled.chunk.isEmpty = false
  · cases htrace : traceChunk feed filled state' with
    | error fault state'' => exact ⟨_, _, _, .interrupted hdry hfills hgoing htrace⟩
    | ok _ state'' =>
        cases hempty : filled.chunk.isEmpty with
        | true =>
            have hstop := drained_of_empty hfills hgoing hempty
            exact ⟨_, _, _, .exhausted hdry hfills hstop hempty htrace⟩
        | false =>
            have hpos : 0 < filled.chunk.size := by
              simpa [Array.isEmpty, Nat.pos_iff_ne_zero] using hempty
            exact ⟨_, _, _, .refilled hdry hfills htrace hpos⟩
  · simp only [not_forall, Bool.not_eq_false] at hgoing
    obtain ⟨fault, hstop, hempty⟩ := hgoing
    exact ⟨_, _, _, .failed hdry hfills hstop hempty⟩

theorem exists_advance (feed : Feed I R ε ω) (buffer : Buffer R ε) (state : ω) :
    ∃ answer buffer' state', Advance feed buffer state answer buffer' state' := by
  by_cases hwaits : buffer.position < buffer.chunk.size
  · exact ⟨_, _, _, .waiting hwaits⟩
  · cases hdeferred : buffer.deferred with
    | some fault => exact ⟨_, _, _, .deferred hwaits hdeferred⟩
    | none =>
        cases hheld : buffer.held with
        | true => exact refill_exists_advance feed ⟨hwaits, hdeferred, hheld⟩ state
        | false => exact ⟨_, _, _, .ended hwaits hdeferred hheld⟩

theorem Advance.next_eq {answer : Except (Fault ε) (Step R)} {buffer' : Buffer R ε}
    (hadvance : Advance feed buffer state answer buffer' state') :
    next feed (buffer, state) = settle answer (buffer', state') := by
  cases hadvance with
  | waiting hwaits => exact (next_of_waiting hwaits).trans (handOut_of_waiting hwaits)
  | deferred hdrained hdeferred => exact next_of_deferred hdrained hdeferred
  | ended hdrained hclear hheld =>
      rw [next_of_drained hdrained hclear,
        Action.bind_of_ok (refill_of_not_held feed buffer state hheld)]
      rfl
  | failed hdry hfills hstop hempty =>
      rw [next_of_drained hdry.drained hdry.clear]
      exact Action.bind_of_error (refill_of_failed hdry.held hfills hstop hempty) _
  | interrupted hdry hfills hgoing htrace =>
      have hrefill := refill_of_going hdry.held hfills hgoing
      unfold Action.answer Action.after at hrefill
      rw [htrace] at hrefill
      rw [next_of_drained hdry.drained hdry.clear]
      exact Action.bind_of_error hrefill _
  | @refilled filled _ _ hdry hfills htrace hpos =>
      have hempty : filled.chunk.isEmpty = false := by
        simpa [Array.isEmpty, Nat.pos_iff_ne_zero] using hpos
      rw [next_of_drained hdry.drained hdry.clear,
        refill_of_traced hdry.held hfills htrace (fun _ _ => hempty) |> Action.bind_of_ok, hempty,
        Bool.not_false, if_pos rfl, handOut_of_settled hpos]
      rfl
  | @exhausted filled _ _ hdry hfills hstop hempty htrace =>
      have hgoing (fault : Fault ε) (hfailed : filled.stop = .failed fault) :
          filled.chunk.isEmpty = false := nomatch hstop.symm.trans hfailed
      rw [next_of_drained hdry.drained hdry.clear,
        refill_of_traced hdry.held hfills htrace hgoing |> Action.bind_of_ok, hempty]
      rfl

theorem next_advances (feed : Feed I R ε ω) (buffer : Buffer R ε) (state : ω) :
    ∃ answer buffer' state', next feed (buffer, state) = settle answer (buffer', state') ∧
      Advance feed buffer state answer buffer' state' := by
  obtain ⟨answer, buffer', state', hadvance⟩ := exists_advance feed buffer state
  exact ⟨answer, buffer', state', hadvance.next_eq, hadvance⟩

end Next

end Buffer

end PullRange
