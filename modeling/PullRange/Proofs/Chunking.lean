import PullRange.Buffer
import PullRange.Proofs.Answers

/-!
# Chunking is invisible

`oneAtATime` says what a producer that computes its results one at a time answers: each outcome of
the resource becomes one answer, in order, until the resource is done. A buffer asks its resource a
chunk ahead of what it hands out and defers the failures that it meets there. `Buffer.Keeps` relates
the two: the results that wait in a buffer, the failure deferred behind them and the resource behind
both are the answers still to come. Handing out, refilling and throwing all carry the relation from
one call to the next.
-/

namespace PullRange

variable {I R ε ω : Type}

def inputsBefore (outcome : Nat → Outcome I ε) : (calls : Nat) → Nat
  | 0 => 0
  | calls + 1 => inputsBefore outcome calls + if (outcome calls).value?.isSome then 1 else 0

/-- Whether the resource is done among the first outcomes. -/
def endsBefore (outcome : Nat → Outcome I ε) : (calls : Nat) → Bool
  | 0 => false
  | calls + 1 => endsBefore outcome calls || (outcome calls).isDone

/-- The answer to a call: the computation on the input at its own index, or the failure of the
resource or of the computation at its own position; done from the first done outcome on. -/
def oneAtATime (outcome : Nat → Outcome I ε) (compute : I → Nat → Except ε R) (call : Nat) :
    Except (Fault ε) (Step R) :=
  if endsBefore outcome call then .ok (.done none)
  else
    match outcome call with
    | .done _ => .ok (.done none)
    | .fail error => .error (.raised error)
    | .yield input =>
        match compute input (inputsBefore outcome call) with
        | .ok result => .ok (.yield result)
        | .error error => .error (.raised error)

theorem endsBefore_of_le {outcome : Nat → Outcome I ε} {early late : Nat}
    (hends : endsBefore outcome early = true) (hle : early ≤ late) :
    endsBefore outcome late = true := by
  induction hle with
  | refl => exact hends
  | step _ ih => simp [endsBefore, ih]

section Answers

variable {outcome : Nat → Outcome I ε} {compute : I → Nat → Except ε R} {call : Nat}

theorem oneAtATime_of_ends (hends : endsBefore outcome (call + 1) = true) :
    oneAtATime outcome compute call = .ok (.done none) := by
  unfold oneAtATime
  cases hbefore : endsBefore outcome call with
  | true => rfl
  | false =>
      rw [endsBefore, hbefore, Bool.false_or] at hends
      cases houtcome : outcome call with
      | yield input => simp [houtcome, Outcome.isDone] at hends
      | fail error => simp [houtcome, Outcome.isDone] at hends
      | done parting => rfl

theorem oneAtATime_of_fail {error : ε} (hopen : endsBefore outcome call = false)
    (houtcome : outcome call = .fail error) :
    oneAtATime outcome compute call = .error (.raised error) := by
  simp [oneAtATime, hopen, houtcome]

theorem oneAtATime_of_result {input : I} {result : R} (hopen : endsBefore outcome call = false)
    (houtcome : outcome call = .yield input)
    (hcompute : compute input (inputsBefore outcome call) = .ok result) :
    oneAtATime outcome compute call = .ok (.yield result) := by
  simp [oneAtATime, hopen, houtcome, hcompute]

theorem oneAtATime_of_error {input : I} {error : ε} (hopen : endsBefore outcome call = false)
    (houtcome : outcome call = .yield input)
    (hcompute : compute input (inputsBefore outcome call) = .error error) :
    oneAtATime outcome compute call = .error (.raised error) := by
  simp [oneAtATime, hopen, houtcome, hcompute]

end Answers

/-- A feed plays the outcomes of a resource and the results of a computation, without tracing.
`At` tells the states in which the resource has been asked so many times. -/
structure Feed.Plays (feed : Feed I R ε ω) (outcome : Nat → Outcome I ε)
    (compute : I → Nat → Except ε R) (At : Nat → ω → Prop) : Prop where
  ask : ∀ asked state, At asked state →
    ∃ state', At (asked + 1) state' ∧ feed.ask state = settle (outcome asked).answer state'
  compute : ∀ asked state input index, At asked state →
    ∃ state', At asked state' ∧
      feed.compute input index state = settle ((compute input index).mapError .raised) state'
  trace : ∀ asked state tag message, At asked state →
    ∃ state', At asked state' ∧ feed.trace tag message state = .ok () state'

/-- What filling has come to is what a producer one at a time answers from the call `first` on, and
the resource has been asked for as much as that takes. -/
structure Filled.Continues (filled : Filled R ε) (outcome : Nat → Outcome I ε)
    (compute : I → Nat → Except ε R) (first asked : Nat) : Prop where
  consumed : filled.consumed = inputsBefore outcome asked
  results : ∀ place result, filled.chunk[place]? = some result →
    oneAtATime outcome compute (first + place) = .ok (.yield result)
  stop :
    match filled.stop with
    | .full => asked = first + filled.chunk.size ∧ endsBefore outcome asked = false
    | .drained => endsBefore outcome (first + filled.chunk.size + 1) = true
    | .failed fault => asked = first + filled.chunk.size + 1 ∧ endsBefore outcome asked = false ∧
        oneAtATime outcome compute (first + filled.chunk.size) = .error fault

namespace Buffer

section Fill

variable {feed : Feed I R ε ω} {outcome : Nat → Outcome I ε} {compute : I → Nat → Except ε R}
  {At : Nat → ω → Prop}

theorem results_push {chunk : Array R} {first : Nat} {result : R}
    (hchunk : ∀ place result, chunk[place]? = some result →
      oneAtATime outcome compute (first + place) = .ok (.yield result))
    (hresult : oneAtATime outcome compute (first + chunk.size) = .ok (.yield result)) :
    ∀ place value, (chunk.push result)[place]? = some value →
      oneAtATime outcome compute (first + place) = .ok (.yield value) := by
  intro place value hvalue
  rw [Array.getElem?_push] at hvalue
  by_cases hplace : place = chunk.size
  · rw [if_pos hplace, Option.some.injEq] at hvalue
    rw [hplace, ← hvalue]
    exact hresult
  · rw [if_neg hplace] at hvalue
    exact hchunk place value hvalue

section Steps

variable {room consumed : Nat} {chunk : Array R} {state state' state'' : ω}

theorem fill_of_done {parting : Option I} (hask : feed.ask state = .ok (.done parting) state') :
    fill feed (room + 1) consumed chunk state =
      ({ chunk, consumed, stop := .drained }, state') := by
  rw [fill, hask]

theorem fill_of_fail {fault : Fault ε} (hask : feed.ask state = .error fault state') :
    fill feed (room + 1) consumed chunk state =
      ({ chunk, consumed, stop := .failed fault }, state') := by
  rw [fill, hask]

theorem fill_of_error {input : I} {fault : Fault ε}
    (hask : feed.ask state = .ok (.yield input) state')
    (hcompute : feed.compute input consumed state' = .error fault state'') :
    fill feed (room + 1) consumed chunk state =
      ({ chunk, consumed := consumed + 1, stop := .failed fault }, state'') := by
  rw [fill, hask]
  simp only [hcompute]

theorem fill_of_result {input : I} {result : R}
    (hask : feed.ask state = .ok (.yield input) state')
    (hcompute : feed.compute input consumed state' = .ok result state'') :
    fill feed (room + 1) consumed chunk state =
      fill feed room (consumed + 1) (chunk.push result) state'' := by
  rw [fill, hask]
  simp only [hcompute]

end Steps

/-- The loop of a refill. The chunk so far answers the calls from `first` up to the outcome that is
asked for next. -/
theorem fill_continues (hplays : feed.Plays outcome compute At)
    (first room consumed : Nat) (chunk : Array R) (asked : Nat) (state : ω)
    (hat : At asked state) (hopen : endsBefore outcome asked = false)
    (hconsumed : consumed = inputsBefore outcome asked) (hasked : asked = first + chunk.size)
    (hchunk : ∀ place result, chunk[place]? = some result →
      oneAtATime outcome compute (first + place) = .ok (.yield result)) :
    ∃ asked', At asked' (fill feed room consumed chunk state).2 ∧
      (fill feed room consumed chunk state).1.Continues outcome compute first asked' ∧
      ((fill feed room consumed chunk state).1.stop = .full →
        (fill feed room consumed chunk state).1.chunk.size = chunk.size + room) := by
  induction room generalizing consumed chunk asked state with
  | zero => exact ⟨asked, hat, ⟨hconsumed, hchunk, hasked, hopen⟩, fun _ => rfl⟩
  | succ room ih =>
      obtain ⟨state', hat', hask⟩ := hplays.ask asked state hat
      cases houtcome : outcome asked with
      | done parting =>
          rw [houtcome] at hask
          rw [fill_of_done hask]
          refine ⟨asked + 1, hat', ⟨?_, hchunk, ?_⟩, nofun⟩
          · simp [inputsBefore, houtcome, Outcome.value?, hconsumed]
          · simp [endsBefore, ← hasked, houtcome, Outcome.isDone]
      | fail error =>
          rw [houtcome] at hask
          rw [fill_of_fail hask]
          refine ⟨asked + 1, hat', ⟨?_, hchunk, congrArg (· + 1) hasked, ?_, ?_⟩, nofun⟩
          · simp [inputsBefore, houtcome, Outcome.value?, hconsumed]
          · simp [endsBefore, hopen, houtcome, Outcome.isDone]
          · exact hasked ▸ oneAtATime_of_fail hopen houtcome
      | yield input =>
          have hopen' : endsBefore outcome (asked + 1) = false := by
            simp [endsBefore, hopen, houtcome, Outcome.isDone]
          have hconsumed' : consumed + 1 = inputsBefore outcome (asked + 1) := by
            simp [inputsBefore, houtcome, Outcome.value?, hconsumed]
          rw [houtcome] at hask
          obtain ⟨state'', hat'', hcompute⟩ := hplays.compute (asked + 1) state' input consumed hat'
          cases hresult : compute input consumed with
          | error error =>
              rw [hresult] at hcompute
              rw [fill_of_error hask hcompute]
              refine ⟨asked + 1, hat'', ⟨hconsumed', hchunk, congrArg (· + 1) hasked, hopen', ?_⟩,
                nofun⟩
              exact hasked ▸ oneAtATime_of_error hopen houtcome (hconsumed ▸ hresult)
          | ok result =>
              have hnext : oneAtATime outcome compute (first + chunk.size) = .ok (.yield result) :=
                hasked ▸ oneAtATime_of_result hopen houtcome (hconsumed ▸ hresult)
              rw [hresult] at hcompute
              rw [fill_of_result hask hcompute]
              obtain ⟨asked', hlast, hcontinues, hfull⟩ :=
                ih (consumed + 1) (chunk.push result) (asked + 1) state'' hat'' hopen' hconsumed'
                  (by rw [Array.size_push]; omega) (results_push hchunk hnext)
              refine ⟨asked', hlast, hcontinues, fun hstop => ?_⟩
              rw [hfull hstop, Array.size_push]
              omega

end Fill

/-! ## Between two calls -/

/-- A buffer keeps what is to be answered from the call `call` on: the results that wait, then the
deferred failure, then the outcomes of the resource, which has been asked for `asked` of them. -/
structure Keeps (buffer : Buffer R ε) (outcome : Nat → Outcome I ε)
    (compute : I → Nat → Except ε R) (call asked : Nat) : Prop where
  consumed : buffer.consumed = inputsBefore outcome asked
  position_le : buffer.position ≤ buffer.chunk.size
  waiting : ∀ place result, buffer.chunk[buffer.position + place]? = some result →
    oneAtATime outcome compute (call + place) = .ok (.yield result)
  behind :
    match buffer.deferred, buffer.held with
    | some fault, held => held = true ∧ endsBefore outcome asked = false ∧
        asked = call + (buffer.chunk.size - buffer.position) + 1 ∧
        oneAtATime outcome compute (call + (buffer.chunk.size - buffer.position)) = .error fault
    | none, true => endsBefore outcome asked = false ∧
        asked = call + (buffer.chunk.size - buffer.position)
    | none, false => endsBefore outcome (call + (buffer.chunk.size - buffer.position) + 1) = true

section Calls

variable {feed : Feed I R ε ω} {outcome : Nat → Outcome I ε} {compute : I → Nat → Except ε R}
  {At : Nat → ω → Prop} {call asked : Nat} {buffer : Buffer R ε}

theorem empty_keeps (capacity : Nat) (capacity_pos : 0 < capacity) :
    (empty capacity capacity_pos : Buffer R ε).Keeps outcome compute 0 0 where
  consumed := rfl
  position_le := Nat.le_refl 0
  waiting := by simp [empty]
  behind := ⟨rfl, rfl⟩

theorem handOut_of_lt (hwaits : buffer.position < buffer.chunk.size)
    (hkeeps : buffer.Keeps outcome compute call asked) (state : ω) :
    ∃ buffer' : Buffer R ε, buffer'.Keeps outcome compute (call + 1) asked ∧
      handOut (buffer, state) = settle (oneAtATime outcome compute call) (buffer', state) := by
  have hresult : buffer.chunk[buffer.position]? = some buffer.chunk[buffer.position] :=
    Array.getElem?_eq_getElem hwaits
  have hcall : oneAtATime outcome compute call = .ok (.yield buffer.chunk[buffer.position]) :=
    hkeeps.waiting 0 _ hresult
  refine ⟨{ buffer with position := buffer.position + 1 }, ?_, ?_⟩
  · have hrest : call + 1 + (buffer.chunk.size - (buffer.position + 1)) =
        call + (buffer.chunk.size - buffer.position) := by omega
    refine ⟨hkeeps.consumed, hwaits, fun place result hplace => ?_, ?_⟩
    · have hshift : buffer.position + 1 + place = buffer.position + (place + 1) := by omega
      rw [show call + 1 + place = call + (place + 1) by omega]
      exact hkeeps.waiting (place + 1) result (hshift ▸ hplace)
    · simpa only [hrest] using hkeeps.behind
  · unfold handOut
    simp only [Action.bind_apply, getOwn_apply, hresult, setOwn_apply, Action.pure_apply, hcall,
      settle_ok]

theorem keeps_of_continues {filled : Filled R ε} (buffer : Buffer R ε) (held : Bool)
    (deferred : Option (Fault ε))
    (hfilled : filled.Continues outcome compute call asked)
    (hbehind :
      match filled.stop with
      | .full => deferred = none ∧ held = true
      | .drained => deferred = none ∧ held = false
      | .failed fault => deferred = some fault ∧ held = true) :
    { buffer.load filled with held, deferred }.Keeps outcome compute call asked := by
  have hstop := hfilled.stop
  refine ⟨hfilled.consumed, Nat.zero_le _, fun place result hplace => ?_, ?_⟩
  · refine hfilled.results place result ?_
    simpa [load] using hplace
  · cases hkind : filled.stop with
    | full =>
        rw [hkind] at hstop hbehind
        simpa [hbehind.1, hbehind.2, load] using And.comm.mp hstop
    | drained =>
        rw [hkind] at hstop hbehind
        simpa [hbehind.1, hbehind.2, load] using hstop
    | failed fault =>
        rw [hkind] at hstop hbehind
        obtain ⟨hasked, hopen, hfault⟩ := hstop
        simpa [hbehind.1, hbehind.2, load] using And.intro hopen (And.intro hasked hfault)

section Refill

variable {filled : Filled R ε} {state state' state'' : ω}

/-- The buffer as a refill leaves it. -/
def settled (buffer : Buffer R ε) (filled : Filled R ε) : Buffer R ε :=
  match filled.stop with
  | .full => buffer.load filled
  | .drained => { buffer.load filled with held := false }
  | .failed fault =>
      if filled.chunk.isEmpty then buffer.load filled
      else { buffer.load filled with deferred := some fault }

theorem refill_of_failed {fault : Fault ε} (hheld : buffer.held = true)
    (hfill : fill feed buffer.capacity buffer.consumed #[] state = (filled, state'))
    (hstop : filled.stop = .failed fault) (hempty : filled.chunk.isEmpty = true) :
    refill feed (buffer, state) = .error fault (buffer.settled filled, state') := by
  simp only [refill, Action.bind_apply, getOwn_apply, hheld, ↓reduceIte, onRest_apply, Action.answer,
    Action.after, Action.ofTotal_apply, hfill, settle_ok, hstop, setOwn_apply, hempty,
    Action.throw_apply, settled]

def traceChunk (feed : Feed I R ε ω) (filled : Filled R ε) : Action ε ω Unit :=
  feed.trace "underflow" (pure (toString filled.chunk.size ++ " results"))

/-- However else a chunk ends, it is traced once it is in place. -/
theorem refill_of_going (hheld : buffer.held = true)
    (hfill : fill feed buffer.capacity buffer.consumed #[] state = (filled, state'))
    (hgoing : ∀ fault, filled.stop = .failed fault → filled.chunk.isEmpty = false) :
    refill feed (buffer, state) =
      settle (((traceChunk feed filled).answer state').map fun _ => !filled.chunk.isEmpty)
        (buffer.settled filled, (traceChunk feed filled).after state') := by
  have htraced (loaded : Buffer R ε) : (do
      onRest (traceChunk feed filled)
      return !filled.chunk.isEmpty : Action ε (Buffer R ε × ω) Bool) (loaded, state') =
        settle (((traceChunk feed filled).answer state').map fun _ => !filled.chunk.isEmpty)
          (loaded, (traceChunk feed filled).after state') := by
    rw [Action.bind_of_settle _ (onRest_apply _ loaded state')]
    cases (traceChunk feed filled).answer state' <;> rfl
  have hfilled : (onRest (.ofTotal (fill feed buffer.capacity buffer.consumed #[])) :
      Action ε (Buffer R ε × ω) (Filled R ε)) (buffer, state) = .ok filled (buffer, state') := by
    simp only [onRest, Action.ofTotal_apply, hfill]
  rw [refill, Action.bind_of_ok (getOwn_apply buffer state), if_pos hheld,
    Action.bind_of_ok hfilled]
  unfold settled
  cases hstop : filled.stop with
  | full => exact htraced _
  | drained => exact htraced _
  | failed fault =>
      have hnonempty := hgoing fault hstop
      have hdeferred := htraced { buffer.load filled with deferred := some fault }
      rw [hnonempty] at hdeferred
      simp only [hnonempty, Bool.false_eq_true, if_false]
      exact hdeferred

theorem refill_of_traced (hheld : buffer.held = true)
    (hfill : fill feed buffer.capacity buffer.consumed #[] state = (filled, state'))
    (htrace : traceChunk feed filled state' = .ok () state'')
    (hgoing : ∀ fault, filled.stop = .failed fault → filled.chunk.isEmpty = false) :
    refill feed (buffer, state) =
      .ok (!filled.chunk.isEmpty) (buffer.settled filled, state'') := by
  rw [refill_of_going hheld hfill hgoing]
  unfold Action.answer Action.after
  rw [htrace]
  rfl

end Refill

section Drained

variable {fault : Fault ε}

theorem Keeps.clear (hkeeps : buffer.Keeps outcome compute call asked)
    (hdrained : buffer.chunk.size ≤ buffer.position) :
    { buffer with chunk := #[], position := 0 }.Keeps outcome compute call asked := by
  have hrest : buffer.chunk.size - buffer.position = 0 := Nat.sub_eq_zero_of_le hdrained
  have hbehind := hkeeps.behind
  rw [hrest] at hbehind
  exact ⟨hkeeps.consumed, Nat.le_refl 0, by simp, hbehind⟩

theorem Keeps.end (hkeeps : buffer.Keeps outcome compute call asked)
    (hdrained : buffer.chunk.size ≤ buffer.position) (hdeferred : buffer.deferred = none)
    (hheld : buffer.held = false) :
    oneAtATime outcome compute call = .ok (.done none) ∧
      buffer.Keeps outcome compute (call + 1) asked := by
  have hends := hkeeps.behind
  have hrest : buffer.chunk.size - buffer.position = 0 := Nat.sub_eq_zero_of_le hdrained
  rw [hdeferred, hheld, hrest] at hends
  refine ⟨oneAtATime_of_ends hends, hkeeps.consumed, hkeeps.position_le, ?_, ?_⟩
  · intro place result hplace
    rw [Array.getElem?_eq_none (by omega)] at hplace
    exact nomatch hplace
  · rw [hdeferred, hheld, hrest]
    exact endsBefore_of_le hends (Nat.le_succ _)

theorem Keeps.throw (hkeeps : buffer.Keeps outcome compute call asked)
    (hdrained : buffer.chunk.size ≤ buffer.position) (hdeferred : buffer.deferred = some fault) :
    oneAtATime outcome compute call = .error fault ∧
      { buffer with deferred := none }.Keeps outcome compute (call + 1) asked := by
  have hbehind := hkeeps.behind
  have hrest : buffer.chunk.size - buffer.position = 0 := Nat.sub_eq_zero_of_le hdrained
  rw [hdeferred, hrest] at hbehind
  obtain ⟨hheld, hopen, hasked, hfault⟩ := hbehind
  refine ⟨hfault, hkeeps.consumed, hkeeps.position_le, ?_, ?_⟩
  · intro place result hplace
    rw [Array.getElem?_eq_none (by simp only; omega)] at hplace
    exact nomatch hplace
  · simpa [hheld, hrest] using And.intro hopen hasked

end Drained

/-- What a drained buffer comes to when it refills: results again, or the end, or a failure, where
the last two answer the call at hand. -/
inductive Refilled (outcome : Nat → Outcome I ε) (compute : I → Nat → Except ε R) (call asked : Nat)
    (buffer : Buffer R ε) : Except (Fault ε) Bool → Prop where
  | results (hkeeps : buffer.Keeps outcome compute call asked)
      (hwaits : buffer.position < buffer.chunk.size) : Refilled outcome compute call asked buffer (.ok true)
  | ended (hkeeps : buffer.Keeps outcome compute (call + 1) asked)
      (hends : oneAtATime outcome compute call = .ok (.done none)) :
      Refilled outcome compute call asked buffer (.ok false)
  | failed (fault : Fault ε) (hkeeps : buffer.Keeps outcome compute (call + 1) asked)
      (hfault : oneAtATime outcome compute call = .error fault) :
      Refilled outcome compute call asked buffer (.error fault)

theorem isEmpty_eq_false_of_pos {chunk : Array R} (hpos : 0 < chunk.size) :
    chunk.isEmpty = false := by
  simp only [Array.isEmpty, decide_eq_false_iff_not]
  omega

theorem refill_refilled (hplays : feed.Plays outcome compute At) (state : ω) (hat : At asked state)
    (hkeeps : buffer.Keeps outcome compute call asked)
    (hdrained : buffer.chunk.size ≤ buffer.position) (hdeferred : buffer.deferred = none) :
    ∃ answer asked' buffer' state', At asked' state' ∧
      Refilled outcome compute call asked' buffer' answer ∧
      refill feed (buffer, state) = settle answer (buffer', state') := by
  cases hheld : buffer.held with
  | false =>
      obtain ⟨hends, hkeeps'⟩ := (hkeeps.clear hdrained).end (Nat.le_refl 0) hdeferred hheld
      exact ⟨.ok false, asked, _, state, hat, .ended hkeeps' hends,
        refill_of_not_held feed buffer state hheld⟩
  | true =>
      have hbehind := hkeeps.behind
      rw [hdeferred, hheld, Nat.sub_eq_zero_of_le hdrained] at hbehind
      obtain ⟨hopen, hasked⟩ := hbehind
      obtain ⟨asked', hat', hcontinues, hfull⟩ := fill_continues hplays call
        buffer.capacity buffer.consumed #[] asked state hat hopen hkeeps.consumed hasked (by simp)
      obtain ⟨filled, state', hfill⟩ : ∃ filled state',
          fill feed buffer.capacity buffer.consumed #[] state = (filled, state') := ⟨_, _, rfl⟩
      rw [hfill] at hat' hcontinues hfull
      obtain ⟨state'', hat'', htrace⟩ := hplays.trace asked' state' "underflow"
        (pure (toString filled.chunk.size ++ " results")) hat'
      cases hstop : filled.stop with
      | full =>
          have hpos : 0 < filled.chunk.size := by
            rw [hfull hstop]
            simpa using buffer.capacity_pos
          have hloaded := keeps_of_continues buffer true none hcontinues (by simp [hstop])
          refine ⟨.ok true, asked', buffer.load filled, state'', hat'', .results ?_ hpos, ?_⟩
          · simpa [load, hdeferred, hheld] using hloaded
          · rw [refill_of_traced hheld hfill htrace (by simp [hstop]), settled, hstop,
              isEmpty_eq_false_of_pos hpos]
            rfl
      | drained =>
          have hloaded := keeps_of_continues buffer false none hcontinues (by simp [hstop])
          have hrefill := refill_of_traced hheld hfill htrace (by simp [hstop])
          rw [settled, hstop] at hrefill
          refine ⟨.ok (!filled.chunk.isEmpty), asked', { buffer.load filled with held := false },
            state'', hat'', ?_, hrefill⟩
          cases hempty : filled.chunk.isEmpty with
          | true =>
              have hsize : filled.chunk.size ≤ 0 := by simpa [Array.isEmpty] using hempty
              obtain ⟨hends, hkeeps'⟩ := hloaded.end hsize rfl rfl
              exact .ended (by simpa [load, hdeferred] using hkeeps') hends
          | false =>
              have hpos : 0 < filled.chunk.size := by
                simpa [Array.isEmpty, Nat.pos_iff_ne_zero] using hempty
              exact .results (by simpa [load, hdeferred] using hloaded) hpos
      | failed fault =>
          have hloaded := keeps_of_continues buffer true (some fault) hcontinues (by simp [hstop])
          cases hempty : filled.chunk.isEmpty with
          | true =>
              -- nothing precedes the failure, so it is thrown before anything is traced
              have hsize : filled.chunk.size ≤ 0 := by simpa [Array.isEmpty] using hempty
              obtain ⟨hfault, hkeeps'⟩ := hloaded.throw hsize rfl
              have hrefill := refill_of_failed hheld hfill hstop hempty
              simp only [settled, hstop, hempty, if_true] at hrefill
              refine ⟨.error fault, asked', buffer.load filled, state', hat', .failed fault ?_ hfault,
                hrefill⟩
              simpa [load, hdeferred, hheld] using hkeeps'
          | false =>
              have hpos : 0 < filled.chunk.size := by
                simpa [Array.isEmpty, Nat.pos_iff_ne_zero] using hempty
              have hrefill := refill_of_traced hheld hfill htrace (by simp [hempty])
              simp only [settled, hstop, hempty, Bool.false_eq_true, if_false, Bool.not_false] at hrefill
              refine ⟨.ok true, asked', { buffer.load filled with deferred := some fault }, state'',
                hat'', .results ?_ hpos, hrefill⟩
              simpa [load, hheld] using hloaded

/-- A call of a buffer answers what a producer one at a time answers, and keeps what is to be
answered from the next call on. -/
theorem next_answers (hplays : feed.Plays outcome compute At) (state : ω) (hat : At asked state)
    (hkeeps : buffer.Keeps outcome compute call asked) :
    ∃ asked' buffer' state', At asked' state' ∧ buffer'.Keeps outcome compute (call + 1) asked' ∧
      next feed (buffer, state) = settle (oneAtATime outcome compute call) (buffer', state') := by
  by_cases hwaits : buffer.position < buffer.chunk.size
  · obtain ⟨buffer', hkeeps', hhandOut⟩ := handOut_of_lt hwaits hkeeps state
    refine ⟨asked, buffer', state, hat, hkeeps', ?_⟩
    simp only [next, Action.bind_apply, getOwn_apply, if_pos hwaits, hhandOut]
  · have hdrained : buffer.chunk.size ≤ buffer.position := Nat.le_of_not_lt hwaits
    cases hdeferred : buffer.deferred with
    | some fault =>
        obtain ⟨hfault, hkeeps'⟩ := hkeeps.throw hdrained hdeferred
        refine ⟨asked, _, state, hat, hkeeps', ?_⟩
        simp only [next, Action.bind_apply, getOwn_apply, if_neg hwaits, hdeferred, setOwn_apply,
          Action.throw_apply, hfault, settle_error]
    | none =>
        obtain ⟨answer, asked', buffer', state', hat', hrefilled, hrefill⟩ :=
          refill_refilled hplays state hat hkeeps hdrained hdeferred
        have hnext : next feed (buffer, state) =
            (refill feed >>= fun refilled => if refilled then handOut else pure (.done none))
              (buffer, state) := by
          simp only [next, Action.bind_apply, getOwn_apply, if_neg hwaits, hdeferred]
        rw [hnext]
        cases hrefilled with
        | results hkeeps' hwaits' =>
            obtain ⟨buffer'', hkeeps'', hhandOut⟩ := handOut_of_lt hwaits' hkeeps' state'
            refine ⟨asked', buffer'', state', hat', hkeeps'', ?_⟩
            rw [Action.bind_of_ok hrefill]
            exact hhandOut
        | ended hkeeps' hends =>
            refine ⟨asked', buffer', state', hat', hkeeps', ?_⟩
            rw [Action.bind_of_ok hrefill, hends]
            rfl
        | failed fault hkeeps' hfault =>
            refine ⟨asked', buffer', state', hat', hkeeps', ?_⟩
            rw [Action.bind_of_error hrefill, hfault]
            rfl

end Calls

end Buffer

end PullRange
