import PullRange.Proofs.Ageing
import PullRange.Proofs.Pulling

/-!
# Advancing towards the end

An advance finds the end only if the executor of the range answers done, which leaves an executor
with a buffer at its end. An advance over an executor that has ended finds the end again and leaves
the range alone.
-/

namespace PullRange

variable {V ε : Type}

section Pull

variable {H ω : Type} {services : Services H V ε ω} {own : Range H V} {state : ω}

/-- A pull fails at once, finds the end, or brings a value. -/
theorem pull_cases (services : Services H V ε ω) (own : Range H V) (state : ω) :
    (∃ fault state', Range.pull services (own, state) = settle (.error fault) (own, state')) ∨
    (∃ handle parting, own.executor = some handle ∧
      (services.ask handle).answer state = .ok (.done parting) ∧
      let asked := (services.ask handle).after state
      let traced := services.trace "pull" (pure "exhausted")
      Range.pull services (own, state) =
        settle ((traced.answer asked).map fun _ => false) (own, traced.after asked)) ∨
    (∃ handle value, own.executor = some handle ∧
      (services.ask handle).answer state = .ok (.yield value) ∧
      let asked := (services.ask handle).after state
      let traced := services.trace "pull" (services.text value)
      Range.pull services (own, state) =
        settle ((traced.answer asked).map fun _ => true)
          ({ own with cache := some value }, traced.after asked)) := by
  obtain hexecutor | ⟨handle, hexecutor⟩ := Option.eq_none_or_eq_some own.executor
  · exact .inl ⟨_, _, Range.pull_of_no_executor services own state hexecutor⟩
  · have hpull := pull_of_executor services hexecutor state
    cases hanswer : (services.ask handle).answer state with
    | error fault =>
        rw [hanswer] at hpull
        exact .inl ⟨fault, _, hpull⟩
    | ok step =>
        rw [hanswer] at hpull
        cases step with
        | done parting => exact .inr (.inl ⟨handle, parting, hexecutor, hanswer, hpull⟩)
        | yield value => exact .inr (.inr ⟨handle, value, hexecutor, hanswer, hpull⟩)

theorem pull_of_barren
    (hask : ∀ handle value, own.executor = some handle →
      (services.ask handle).answer state ≠ .ok (.yield value)) :
    (Range.pull services).answer (own, state) ≠ .ok true ∧
      ((Range.pull services).after (own, state)).1 = own := by
  obtain ⟨fault, state', hpull⟩ | ⟨handle, parting, -, -, hpull⟩ |
    ⟨handle, value, hexecutor, hanswer, -⟩ := pull_cases services own state
  · rw [Action.answer_of_settle hpull, Action.after_of_settle hpull]
    exact ⟨nofun, rfl⟩
  · rw [Action.answer_of_settle hpull, Action.after_of_settle hpull]
    refine ⟨?_, rfl⟩
    cases (services.trace "pull" (pure "exhausted")).answer _ <;> exact nofun
  · exact absurd hanswer (hask handle value hexecutor)

/-- Only an executor that answers done makes a pull come to nothing. -/
theorem pull_of_done (hpulled : (Range.pull services).answer (own, state) = .ok false) :
    ∃ handle parting, own.executor = some handle ∧
      (services.ask handle).answer state = .ok (.done parting) ∧
      ((Range.pull services).after (own, state)).2 =
        (services.trace "pull" (pure "exhausted")).after ((services.ask handle).after state) := by
  obtain ⟨fault, state', hpull⟩ | ⟨handle, parting, hexecutor, hanswer, hpull⟩ |
    ⟨handle, value, -, -, hpull⟩ := pull_cases services own state
  · rw [Action.answer_of_settle hpull] at hpulled
    cases hpulled
  · rw [Action.after_of_settle hpull]
    exact ⟨handle, parting, hexecutor, hanswer, rfl⟩
  · rw [Action.answer_of_settle hpull] at hpulled
    cases htraced : (services.trace "pull" (services.text value)).answer _ with
    | error fault =>
        rw [htraced] at hpulled
        cases hpulled
    | ok _ =>
        rw [htraced] at hpulled
        cases hpulled

theorem cursor_next_apply_pull (cursor : Cursor) (state : Range H V × ω) :
    cursor.next services state =
      settle (((Range.pull services).answer state).map fun pulled => { atEnd := !pulled })
        ((Range.pull services).after state) :=
  Action.map_of_settle (fun pulled => ({ atEnd := !pulled } : Cursor))
    ((Range.pull services).apply_eq_settle state)

theorem turn_of_barren {state : Range H V × ω}
    (hpull : (Range.pull services).answer state ≠ .ok true) (cursor? : Option Cursor)
    (turned : Cursor × V) : (Range.turn services cursor?).answer state ≠ .ok (some turned) := by
  have hread (cursor : Cursor) :
      (cursor.next services >>= fun cursor =>
        if cursor.notEquals .shared then
          Range.get >>= fun value => pure (some (cursor, value))
        else
          pure none : Action ε (Range H V × ω) (Option (Cursor × V))).answer state ≠
        .ok (some turned) := by
    rw [Action.answer_bind, Action.answer_of_settle (cursor_next_apply_pull cursor state)]
    cases hpulled : (Range.pull services).answer state with
    | error fault => exact nofun
    | ok pulled =>
        cases pulled with
        | true => exact absurd hpulled hpull
        | false => exact nofun
  cases cursor? with
  | none => exact hread { atEnd := true }
  | some cursor => exact hread cursor

end Pull

namespace Store

def Exhausted (number : Nat) (store : Store V ε) : Prop :=
  ∃ executor, store.executors[number]? = some executor ∧ executor.AtEnd

/-- The executor has ended if it can at all. One without a buffer may always go on. -/
def Resting (number : Nat) (store : Store V ε) : Prop :=
  ∃ executor, store.executors[number]? = some executor ∧ (executor.stage.isSome → executor.AtEnd)

/-- The range holds no executor but one that has ended. -/
def Drained (range : Nat) (store : Store V ε) : Prop :=
  ∀ executor, store.executorOf range = some executor → store.Exhausted executor

def Spent (range : Nat) (store : Store V ε) : Prop :=
  ∀ executor, store.executorOf range = some executor → store.Resting executor

section Executors

variable {number bound : Nat} {store after : Store V ε}

theorem Exhausted.ages (hexhausted : store.Exhausted number) (hages : store.Ages after) :
    after.Exhausted number := by
  obtain ⟨executor, hexecutor, hends⟩ := hexhausted
  obtain ⟨executor', hexecutor', hages'⟩ := hages number executor hexecutor
  exact ⟨executor', hexecutor', hages'.stays hends⟩

theorem Resting.ages (hresting : store.Resting number) (hages : store.Ages after) :
    after.Resting number := by
  obtain ⟨executor, hexecutor, hends⟩ := hresting
  obtain ⟨executor', hexecutor', hages'⟩ := hages number executor hexecutor
  refine ⟨executor', hexecutor', ?_⟩
  intro hbuffered
  rw [hages'.buffered] at hbuffered
  exact hages'.stays (hends hbuffered)

variable [Textual V ε]

theorem ask_of_buffered {source : Source V ε} {stage : Stage V ε} (hlt : number < bound)
    (hexecutor : store.executors[number]? = some { source, stage := some stage }) :
    let next := Buffer.next (feed (servicesBelow number) number stage)
    let noted := store.noting (.ask number)
    (servicesBelow bound : StoreServices V ε).ask number store =
      settle (next.answer (stage.buffer, noted))
        ((bufferOf number).put (next.after (stage.buffer, noted)).1
          (next.after (stage.buffer, noted)).2) := by
  intro next noted
  rw [servicesBelow_ask hlt]
  exact askExecutor_of_buffered hexecutor _

theorem ask_of_exhausted (hexhausted : store.Exhausted number) (value : V) :
    ((servicesBelow bound : StoreServices V ε).ask number).answer store ≠ .ok (.yield value) := by
  by_cases hlt : number < bound
  · obtain ⟨⟨source, stage?⟩, hexecutor, stage, rfl, heof⟩ := hexhausted
    have hnext : Buffer.next (feed (servicesBelow number) number stage)
        (stage.buffer, store.noting (.ask number)) = settle (.ok (.done none)) _ :=
      buffer_next_of_isEof heof _ _
    rw [Action.answer_of_settle (ask_of_buffered hlt hexecutor), Action.answer_of_settle hnext]
    exact nofun
  · rw [(servicesBelow_of_le (Nat.le_of_not_lt hlt)).1]
    exact nofun

omit [Textual V ε] in
theorem atEnd_of_putBuffer {executor : Executor V ε} {buffer : Buffer V ε}
    (hexecutor : ((bufferOf number).put buffer store).executors[number]? = some executor)
    (hbuffered : executor.stage.isSome) (heof : buffer.isEof) : executor.AtEnd := by
  obtain ⟨stage, hstage, rfl⟩ := stage_of_bufferOf_put hexecutor hbuffered
  exact ⟨stage, hstage, heof⟩

/-- An executor that answers done has ended, unless it has no buffer. -/
theorem resting_of_done {parting : Option V}
    (hdone : ((servicesBelow bound : StoreServices V ε).ask number).answer store =
      .ok (.done parting)) :
    (((servicesBelow bound : StoreServices V ε).ask number).after store).Resting number := by
  have hlt : number < bound := by
    by_contra hge
    rw [(servicesBelow_of_le (Nat.le_of_not_lt hge)).1] at hdone
    exact nomatch hdone
  cases hexecutor : store.executors[number]? with
  | none =>
      have hmissing : askExecutor (servicesBelow number) number store =
          settle (.error .missing) store :=
        Action.bind_of_error (Place.read_of_missing hexecutor) _
      rw [servicesBelow_ask hlt, Action.answer_of_settle hmissing] at hdone
      exact nomatch hdone
  | some executor =>
      obtain ⟨executor', hexecutor', hages⟩ :=
        (ask_elapses store bound number).ages number executor hexecutor
      refine ⟨executor', hexecutor', ?_⟩
      intro hbuffered
      obtain ⟨source, stage?⟩ := executor
      cases stage? with
      | none =>
          rw [hages.buffered] at hbuffered
          exact nomatch hbuffered
      | some stage =>
          have hask := ask_of_buffered hlt hexecutor
          rw [Action.answer_of_settle hask] at hdone
          rw [Action.after_of_settle hask] at hexecutor'
          exact atEnd_of_putBuffer hexecutor' hbuffered (Buffer.isEof_of_done hdone)

end Executors

section Advances

variable {range : Nat} {store after : Store V ε} {own : Range Nat V}

variable [Textual V ε]

theorem next_on_range_apply (hown : store.ranges[range]? = some own) (cursor : Cursor) :
    let pull := Range.pull store.services
    (rangeAt range).focus (cursor.next store.services) store =
      settle ((pull.answer (own, store)).map fun pulled => { atEnd := !pulled })
        ((rangeAt range).put (pull.after (own, store)).1 (pull.after (own, store)).2) :=
  Place.focus_of_settle hown (cursor_next_apply_pull cursor (own, store))

theorem next_on_range_elapses (range : Nat) (cursor : Cursor) (store : Store V ε) :
    ((rangeAt range).focus (cursor.next store.services)).Leads Elapses store :=
  next_on_range_leads elapses_bound (serves_elapses _) range cursor

/-- An advance that finds the end leaves an executor behind that has ended, if it can. -/
theorem spent_of_next {cursor advanced : Cursor}
    (hnext : (rangeAt range).focus (cursor.next store.services) store = .ok advanced after)
    (hends : advanced.atEnd = true) : after.Spent range := by
  have helapses := (next_on_range_elapses range cursor store).to hnext
  obtain ⟨own, hown⟩ : ∃ own, store.ranges[range]? = some own :=
    ⟨_, Array.getElem?_eq_getElem (lt_size_of_focus hnext)⟩
  intro executor hholds
  rw [helapses.executorOf, executorOf_of_range hown] at hholds
  rw [next_on_range_apply hown] at hnext
  cases hpulled : (Range.pull store.services).answer (own, store) with
  | error fault =>
      rw [hpulled] at hnext
      exact nomatch hnext
  | ok pulled =>
      rw [hpulled] at hnext
      cases hnext
      have hfalse : pulled = false := by simpa using hends
      subst hfalse
      obtain ⟨handle, parting, hhandle, hdone, htraced⟩ := pull_of_done hpulled
      cases hholds.symm.trans hhandle
      have htrace : (store.services.trace "pull" (pure "exhausted")).Leads Elapses
          ((store.services.ask executor).after store) := by
        unfold services
        rw [servicesBelow_trace]
        exact trace_leads elapses_bound.toAdmits (fun _ => Action.leads_pure _) "pull" _
      have hresting := (resting_of_done hdone).ages htrace.ages
      rw [← htraced] at hresting
      exact hresting.ages (.of_executors rfl)

theorem pull_of_drained (hdrained : store.Drained range)
    (hown : store.ranges[range]? = some own) :
    (Range.pull store.services).answer (own, store) ≠ .ok true ∧
      ((Range.pull store.services).after (own, store)).1 = own := by
  apply pull_of_barren
  intro handle value hhandle
  exact ask_of_exhausted (hdrained handle ((executorOf_of_range hown).trans hhandle)) value

/-- An advance over a range whose executor has ended finds the end, and leaves the range alone. -/
theorem next_of_drained (hdrained : store.Drained range) (cursor : Cursor) :
    let next := (rangeAt range).focus (cursor.next store.services)
    (next.after store).ranges[range]? = store.ranges[range]? ∧
      ∀ advanced, next.answer store = .ok advanced → advanced = { atEnd := true } := by
  cases hown : store.ranges[range]? with
  | none =>
      have hmissing : (rangeAt range).focus (cursor.next store.services) store =
          settle (.error .missing) store := Place.focus_of_missing hown _
      simp only [Action.after_of_settle hmissing, Action.answer_of_settle hmissing]
      refine ⟨hown, ?_⟩
      intro advanced hanswer
      cases hanswer
  | some own =>
      obtain ⟨hnot, hsame⟩ := pull_of_drained hdrained hown
      have hleads : (Range.pull store.services).Leads (Beside SameExecutor Elapses) (own, store) :=
        range_pull_leads elapses_bound (serves_elapses _) hown
      have hlt : range < ((Range.pull store.services).after (own, store)).2.ranges.size := by
        rw [hleads.2.size]
        exact lt_size_of_range hown
      have happly := next_on_range_apply hown cursor
      simp only [Action.after_of_settle happly, Action.answer_of_settle happly]
      constructor
      · simp [rangeAt, hlt, hsame]
      · intro advanced hanswer
        cases hpulled : (Range.pull store.services).answer (own, store) with
        | error fault =>
            rw [hpulled] at hanswer
            cases hanswer
        | ok pulled =>
            rw [hpulled] at hanswer hnot
            cases pulled with
            | true => exact absurd rfl hnot
            | false =>
                cases hanswer
                rfl

end Advances

end Store

end PullRange
