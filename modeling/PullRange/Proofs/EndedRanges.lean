import PullRange.Proofs.Endings

/-!
# Ranges that have ended

A cursor is at its end only if the executor of its range had nothing more to give, and an executor
with a buffer has nothing more to give from then on. So a cursor over such an executor never leaves
its end, and no advance brings a result again, whichever range the executor is moved to. `Endures`
is what one entry of a run preserves, and carries this through every run.
-/

namespace PullRange

namespace Store

variable {V ε : Type}

/-- Executors age, and no range that is there comes by another executor. A cursor that has found the
end stays there if its range has ended, and a new one finds the end only over an executor that has
ended, if it can. -/
structure Endures (before after : Store V ε) : Prop where
  ages : before.Ages after
  size : before.ranges.size ≤ after.ranges.size
  holder : ∀ range < before.ranges.size, ∀ executor,
    after.executorOf range = some executor → before.executorOf range = some executor
  kept : ∀ cursor range : Nat, before.Drained range →
    before.cursors[cursor]? = some (range, { atEnd := true }) →
    after.cursors[cursor]? = some (range, { atEnd := true })
  found : ∀ (cursor range : Nat) (current : Cursor), after.cursors[cursor]? = some (range, current) →
    before.cursors[cursor]? = some (range, current) ∨
      (range < before.ranges.size ∧ (current.atEnd = true → after.Spent range))

section Endures

variable {before after : Store V ε}

theorem Endures.of_cursors (hages : before.Ages after)
    (hsize : before.ranges.size ≤ after.ranges.size)
    (hholder : ∀ range < before.ranges.size, ∀ executor,
      after.executorOf range = some executor → before.executorOf range = some executor)
    (hcursors : after.cursors = before.cursors) : before.Endures after where
  ages := hages
  size := hsize
  holder := hholder
  kept cursor range _ hentry := by rw [hcursors, hentry]
  found cursor range current hentry := .inl (by rw [← hcursors, hentry])

theorem Elapses.endures (helapses : before.Elapses after) : before.Endures after := by
  apply Endures.of_cursors helapses.ages (Nat.le_of_eq helapses.size.symm) _ helapses.cursors
  intro range _ executor hholds
  rwa [← helapses.executorOf]

theorem makeRange_endures (executor : Option Nat) (store : Store V ε) :
    (addRange (.holding executor)).Leads Endures store := by
  have hmade : addRange (.holding executor) store =
      .ok store.ranges.size { store with ranges := store.ranges.push (.holding executor) } := rfl
  refine .of_ok hmade (.of_cursors (.of_executors rfl) ?_ ?_ rfl)
  · simp
  · intro range hlt other hholds
    rw [executorOf_push, Function.update_of_ne (Nat.ne_of_lt hlt)] at hholds
    exact hholds

theorem move_endures (range : Nat) (store : Store V ε) : (move range).Leads Endures store := by
  cases hown : store.ranges[range]? with
  | none => exact .of_error (move_of_missing hown) (Std.Refl.refl store : store.Elapses store).endures
  | some own =>
      unfold Action.Leads
      apply Endures.of_cursors
      · rw [move_after hown]
        exact .of_executors rfl
      · rw [move_after hown]
        simp
      · intro other hlt executor hholds
        rw [move_executorOf hown, Function.update_of_ne (Nat.ne_of_lt hlt)] at hholds
        by_cases hsame : other = range
        · rw [hsame, Function.update_self] at hholds
          exact nomatch hholds
        · rwa [Function.update_of_ne hsame] at hholds
      · rw [move_after hown]

variable [Textual V ε]

theorem close_ages (range : Nat) (store : Store V ε) :
    (close range).Leads (fun before after => before.Ages after ∧ after.cursors = before.cursors)
      store := by
  cases hown : store.ranges[range]? with
  | none => exact .of_error (close_of_missing hown) ⟨Std.Refl.refl store, rfl⟩
  | some own =>
      cases hexecutor : own.executor with
      | none => exact .of_ok (close_of_empty hown hexecutor) ⟨Std.Refl.refl store, rfl⟩
      | some executor =>
          have hrelease : (store.services.release executor).Leads Elapses store :=
            release_elapses store _ executor
          unfold Action.Leads
          rw [(close_after hown hexecutor).2]
          exact ⟨IsTrans.trans _ _ _ hrelease.ages (.of_executors rfl), hrelease.cursors⟩

theorem close_endures (range : Nat) (store : Store V ε) : (close range).Leads Endures store := by
  cases hown : store.ranges[range]? with
  | none =>
      exact .of_error (close_of_missing hown) (Std.Refl.refl store : store.Elapses store).endures
  | some own =>
      obtain ⟨hages, hcursors⟩ := close_ages range store
      apply Endures.of_cursors hages (Nat.le_of_eq (close_size hown).symm) _ hcursors
      intro other _ executor hholds
      rw [close_executorOf hown] at hholds
      by_cases hsame : other = range
      · rw [hsame, Function.update_self] at hholds
        exact nomatch hholds
      · rwa [Function.update_of_ne hsame] at hholds

theorem start_endures (range : Nat) (store : Store V ε) : (start range).Leads Endures store := by
  have helapses := next_on_range_elapses range { atEnd := true } store
  unfold Action.Leads Action.after
  rw [start_eq_focus]
  cases hfocus : (rangeAt range).focus (Cursor.start store.services) store with
  | error fault store' => exact (helapses.to_error hfocus).endures
  | ok cursor store' =>
      have helapses := helapses.to hfocus
      have hsame : store'.executorOf = store.executorOf := helapses.executorOf
      exact {
        ages := IsTrans.trans _ _ _ helapses.ages (.of_executors rfl)
        size := Nat.le_of_eq helapses.size.symm
        holder := by
          intro other _ executor hholds
          rw [← hsame]
          exact hholds
        kept := by
          intro other range' _ hentry
          rw [← helapses.cursors] at hentry
          exact getElem?_push_of_some hentry _
        found := by
          intro other range' current hentry
          rw [binding_cursors, Array.getElem?_push] at hentry
          by_cases hnew : other = store'.cursors.size
          · rw [if_pos hnew] at hentry
            cases hentry
            have hspent : cursor.atEnd = true → store'.Spent range := spent_of_next hfocus
            exact .inr ⟨lt_size_of_focus hfocus, hspent⟩
          · rw [if_neg hnew, helapses.cursors] at hentry
            exact .inl hentry }

theorem advance_endures (cursor : Nat) (store : Store V ε) :
    (advance cursor).Leads Endures store := by
  cases hentry : store.cursors[cursor]? with
  | none =>
      have hmissing : advance cursor store = .error .missing store :=
        Action.bind_of_error (rangeOfCursor_of_missing hentry) _
      exact .of_error hmissing (Std.Refl.refl store : store.Elapses store).endures
  | some entry =>
      obtain ⟨range, current⟩ := entry
      have helapses := next_on_range_elapses range current store
      unfold Action.Leads Action.after
      rw [advance_eq_focus hentry]
      cases hfocus : (rangeAt range).focus (current.next store.services) store with
      | error fault store' => exact (helapses.to_error hfocus).endures
      | ok advanced store' =>
          have helapses := helapses.to hfocus
          have hentry' : store'.cursors[cursor]? = some (range, current) := by
            rw [helapses.cursors, hentry]
          exact {
            ages := IsTrans.trans _ _ _ helapses.ages (.of_executors rfl)
            size := Nat.le_of_eq helapses.size.symm
            holder := by
              intro other _ executor hholds
              rw [← helapses.executorOf]
              exact hholds
            kept := by
              intro other range' hdrained hother
              by_cases hsame : other = cursor
              -- The cursor was at its end before, and finds the end again.
              · subst hsame
                cases hentry.symm.trans hother
                have hadvanced : ((rangeAt range).focus (Cursor.next store.services
                    { atEnd := true })).answer store = .ok advanced := by
                  unfold Action.answer
                  rw [hfocus]
                cases (next_of_drained hdrained _).2 advanced hadvanced
                exact putCursor_entry hentry' _
              · simp only [cursorAt, Array.getElem?_modify]
                rwa [if_neg (Ne.symm hsame), helapses.cursors]
            found := by
              intro other range' reached hother
              by_cases hsame : other = cursor
              · subst hsame
                cases (putCursor_entry hentry' advanced).symm.trans hother
                have hspent : advanced.atEnd = true → store'.Spent range := spent_of_next hfocus
                exact .inr ⟨lt_size_of_focus hfocus, hspent⟩
              · simp only [cursorAt, Array.getElem?_modify] at hother
                rw [if_neg (Ne.symm hsame), helapses.cursors] at hother
                exact .inl hother }

theorem endures_encloses :
    Encloses (fun _ => True) (fun _ => True) (Elapses : Store V ε → Store V ε → Prop) Endures where
  toBound := elapses_bound
  serves := serves_elapses
  ask executor store := .of_step (Action.get_apply store) (ask_elapses store _ executor)
  release executor store := .of_step (Action.get_apply store) (release_elapses store _ executor)
  opened _ := ⟨.of_executors rfl, rfl, rfl, rfl⟩
  push executor store := ⟨.push store executor, rfl, rfl, rfl⟩
  tracing _ _ := ⟨.of_executors rfl, rfl, rfl, rfl⟩
  traceWriter _ _ := ⟨.of_executors rfl, rfl, rfl, rfl⟩
  widen _ _ helapses := helapses.endures
  makeRange := makeRange_endures
  move := move_endures
  close := close_endures
  start := start_endures
  advance := advance_endures
  makeWalk _ store := .of_ok rfl (elapses_walks _ store store (Std.Refl.refl store)).endures
  walkOn walk _ _ :=
    (walkOn_leads elapses_walks elapses_bound (serves_elapses _) walk).mono fun _ => Elapses.endures
  stopWalk walk _ _ := (stopWalk_leads elapses_walks walk).mono fun _ => Elapses.endures

theorem after_endures (entry : Entry V ε) (store : Store V ε) :
    store.Endures (entry.after store) :=
  after_leads endures_encloses (fun _ _ => trivial) store

end Endures

/-- Every cursor that is at its end tells the truth about the executor of its range. -/
def Truthful (store : Store V ε) : Prop :=
  ∀ (cursor range : Nat) (current : Cursor), store.cursors[cursor]? = some (range, current) →
    range < store.ranges.size ∧ (current.atEnd = true → store.Spent range)

theorem Truthful.endures {before after : Store V ε} (htruthful : before.Truthful)
    (hendures : before.Endures after) : after.Truthful := by
  intro cursor range current hentry
  cases hendures.found cursor range current hentry with
  | inl hold =>
      obtain ⟨hlt, hspent⟩ := htruthful cursor range current hold
      refine ⟨Nat.lt_of_lt_of_le hlt hendures.size, ?_⟩
      intro hends executor hholds
      exact (hspent hends executor (hendures.holder range hlt executor hholds)).ages hendures.ages
  | inr hnew => exact ⟨Nat.lt_of_lt_of_le hnew.1 hendures.size, hnew.2⟩

theorem Drained.endures {before after : Store V ε} {range : Nat} (hdrained : before.Drained range)
    (hendures : before.Endures after) (hlt : range < before.ranges.size) : after.Drained range := by
  intro executor hholds
  exact (hdrained executor (hendures.holder range hlt executor hholds)).ages hendures.ages

namespace Entry

/-- The ranges that have come by what one of these ranges holds or has held. -/
def inherited (store : Store V ε) (heirs : List Nat) : Entry V ε → List Nat
  | .perform (.move range) => if range ∈ heirs then store.ranges.size :: heirs else heirs
  | _ => heirs

variable [Textual V ε]

def heirs : List (Entry V ε) → Store V ε → List Nat → List Nat
  | [], _, ranges => ranges
  | entry :: entries, store, ranges =>
      heirs entries (entry.after store) (entry.inherited store ranges)

end Entry

/-- The ranges are there, and none holds an executor that may still give something. -/
def AllDrained (ranges : List Nat) (store : Store V ε) : Prop :=
  ∀ range ∈ ranges, range < store.ranges.size ∧ store.Drained range

section Runs

variable [Textual V ε] {store : Store V ε}

theorem truthful_run (htruthful : store.Truthful) (entries : List (Entry V ε)) :
    (Entry.run entries store).Truthful := by
  induction entries generalizing store with
  | nil => exact htruthful
  | cons entry entries ih => exact ih (htruthful.endures (after_endures entry store))

theorem AllDrained.after {ranges : List Nat} (hdrained : store.AllDrained ranges)
    (entry : Entry V ε) : (entry.after store).AllDrained (entry.inherited store ranges) := by
  have hendures := after_endures entry store
  have hkept : (entry.after store).AllDrained ranges := by
    intro range hmem
    obtain ⟨hlt, hrange⟩ := hdrained range hmem
    exact ⟨Nat.lt_of_lt_of_le hlt hendures.size, hrange.endures hendures hlt⟩
  unfold Entry.inherited
  split
  · next moved =>
      split
      · next hmoved =>
          obtain ⟨hlt, hrange⟩ := hdrained moved hmoved
          have hown : store.ranges[moved]? = some store.ranges[moved] :=
            Array.getElem?_eq_getElem hlt
          have hafter : Entry.after store (.perform (.move moved)) = (move moved).after store :=
            Action.after_of_settle (Action.map_of_settle _ ((move moved).apply_eq_settle store))
          intro range hmem
          cases List.mem_cons.mp hmem with
          | inr hold => exact hkept range hold
          | inl hnew =>
              subst hnew
              constructor
              · rw [hafter, move_after hown]
                simp
              · intro executor hholds
                rw [hafter, move_executorOf hown, Function.update_self] at hholds
                exact (hrange executor hholds).ages hendures.ages
      · exact hkept
  · exact hkept

theorem AllDrained.run {ranges : List Nat} (hdrained : store.AllDrained ranges)
    (entries : List (Entry V ε)) :
    (Entry.run entries store).AllDrained (Entry.heirs entries store ranges) := by
  induction entries generalizing store ranges with
  | nil => exact hdrained
  | cons entry entries ih => exact ih (hdrained.after entry)

theorem kept_run {cursor range : Nat} (hdrained : store.Drained range)
    (hlt : range < store.ranges.size)
    (hentry : store.cursors[cursor]? = some (range, { atEnd := true }))
    (entries : List (Entry V ε)) :
    (Entry.run entries store).cursors[cursor]? = some (range, { atEnd := true }) := by
  induction entries generalizing store with
  | nil => exact hentry
  | cons entry entries ih =>
      have hendures := after_endures entry store
      exact ih (hdrained.endures hendures hlt) (Nat.lt_of_lt_of_le hlt hendures.size)
        (hendures.kept cursor range hdrained hentry)

/-- No advance over the range brings a result or changes the range, and a cursor that it leads to is
at its end. -/
structure Barren (range : Nat) (store : Store V ε) : Prop where
  turn : ∀ cursor? turned,
    (turnOn store.services range cursor?).answer store ≠ .ok (some turned)
  start : ((Store.start range).after store).ranges[range]? = store.ranges[range]? ∧
    ∀ cursor, (Store.start range).answer store = .ok cursor →
      ((Store.start range).after store).cursors[cursor]? = some (range, { atEnd := true })
  advance : ∀ (cursor : Nat) (current : Cursor), store.cursors[cursor]? = some (range, current) →
    ((Store.advance cursor).after store).ranges[range]? = store.ranges[range]? ∧
      ((Store.advance cursor).answer store = .ok () →
        ((Store.advance cursor).after store).cursors[cursor]? = some (range, { atEnd := true }))

theorem Drained.barren {range : Nat} (hdrained : store.Drained range) : store.Barren range where
  turn := by
    intro cursor? turned
    cases hown : store.ranges[range]? with
    | none =>
        have hmissing : turnOn store.services range cursor? store = settle (.error .missing) store :=
          Place.focus_of_missing hown _
        rw [Action.answer_of_settle hmissing]
        exact nofun
    | some own =>
        have hturn : turnOn store.services range cursor? store = _ :=
          Place.focus_apply hown (Range.turn store.services cursor?)
        rw [Action.answer_of_settle hturn]
        exact turn_of_barren (pull_of_drained hdrained hown).1 cursor? turned
  start := by
    obtain ⟨hsame, hends⟩ := next_of_drained hdrained { atEnd := true }
    unfold Action.answer Action.after at *
    rw [start_eq_focus]
    unfold Cursor.start
    cases hfocus : (rangeAt range).focus (Cursor.next store.services { atEnd := true }) store with
    | error fault store' =>
        rw [hfocus] at hsame
        exact ⟨hsame, nofun⟩
    | ok made store' =>
        rw [hfocus] at hsame hends
        cases hends made rfl
        refine ⟨hsame, ?_⟩
        intro cursor hcursor
        cases hcursor
        exact binding_entry range _ store'
  advance := by
    intro cursor current hentry
    obtain ⟨hsame, hends⟩ := next_of_drained hdrained current
    have hcursors := (next_on_range_elapses range current store).cursors
    unfold Action.answer Action.after at *
    rw [advance_eq_focus hentry]
    cases hfocus : (rangeAt range).focus (current.next store.services) store with
    | error fault store' =>
        rw [hfocus] at hsame
        exact ⟨hsame, nofun⟩
    | ok advanced store' =>
        rw [hfocus] at hsame hends hcursors
        cases hends advanced rfl
        have hentry' : store'.cursors[cursor]? = some (range, current) := by rw [hcursors, hentry]
        exact ⟨hsame, fun _ => putCursor_entry hentry' _⟩

/-- **The end is told exactly, and it is final.** A buffer is at its end exactly if its resource has
reported done or the buffer was released, and nothing waits any more. From then on every call
answers so and calls nothing, and only at its end does a buffer answer done. So once a cursor is at
its end over an executor with a buffer, it stays there in every run, and no advance brings anything
again, over its range or any range that it was moved to. -/
theorem exhaustion_is_final {I R ω : Type} {capacity : Nat} (hpos : 0 < capacity)
    (feed : Feed I R ε ω) (state : ω) (calls later : List BufferCall) {origin : Store V ε}
    (hfresh : origin.cursors = #[]) (entries further : List (Entry V ε)) :
    let fresh : Buffer R ε := .empty capacity hpos
    let reached := BufferCall.run feed.watched calls (fresh, state, [])
    let resumed := BufferCall.run feed.watched later reached
    let store := Entry.run entries origin
    let outcome := Entry.run further store
    (BufferCall.answers feed.watched calls (fresh, state, []) =
        BufferCall.answers feed calls (fresh, state) ∧
      reached.1 = (BufferCall.run feed calls (fresh, state)).1) ∧
    (reached.1.isEof ↔ (.release ∈ calls ∨ Reported reached.2.2) ∧
      reached.1.chunk.size ≤ reached.1.position ∧ reached.1.deferred = none) ∧
    (reached.1.isEof →
      BufferCall.answers feed.watched later reached = later.map BufferCall.atEnd ∧
      resumed.1.isEof ∧ resumed.2 = reached.2) ∧
    (∀ parting, (Buffer.next feed.watched).answer reached = .ok (.done parting) →
      ((Buffer.next feed.watched).after reached).1.isEof) ∧
    ∀ (cursor range number : Nat) (buffer : Buffer V ε),
      store.cursors[cursor]? = some (range, { atEnd := true }) →
      store.executorOf range = some number → (bufferOf number).find store = some buffer →
      buffer.isEof ∧ outcome.cursors[cursor]? = some (range, { atEnd := true }) ∧
      ∀ heir ∈ Entry.heirs further store [range], outcome.Barren heir := by
  intro fresh reached resumed store outcome
  have htells : Buffer.Tells False (fresh, state, []) := by
    simp [Buffer.Tells, fresh, Buffer.empty, Reported]
  refine ⟨BufferCall.run_watched feed calls fresh state [], ?_, ?_, ?_, ?_⟩
  · have hheld : reached.1.held = false ↔ _ := BufferCall.tells_run calls htells
    rw [Buffer.isEof_iff, hheld, false_or]
  · intro heof
    obtain ⟨buffer, heof', hrun, hanswers⟩ := BufferCall.run_of_isEof heof later reached.2
    have hresumed : resumed = (buffer, reached.2) := hrun
    rw [hresumed]
    exact ⟨hanswers, heof', rfl⟩
  · exact fun parting => Buffer.isEof_of_done
  · intro cursor range number buffer hentry hholds hfind
    have hnone : origin.Truthful := by
      intro cursor range current hentry
      rw [hfresh] at hentry
      cases hentry
    obtain ⟨hlt, hspent⟩ := truthful_run hnone entries cursor range _ hentry
    obtain ⟨executor, hexecutor, hends⟩ := hspent rfl number hholds
    obtain ⟨stage, hstage, rfl⟩ := stage_of_bufferOf_find hexecutor hfind
    have hatEnd : executor.AtEnd := hends (by simp [hstage])
    have hdrained : store.Drained range := by
      intro other hother
      cases hholds.symm.trans hother
      exact ⟨executor, hexecutor, hatEnd⟩
    refine ⟨?_, kept_run hdrained hlt hentry further, ?_⟩
    · obtain ⟨stage', hstage', heof⟩ := hatEnd
      cases hstage.symm.trans hstage'
      exact heof
    · intro heir hheir
      have halone : store.AllDrained [range] := by
        intro other hother
        cases List.mem_singleton.mp hother
        exact ⟨hlt, hdrained⟩
      exact (halone.run further heir hheir).2.barren

/-- It yields again after it has reported done. -/
def flickering : Script Value Thrown :=
  .ofOutcomes [.yield .null, .done none, .yield .null] none

def flickeringStage : Stage Value Thrown :=
  { compute := fun value _ => .pure value, buffer := .empty 2 (by decide) }

def lapsing : Store Value Thrown :=
  { (initial : Store Value Thrown) with
    executors := #[{ source := .script flickering, stage := some flickeringStage }],
    ranges := #[.holding (some 0)] }

theorem exhaustion_is_final_flickering :
    let feed := feed lapsing.services 0 flickeringStage
    let store := Entry.run [.perform (.start 0), .perform (.advance 0)] lapsing
    let outcome := Entry.run [.perform (.move 0), .perform (.advance 0), .perform (.start 1)] store
    (BufferCall.run feed.watched [.next, .next] (flickeringStage.buffer, lapsing, [])).1.isEof ∧
    outcome.cursors[0]? = some (0, { atEnd := true }) ∧ outcome.Barren 1 := by
  intro feed store outcome
  obtain ⟨-, hexact, -, -, hfinal⟩ :=
    exhaustion_is_final (by decide : 0 < 2) feed lapsing [.next, .next] []
      (rfl : lapsing.cursors = #[]) [.perform (.start 0), .perform (.advance 0)]
      [.perform (.move 0), .perform (.advance 0), .perform (.start 1)]
  obtain ⟨-, hkept, hbarren⟩ := hfinal 0 0 0 _ rfl rfl rfl
  refine ⟨hexact.mpr ⟨.inr ?_, ?_, rfl⟩, hkept, hbarren 1 ?_⟩
  · unfold Reported
    decide
  · decide
  · decide

end Runs

end Store

end PullRange
