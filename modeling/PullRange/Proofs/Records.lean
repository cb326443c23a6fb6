import PullRange.Proofs.EndedRanges

/-!
# What stays known of one executor

Many executors are at work in a store, and any of them may call on any below it. What is known of one
of them, and of the events that tell of it, can only change while this one is asked or released. If
both keep it, then so does every run.
-/

namespace PullRange.Store

variable {V ε : Type}

/-- The events that tell of an executor. -/
def eventsOf (number : Nat) (store : Store V ε) : List (Event Nat V) :=
  store.log.toList.filter fun event => event.executor? == some number

abbrev Knowledge (V ε : Type) := Executor V ε → List (Event Nat V) → Prop

/-- The executor is there, and this is known of it and of its events. -/
def Knows (number : Nat) (known : Knowledge V ε) (store : Store V ε) : Prop :=
  ∃ executor, store.executors[number]? = some executor ∧ known executor (store.eventsOf number)

def Keeps (number : Nat) (known : Knowledge V ε) (before after : Store V ε) : Prop :=
  before.Knows number known → after.Knows number known

/-- No range changes hands either. -/
structure Respects (number : Nat) (known : Knowledge V ε) (before after : Store V ε) : Prop where
  elapses : before.Elapses after
  keeps : Keeps number known before after

section Relations

variable {number : Nat} {known : Knowledge V ε}

theorem eventsOf_logging (store : Store V ε) (events : List (Event Nat V)) :
    (store.logging events).eventsOf number =
      store.eventsOf number ++ events.filter fun event => event.executor? == some number := by
  simp [eventsOf, List.filter_append]

theorem eventsOf_logging_of_within {events : List (Event Nat V)}
    (hevents : ∀ event ∈ events, event.Within (· ≠ number)) (store : Store V ε) :
    (store.logging events).eventsOf number = store.eventsOf number := by
  have hnone : events.filter (fun event => event.executor? == some number) = [] := by
    rw [List.filter_eq_nil_iff]
    intro event hevent htells
    exact hevents event hevent number (beq_iff_eq.mp htells) rfl
  rw [eventsOf_logging, hnone, List.append_nil]

instance : Std.Refl (Keeps number known) where
  refl _ := id

instance : IsTrans (Store V ε) (Keeps number known) where
  trans _ _ _ hfirst hsecond := fun hknows => hsecond (hfirst hknows)

instance : Std.Refl (Respects number known) where
  refl store := ⟨Std.Refl.refl store, id⟩

instance : IsTrans (Store V ε) (Respects number known) where
  trans _ _ _ hfirst hsecond :=
    ⟨IsTrans.trans _ _ _ hfirst.elapses hsecond.elapses,
      fun hknows => hsecond.keeps (hfirst.keeps hknows)⟩

theorem Keeps.of_same {before middle after : Store V ε} (hkeeps : Keeps number known before middle)
    (hexecutor : after.executors[number]? = middle.executors[number]?)
    (hevents : after.eventsOf number = middle.eventsOf number) :
    Keeps number known before after := by
  intro hknows
  obtain ⟨executor, hfound, hknown⟩ := hkeeps hknows
  exact ⟨executor, hexecutor.trans hfound, hevents.symm ▸ hknown⟩

theorem Keeps.modify {before after : Store V ε} (hkeeps : Keeps number known before after)
    {touched : Nat} (hother : touched ≠ number) (change : Executor V ε → Executor V ε) :
    Keeps number known before
      { after with executors := after.executors.modify touched change } := by
  refine hkeeps.of_same ?_ rfl
  rw [Array.getElem?_modify, if_neg hother]

theorem respects_bound (number : Nat) (known : Knowledge V ε) :
    Bound (· ≠ number) (Respects number known) where
  logging events store hevents :=
    ⟨elapses_bound.logging events store fun _ _ _ _ => trivial,
      (Std.Refl.refl store : Keeps number known store store).of_same rfl
        (eventsOf_logging_of_within hevents store)⟩
  written other own text store hwriter :=
    ⟨elapses_bound.written other own text store hwriter, id⟩
  script other script before after hother hrel :=
    ⟨elapses_bound.script other script before after trivial hrel.elapses,
      hrel.keeps.modify hother _⟩
  walk other walk before after hother hrel :=
    ⟨elapses_bound.walk other walk before after trivial hrel.elapses, hrel.keeps.modify hother _⟩
  executorOf _ _ hrel := hrel.elapses.executorOf
  noting other store _ hheld := ⟨elapses_bound.noting other store trivial hheld, id⟩
  buffer other buffer buffer' before after hother hfind hstays hrel :=
    ⟨elapses_bound.buffer other buffer buffer' before after trivial hfind hstays hrel.elapses,
      hrel.keeps.modify hother _⟩
  range range own own' before after hown hsame hrel :=
    ⟨elapses_bound.range range own own' before after hown hsame hrel.elapses, hrel.keeps⟩

theorem respects_walks (walks : Array (Nat × Walk)) (before after : Store V ε)
    (hrel : Respects number known before after) :
    Respects number known before { after with walks } :=
  ⟨elapses_walks walks before after hrel.elapses, hrel.keeps⟩

end Relations

/-- Neither asking nor releasing the executor makes anything of this untrue. -/
structure Lasting [Textual V ε] (number : Nat) (known : Knowledge V ε) : Prop where
  ask : ∀ store, (askExecutor (servicesBelow number) number).Leads (Keeps number known) store
  release : ∀ store,
    (releaseExecutor (servicesBelow number) number).Leads (Keeps number known) store

section Runs

variable [Textual V ε] {number : Nat} {known : Knowledge V ε} (hlasting : Lasting number known)

include hlasting

theorem askExecutor_respects {other : Nat}
    (hserves : Serves (Respects number known) (servicesBelow other : StoreServices V ε))
    (store : Store V ε) :
    (askExecutor (servicesBelow other) other).Leads (Respects number known) store := by
  by_cases hsame : other = number
  · subst hsame
    exact ⟨askExecutor_elapses store other, hlasting.ask store⟩
  · refine askExecutor_leads (respects_bound number known) hserves hsame fun store' _ => ?_
    exact ⟨⟨.of_executors rfl, rfl, rfl, rfl⟩, id⟩

theorem serves_respects (bound : Nat) :
    Serves (Respects number known) (servicesBelow bound : StoreServices V ε) :=
  serves_below_of bound fun _ _ hserves store _ => askExecutor_respects hlasting hserves store

theorem release_respects (bound other : Nat) (store : Store V ε) :
    ((servicesBelow bound : StoreServices V ε).release other).Leads (Respects number known)
      store := by
  apply release_below_leads
  by_cases hsame : other = number
  · subst hsame
    exact ⟨releaseExecutor_leads elapses_bound trivial
      (fun _ => ⟨.of_executors rfl, rfl, rfl, rfl⟩) _ store, hlasting.release store⟩
  · refine releaseExecutor_leads (respects_bound number known) hsame (fun store' => ?_) _ store
    exact ⟨⟨.of_executors rfl, rfl, rfl, rfl⟩, id⟩

omit hlasting [Textual V ε] in
theorem push_keeps (executor : Executor V ε) (store : Store V ε) :
    Keeps number known store { store with executors := store.executors.push executor } := by
  rintro ⟨old, hold, hknown⟩
  exact ⟨old, getElem?_push_of_some hold executor, hknown⟩

omit hlasting [Textual V ε] in
theorem opened_keeps (store : Store V ε) :
    Keeps number known store (store.logging [.opened store.executors.size]) := by
  rintro ⟨executor, hexecutor, hknown⟩
  have hne : store.executors.size ≠ number := Nat.ne_of_gt (lt_size_of_executor hexecutor)
  refine ⟨executor, hexecutor, ?_⟩
  rw [eventsOf_logging_of_within]
  · exact hknown
  · intro event hevent
    cases List.mem_singleton.mp hevent
    exact Event.within_of_some rfl hne

theorem next_on_range_keeps (range : Nat) (cursor : Cursor) (store : Store V ε) :
    ((rangeAt range).focus (cursor.next store.services)).Leads (Keeps number known) store :=
  Respects.keeps
    (next_on_range_leads (respects_bound number known) (serves_respects hlasting _) range cursor)

theorem close_keeps (range : Nat) (store : Store V ε) :
    (close range).Leads (Keeps number known) store := by
  cases hown : store.ranges[range]? with
  | none => exact .of_error (close_of_missing hown) id
  | some own =>
      cases hexecutor : own.executor with
      | none => exact .of_ok (close_of_empty hown hexecutor) id
      | some executor =>
          have hrelease : (store.services.release executor).Leads (Respects number known) store :=
            release_respects hlasting _ executor store
          unfold Action.Leads
          rw [(close_after hown hexecutor).2]
          exact hrelease.keeps

omit hlasting [Textual V ε] in
theorem move_keeps (range : Nat) (store : Store V ε) :
    (move range).Leads (Keeps number known) store := by
  cases hown : store.ranges[range]? with
  | none => exact .of_error (move_of_missing hown) id
  | some own =>
      unfold Action.Leads
      rw [move_after hown]
      exact id

theorem keeps_encloses :
    Encloses (· ≠ number) (fun _ => True) (Respects number known) (Keeps number known) where
  toBound := respects_bound number known
  serves := serves_respects hlasting
  ask executor store :=
    .of_step (Action.get_apply store)
      (ask_below_leads (askExecutor_respects hlasting (serves_respects hlasting executor) store))
  release executor store :=
    .of_step (Action.get_apply store) (release_respects hlasting _ executor store)
  opened store := ⟨⟨.of_executors rfl, rfl, rfl, rfl⟩, opened_keeps store⟩
  push executor store := ⟨⟨.push store executor, rfl, rfl, rfl⟩, push_keeps executor store⟩
  tracing _ _ := ⟨⟨.of_executors rfl, rfl, rfl, rfl⟩, id⟩
  traceWriter _ _ := ⟨⟨.of_executors rfl, rfl, rfl, rfl⟩, id⟩
  widen _ _ hrel := hrel.keeps
  makeRange _ _ := .of_ok rfl id
  move := move_keeps
  close := close_keeps hlasting
  start := start_leads (next_on_range_keeps hlasting) fun _ _ => id
  advance := advance_leads (next_on_range_keeps hlasting) fun _ _ => id
  makeWalk _ _ := .of_ok rfl id
  walkOn walk _ _ :=
    (walkOn_leads respects_walks (respects_bound number known) (serves_respects hlasting _)
      walk).mono fun _ hrel => hrel.keeps
  stopWalk _ _ _ := (stopWalk_leads respects_walks _).mono fun _ hrel => hrel.keeps

theorem Knows.run {store : Store V ε} (hknows : store.Knows number known)
    (entries : List (Entry V ε)) : (Entry.run entries store).Knows number known := by
  induction entries generalizing store with
  | nil => exact hknows
  | cons entry entries ih =>
      exact ih (after_leads (keeps_encloses hlasting) (fun _ _ => trivial) store hknows)

end Runs

end PullRange.Store
