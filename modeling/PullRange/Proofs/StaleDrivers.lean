import PullRange.Proofs.Interleaving
import PullRange.Proofs.Ownership
import PullRange.Proofs.Performing

/-!
# Drivers that are left behind

A range that was moved holds nothing any more, but its cursors and walks are still there. Whatever a
run does afterwards, it `Shuns` them: the range stays as it is, and so do its cursors, and a walk only
changes when it is moved on or stopped itself. What its drivers come to is therefore settled for good
by what they come to in the first moment, which is what `Stale` says.
-/

namespace PullRange.Store

variable {V ε : Type}

/-- The range holds neither an executor nor a result. -/
def Vacated (range : Nat) (store : Store V ε) : Prop :=
  store.ranges[range]? = some (.holding none)

/-- Whoever drives the range finds nothing and changes nothing, except that the first step of a walk
fails and finishes it for good. -/
structure Stale [Textual V ε] (range : Nat) (store : Store V ε) : Prop where
  cursor : ∀ (cursor : Nat) current, store.cursors[cursor]? = some (range, current) →
    (Request.atEnd cursor).perform store = .ok (.flag current.atEnd) store ∧
    (Request.value cursor).perform store = .ok (.cached none) store ∧
    (Request.get cursor).perform store = .error .nothingFetched store ∧
    (Request.advance cursor).perform store = .error .noExecutor store
  walk : ∀ (walk : Nat) own, store.walks[walk]? = some (range, own) → own ≠ .finished →
    let ended := (walkAt walk).put .finished store
    (Request.walkOn walk).perform store = .error .noExecutor ended ∧
    ∀ more, (Request.walkOn walk).perform (Entry.run more ended) =
      .ok (.step (.done none)) (Entry.run more ended)
  finished : ∀ walk : Nat, store.walks[walk]? = some (range, .finished) →
    (Request.walkOn walk).perform store = .ok (.step (.done none)) store

/-- The range is vacated and its drivers stay as they are, but for the walks in `driven`, which may
have been finished. -/
structure Shuns (range : Nat) (driven : Nat → Prop) (before after : Store V ε) : Prop where
  vacated : after.Vacated range
  cursors : ∀ (cursor : Nat) current, before.cursors[cursor]? = some (range, current) →
    after.cursors[cursor]? = some (range, current)
  walks : ∀ (walk : Nat) own, before.walks[walk]? = some (range, own) → ¬driven walk ∨ own = .finished →
    after.walks[walk]? = some (range, own)

/-- A vacated range stays so, nothing else changes hands, and no driver is touched. -/
structure Bypasses (range : Nat) (before after : Store V ε) : Prop where
  vacated : before.Vacated range → after.Vacated range
  executorOf : after.executorOf = before.executorOf
  cursors : after.cursors = before.cursors
  walks : after.walks = before.walks

section Changes

variable {range other : Nat} {driven : Nat → Prop} {own : Range Nat V}
  {before middle after store : Store V ε}

instance : Std.Refl (Bypasses range : Store V ε → Store V ε → Prop) where
  refl _ := ⟨id, rfl, rfl, rfl⟩

instance : IsTrans (Store V ε) (Bypasses range) where
  trans _ _ _ hfirst hsecond :=
    ⟨fun hvacated => hsecond.vacated (hfirst.vacated hvacated),
      hsecond.executorOf.trans hfirst.executorOf, hsecond.cursors.trans hfirst.cursors,
      hsecond.walks.trans hfirst.walks⟩

theorem Vacated.put (hvacated : store.Vacated range) (hown : other = range → own = .holding none) :
    ((rangeAt other).put own store).Vacated range := by
  unfold Vacated at *
  simp only [rangeAt]
  by_cases hsame : other = range
  · subst hsame
    rw [hown rfl]
    exact Array.getElem?_setIfInBounds_self_of_lt (lt_size_of_range hvacated)
  · rw [Array.getElem?_setIfInBounds_ne hsame]
    exact hvacated

theorem Vacated.push (hvacated : store.Vacated range) (own : Range Nat V) :
    ({ store with ranges := store.ranges.push own } : Store V ε).Vacated range :=
  getElem?_push_of_some hvacated own

theorem Bypasses.shuns (hbypasses : Bypasses range before after) (hvacated : before.Vacated range) :
    Shuns range driven before after where
  vacated := hbypasses.vacated hvacated
  cursors _ _ hentry := hbypasses.cursors ▸ hentry
  walks _ _ hentry _ := hbypasses.walks ▸ hentry

theorem Shuns.trans (hfirst : Shuns range driven before middle)
    (hsecond : Shuns range driven middle after) : Shuns range driven before after where
  vacated := hsecond.vacated
  cursors cursor current hentry := hsecond.cursors cursor current (hfirst.cursors _ _ hentry)
  walks walk own hentry hrests := hsecond.walks walk own (hfirst.walks _ _ hentry hrests) hrests

theorem Shuns.withRanges (hshuns : Shuns range driven before after) {ranges : Array (Range Nat V)}
    (hvacated : ({ after with ranges } : Store V ε).Vacated range) :
    Shuns range driven before { after with ranges } :=
  ⟨hvacated, hshuns.cursors, hshuns.walks⟩

theorem Shuns.putCursor (hshuns : Shuns range driven before after) {cursor : Nat}
    (hother : ∀ current, before.cursors[cursor]? ≠ some (range, current)) (current : Cursor) :
    Shuns range driven before ((cursorAt cursor).put current after) where
  vacated := hshuns.vacated
  cursors cursor' current' hentry := by
    have hne : cursor ≠ cursor' := fun hsame => hother current' (hsame ▸ hentry)
    simp only [cursorAt, Array.getElem?_modify, if_neg hne]
    exact hshuns.cursors cursor' current' hentry
  walks := hshuns.walks

theorem Shuns.putWalk (hshuns : Shuns range driven before after) {walk : Nat}
    (hdriven : ∀ own, before.walks[walk]? = some (range, own) → driven walk ∧ own ≠ .finished)
    (own : Walk) : Shuns range driven before ((walkAt walk).put own after) where
  vacated := hshuns.vacated
  cursors := hshuns.cursors
  walks walk' own' hentry hrests := by
    have hne : walk ≠ walk' := by
      rintro rfl
      obtain ⟨hdriven, hgoing⟩ := hdriven own' hentry
      exact hrests.elim (fun hidle => hidle hdriven) hgoing
    simp only [walkAt, Array.getElem?_modify, if_neg hne]
    exact hshuns.walks walk' own' hentry hrests

theorem bypasses_bound (range : Nat) :
    Bound (fun _ => True) (Bypasses range : Store V ε → Store V ε → Prop) where
  logging _ _ _ := ⟨id, rfl, rfl, rfl⟩
  written _ _ _ _ _ := ⟨id, rfl, rfl, rfl⟩
  script _ _ _ _ _ hbypasses :=
    ⟨hbypasses.vacated, hbypasses.executorOf, hbypasses.cursors, hbypasses.walks⟩
  walk _ _ _ _ _ hbypasses :=
    ⟨hbypasses.vacated, hbypasses.executorOf, hbypasses.cursors, hbypasses.walks⟩
  executorOf _ _ hbypasses := hbypasses.executorOf
  noting _ _ _ _ := ⟨id, rfl, rfl, rfl⟩
  buffer _ _ _ _ _ _ _ _ hbypasses :=
    ⟨hbypasses.vacated, hbypasses.executorOf, hbypasses.cursors, hbypasses.walks⟩
  range other own own' before after hown hsame hbypasses := by
    refine ⟨fun hvacated => (hbypasses.vacated hvacated).put ?_,
      executorOf_put_of_same hown hsame hbypasses.executorOf, hbypasses.cursors, hbypasses.walks⟩
    rintro rfl
    cases hown.symm.trans hvacated
    exact hsame.idle rfl

end Changes

section Requests

variable [Textual V ε] {range : Nat} {driven : Nat → Prop} {store : Store V ε}

theorem serves_bypasses (range bound : Nat) :
    Serves (Bypasses range) (servicesBelow bound : StoreServices V ε) :=
  serves_below (bypasses_bound range) bound fun _ _ => trivial

theorem release_bypasses (range bound executor : Nat) (store : Store V ε) :
    ((servicesBelow bound : StoreServices V ε).release executor).Leads (Bypasses range) store :=
  release_below_leads (releaseExecutor_leads (bypasses_bound range) trivial
    (fun _ => ⟨id, rfl, rfl, rfl⟩) _ store)

theorem next_on_range_bypasses (range other : Nat) (cursor : Cursor) (store : Store V ε) :
    ((rangeAt other).focus (cursor.next store.services)).Leads (Bypasses range) store :=
  next_on_range_leads (bypasses_bound range) (serves_bypasses range _) other cursor

theorem Vacated.inert (hvacated : store.Vacated range) : store.Inert range :=
  inert_of_no_executor hvacated rfl

omit [Textual V ε] in
theorem Vacated.shuns (hvacated : store.Vacated range) : Shuns range driven store store :=
  (Std.Refl.refl store : Bypasses range store store).shuns hvacated

omit [Textual V ε] in
theorem move_shuns (other : Nat) (hvacated : store.Vacated range) :
    (move other).Leads (Shuns range driven) store := by
  cases hown : store.ranges[other]? with
  | none => exact .of_error (move_of_missing hown) hvacated.shuns
  | some own =>
      unfold Action.Leads
      rw [move_after hown]
      exact hvacated.shuns.withRanges ((hvacated.put fun _ => rfl).push own)

theorem close_shuns (other : Nat) (hvacated : store.Vacated range) :
    (close other).Leads (Shuns range driven) store := by
  cases hown : store.ranges[other]? with
  | none => exact .of_error (close_of_missing hown) hvacated.shuns
  | some own =>
      cases hexecutor : own.executor with
      | none => exact .of_ok (close_of_empty hown hexecutor) hvacated.shuns
      | some executor =>
          have hreleased : (store.services.release executor).Leads (Bypasses range) store :=
            release_bypasses range _ executor store
          have hother : other ≠ range := by
            rintro rfl
            cases hown.symm.trans hvacated
            exact nomatch hexecutor
          unfold Action.Leads
          rw [(close_after hown hexecutor).2]
          exact (hreleased.shuns hvacated).withRanges
            ((hreleased.vacated hvacated).put fun hsame => absurd hsame hother)

theorem start_shuns (other : Nat) (hvacated : store.Vacated range) :
    (start other).Leads (Shuns range driven) store := by
  have hbypasses := next_on_range_bypasses range other { atEnd := true } store
  unfold Action.Leads Action.after
  rw [start_eq_focus]
  cases hfocus : (rangeAt other).focus (Cursor.start store.services) store with
  | error fault store' => exact (hbypasses.to_error hfocus).shuns hvacated
  | ok cursor store' =>
      have hshuns : Shuns range driven store store' := (hbypasses.to hfocus).shuns hvacated
      refine ⟨hshuns.vacated, fun place current hentry => ?_, hshuns.walks⟩
      exact getElem?_push_of_some (hshuns.cursors place current hentry) _

theorem advance_shuns (cursor : Nat) (hvacated : store.Vacated range) :
    (advance cursor).Leads (Shuns range driven) store := by
  cases hentry : store.cursors[cursor]? with
  | none =>
      have hmissing : advance cursor store = .error .missing store :=
        Action.bind_of_error (rangeOfCursor_of_missing hentry) _
      exact .of_error hmissing hvacated.shuns
  | some entry =>
      obtain ⟨other, current⟩ := entry
      by_cases hsame : other = range
      · subst hsame
        exact .of_error (hvacated.inert.advance cursor current hentry) hvacated.shuns
      · have hother (current : Cursor) : store.cursors[cursor]? ≠ some (range, current) := by
          intro hown
          cases hentry.symm.trans hown
          exact hsame rfl
        have hbypasses := next_on_range_bypasses range other current store
        unfold Action.Leads Action.after
        rw [advance_eq_focus hentry]
        cases hfocus : (rangeAt other).focus (current.next store.services) store with
        | error fault store' => exact (hbypasses.to_error hfocus).shuns hvacated
        | ok advanced store' =>
            exact ((hbypasses.to hfocus).shuns hvacated).putCursor hother advanced

/-- A walk of another range may do whatever it does. -/
theorem walkOn_shuns {walk : Nat} (hdriven : driven walk) (hvacated : store.Vacated range) :
    (walkOn walk).Leads (Shuns range driven) store := by
  cases hentry : store.walks[walk]? with
  | none => exact .of_error (walkOn_of_missing hentry) hvacated.shuns
  | some entry =>
      obtain ⟨other, own⟩ := entry
      have hput (after : Store V ε) (own' : Walk) (hbypasses : Bypasses range store after)
          (hgoing : other = range → own ≠ .finished) :
          Shuns range driven store ((walkAt walk).put own' after) := by
        refine (hbypasses.shuns hvacated).putWalk (fun former hformer => ⟨hdriven, ?_⟩) own'
        cases hentry.symm.trans hformer
        exact hgoing rfl
      -- A walk of the vacated range finds no executor, one of another range bypasses it.
      by_cases hsame : other = range
      · subst hsame
        by_cases hfinished : own = .finished
        · subst hfinished
          exact .of_ok (walkOn_of_finished hentry) hvacated.shuns
        · exact .of_error (hvacated.inert.walkOn walk own hentry hfinished)
            (hput store .finished (Std.Refl.refl store) fun _ => hfinished)
      · have hnext := walk_next_leads
          (turnOn_leads (bypasses_bound range) (serves_bypasses range store.executors.size) other)
          (own, store)
        have hfocus := walkOn_eq_focus hentry
        rw [Place.focus_apply (walkAt_find hentry)] at hfocus
        exact .of_settle hfocus (hput _ _ hnext.2 fun hsame' => absurd hsame' hsame)

omit [Textual V ε] in
theorem stopWalk_shuns {walk : Nat} (hdriven : driven walk) (hvacated : store.Vacated range) :
    (stopWalk walk).Leads (Shuns range driven) store := by
  cases hentry : store.walks[walk]? with
  | none => exact .of_error (stopWalk_of_missing hentry) hvacated.shuns
  | some entry =>
      obtain ⟨other, own⟩ := entry
      have hstop := stopWalk_of_entry hentry
      by_cases hfinished : own = .finished
      · subst hfinished
        rw [putWalk_self hentry] at hstop
        exact .of_ok hstop hvacated.shuns
      · refine .of_ok hstop (hvacated.shuns.putWalk (fun former hformer => ⟨hdriven, ?_⟩) .finished)
        cases hentry.symm.trans hformer
        exact hfinished

theorem shuns_encloses (range : Nat) (driven : Nat → Prop) :
    Encloses (fun _ => True) driven (Bypasses range : Store V ε → Store V ε → Prop)
      fun before after => before.Vacated range → Shuns range driven before after where
  toBound := bypasses_bound range
  serves := serves_bypasses range
  ask executor store :=
    .of_step (Action.get_apply store) (ask_below_leads (askExecutor_leads (bypasses_bound range)
      (serves_bypasses range executor) trivial fun _ _ => ⟨id, rfl, rfl, rfl⟩))
  release executor store :=
    .of_step (Action.get_apply store) (release_bypasses range _ executor store)
  opened _ := ⟨id, rfl, rfl, rfl⟩
  push _ _ := ⟨id, rfl, rfl, rfl⟩
  tracing _ _ := ⟨id, rfl, rfl, rfl⟩
  traceWriter _ _ := ⟨id, rfl, rfl, rfl⟩
  widen _ _ := Bypasses.shuns
  makeRange executor _ := .of_ok rfl fun hvacated =>
    hvacated.shuns.withRanges (hvacated.push (.holding executor))
  move other _ := move_shuns other
  close other _ := close_shuns other
  start other _ := start_shuns other
  advance cursor _ := advance_shuns cursor
  makeWalk _ _ := .of_ok rfl fun hvacated =>
    ⟨hvacated, fun _ _ hentry => hentry, fun _ _ hentry _ => getElem?_push_of_some hentry _⟩
  walkOn _ _ hdriven := walkOn_shuns hdriven
  stopWalk _ _ hdriven := stopWalk_shuns hdriven

/-- Some entry moves the walk on or stops it. -/
def DrivenBy (entries : List (Entry V ε)) (walk : Nat) : Prop :=
  ∃ entry ∈ entries, entry.walk? = some walk

theorem Vacated.run (hvacated : store.Vacated range) {entries : List (Entry V ε)}
    (hdriven : ∀ walk, DrivenBy entries walk → driven walk) :
    Shuns range driven store (Entry.run entries store) := by
  induction entries generalizing store with
  | nil => exact hvacated.shuns
  | cons entry entries ih =>
      have hentry : ∀ walk ∈ entry.walk?, driven walk := fun walk hwalk =>
        hdriven walk ⟨entry, List.mem_cons_self, hwalk⟩
      have hfirst : Shuns range driven store (entry.after store) :=
        after_leads (shuns_encloses range driven) hentry store hvacated
      refine hfirst.trans (ih hfirst.vacated fun walk ⟨later, hlater, hwalk⟩ => ?_)
      exact hdriven walk ⟨later, List.mem_cons_of_mem entry hlater, hwalk⟩

theorem perform_of_finished {walk : Nat} (hentry : store.walks[walk]? = some (range, .finished)) :
    (Request.walkOn walk).perform store = .ok (.step (.done none)) store := by
  have hends : walkOn walk store = settle (.ok (.done none)) store := walkOn_of_finished hentry
  exact Action.map_of_settle _ hends

theorem stale_of_vacated (hvacated : store.Vacated range) : store.Stale range where
  cursor cursor current hentry := by
    have hown : ((rangeAt range).read : Act V ε (Range Nat V)) store = .ok (.holding none) store :=
      Place.read_of_find hvacated
    have hread : ((cursorAt cursor).read : Act V ε Cursor) store = settle (.ok current) store :=
      Place.read_of_find (cursorAt_find hentry)
    have hvalue : valueAt? cursor store = settle (.ok none) store := by
      rw [valueAt?, Action.bind_of_ok (rangeOfCursor_of_entry hentry)]
      exact Action.bind_of_ok hown _
    have hget : valueAt cursor store = settle (.error .nothingFetched) store := by
      rw [valueAt, Action.bind_of_ok (rangeOfCursor_of_entry hentry)]
      exact focus_range_of_same hvacated rfl
    have hadvance : advance cursor store = settle (.error .noExecutor) store :=
      hvacated.inert.advance cursor current hentry
    exact ⟨Action.map_of_settle _ hread, Action.map_of_settle _ hvalue,
      Action.map_of_settle _ hget, Action.map_of_settle _ hadvance⟩
  walk walk own hentry hgoing := by
    intro ended
    have hfails : walkOn walk store = settle (.error .noExecutor) ended :=
      hvacated.inert.walkOn walk own hentry hgoing
    have hended : ended.Vacated range := hvacated
    refine ⟨Action.map_of_settle _ hfails, fun more => ?_⟩
    have hrun : Shuns range (fun _ => True) ended (Entry.run more ended) :=
      hended.run fun _ _ => trivial
    exact perform_of_finished
      (hrun.walks walk .finished (putWalk_entry hentry .finished) (.inr rfl))
  finished walk hentry := perform_of_finished hentry

omit [Textual V ε] in
theorem shuns_of_move {own : Range Nat V} (hown : store.ranges[range]? = some own) :
    Shuns range driven store ((move range).after store) := by
  have hput : ((rangeAt range).put (.holding none) store).Vacated range :=
    Array.getElem?_setIfInBounds_self_of_lt (lt_size_of_range hown)
  rw [move_after hown]
  exact ⟨hput.push own, fun _ _ hentry => hentry, fun _ _ hentry _ => hentry⟩

end Requests

end PullRange.Store
