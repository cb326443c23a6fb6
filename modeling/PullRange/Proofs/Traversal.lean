import PullRange.Proofs.Pulling
import PullRange.Value

/-!
# All consumers see the same traversal

Collecting, a loop over a walk, a loop by hand and printing go through a range in different ways,
yet they ask its executor equally often, see the same values and leave the range the same. Each of
them is followed along the values up to the first outcome that brings none; the executor may go on
after it as it likes.
-/

namespace PullRange

variable {V ε : Type}

/-- The script yields `values` from now on, and then comes `ending`, which yields nothing. -/
def Script.Runs (ending : Outcome V ε) : Script V ε → (values : List V) → Prop
  | script, [] => script.upcoming = ending ∧ ending.value? = none
  | script, value :: values =>
      script.upcoming = .yield value ∧ Script.Runs ending (script.later 1) values

theorem Script.exists_runs (script : Script V ε) (call : Nat)
    (hbarren : (script.coming call).value? = none) :
    ∃ values ending, script.Runs ending values := by
  induction call generalizing script with
  | zero => exact ⟨[], script.upcoming, rfl, hbarren⟩
  | succ call ih =>
      cases houtcome : script.upcoming with
      | yield value =>
          have hlater : ((script.later 1).coming call).value? = none := by
            rw [coming_later, Nat.add_comm]
            exact hbarren
          obtain ⟨values, ending, hruns⟩ := ih (script.later 1) hlater
          exact ⟨value :: values, ending, houtcome, hruns⟩
      | done parting => exact ⟨[], .done parting, houtcome, rfl⟩
      | fail error => exact ⟨[], .fail error, houtcome, rfl⟩

theorem Script.runs_iff {ending : Outcome V ε} {script : Script V ε} {values : List V} :
    script.Runs ending values ↔
      (∀ index value, values[index]? = some value → script.coming index = .yield value) ∧
        script.coming values.length = ending ∧ ending.value? = none := by
  induction values generalizing script with
  | nil => simp [Runs, coming]
  | cons next values ih =>
      have hlater (call : Nat) : (script.later 1).coming call = script.coming (call + 1) := by
        rw [coming_later, Nat.add_comm]
      constructor
      · rintro ⟨houtcome, hruns⟩
        obtain ⟨hyields, hending, hbarren⟩ := ih.mp hruns
        refine ⟨?_, (hlater values.length).symm.trans hending, hbarren⟩
        intro index value hvalue
        cases index with
        | zero => exact Option.some.inj hvalue ▸ houtcome
        | succ index => exact (hlater index).symm.trans (hyields index value hvalue)
      · rintro ⟨hyields, hending, hbarren⟩
        refine ⟨hyields 0 next rfl, ih.mpr ⟨?_, (hlater values.length).trans hending, hbarren⟩⟩
        intro index value hvalue
        exact (hlater index).trans (hyields (index + 1) value hvalue)

theorem Script.Runs.unique {ending other : Outcome V ε} {script : Script V ε}
    {values others : List V} (hruns : script.Runs ending values)
    (hothers : script.Runs other others) : values = others ∧ ending = other := by
  induction values generalizing script others with
  | nil =>
      obtain ⟨houtcome, hbarren⟩ := hruns
      cases others with
      | nil => exact ⟨rfl, houtcome.symm.trans hothers.1⟩
      | cons value others =>
          rw [← houtcome, hothers.1] at hbarren
          exact nomatch hbarren
  | cons value values ih =>
      obtain ⟨houtcome, hruns⟩ := hruns
      cases others with
      | nil =>
          obtain ⟨hother, hbarren⟩ := hothers
          rw [← hother, houtcome] at hbarren
          exact nomatch hbarren
      | cons value' others =>
          obtain ⟨houtcome', hothers⟩ := hothers
          obtain ⟨rfl, rfl⟩ := ih hruns hothers
          cases houtcome.symm.trans houtcome'
          exact ⟨rfl, rfl⟩

/-- The script yields the values from now on, and is done ever after. -/
structure Script.Ends (script : Script V ε) (values : List V) : Prop where
  yields : ∀ index value, values[index]? = some value → script.coming index = .yield value
  done : ∀ call, values.length ≤ call → ∃ parting, script.coming call = .done parting

namespace Script.Ends

variable {script : Script V ε} {values : List V}

theorem runs (hends : script.Ends values) : ∃ parting, script.Runs (.done parting) values := by
  obtain ⟨parting, hdone⟩ := hends.done values.length (Nat.le_refl _)
  exact ⟨parting, runs_iff.mpr ⟨hends.yields, hdone, rfl⟩⟩

theorem later (hends : script.Ends values) (calls : Nat) :
    (script.later calls).Ends (values.drop calls) where
  yields index value hvalue := by
    rw [List.getElem?_drop] at hvalue
    rw [coming_later]
    exact hends.yields _ value hvalue
  done call hle := by
    rw [List.length_drop] at hle
    rw [coming_later]
    exact hends.done _ (by omega)

end Script.Ends

theorem Script.ofList_ends (items : List V) :
    (Script.ofList items : Script V ε).Ends items := by
  have hcoming (call : Nat) : (Script.ofList items : Script V ε).coming call =
      (items[call]?.map .yield).getD (.done none) := by
    change (items[0 + call]?.map Outcome.yield).getD (.done none) = _
    rw [Nat.zero_add]
  constructor
  · intro index value hvalue
    rw [hcoming, hvalue]
    rfl
  · intro call hle
    rw [hcoming, List.getElem?_eq_none hle]
    exact ⟨none, rfl⟩

namespace Outcome

/-- How a consumer ends that has come to a result: a failure takes its place. -/
def closing {α : Type} (result : α) : Outcome V ε → Except (Fault ε) α
  | .fail error => .error (.raised error)
  | _ => .ok result

def failure? : Outcome V ε → Option (Fault ε)
  | .fail error => some (.raised error)
  | _ => none

end Outcome

namespace Store

theorem asks_append {number asked more : Nat} {before middle after : Array Call}
    (hfirst : middle = before ++ Array.replicate asked (.ask number))
    (hsecond : after = middle ++ Array.replicate more (.ask number)) :
    after = before ++ Array.replicate (asked + more) (.ask number) := by
  calc
    after = middle ++ Array.replicate more (.ask number) := hsecond
    _ = before ++ (Array.replicate asked (.ask number) ++ Array.replicate more (.ask number)) := by
      rw [hfirst, Array.append_assoc]
    _ = before ++ Array.replicate (asked + more) (.ask number) := by
      rw [Array.replicate_append_replicate]

/-- Between the two stores the range was advanced along `values` to the end or the failure after
them, and its executor was called for nothing else. -/
structure Traversed (range number : Nat) (script : Script V ε) (cache : Option V) (values : List V)
    (before after : Store V ε) : Prop where
  reads : after.Reads range number (script.later (values.length + 1)) (values.getLast?.or cache)
  calls : after.calls = before.calls ++ Array.replicate (values.length + 1) (.ask number)

section Traversal

variable {range number : Nat} {script : Script V ε} {cache : Option V} {value : V}
  {values : List V} {ending : Outcome V ε} {store after : Store V ε}

theorem traversed_nil (hreads : store.Reads range number script cache)
    (hruns : script.Runs ending []) :
    store.Traversed range number script cache []
      (store.advanced range number script cache) := by
  obtain ⟨rfl, hbarren⟩ := hruns
  have hadvance := hreads.advance
  rw [hbarren] at hadvance
  exact ⟨hadvance, by simp⟩

theorem getLast?_cons_or {α : Type} (item : α) (items : List α) (other : Option α) :
    (item :: items).getLast?.or other = items.getLast?.or (some item) := by
  cases items <;> rfl

theorem traversed_cons
    (htraversed : (store.advanced range number script cache).Traversed range number
      (script.later 1) (some value) values after) :
    store.Traversed range number script cache (value :: values) after := by
  obtain ⟨hreads, hcalls⟩ := htraversed
  constructor
  · rw [Script.later_later, Nat.add_comm 1, ← getLast?_cons_or value values cache] at hreads
    exact hreads
  · rw [hcalls, advanced_calls, pulled_calls, List.length_cons, Array.push_eq_append,
      Array.append_assoc, ← Array.replicate_succ']

theorem advance_of_yield (hreads : store.Reads range number script cache)
    (houtcome : script.upcoming = .yield value) :
    (store.advanced range number script cache).Reads range number (script.later 1) (some value) := by
  have hadvance := hreads.advance
  rw [houtcome] at hadvance
  exact hadvance

variable [Textual V ε] {bound fuel : Nat} {walk : Walk}

theorem walk_next_of_yield (hreads : store.Reads range number script cache) (hlt : number < bound)
    (hwalk : walk ≠ .finished) (houtcome : script.upcoming = .yield value) :
    Walk.next (turnOn (servicesBelow bound) range) (walk, store) =
      .ok (.yield value)
        (.suspended { atEnd := false }, store.advanced range number script cache) := by
  rw [walk_next_apply hreads hlt hwalk, houtcome]
  rfl

theorem collect_of_runs (hreads : store.Reads range number script cache) (hlt : number < bound)
    (hwalk : walk ≠ .finished) (hruns : script.Runs ending values) (hfuel : values.length < fuel)
    (collected : Array V) :
    ∃ after, store.Traversed range number script cache values after ∧
      Walk.collect (turnOn (servicesBelow bound) range) fuel collected (walk, store) =
        settle (ending.closing (collected ++ values.toArray)) (.finished, after) := by
  induction values generalizing store script cache walk fuel collected with
  | nil =>
      cases fuel with
      | zero => exact absurd hfuel (Nat.lt_irrefl 0)
      | succ fuel =>
          refine ⟨store.advanced range number script cache, traversed_nil hreads hruns, ?_⟩
          obtain ⟨houtcome, hbarren⟩ := hruns
          rw [Walk.collect, Action.bind_of_settle _ (walk_next_apply hreads hlt hwalk), houtcome]
          cases ending with
          | yield value => exact nomatch hbarren
          | done parting => simp [Outcome.delivered, Outcome.closing, Outcome.walk]
          | fail error => simp [Outcome.delivered, Outcome.closing, Outcome.walk]
  | cons value values ih =>
      cases fuel with
      | zero => exact absurd hfuel (Nat.not_lt_zero _)
      | succ fuel =>
          obtain ⟨houtcome, hruns⟩ := hruns
          have hsuspended : Walk.suspended { atEnd := false } ≠ .finished := nofun
          obtain ⟨after, htraversed, hcollect⟩ := ih (advance_of_yield hreads houtcome) hsuspended
            hruns (Nat.lt_of_succ_lt_succ hfuel) (collected.push value)
          refine ⟨after, traversed_cons htraversed, ?_⟩
          rw [List.push_append_toArray] at hcollect
          rw [Walk.collect, Action.bind_of_ok (walk_next_of_yield hreads hlt hwalk houtcome)]
          exact hcollect

theorem take_of_runs (hreads : store.Reads range number script cache) (hlt : number < bound)
    (hwalk : walk ≠ .finished) (hruns : script.Runs ending values) {wanted : Nat}
    (hwanted : values.length < wanted) (got : Array V) :
    ∃ after, store.Traversed range number script cache values after ∧
      Walk.take (turnOn (servicesBelow bound) range) wanted got (walk, store) =
        ({ got := got ++ values.toArray, failure := ending.failure? }, (.finished, after)) := by
  induction values generalizing store script cache walk wanted got with
  | nil =>
      cases wanted with
      | zero => exact absurd hwanted (Nat.lt_irrefl 0)
      | succ wanted =>
          refine ⟨store.advanced range number script cache, traversed_nil hreads hruns, ?_⟩
          obtain ⟨houtcome, hbarren⟩ := hruns
          rw [Walk.take, walk_next_apply hreads hlt hwalk, houtcome]
          cases ending with
          | yield value => exact nomatch hbarren
          | done parting => simp [Outcome.delivered, Outcome.failure?, Outcome.walk]
          | fail error => simp [Outcome.delivered, Outcome.failure?, Outcome.walk]
  | cons value values ih =>
      cases wanted with
      | zero => exact absurd hwanted (Nat.not_lt_zero _)
      | succ wanted =>
          obtain ⟨houtcome, hruns⟩ := hruns
          have hsuspended : Walk.suspended { atEnd := false } ≠ .finished := nofun
          obtain ⟨after, htraversed, htake⟩ := ih (advance_of_yield hreads houtcome) hsuspended
            hruns (Nat.lt_of_succ_lt_succ hwanted) (got.push value)
          refine ⟨after, traversed_cons htraversed, ?_⟩
          rw [Walk.take, walk_next_of_yield hreads hlt hwalk houtcome]
          simp [htake]

def loopFrom (cursor : Nat) : (fuel : Nat) → Action ε (Array V × Store V ε) Unit
  | 0 => throw .unfinished
  | fuel + 1 => do
      let current ← onRest (cursorAt cursor).read
      if current.notEquals .shared then
        let value ← onRest (valueAt cursor)
        let seen ← getOwn
        setOwn (seen.push value)
        onRest (advance cursor)
        loopFrom cursor fuel
      else
        return ()

def loop (fuel range : Nat) : Action ε (Array V × Store V ε) Unit := do
  let cursor ← onRest (start range)
  loopFrom cursor fuel

omit [Textual V ε] in
theorem Traversed.putCursor {place : Nat} {cursor : Cursor}
    (htraversed : store.Traversed range number script cache values after) :
    store.Traversed range number script cache values ((cursorAt place).put cursor after) where
  reads := htraversed.reads.putCursor cursor
  calls := htraversed.calls

theorem loopFrom_of_end {place : Nat} {entry : Nat} (seen : Array V)
    (hentry : store.cursors[place]? = some (entry, { atEnd := true })) (hfuel : 0 < fuel) :
    loopFrom place fuel (seen, store) = .ok () (seen, store) := by
  cases fuel with
  | zero => exact absurd hfuel (Nat.lt_irrefl 0)
  | succ fuel =>
      rw [loopFrom, Action.bind_of_ok
        (onRest_of_ok (Place.read_of_find (cursorAt_find hentry)) seen)]
      rfl

theorem loopFrom_of_value {place : Nat} (fuel : Nat) (seen : Array V)
    (hreads : store.Reads range number script (some value))
    (hentry : store.cursors[place]? = some (range, { atEnd := false })) :
    loopFrom place (fuel + 1) (seen, store) =
      match script.upcoming.cursor with
      | .ok cursor =>
          loopFrom place fuel (seen.push value,
            (cursorAt place).put cursor (store.advanced range number script (some value)))
      | .error fault =>
          .error fault (seen.push value, store.advanced range number script (some value)) := by
  have hadvance := advance_apply hreads hentry
  rw [loopFrom, Action.bind_of_ok
    (onRest_of_ok (Place.read_of_find (cursorAt_find hentry)) seen)]
  have hnot : ({ atEnd := false } : Cursor).notEquals .shared = true := rfl
  simp only [hnot, ↓reduceIte]
  rw [Action.bind_of_ok (onRest_of_ok (valueAt_of_entry hreads hentry) seen),
    Action.bind_of_ok (getOwn_apply _ _), Action.bind_of_ok (setOwn_apply _ _ _)]
  cases houtcome : script.upcoming.cursor with
  | ok cursor =>
      rw [houtcome] at hadvance
      rw [Action.bind_of_ok (onRest_of_ok hadvance _)]
  | error fault =>
      rw [houtcome] at hadvance
      have hrest : onRest (advance place) (seen.push value, store) =
          settle (.error fault)
            (seen.push value, store.advanced range number script (some value)) :=
        onRest_of_settle hadvance _
      rw [Action.bind_of_error hrest]

theorem loopFrom_of_runs {place : Nat} (seen : Array V)
    (hreads : store.Reads range number script (some value))
    (hentry : store.cursors[place]? = some (range, { atEnd := false }))
    (hruns : script.Runs ending values) (hfuel : values.length + 1 < fuel) :
    ∃ after, store.Traversed range number script (some value) values after ∧
      loopFrom place fuel (seen, store) =
        settle (ending.closing ()) (seen.push value ++ values.toArray, after) := by
  -- The cursor stands on `value` already, and each round moves it on to the next of `values`.
  induction values generalizing store script value fuel seen with
  | nil =>
      cases fuel with
      | zero => exact absurd hfuel (Nat.not_lt_zero _)
      | succ fuel =>
          have htraversed := traversed_nil hreads hruns
          have hround := loopFrom_of_value fuel seen hreads hentry
          obtain ⟨houtcome, hbarren⟩ := hruns
          rw [houtcome] at hround
          cases ending with
          | yield value => exact nomatch hbarren
          | done parting =>
              have hadvanced : (store.advanced range number script (some value)).cursors[place]? =
                  some (range, { atEnd := false }) := hentry
              have hended := putCursor_entry hadvanced { atEnd := true }
              have hend := loopFrom_of_end (seen.push value) hended (Nat.lt_of_succ_lt_succ hfuel)
              exact ⟨_, htraversed.putCursor, hround.trans hend⟩
          | fail error => exact ⟨_, htraversed, hround⟩
  | cons next values ih =>
      cases fuel with
      | zero => exact absurd hfuel (Nat.not_lt_zero _)
      | succ fuel =>
          have hround := loopFrom_of_value fuel seen hreads hentry
          obtain ⟨houtcome, hruns⟩ := hruns
          rw [houtcome] at hround
          have hadvanced : (store.advanced range number script (some value)).cursors[place]? =
              some (range, { atEnd := false }) := hentry
          obtain ⟨after, htraversed, hloop⟩ := ih (seen.push value)
            ((advance_of_yield hreads houtcome).putCursor { atEnd := false })
            (putCursor_entry hadvanced { atEnd := false }) hruns (Nat.lt_of_succ_lt_succ hfuel)
          refine ⟨after, traversed_cons ⟨htraversed.reads, htraversed.calls⟩, hround.trans ?_⟩
          rw [List.push_append_toArray] at hloop
          exact hloop

theorem loop_of_runs (seen : Array V) (hreads : store.Reads range number script cache)
    (hruns : script.Runs ending values) (hfuel : values.length < fuel) :
    ∃ after, store.Traversed range number script cache values after ∧
      loop fuel range (seen, store) =
        settle (ending.closing ()) (seen ++ values.toArray, after) := by
  cases values with
  | nil =>
      have htraversed := traversed_nil hreads hruns
      obtain ⟨houtcome, hbarren⟩ := hruns
      cases ending with
      | yield value => exact nomatch hbarren
      | done parting =>
          have hcursor : script.upcoming.cursor = .ok { atEnd := true } := by rw [houtcome]; rfl
          have hstart := start_of_cursor hreads hcursor
          have hentry := binding_entry range { atEnd := true }
            (store.advanced range number script cache)
          refine ⟨_, ⟨htraversed.reads.binding { atEnd := true }, htraversed.calls⟩, ?_⟩
          rw [loop, Action.bind_of_ok (onRest_of_ok hstart seen)]
          exact loopFrom_of_end _ hentry hfuel
      | fail error =>
          have hcursor : script.upcoming.cursor = .error (.raised error) := by rw [houtcome]; rfl
          have hstart : start range store = settle (.error (.raised error))
              (store.advanced range number script cache) := start_of_failure hreads hcursor
          refine ⟨_, htraversed, ?_⟩
          rw [loop, Action.bind_of_settle _ (onRest_of_settle hstart seen)]
          rfl
  | cons value values =>
      obtain ⟨houtcome, hruns⟩ := hruns
      have hcursor : script.upcoming.cursor = .ok { atEnd := false } := by rw [houtcome]; rfl
      have hstart := start_of_cursor hreads hcursor
      have hentry := binding_entry range { atEnd := false }
        (store.advanced range number script cache)
      have hnext := (advance_of_yield hreads houtcome).binding { atEnd := false }
      obtain ⟨after, htraversed, hloop⟩ := loopFrom_of_runs seen hnext hentry hruns hfuel
      refine ⟨after, traversed_cons ⟨htraversed.reads, htraversed.calls⟩, ?_⟩
      rw [List.push_append_toArray] at hloop
      rw [loop, Action.bind_of_ok (onRest_of_ok hstart seen)]
      exact hloop

end Traversal

end Store

end PullRange
