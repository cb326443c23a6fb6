import Mathlib.Algebra.GroupWithZero.Nat
import Mathlib.Data.List.SplitLengths
import PullRange.Proofs.Requests
import PullRange.Proofs.Traversal

/-!
# Loops that are left before the end

Several loops go over one range, each left after so many values, and whatever is left is collected.
A loop pulls a value only to hand it out, so the next loop takes up where the last one was left:
`take_of_ends` says what one loop sees and asks for, `Resumes` what a run of loops comes to.
-/

namespace PullRange

variable {V ε : Type}

namespace Store

/-- How often a loop asks that wants so many of the values: once for each that it gets, and once more
if it comes to the end before it has got them all. -/
def loopAsks (wanted : Nat) (values : List V) : Nat :=
  min wanted (values.length + 1)

/-- Between the two stores the executor of the range was asked so many times and for nothing else
called, and the values are still to come. -/
structure Resumes (range number : Nat) (script : Script V ε) (asked : Nat) (values : List V)
    (before after : Store V ε) : Prop where
  reads : ∃ cache, after.Reads range number (script.later asked) cache
  ends : (script.later asked).Ends values
  calls : after.calls = before.calls ++ Array.replicate asked (.ask number)

section Loops

variable {range number bound : Nat} {script : Script V ε} {cache : Option V} {values : List V}
  {store middle after : Store V ε}

theorem Resumes.refl (hreads : store.Reads range number script cache)
    (hends : script.Ends values) : store.Resumes range number script 0 values store :=
  ⟨⟨cache, hreads⟩, hends, by simp⟩

theorem Resumes.trans {asked more : Nat} {others : List V}
    (hfirst : store.Resumes range number script asked values middle)
    (hsecond : middle.Resumes range number (script.later asked) more others after) :
    store.Resumes range number script (asked + more) others after where
  reads := Script.later_later script asked more ▸ hsecond.reads
  ends := Script.later_later script asked more ▸ hsecond.ends
  calls := asks_append hfirst.calls hsecond.calls

theorem Resumes.of_traversed {values : List V}
    (htraversed : store.Traversed range number script cache values after)
    (hends : script.Ends values) :
    store.Resumes range number script (values.length + 1) [] after where
  reads := ⟨_, htraversed.reads⟩
  ends := by
    have hlater := hends.later (values.length + 1)
    rwa [List.drop_eq_nil_of_le (Nat.le_succ _)] at hlater
  calls := htraversed.calls

variable [Textual V ε]

/-- A loop that is left while there are values asks for no more than it gets. -/
theorem take_within (hreads : store.Reads range number script cache) (hlt : number < bound)
    (hends : script.Ends values) {walk : Walk} (hwalk : walk ≠ .finished) {wanted : Nat}
    (hwanted : wanted ≤ values.length) (got : Array V) :
    ∃ after walk', store.Resumes range number script wanted (values.drop wanted) after ∧
      Walk.take (turnOn (servicesBelow bound) range) wanted got (walk, store) =
        ({ got := got ++ (values.take wanted).toArray, failure := none }, (walk', after)) := by
  -- On what is still wanted: the loop is left at zero, whether or not there are values.
  induction wanted generalizing store script cache values walk got with
  | zero => exact ⟨store, .finished, .refl hreads hends, by simp [Walk.take, Walk.stop]⟩
  | succ wanted ih =>
      cases values with
      | nil => exact absurd hwanted (Nat.not_succ_le_zero _)
      | cons value values =>
          have houtcome : script.upcoming = .yield value := hends.yields 0 value rfl
          have hsuspended : Walk.suspended { atEnd := false } ≠ .finished := by decide
          have hadvance := advance_of_yield hreads houtcome
          have hrest : (script.later 1).Ends values := hends.later 1
          obtain ⟨after, walk', hresumes, htake⟩ := ih hadvance hrest hsuspended
            (Nat.le_of_succ_le_succ hwanted) (got.push value)
          have hfirst : store.Resumes range number script 1 values
              (store.advanced range number script cache) :=
            ⟨⟨_, hadvance⟩, hrest, by simp [Array.replicate_succ]⟩
          have hall := hfirst.trans hresumes
          rw [Nat.add_comm] at hall
          refine ⟨after, walk', hall, ?_⟩
          rw [Walk.take, walk_next_of_yield hreads hlt hwalk houtcome]
          simp [htake]

theorem take_of_ends (hreads : store.Reads range number script cache)
    (hends : script.Ends values) (wanted : Nat) :
    ∃ after, store.Resumes range number script (loopAsks wanted values) (values.drop wanted) after ∧
      take range wanted store =
        settle (.ok { got := (values.take wanted).toArray, failure := none }) after := by
  have hlt : number < store.executors.size := lt_size_of_executor hreads.executor
  have hunstarted : Walk.unstarted ≠ .finished := nofun
  have hloop : ∃ after walk',
      store.Resumes range number script (loopAsks wanted values) (values.drop wanted) after ∧
      Walk.take (turnOn store.services range) wanted #[] (.unstarted, store) =
        ({ got := #[] ++ (values.take wanted).toArray, failure := none }, (walk', after)) := by
    by_cases hwanted : wanted ≤ values.length
    · have hasks : loopAsks wanted values = wanted := Nat.min_eq_left (by omega)
      rw [hasks]
      exact take_within hreads hlt hends hunstarted hwanted #[]
    · have hasks : loopAsks wanted values = values.length + 1 := Nat.min_eq_right (by omega)
      have hpast : values.length < wanted := Nat.lt_of_not_le hwanted
      obtain ⟨parting, hruns⟩ := hends.runs
      obtain ⟨after, htraversed, htake⟩ := take_of_runs hreads hlt hunstarted hruns hpast #[]
      rw [hasks, List.drop_eq_nil_of_le hpast.le, List.take_of_length_le hpast.le]
      exact ⟨after, .finished, .of_traversed htraversed hends, htake⟩
  obtain ⟨after, walk', hresumes, htake⟩ := hloop
  have htotal : (Action.ofTotal (Walk.take (turnOn store.services range) wanted #[]) :
      Action ε (Walk × Store V ε) (Taken V ε)) (.unstarted, store) =
        settle (.ok { got := (values.take wanted).toArray, failure := none }) (walk', after) := by
    rw [Action.ofTotal_apply, htake, Array.empty_append]
    rfl
  refine ⟨after, hresumes, ?_⟩
  rw [take, Action.bind_of_ok (Action.get_apply store)]
  exact onFreshWalk_of_settle htotal

theorem collect_of_ends (hreads : store.Reads range number script cache)
    (hends : script.Ends values) {fuel : Nat} (hfuel : values.length < fuel) :
    ∃ after, store.Resumes range number script (values.length + 1) [] after ∧
      collect fuel range store = settle (.ok values.toArray) after := by
  have hlt : number < store.executors.size := lt_size_of_executor hreads.executor
  have hunstarted : Walk.unstarted ≠ .finished := nofun
  obtain ⟨parting, hruns⟩ := hends.runs
  obtain ⟨after, htraversed, hcollect⟩ := collect_of_runs hreads hlt hunstarted hruns hfuel #[]
  rw [Array.empty_append] at hcollect
  refine ⟨after, .of_traversed htraversed hends, ?_⟩
  rw [collect, Action.bind_of_ok (Action.get_apply store)]
  exact onFreshWalk_of_settle hcollect

def loopsOver (range : Nat) (counts : List Nat) : List (Entry V ε) :=
  counts.map fun wanted => .perform (.take range wanted)

/-- How often the loops ask, one after another. -/
def loopsAsk : (counts : List Nat) → (values : List V) → Nat
  | [], _ => 0
  | wanted :: counts, values => loopAsks wanted values + loopsAsk counts (values.drop wanted)

omit [Textual V ε] in
theorem loopsAsk_of_le {counts : List Nat} {values : List V} (hle : counts.sum ≤ values.length) :
    loopsAsk counts values = counts.sum := by
  induction counts generalizing values with
  | nil => rfl
  | cons wanted counts ih =>
      rw [List.sum_cons] at hle ⊢
      rw [loopsAsk, loopAsks, ih (by rw [List.length_drop]; omega)]
      omega

theorem loops_resume (hreads : store.Reads range number script cache) (hends : script.Ends values)
    (counts : List Nat) :
    store.Resumes range number script (loopsAsk counts values) (values.drop counts.sum)
        (Entry.run (loopsOver range counts) store) ∧
      Entry.answers (loopsOver range counts) store =
        (counts.splitLengths values).map fun part =>
          .ok (.taken { got := part.toArray, failure := none }) := by
  induction counts generalizing store script cache values with
  | nil => exact ⟨.refl hreads hends, rfl⟩
  | cons wanted counts ih =>
      obtain ⟨after, hresumes, htake⟩ := take_of_ends hreads hends wanted
      have hperform : (Request.take range wanted).perform store = settle _ after :=
        Action.map_of_settle Response.taken htake
      obtain ⟨cache', hreads'⟩ := hresumes.reads
      obtain ⟨hrest, hanswers⟩ := ih hreads' hresumes.ends
      constructor
      · have hall := hresumes.trans hrest
        rw [List.drop_drop, ← List.sum_cons] at hall
        rw [loopsOver, List.map_cons, Entry.run, List.foldl_cons, Entry.after,
          Action.after_of_settle hperform]
        exact hall
      · rw [loopsOver, List.map_cons, Entry.answers, Action.answer_of_settle hperform,
          Action.after_of_settle hperform, List.splitLengths_cons, List.map_cons]
        exact congrArg _ hanswers

omit [Textual V ε] in
theorem flatten_splitLengths_eq_take (counts : List Nat) (values : List V) :
    (counts.splitLengths values).flatten = values.take counts.sum := by
  induction counts generalizing values with
  | nil => simp
  | cons wanted counts ih =>
      rw [List.splitLengths_cons, List.flatten_cons, ih, List.sum_cons, List.take_add]

/-- **Partial loops partition the values.** Loops over one range, each left after so many values, and
then a collection of the rest see every value once and in its order, just as collecting alone does.
Unless they want more than there is, each loop asks once for each value that it gets, and the whole
run asks once more than there are values. No loop lets the executor go. -/
theorem partial_loops (hreads : store.Reads range number script cache)
    (hends : script.Ends values) {fuel : Nat} (hfuel : values.length < fuel) (counts : List Nat) :
    let collecting : Entry V ε := .perform (.collect fuel range)
    let entries := loopsOver range counts ++ [collecting]
    let left (loops : Nat) := Entry.run (loopsOver range (counts.take loops)) store
    let parts := counts.splitLengths values
    let rest := values.drop counts.sum
    Entry.answers entries store =
      parts.map (fun part => .ok (.taken { got := part.toArray, failure := none })) ++
        [.ok (.values rest.toArray)] ∧
    parts.flatten ++ rest = values ∧
    Entry.answers [collecting] store = [.ok (.values values.toArray)] ∧
    (counts.sum ≤ values.length →
      parts.map List.length = counts ∧
      (∀ loop wanted, counts[loop]? = some wanted →
        (left (loop + 1)).calls =
          (left loop).calls ++ Array.replicate wanted (.ask number)) ∧
      (Entry.run entries store).calls =
        store.calls ++ Array.replicate (values.length + 1) (.ask number)) ∧
    ∀ loops, ∃ asked cache', (left loops).Reads range number (script.later asked) cache' ∧
      (left loops).calls = store.calls ++ Array.replicate asked (.ask number) := by
  intro collecting entries left parts rest
  obtain ⟨hresumes, hanswers⟩ := loops_resume hreads hends counts
  obtain ⟨cache', hreads'⟩ := hresumes.reads
  obtain ⟨after, hcollects, hcollect⟩ :=
    collect_of_ends hreads' hresumes.ends (by rw [List.length_drop]; omega : rest.length < fuel)
  have hperform : (Request.collect fuel range).perform
      (Entry.run (loopsOver range counts) store) = settle (.ok (.values rest.toArray)) after :=
    Action.map_of_settle Response.values hcollect
  obtain ⟨alone, -, hcollectAlone⟩ := collect_of_ends hreads hends hfuel
  have hperformAlone : (Request.collect fuel range).perform store =
      settle (.ok (.values values.toArray)) alone :=
    Action.map_of_settle Response.values hcollectAlone
  have hleft (loops : Nat) := (loops_resume hreads hends (counts.take loops)).1
  refine ⟨?_, ?_, ?_, fun hle => ⟨?_, ?_, ?_⟩, fun loops => ?_⟩
  · rw [Entry.answers_append, hanswers]
    exact congrArg (_ ++ [·]) (Action.answer_of_settle hperform)
  · rw [flatten_splitLengths_eq_take, List.take_append_drop]
  · exact congrArg ([·]) (Action.answer_of_settle hperformAlone)
  · exact List.map_splitLengths_length values counts hle
  · intro loop wanted hwanted
    have hbefore (loops : Nat) : (left loops).calls =
        store.calls ++ Array.replicate (counts.take loops).sum (.ask number) := by
      have hsum := congrArg List.sum (List.take_append_drop loops counts)
      rw [List.sum_append] at hsum
      rw [← loopsAsk_of_le (by omega : (counts.take loops).sum ≤ values.length)]
      exact (hleft loops).calls
    rw [hbefore, hbefore, List.take_add_one, hwanted, List.sum_append, Option.toList_some,
      List.sum_singleton, Array.append_assoc, Array.replicate_append_replicate]
  · rw [Entry.run_append]
    have hasked := (hresumes.trans hcollects).calls
    rw [loopsAsk_of_le hle, List.length_drop,
      show counts.sum + (values.length - counts.sum + 1) = values.length + 1 by omega] at hasked
    exact (congrArg Store.calls (Action.after_of_settle hperform)).trans hasked
  · obtain ⟨cache'', hreads''⟩ := (hleft loops).reads
    exact ⟨_, cache'', hreads'', (hleft loops).calls⟩

end Loops

def threeValues : Script Value Thrown :=
  .ofList [.boolean true, .null, .undefined]

def threeValuesStore : Store Value Thrown :=
  { (initial : Store Value Thrown) with
    executors := #[{ source := .script threeValues }],
    ranges := #[.holding (some 0)] }

/-- The second loop wants more than there is, and the third comes too late. -/
theorem partial_loops_past_the_end :
    Entry.answers (loopsOver 0 [1, 5, 1] ++ [.perform (.collect 4 0)]) threeValuesStore =
      [.ok (.taken { got := #[.boolean true], failure := none }),
        .ok (.taken { got := #[.null, .undefined], failure := none }),
        .ok (.taken { got := #[], failure := none }), .ok (.values #[])] ∧
    (Entry.run (loopsOver 0 [1, 1] ++ [.perform (.collect 4 0)]) threeValuesStore).calls =
      Array.replicate 4 (.ask 0) := by
  have hreads : threeValuesStore.Reads 0 0 threeValues none := ⟨⟨rfl, rfl⟩, rfl⟩
  have hends : threeValues.Ends [.boolean true, .null, .undefined] := Script.ofList_ends _
  have hfuel : [Value.boolean true, .null, .undefined].length < 4 := Nat.lt_succ_self 3
  obtain ⟨hanswers, -⟩ := partial_loops hreads hends hfuel [1, 5, 1]
  obtain ⟨-, -, -, hasked, -⟩ := partial_loops hreads hends hfuel [1, 1]
  obtain ⟨-, -, hcalls⟩ := hasked (by decide)
  exact ⟨hanswers, hcalls⟩

end Store

end PullRange
