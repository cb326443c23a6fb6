import PullRange.Proofs.Printing

/-!
# All consumers agree

One traversal, four ways: collecting, a loop over a walk, a loop by hand and printing. From the same
store they see the same values, ask equally often, end the same and leave the range the same.
-/

namespace PullRange.Store

variable {V ε : Type}

variable [Textual V ε]

/-- **All consumers see the same traversal.** If an outcome that brings no value is still to come,
every consumer of the range sees exactly the values before the first such outcome, asks for them and
for that outcome and for nothing else, and ends with its failure if it is one. -/
theorem consumers_agree {range number : Nat} {script : Script V ε} {cache : Option V}
    {store : Store V ε} (hreads : store.Reads range number script cache)
    (hends : ∃ call, (script.coming call).value? = none) :
    ∃ values ending, script.Runs ending values ∧ ∀ fuel, values.length < fuel →
      (∃ after, store.Traversed range number script cache values after ∧
        collect fuel range store = settle (ending.closing values.toArray) after) ∧
      (∃ after, store.Traversed range number script cache values after ∧
        take range fuel store =
          .ok { got := values.toArray, failure := ending.failure? } after) ∧
      (∃ after, store.Traversed range number script cache values after ∧
        loop fuel range (#[], store) = settle (ending.closing ()) (values.toArray, after)) ∧
      (∀ writer format line, store.Reliable writer →
        (∀ entry ∈ values.zipIdx, Renders format entry.1 entry.2 (line entry.1 entry.2)) →
        ∃ after, store.Traversed range number script cache values after ∧
          after.received writer = store.received writer ++ printed line values 0 ∧
          print fuel range format writer store =
            settle (ending.closing values.length) after) := by
  obtain ⟨call, hbarren⟩ := hends
  obtain ⟨values, ending, hruns⟩ := script.exists_runs call hbarren
  have hlt := lt_size_of_executor hreads.executor
  have hunstarted : Walk.unstarted ≠ .finished := nofun
  refine ⟨values, ending, hruns, fun fuel hfuel => ⟨?_, ?_, ?_, ?_⟩⟩
  · obtain ⟨after, htraversed, hcollect⟩ :=
      collect_of_runs hreads hlt hunstarted hruns hfuel #[]
    rw [Array.empty_append] at hcollect
    refine ⟨after, htraversed, ?_⟩
    rw [collect, Action.bind_of_ok (Action.get_apply store)]
    exact onFreshWalk_of_settle hcollect
  · obtain ⟨after, htraversed, htake⟩ :=
      take_of_runs hreads hlt hunstarted hruns hfuel #[]
    have htotal : (Action.ofTotal (Walk.take (turnOn store.services range) fuel #[]) :
        Action ε (Walk × Store V ε) (Taken V ε)) (.unstarted, store) =
          settle (.ok { got := values.toArray, failure := ending.failure? })
            (.finished, after) := by
      rw [Action.ofTotal_apply, services, htake, Array.empty_append]
      rfl
    refine ⟨after, htraversed, ?_⟩
    rw [take, Action.bind_of_ok (Action.get_apply store)]
    exact onFreshWalk_of_settle htotal
  · obtain ⟨after, htraversed, hloop⟩ := loop_of_runs #[] hreads hruns hfuel
    rw [Array.empty_append] at hloop
    exact ⟨after, htraversed, hloop⟩
  · intro writer format line hreliable hrenders
    exact print_of_runs hreads hreliable hruns hrenders hfuel

def stumblingScript : Script Value Thrown :=
  .ofOutcomes [.yield (.boolean true), .fail (.value .null), .yield .undefined] none

def stumbling : Store Value Thrown :=
  { (initial : Store Value Thrown) with
    executors := #[{ source := .script stumblingScript }],
    ranges := #[.holding (some 0)],
    writers := #[.accumulator #[]] }

theorem consumers_agree_on_failure :
    (∃ after, collect 2 0 stumbling = .error (.raised (.value .null)) after) ∧
    (∃ after, take 0 2 stumbling =
      .ok { got := #[.boolean true], failure := some (.raised (.value .null)) } after) ∧
    (∃ after, loop 2 0 (#[], stumbling) =
      .error (.raised (.value .null)) (#[.boolean true], after)) ∧
    ∃ after, print 2 0 (fun value _ => text value) 0 stumbling =
      .error (.raised (.value .null)) after ∧ after.received 0 = ["true", "\n"] := by
  have hreads : stumbling.Reads 0 0 stumblingScript none := ⟨⟨rfl, rfl⟩, rfl⟩
  obtain ⟨values, ending, hruns, hall⟩ := consumers_agree hreads ⟨1, rfl⟩
  have hknown : stumblingScript.Runs (.fail (.value .null)) [.boolean true] := ⟨rfl, rfl, rfl⟩
  obtain ⟨rfl, rfl⟩ := hruns.unique hknown
  obtain ⟨⟨collected, _, hcollect⟩, ⟨taken, _, htake⟩, ⟨looped, _, hloop⟩, hprint⟩ :=
    hall 2 (Nat.lt_succ_self 1)
  have htext : Renders (fun value _ => carryOut (Textual.toText value)) (Value.boolean true) 0
      "true" := renders_carryOut rfl
  have hrenders : ∀ entry ∈ [Value.boolean true].zipIdx,
      Renders (fun value _ => text value) entry.1 entry.2 "true" := by
    intro entry hentry
    cases List.mem_singleton.mp hentry
    exact htext
  obtain ⟨printed, _, hreceived, hprinted⟩ :=
    hprint 0 (fun value _ => text value) (fun _ _ => "true") ⟨_, rfl, trivial⟩ hrenders
  exact ⟨⟨collected, hcollect⟩, ⟨taken, htake⟩, ⟨looped, hloop⟩, printed, hprinted, hreceived⟩

end PullRange.Store
