import PullRange.Proofs.Ownership
import PullRange.Proofs.Performing

/-!
# How a store ages

No executor ever loses its buffer, and no buffer ever leaves its end. `Elapses` says this of a store
as a whole, for everything that neither makes, moves or closes a range nor leaves a cursor behind.
-/

namespace PullRange

variable {V ε : Type}

namespace Executor

/-- The executor has a buffer, which is at its end. -/
def AtEnd (executor : Executor V ε) : Prop :=
  ∃ stage, executor.stage = some stage ∧ stage.buffer.isEof

structure Ages (before after : Executor V ε) : Prop where
  buffered : after.stage.isSome = before.stage.isSome
  stays : before.AtEnd → after.AtEnd

instance : Std.Refl (Ages : Executor V ε → Executor V ε → Prop) where
  refl _ := ⟨rfl, id⟩

instance : IsTrans (Executor V ε) Ages where
  trans _ _ _ hfirst hsecond :=
    ⟨hsecond.buffered.trans hfirst.buffered, fun hends => hsecond.stays (hfirst.stays hends)⟩

theorem Ages.of_stage {before after : Executor V ε} (hstage : after.stage = before.stage) :
    before.Ages after := by
  constructor
  · rw [hstage]
  · unfold AtEnd
    rw [hstage]
    exact id

theorem Ages.putBuffer {before after : Executor V ε} (hages : before.Ages after)
    {stage : Stage V ε} (hstage : before.stage = some stage) {buffer : Buffer V ε}
    (hstays : StaysAtEnd stage.buffer buffer) :
    before.Ages { after with stage := after.stage.map fun stage => { stage with buffer } } := by
  constructor
  · rw [Option.isSome_map, hages.buffered]
  · rintro ⟨ended, hended, heof⟩
    rw [hstage] at hended
    cases hended
    -- Meanwhile the executor may have changed, but it has a buffer still.
    have hsome : after.stage.isSome := by
      rw [hages.buffered, hstage]
      rfl
    obtain ⟨stage', hstage'⟩ := Option.isSome_iff_exists.mp hsome
    exact ⟨{ stage' with buffer }, by rw [hstage']; rfl, hstays heof⟩

end Executor

namespace Store

def Ages (before after : Store V ε) : Prop :=
  ∀ (number : Nat) (executor : Executor V ε), before.executors[number]? = some executor →
    ∃ executor', after.executors[number]? = some executor' ∧ executor.Ages executor'

theorem Ages.of_executors {before after : Store V ε} (hsame : after.executors = before.executors) :
    before.Ages after := by
  intro number executor hexecutor
  exact ⟨executor, by rw [hsame, hexecutor], Std.Refl.refl executor⟩

instance : Std.Refl (Ages : Store V ε → Store V ε → Prop) where
  refl _ := .of_executors rfl

instance : IsTrans (Store V ε) Ages where
  trans _ _ _ hfirst hsecond := by
    intro number executor hexecutor
    obtain ⟨executor', hexecutor', hages⟩ := hfirst number executor hexecutor
    obtain ⟨executor'', hexecutor'', hages'⟩ := hsecond number executor' hexecutor'
    exact ⟨executor'', hexecutor'', IsTrans.trans _ _ _ hages hages'⟩

theorem Ages.push (store : Store V ε) (executor : Executor V ε) :
    store.Ages { store with executors := store.executors.push executor } := by
  intro number old hold
  exact ⟨old, getElem?_push_of_some hold executor, Std.Refl.refl old⟩

theorem Ages.modify {before after : Store V ε} (hages : before.Ages after) (touched : Nat)
    {change : Executor V ε → Executor V ε}
    (hchange : ∀ executor executor', before.executors[touched]? = some executor →
      executor.Ages executor' → executor.Ages (change executor')) :
    before.Ages { after with executors := after.executors.modify touched change } := by
  intro number executor hexecutor
  obtain ⟨executor', hexecutor', hages'⟩ := hages number executor hexecutor
  simp only [Array.getElem?_modify, hexecutor']
  by_cases hsame : touched = number
  · subst hsame
    exact ⟨change executor', by simp, hchange executor executor' hexecutor hages'⟩
  · exact ⟨executor', by simp [hsame], hages'⟩

theorem Ages.modifySource {before after : Store V ε} (hages : before.Ages after) (touched : Nat)
    {change : Executor V ε → Executor V ε}
    (hstage : ∀ executor, (change executor).stage = executor.stage) :
    before.Ages { after with executors := after.executors.modify touched change } := by
  apply hages.modify touched
  intro executor executor' _ hages'
  exact IsTrans.trans _ _ _ hages' (.of_stage (hstage executor'))

theorem Ages.putBuffer {before after : Store V ε} (hages : before.Ages after) {number : Nat}
    {buffer buffer' : Buffer V ε} (hfind : (bufferOf number).find before = some buffer)
    (hstays : StaysAtEnd buffer buffer') :
    before.Ages ((bufferOf number).put buffer' after) := by
  apply hages.modify number
  intro executor executor' hexecutor hages'
  obtain ⟨stage, hstage, rfl⟩ := stage_of_bufferOf_find hexecutor hfind
  exact hages'.putBuffer hstage hstays

/-- Executors age. Nothing changes hands, and the cursors stay as they are. -/
structure Elapses (before after : Store V ε) : Prop where
  ages : before.Ages after
  executorOf : after.executorOf = before.executorOf
  size : after.ranges.size = before.ranges.size
  cursors : after.cursors = before.cursors

instance : Std.Refl (Elapses : Store V ε → Store V ε → Prop) where
  refl store := ⟨Std.Refl.refl store, rfl, rfl, rfl⟩

instance : IsTrans (Store V ε) Elapses where
  trans _ _ _ hfirst hsecond :=
    ⟨IsTrans.trans _ _ _ hfirst.ages hsecond.ages, hsecond.executorOf.trans hfirst.executorOf,
      hsecond.size.trans hfirst.size, hsecond.cursors.trans hfirst.cursors⟩

theorem Elapses.of_ages {before middle after : Store V ε} (helapses : before.Elapses middle)
    (hages : before.Ages after) (hranges : after.ranges = middle.ranges)
    (hcursors : after.cursors = middle.cursors) : before.Elapses after where
  ages := hages
  executorOf := by
    rw [← helapses.executorOf]
    funext range
    unfold Store.executorOf
    rw [hranges]
  size := (congrArg Array.size hranges).trans helapses.size
  cursors := hcursors.trans helapses.cursors

theorem elapses_bound : Bound (fun _ => True) (Elapses : Store V ε → Store V ε → Prop) where
  logging _ store _ := ⟨.of_executors rfl, rfl, rfl, rfl⟩
  written _ _ _ store _ := ⟨.of_executors rfl, rfl, rfl, rfl⟩
  script number _ _ _ _ helapses :=
    helapses.of_ages (helapses.ages.modifySource number fun _ => rfl) rfl rfl
  walk number _ _ _ _ helapses := by
    refine helapses.of_ages (helapses.ages.modifySource number fun executor => ?_) rfl rfl
    cases executor.source <;> rfl
  executorOf _ _ helapses := helapses.executorOf
  noting _ store _ _ := ⟨.of_executors rfl, rfl, rfl, rfl⟩
  buffer _ _ _ _ _ _ hfind hstays helapses :=
    helapses.of_ages (helapses.ages.putBuffer hfind hstays) rfl rfl
  range range own own' before after hown hsame helapses :=
    ⟨IsTrans.trans _ _ _ helapses.ages (.of_executors rfl),
      executorOf_put_of_same hown hsame helapses.executorOf,
      Array.size_setIfInBounds.trans helapses.size, helapses.cursors⟩

theorem elapses_walks (walks : Array (Nat × Walk)) (before after : Store V ε)
    (helapses : before.Elapses after) : before.Elapses { after with walks } :=
  helapses.of_ages (IsTrans.trans _ _ _ helapses.ages (.of_executors rfl)) rfl rfl

theorem serves_elapses [Textual V ε] (bound : Nat) :
    Serves Elapses (servicesBelow bound : StoreServices V ε) :=
  serves_below elapses_bound bound fun _ _ => trivial

section Requests

variable [Textual V ε] (store : Store V ε)

theorem askExecutor_elapses (number : Nat) :
    (askExecutor (servicesBelow number) number).Leads Elapses store :=
  askExecutor_leads elapses_bound (serves_elapses number) trivial
    fun _ _ => ⟨.of_executors rfl, rfl, rfl, rfl⟩

theorem ask_elapses (bound number : Nat) :
    ((servicesBelow bound : StoreServices V ε).ask number).Leads Elapses store :=
  ask_below_leads (askExecutor_elapses store number)

theorem release_elapses (bound number : Nat) :
    ((servicesBelow bound : StoreServices V ε).release number).Leads Elapses store :=
  release_below_leads (releaseExecutor_leads elapses_bound trivial
    (fun _ => ⟨.of_executors rfl, rfl, rfl, rfl⟩) _ store)

end Requests

end Store

end PullRange
