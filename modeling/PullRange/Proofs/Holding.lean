import PullRange.Proofs.Bounds

/-!
# Who holds an executor

An executor is called only by the range that holds it. A pull may go through many ranges, since an
executor may walk over another range; none of them changes hands on the way, and only executors that
are held are asked. Releasing an executor calls no other one.
-/

namespace PullRange.Store

variable {V ε : Type}

/-- No range changes, and no executor is called. -/
structure Aside (before after : Store V ε) : Prop where
  ranges : after.ranges = before.ranges
  calls : after.calls = before.calls

/-- No range changes hands, and executors are only asked, and only while they are held. -/
structure Pulls (before after : Store V ε) : Prop where
  size : after.ranges.size = before.ranges.size
  executorOf : after.executorOf = before.executorOf
  calls : ∃ asked : List Nat, after.calls = before.calls ++ (asked.map Call.ask).toArray ∧
    ∀ executor ∈ asked, before.Held executor

/-- No range changes, and the executor is released, unless it cannot be. -/
structure Releases (executor : Nat) (before after : Store V ε) : Prop where
  ranges : after.ranges = before.ranges
  calls : after.calls = before.calls ∨ after.calls = before.calls.push (.release executor)

instance : Std.Refl (Aside : Store V ε → Store V ε → Prop) where
  refl _ := ⟨rfl, rfl⟩

instance : IsTrans (Store V ε) Aside where
  trans _ _ _ hfirst hsecond :=
    ⟨hsecond.ranges.trans hfirst.ranges, hsecond.calls.trans hfirst.calls⟩

theorem Aside.pulls {before after : Store V ε} (haside : before.Aside after) :
    before.Pulls after where
  size := congrArg Array.size haside.ranges
  executorOf := by
    funext range
    rw [executorOf, haside.ranges, executorOf]
  calls := ⟨[], by simp [haside.calls], nofun⟩

instance : Std.Refl (Pulls : Store V ε → Store V ε → Prop) where
  refl store := (Std.Refl.refl store : Aside store store).pulls

instance : IsTrans (Store V ε) Pulls where
  trans before middle after hfirst hsecond := by
    obtain ⟨asked, hasked, hheld⟩ := hfirst.calls
    obtain ⟨more, hmore, hheldMore⟩ := hsecond.calls
    refine ⟨hsecond.size.trans hfirst.size, hsecond.executorOf.trans hfirst.executorOf,
      asked ++ more, ?_, ?_⟩
    · calc
        after.calls = middle.calls ++ (more.map Call.ask).toArray := hmore
        _ = before.calls ++ ((asked.map Call.ask).toArray ++ (more.map Call.ask).toArray) := by
          rw [hasked, Array.append_assoc]
        _ = before.calls ++ ((asked ++ more).map Call.ask).toArray := by simp
    · intro executor hexecutor
      cases List.mem_append.mp hexecutor with
      | inl hfirst => exact hheld executor hfirst
      | inr hsecond' =>
          obtain ⟨range, hrange⟩ := hheldMore executor hsecond'
          exact ⟨range, by rw [← hrange, hfirst.executorOf]⟩

theorem aside_admits : Admits (fun _ => True) (Aside : Store V ε → Store V ε → Prop) where
  logging _ _ _ := ⟨rfl, rfl⟩
  written _ _ _ _ _ := ⟨rfl, rfl⟩
  script _ _ _ _ _ haside := ⟨haside.ranges, haside.calls⟩
  walk _ _ _ _ _ haside := ⟨haside.ranges, haside.calls⟩

theorem noting_pulls {executor : Nat} {store : Store V ε} (hheld : store.Held executor) :
    store.Pulls (store.noting (.ask executor)) := by
  refine ⟨rfl, rfl, [executor], by simp, ?_⟩
  intro other hother
  cases List.mem_singleton.mp hother
  exact hheld

theorem pulls_bound : Bound (fun _ => True) (Pulls : Store V ε → Store V ε → Prop) where
  logging events store hevents := (aside_admits.logging events store hevents).pulls
  written number own text store hwriter :=
    (aside_admits.written number own text store hwriter).pulls
  script _ _ _ _ _ hpulls := ⟨hpulls.size, hpulls.executorOf, hpulls.calls⟩
  walk _ _ _ _ _ hpulls := ⟨hpulls.size, hpulls.executorOf, hpulls.calls⟩
  executorOf _ _ hpulls := hpulls.executorOf
  noting _ _ _ hheld := noting_pulls hheld
  buffer _ _ _ _ _ _ _ _ hpulls := ⟨hpulls.size, hpulls.executorOf, hpulls.calls⟩
  range _ _ _ _ _ hown hsame hpulls :=
    ⟨Array.size_setIfInBounds.trans hpulls.size,
      executorOf_put_of_same hown hsame hpulls.executorOf, hpulls.calls⟩

theorem serves_pulls [Textual V ε] (bound : Nat) :
    Serves Pulls (servicesBelow bound : StoreServices V ε) :=
  serves_below pulls_bound bound fun _ _ => trivial

theorem releaseExecutor_releases (services : StoreServices V ε) (number : Nat)
    (store : Store V ε) : (releaseExecutor services number).Leads (Releases number) store := by
  cases hexecutor : store.executors[number]? with
  | none =>
      have hmissing : releaseExecutor services number store = .error .missing store := by
        rw [releaseExecutor]
        exact Action.bind_of_error (Place.read_of_missing hexecutor) _
      exact .of_error hmissing ⟨rfl, .inl rfl⟩
  | some executor =>
      have hnoted (action : Act V ε Unit) (haction : ∀ store, action.Leads Aside store) :
          (do
            if executor.canRelease then
              note (.release number)
            action).Leads (Releases number) store := by
        split
        · have haside := haction (store.noting (.release number))
          exact .of_step (note_apply _ store) ⟨haside.ranges, .inr haside.calls⟩
        · have haside := haction store
          exact ⟨haside.ranges, .inl haside.calls⟩
      unfold releaseExecutor
      refine .of_read (executorAt_read hexecutor) ?_
      cases executor.stage with
      | none => exact hnoted _ (releaseSource_leads aside_admits trivial)
      | some stage =>
          have hsource (store : Store V ε) : (releaseSource number).Leads Aside store :=
            releaseSource_leads aside_admits trivial store
          refine hnoted _ fun store => leads_focus
            (fun own _ => buffer_release_leads hsource (own, store)) ?_
          intro own own' store' _ _ haside
          exact ⟨haside.ranges, haside.calls⟩

theorem release_releases [Textual V ε] (bound executor : Nat) (store : Store V ε) :
    ((servicesBelow bound : StoreServices V ε).release executor).Leads (Releases executor)
      store := by
  induction bound with
  | zero => exact .of_error rfl ⟨rfl, .inl rfl⟩
  | succ bound ih =>
      by_cases hlast : executor = bound
      · subst hlast
        rw [servicesBelow_release (Nat.lt_succ_self executor)]
        exact releaseExecutor_releases _ executor store
      · have hlower : (servicesBelow (bound + 1) : StoreServices V ε).release executor =
            (servicesBelow bound : StoreServices V ε).release executor := if_neg hlast
        rw [hlower]
        exact ih

end PullRange.Store
