import PullRange.Proofs.Holding
import PullRange.Value

/-!
# Sole ownership

Ranges are made, moved, closed and pulled in any order, and every executor is handed to at most one
range. `Transfer` says what one operation does to who holds what. From it follows by induction over
the operations that nobody shares an executor, that an executor which was released is never called
again, and that a range without an executor stays without one.
-/

namespace PullRange.Store

variable {V ε : Type}

inductive Operation (V ε : Type) where
  | makeExecutor (source : Source V ε)
  | makeBuffered (source : Source V ε) (opening : Option ε) (compute : V → Nat → Reply ε V)
      (size : ChunkSize)
  | makeRange (executor : Option Nat)
  | move (range : Nat)
  | close (range : Nat)
  | start (range : Nat)
  | advance (cursor : Nat)
  | read (cursor : Nat)
  | makeWalk (range : Nat)
  | walkOn (walk : Nat)
  | stopWalk (walk : Nat)

namespace Operation

def after [Textual V ε] (store : Store V ε) : Operation V ε → Store V ε
  | makeExecutor source => (addExecutor source).after store
  | makeBuffered source opening compute size =>
      (addBuffered source opening compute size).after store
  | makeRange executor => (addRange (.holding executor)).after store
  | move range => (Store.move range).after store
  | close range => (Store.close range).after store
  | start range => (Store.start range).after store
  | advance cursor => (Store.advance cursor).after store
  | read cursor => (valueAt cursor).after store
  | makeWalk range => (addWalk range).after store
  | walkOn walk => (Store.walkOn walk).after store
  | stopWalk walk => (Store.stopWalk walk).after store

def run [Textual V ε] (operations : List (Operation V ε)) (store : Store V ε) : Store V ε :=
  operations.foldl Operation.after store

def handed? : Operation V ε → Option Nat
  | makeRange executor => executor
  | _ => none

/-- The range that the operation leaves without an executor. -/
def emptied? (store : Store V ε) : Operation V ε → Option Nat
  | makeRange none => some store.ranges.size
  | move range => if range < store.ranges.size then some range else none
  | close range => if range < store.ranges.size then some range else none
  | _ => none

end Operation

/-- What an operation that is handed an executor, or none, does to who holds what. -/
inductive Transfer (handed : Option Nat) (before after : Store V ε) : Prop where
  | pull (hpulls : before.Pulls after)
  | make (hsize : after.ranges.size = before.ranges.size + 1)
      (hexecutorOf : after.executorOf =
        Function.update before.executorOf before.ranges.size handed)
      (hcalls : after.calls = before.calls)
  | move (range : Nat) (hlt : range < before.ranges.size)
      (hsize : after.ranges.size = before.ranges.size + 1)
      (hexecutorOf : after.executorOf =
        Function.update (Function.update before.executorOf range none) before.ranges.size
          (before.executorOf range))
      (hcalls : after.calls = before.calls)
  | close (range executor : Nat) (hheld : before.executorOf range = some executor)
      (hsize : after.ranges.size = before.ranges.size)
      (hexecutorOf : after.executorOf = Function.update before.executorOf range none)
      (hcalls : after.calls = before.calls ∨
        after.calls = before.calls.push (.release executor))

/-- The later call is not a call of an executor that the earlier one has released. -/
def Apart (earlier later : Call) : Prop :=
  ∀ executor, earlier = .release executor → later.executor ≠ executor

/-- Each executor is held by one range at most, is one of those that were handed out, and is not
held any more, nor called, once it was released. -/
structure Custody (handed : List Nat) (store : Store V ε) : Prop where
  sole : ∀ executor range other, store.executorOf range = some executor →
    store.executorOf other = some executor → range = other
  known : ∀ range executor, store.executorOf range = some executor → executor ∈ handed
  released : ∀ executor, .release executor ∈ store.calls.toList →
    executor ∈ handed ∧ ¬store.Held executor
  calls : store.calls.toList.Pairwise Apart

section Custody

variable {handed : List Nat} {taken : Option Nat} {store after : Store V ε}

theorem Custody.pull (hcustody : store.Custody handed) (hpulls : store.Pulls after) :
    after.Custody handed := by
  obtain ⟨asked, hcalls, hheld⟩ := hpulls.calls
  have hasks : ∀ call ∈ asked.map Call.ask, ∃ executor ∈ asked, call = .ask executor := by
    intro call hcall
    obtain ⟨executor, hexecutor, rfl⟩ := List.mem_map.mp hcall
    exact ⟨executor, hexecutor, rfl⟩
  constructor
  · rw [hpulls.executorOf]
    exact hcustody.sole
  · rw [hpulls.executorOf]
    exact hcustody.known
  · intro executor hreleased
    unfold Held
    rw [hpulls.executorOf]
    rw [hcalls, Array.toList_append, List.mem_append] at hreleased
    cases hreleased with
    | inl hbefore => exact hcustody.released executor hbefore
    | inr hask =>
        obtain ⟨_, _, hcall⟩ := hasks _ hask
        exact nomatch hcall
  · rw [hcalls, Array.toList_append, List.pairwise_append]
    refine ⟨hcustody.calls, ?_, ?_⟩
    · refine List.pairwise_of_forall_mem_list fun earlier hearlier later _ executor hrelease => ?_
      obtain ⟨_, _, hcall⟩ := hasks earlier hearlier
      exact nomatch hcall.symm.trans hrelease
    · intro earlier hearlier later hlater executor hrelease
      obtain ⟨other, hother, rfl⟩ := hasks later hlater
      subst hrelease
      intro hsame
      have hreleased := (hcustody.released executor hearlier).2
      have hheldOther := hheld other hother
      exact hreleased (hsame ▸ hheldOther)

theorem Custody.released_of_held (hcustody : store.Custody handed)
    (hheld : ∀ executor ∈ handed, after.Held executor → store.Held executor) {executor : Nat}
    (hreleased : .release executor ∈ store.calls.toList) :
    executor ∈ handed ∧ ¬after.Held executor := by
  obtain ⟨hknown, hfree⟩ := hcustody.released executor hreleased
  refine ⟨hknown, ?_⟩
  intro hagain
  exact hfree (hheld executor hknown hagain)

theorem holder_of_make
    (hexecutorOf : after.executorOf = Function.update store.executorOf store.ranges.size taken)
    {range executor : Nat} (hrange : after.executorOf range = some executor) :
    range = store.ranges.size ∧ taken = some executor ∨
      range ≠ store.ranges.size ∧ store.executorOf range = some executor := by
  rw [hexecutorOf, Function.update_apply] at hrange
  by_cases hnew : range = store.ranges.size
  · rw [if_pos hnew] at hrange
    exact .inl ⟨hnew, hrange⟩
  · rw [if_neg hnew] at hrange
    exact .inr ⟨hnew, hrange⟩

theorem Custody.make (hcustody : store.Custody handed)
    (hfresh : ∀ executor, taken = some executor → executor ∉ handed)
    (hexecutorOf : after.executorOf = Function.update store.executorOf store.ranges.size taken)
    (hcalls : after.calls = store.calls) : after.Custody (taken.toList ++ handed) := by
  constructor
  · intro executor range other hrange hother
    cases holder_of_make hexecutorOf hrange with
    | inl hnew =>
        cases holder_of_make hexecutorOf hother with
        | inl hnew' => exact hnew.1.trans hnew'.1.symm
        | inr hold => exact absurd (hcustody.known other executor hold.2) (hfresh executor hnew.2)
    | inr hold =>
        cases holder_of_make hexecutorOf hother with
        | inl hnew => exact absurd (hcustody.known range executor hold.2) (hfresh executor hnew.2)
        | inr hold' => exact hcustody.sole executor range other hold.2 hold'.2
  · intro range executor hrange
    cases holder_of_make hexecutorOf hrange with
    | inl hnew => exact List.mem_append_left handed (Option.mem_toList.mpr hnew.2)
    | inr hold => exact List.mem_append_right _ (hcustody.known range executor hold.2)
  · intro executor hreleased
    have hheld : ∀ executor ∈ handed, after.Held executor → store.Held executor := by
      rintro executor hknown ⟨range, hrange⟩
      cases holder_of_make hexecutorOf hrange with
      | inl hnew => exact absurd hknown (hfresh executor hnew.2)
      | inr hold => exact ⟨range, hold.2⟩
    rw [hcalls] at hreleased
    exact (hcustody.released_of_held hheld hreleased).imp_left (List.mem_append_right _)
  · rw [hcalls]
    exact hcustody.calls

theorem holder_of_move {range : Nat}
    (hexecutorOf : after.executorOf =
      Function.update (Function.update store.executorOf range none) store.ranges.size
        (store.executorOf range))
    {other executor : Nat} (hother : after.executorOf other = some executor) :
    other = store.ranges.size ∧ store.executorOf range = some executor ∨
      other ≠ store.ranges.size ∧ other ≠ range ∧ store.executorOf other = some executor := by
  rw [hexecutorOf, Function.update_apply, Function.update_apply] at hother
  by_cases hnew : other = store.ranges.size
  · rw [if_pos hnew] at hother
    exact .inl ⟨hnew, hother⟩
  · rw [if_neg hnew] at hother
    by_cases hsource : other = range
    · rw [if_pos hsource] at hother
      exact nomatch hother
    · rw [if_neg hsource] at hother
      exact .inr ⟨hnew, hsource, hother⟩

theorem Custody.move (hcustody : store.Custody handed) {range : Nat}
    (hexecutorOf : after.executorOf =
      Function.update (Function.update store.executorOf range none) store.ranges.size
        (store.executorOf range))
    (hcalls : after.calls = store.calls) : after.Custody handed := by
  have hheld (executor : Nat) (hafter : after.Held executor) : store.Held executor := by
    obtain ⟨other, hother⟩ := hafter
    cases holder_of_move hexecutorOf hother with
    | inl hnew => exact ⟨range, hnew.2⟩
    | inr hold => exact ⟨other, hold.2.2⟩
  constructor
  · intro executor other another hother hanother
    cases holder_of_move hexecutorOf hother with
    | inl hnew =>
        cases holder_of_move hexecutorOf hanother with
        | inl hnew' => exact hnew.1.trans hnew'.1.symm
        | inr hold =>
            have hsame := hcustody.sole executor range another hnew.2 hold.2.2
            exact absurd hsame.symm hold.2.1
    | inr hold =>
        cases holder_of_move hexecutorOf hanother with
        | inl hnew =>
            have hsame := hcustody.sole executor range other hnew.2 hold.2.2
            exact absurd hsame.symm hold.2.1
        | inr hold' => exact hcustody.sole executor other another hold.2.2 hold'.2.2
  · intro other executor hother
    obtain ⟨holder, hholder⟩ := hheld executor ⟨other, hother⟩
    exact hcustody.known holder executor hholder
  · intro executor hreleased
    rw [hcalls] at hreleased
    exact hcustody.released_of_held (fun executor _ => hheld executor) hreleased
  · rw [hcalls]
    exact hcustody.calls

theorem holder_of_close {range : Nat}
    (hexecutorOf : after.executorOf = Function.update store.executorOf range none)
    {other executor : Nat} (hother : after.executorOf other = some executor) :
    other ≠ range ∧ store.executorOf other = some executor := by
  rw [hexecutorOf, Function.update_apply] at hother
  by_cases hclosed : other = range
  · rw [if_pos hclosed] at hother
    exact nomatch hother
  · rw [if_neg hclosed] at hother
    exact ⟨hclosed, hother⟩

theorem Custody.close (hcustody : store.Custody handed) {range executor : Nat}
    (hheld : store.executorOf range = some executor)
    (hexecutorOf : after.executorOf = Function.update store.executorOf range none)
    (hcalls : after.calls = store.calls ∨ after.calls = store.calls.push (.release executor)) :
    after.Custody handed := by
  have hbefore (released : Nat) (hafter : after.Held released) : store.Held released := by
    obtain ⟨other, hother⟩ := hafter
    exact ⟨other, (holder_of_close hexecutorOf hother).2⟩
  -- No other range can hold the executor, since this one was its only holder.
  have hunheld : ¬after.Held executor := by
    rintro ⟨other, hother⟩
    obtain ⟨hne, hother⟩ := holder_of_close hexecutorOf hother
    exact hne (hcustody.sole executor other range hother hheld)
  constructor
  · intro executor other another hother hanother
    exact hcustody.sole executor other another (holder_of_close hexecutorOf hother).2
      (holder_of_close hexecutorOf hanother).2
  · intro other executor hother
    exact hcustody.known other executor (holder_of_close hexecutorOf hother).2
  · intro released hreleased
    cases hcalls with
    | inl hsame =>
        rw [hsame] at hreleased
        exact hcustody.released_of_held (fun executor _ => hbefore executor) hreleased
    | inr hpush =>
        rw [hpush, Array.toList_push, List.mem_append, List.mem_singleton] at hreleased
        cases hreleased with
        | inl hearlier =>
            exact hcustody.released_of_held (fun executor _ => hbefore executor) hearlier
        | inr hnow =>
            cases hnow
            exact ⟨hcustody.known range executor hheld, hunheld⟩
  · cases hcalls with
    | inl hsame =>
        rw [hsame]
        exact hcustody.calls
    | inr hpush =>
        rw [hpush, Array.toList_push, List.pairwise_append]
        refine ⟨hcustody.calls, List.pairwise_singleton _ _, ?_⟩
        intro earlier hearlier later hlater released hrelease hsame
        cases List.mem_singleton.mp hlater
        subst hrelease
        subst hsame
        exact (hcustody.released executor hearlier).2 ⟨range, hheld⟩

theorem Custody.mono (hcustody : store.Custody handed) (more : List Nat) :
    store.Custody (more ++ handed) where
  sole := hcustody.sole
  known range executor hrange := List.mem_append_right more (hcustody.known range executor hrange)
  released executor hreleased :=
    (hcustody.released executor hreleased).imp_left (List.mem_append_right more)
  calls := hcustody.calls

theorem Custody.transfer (hcustody : store.Custody handed)
    (htransfer : store.Transfer taken after)
    (hfresh : ∀ executor, taken = some executor → executor ∉ handed) :
    after.Custody (taken.toList ++ handed) := by
  cases htransfer with
  | pull hpulls => exact (hcustody.pull hpulls).mono _
  | make hsize hexecutorOf hcalls => exact hcustody.make hfresh hexecutorOf hcalls
  | move range hlt hsize hexecutorOf hcalls => exact (hcustody.move hexecutorOf hcalls).mono _
  | close range executor hheld hsize hexecutorOf hcalls =>
      exact (hcustody.close hheld hexecutorOf hcalls).mono _

end Custody

/-! ## What each operation transfers -/

section Transfer

variable {store : Store V ε} {range : Nat} {own : Range Nat V}

theorem executorOf_of_size_le (hge : store.ranges.size ≤ range) : store.executorOf range = none := by
  unfold executorOf
  rw [Array.getElem?_eq_none hge]
  rfl

theorem executorOf_push (store : Store V ε) (own : Range Nat V) :
    ({ store with ranges := store.ranges.push own } : Store V ε).executorOf =
      Function.update store.executorOf store.ranges.size own.executor := by
  funext other
  by_cases hnew : other = store.ranges.size
  · subst hnew
    simp [executorOf]
  · simp [executorOf, Array.getElem?_push, hnew]

theorem move_of_range (hown : store.ranges[range]? = some own) :
    move range store = .ok store.ranges.size
      { store with
        ranges := (store.ranges.setIfInBounds range (.holding none)).push own } := by
  have hsize : (store.ranges.setIfInBounds range (.holding none)).size = store.ranges.size :=
    Array.size_setIfInBounds
  rw [move, Action.bind_of_ok (Place.read_of_find hown), ← hsize]
  rfl

theorem move_after (hown : store.ranges[range]? = some own) :
    (move range).after store =
      { store with
        ranges := (store.ranges.setIfInBounds range (.holding none)).push own } :=
  Action.after_of_ok (move_of_range hown)

theorem move_executorOf (hown : store.ranges[range]? = some own) :
    ((move range).after store).executorOf =
      Function.update (Function.update store.executorOf range none) store.ranges.size
        (store.executorOf range) := by
  have hpush := executorOf_push ((rangeAt range).put (.holding none) store) own
  have hsize : ((rangeAt range).put (.holding none) store).ranges.size = store.ranges.size :=
    Array.size_setIfInBounds
  rw [executorOf_put (lt_size_of_range hown), hsize, ← executorOf_of_range hown] at hpush
  rw [move_after hown]
  exact hpush

theorem move_transfers (hown : store.ranges[range]? = some own) :
    Transfer none store ((move range).after store) := by
  refine .move range (lt_size_of_range hown) ?_ (move_executorOf hown) ?_
  · rw [move_after hown]
    simp
  · rw [move_after hown]

theorem move_of_missing (hmissing : store.ranges[range]? = none) :
    move range store = .error .missing store := by
  rw [move]
  exact Action.bind_of_error (Place.read_of_missing hmissing) _

variable [Textual V ε]

theorem close_of_missing (hmissing : store.ranges[range]? = none) :
    close range store = .error .missing store := by
  rw [close, Action.bind_of_ok (Action.get_apply store)]
  exact Place.focus_of_missing hmissing _

theorem close_of_empty (hown : store.ranges[range]? = some own) (hempty : own.executor = none) :
    close range store = .ok () store := by
  have hclose : Range.close store.services (own, store) = settle (.ok ()) (own, store) := by
    rw [Range.close, Action.bind_of_ok (getOwn_apply own store)]
    simp only [hempty]
    rfl
  rw [close, Action.bind_of_ok (Action.get_apply store)]
  exact focus_range_of_same hown hclose

/-- The range lets its executor go even if releasing it fails. -/
theorem close_after {executor : Nat} (hown : store.ranges[range]? = some own)
    (hexecutor : own.executor = some executor) :
    let released := (store.services.release executor).after store
    store.Releases executor released ∧
      (close range).after store = (rangeAt range).put { own with executor := none } released := by
  intro released
  have hrelease : store.services.release executor store =
      settle ((store.services.release executor).answer store) released :=
    Action.apply_eq_settle _ store
  have hclose : Range.close store.services (own, store) =
      settle ((store.services.release executor).answer store)
        ({ own with executor := none }, released) := by
    rw [Range.close, Action.bind_of_ok (getOwn_apply own store)]
    simp only [hexecutor]
    rw [Action.bind_of_ok (setOwn_apply _ _ _)]
    exact onRest_of_settle hrelease _
  have hsettle : close range store = settle ((store.services.release executor).answer store)
      ((rangeAt range).put { own with executor := none } released) := by
    rw [close, Action.bind_of_ok (Action.get_apply store)]
    exact Place.focus_of_settle hown hclose
  exact ⟨release_releases store.executors.size executor store, Action.after_of_settle hsettle⟩

theorem close_executorOf (hown : store.ranges[range]? = some own) :
    ((close range).after store).executorOf = Function.update store.executorOf range none := by
  cases hexecutor : own.executor with
  | none =>
      have hafter : (close range).after store = store :=
        Action.after_of_ok (close_of_empty hown hexecutor)
      have hnone : store.executorOf range = none := (executorOf_of_range hown).trans hexecutor
      rw [hafter, ← hnone, Function.update_eq_self]
  | some executor =>
      obtain ⟨hreleases, hafter⟩ := close_after hown hexecutor
      have hlt : range < ((store.services.release executor).after store).ranges.size := by
        rw [hreleases.ranges]
        exact lt_size_of_range hown
      have hsame : ((store.services.release executor).after store).executorOf =
          store.executorOf := by
        unfold executorOf
        rw [hreleases.ranges]
      rw [hafter, executorOf_put hlt, hsame]

theorem close_size (hown : store.ranges[range]? = some own) :
    ((close range).after store).ranges.size = store.ranges.size := by
  cases hexecutor : own.executor with
  | none => rw [Action.after_of_ok (close_of_empty hown hexecutor)]
  | some executor =>
      obtain ⟨hreleases, hafter⟩ := close_after hown hexecutor
      rw [hafter, ← hreleases.ranges]
      exact Array.size_setIfInBounds

theorem close_transfers {executor : Nat} (hown : store.ranges[range]? = some own)
    (hexecutor : own.executor = some executor) :
    Transfer none store ((close range).after store) := by
  obtain ⟨hreleases, hafter⟩ := close_after hown hexecutor
  refine .close range executor ((executorOf_of_range hown).trans hexecutor) (close_size hown)
    (close_executorOf hown) ?_
  rw [hafter]
  exact hreleases.calls

omit [Textual V ε] in
theorem pulls_walks (walks : Array (Nat × Walk)) (before after : Store V ε)
    (hpulls : before.Pulls after) : before.Pulls { after with walks } :=
  ⟨hpulls.size, hpulls.executorOf, hpulls.calls⟩

theorem next_on_range_pulls (range : Nat) (cursor : Cursor) (store : Store V ε) :
    ((rangeAt range).focus (cursor.next store.services)).Leads Pulls store :=
  next_on_range_leads pulls_bound (serves_pulls _) range cursor

theorem after_transfers (operation : Operation V ε) (store : Store V ε) :
    Transfer operation.handed? store (operation.after store) := by
  cases operation with
  | makeExecutor source => exact .pull (Aside.pulls ⟨rfl, rfl⟩)
  | makeBuffered source opening compute size =>
      exact .pull (Aside.pulls (addBuffered_leads source opening compute size
        (fun _ => ⟨rfl, rfl⟩) fun _ _ => ⟨rfl, rfl⟩))
  | makeRange executor =>
      exact .make (Array.size_push _) (executorOf_push store (.holding executor)) rfl
  | move range =>
      cases hown : store.ranges[range]? with
      | none => exact .pull (Action.Leads.of_error (move_of_missing hown) (Std.Refl.refl store))
      | some own => exact move_transfers hown
  | close range =>
      cases hown : store.ranges[range]? with
      | none => exact .pull (Action.Leads.of_error (close_of_missing hown) (Std.Refl.refl store))
      | some own =>
          cases hexecutor : own.executor with
          | none =>
              exact .pull
                (Action.Leads.of_ok (close_of_empty hown hexecutor) (Std.Refl.refl store))
          | some executor => exact close_transfers hown hexecutor
  | start range =>
      exact .pull (start_leads next_on_range_pulls (fun _ _ => Aside.pulls ⟨rfl, rfl⟩) range store)
  | advance cursor =>
      exact .pull
        (advance_leads next_on_range_pulls (fun _ _ => Aside.pulls ⟨rfl, rfl⟩) cursor store)
  | read cursor => exact .pull (valueAt_leads pulls_bound cursor)
  | makeWalk range => exact .pull (Aside.pulls ⟨rfl, rfl⟩)
  | walkOn walk => exact .pull (walkOn_leads pulls_walks pulls_bound (serves_pulls _) walk)
  | stopWalk walk => exact .pull (stopWalk_leads pulls_walks walk)

/-- There is such a range, and it holds no executor. -/
def Empty (range : Nat) (store : Store V ε) : Prop :=
  range < store.ranges.size ∧ store.executorOf range = none

omit [Textual V ε] in
theorem Empty.transfer {after : Store V ε} {taken : Option Nat} (hempty : store.Empty range)
    (htransfer : store.Transfer taken after) : after.Empty range := by
  obtain ⟨hlt, hnone⟩ := hempty
  have hne : range ≠ store.ranges.size := Nat.ne_of_lt hlt
  cases htransfer with
  | pull hpulls =>
      exact ⟨hpulls.size.symm ▸ hlt, (congrFun hpulls.executorOf range).trans hnone⟩
  | make hsize hexecutorOf hcalls =>
      refine ⟨by omega, ?_⟩
      rw [hexecutorOf, Function.update_of_ne hne, hnone]
  | move source hsource hsize hexecutorOf hcalls =>
      refine ⟨by omega, ?_⟩
      rw [hexecutorOf, Function.update_of_ne hne, Function.update_apply, hnone, ite_self]
  | close source executor hheld hsize hexecutorOf hcalls =>
      refine ⟨by omega, ?_⟩
      rw [hexecutorOf, Function.update_apply, hnone, ite_self]

theorem empty_of_emptied {operation : Operation V ε}
    (hemptied : operation.emptied? store = some range) : (operation.after store).Empty range := by
  have hfound (source : Nat)
      (hsource : (if source < store.ranges.size then some source else none) = some range) :
      source = range ∧ ∃ own, store.ranges[range]? = some own := by
    split at hsource
    · cases hsource
      exact ⟨rfl, _, Array.getElem?_eq_getElem ‹_›⟩
    · exact nomatch hsource
  cases operation with
  | makeRange executor =>
      cases executor with
      | none =>
          cases hemptied
          have hpush := executorOf_push store (.holding none)
          refine ⟨?_, (congrFun hpush _).trans (Function.update_self _ _ _)⟩
          have hsize : (store.ranges.push (.holding none)).size = store.ranges.size + 1 :=
            Array.size_push _
          exact hsize ▸ Nat.lt_succ_self _
      | some executor => exact nomatch hemptied
  | move source =>
      obtain ⟨rfl, own, hown⟩ := hfound source hemptied
      have hlt := lt_size_of_range hown
      have hafter : (Operation.move source).after store = (move source).after store := rfl
      rw [hafter]
      constructor
      · rw [move_after hown]
        simp only [Array.size_push, Array.size_setIfInBounds]
        omega
      · rw [move_executorOf hown, Function.update_of_ne (Nat.ne_of_lt hlt), Function.update_self]
  | close source =>
      obtain ⟨rfl, own, hown⟩ := hfound source hemptied
      have hlt := lt_size_of_range hown
      have hafter : (Operation.close source).after store = (close source).after store := rfl
      rw [hafter]
      constructor
      · rw [close_size hown]
        exact hlt
      · rw [close_executorOf hown, Function.update_self]
  | _ => exact nomatch hemptied

end Transfer

/-- Whoever pulls through the range fails, and leaves everything as it was, except that a walk is
finished by the failure. Closing the range does nothing. -/
structure Inert [Textual V ε] (range : Nat) (store : Store V ε) : Prop where
  pull : ∀ own, store.ranges[range]? = some own → ∀ (services : StoreServices V ε) rest,
    Range.pull services (own, rest) = .error .noExecutor (own, rest)
  start : start range store = .error .noExecutor store
  advance : ∀ cursor current, store.cursors[cursor]? = some (range, current) →
    advance cursor store = .error .noExecutor store
  walkOn : ∀ walk own, store.walks[walk]? = some (range, own) → own ≠ .finished →
    walkOn walk store = .error .noExecutor ((walkAt walk).put .finished store)
  close : close range store = .ok () store

section Inert

variable [Textual V ε] {store : Store V ε} {range : Nat} {own : Range Nat V}

theorem inert_of_no_executor (hown : store.ranges[range]? = some own)
    (hempty : own.executor = none) : store.Inert range := by
  have hnext (cursor : Cursor) : cursor.next store.services (own, store) =
      settle (.error .noExecutor) (own, store) := by
    rw [Cursor.next]
    exact Action.bind_of_error (Range.pull_of_no_executor store.services own store hempty) _
  have hturn (cursor? : Option Cursor) : turnOn store.services range cursor? store =
      settle (.error .noExecutor) store := by
    refine focus_range_of_same hown ?_
    unfold Range.turn
    cases cursor? with
    | none => exact Action.bind_of_error (hnext _) _
    | some cursor => exact Action.bind_of_error (hnext cursor) _
  constructor
  · intro own' hown' services rest
    cases hown.symm.trans hown'
    exact Range.pull_of_no_executor services own rest hempty
  · rw [start, Action.bind_of_ok (Action.get_apply store)]
    exact Action.bind_of_error (focus_range_of_same hown (hnext _)) _
  · intro cursor current hentry
    rw [advance, Action.bind_of_ok (rangeOfCursor_of_entry hentry),
      Action.bind_of_ok (Place.read_of_find (cursorAt_find hentry)),
      Action.bind_of_ok (Action.get_apply store)]
    exact Action.bind_of_error (focus_range_of_same hown (hnext current)) _
  · intro walk current hentry hgoing
    have hresume (cursor? : Option Cursor) :
        Walk.resume (turnOn store.services range) cursor? (current, store) =
          settle (.error .noExecutor) (.finished, store) := by
      rw [Walk.resume, Action.bind_of_ok (setOwn_apply _ _ _)]
      exact Action.bind_of_error (onRest_of_settle (hturn cursor?) _) _
    have hwalk : Walk.next (turnOn store.services range) (current, store) =
        settle (.error .noExecutor) (.finished, store) := by
      cases current with
      | unstarted => exact hresume none
      | suspended cursor => exact hresume (some cursor)
      | finished => exact absurd rfl hgoing
    rw [walkOn_eq_focus hentry]
    exact Place.focus_of_settle (walkAt_find hentry) hwalk
  · exact close_of_empty hown hempty

end Inert

section Runs

variable [Textual V ε]

theorem Custody.run {operations : List (Operation V ε)} {store : Store V ε} {handed : List Nat}
    (hcustody : store.Custody handed)
    (hnodup : (operations.filterMap Operation.handed?).Nodup)
    (hfresh : ∀ executor ∈ operations.filterMap Operation.handed?, executor ∉ handed) :
    ∃ all, (Operation.run operations store).Custody all := by
  -- What has been handed out grows along the run, so what is still to come must stay apart from it.
  induction operations generalizing store handed with
  | nil => exact ⟨handed, hcustody⟩
  | cons operation operations ih =>
      have htransfer := after_transfers operation store
      cases htaken : operation.handed? with
      | none =>
          rw [List.filterMap_cons_none htaken] at hnodup hfresh
          rw [htaken] at htransfer
          exact ih (hcustody.transfer htransfer nofun) hnodup hfresh
      | some executor =>
          rw [List.filterMap_cons_some htaken] at hnodup hfresh
          rw [htaken] at htransfer
          have hnew : ∀ other, some executor = some other → other ∉ handed := by
            intro other hother
            cases hother
            exact hfresh executor List.mem_cons_self
          obtain ⟨hunused, hnodup⟩ := List.nodup_cons.mp hnodup
          refine ih (hcustody.transfer htransfer hnew) hnodup fun other hother hhanded => ?_
          cases List.mem_cons.mp hhanded with
          | inl hsame => exact hunused (hsame ▸ hother)
          | inr hold => exact hfresh other (List.mem_cons_of_mem _ hother) hold

theorem Empty.run {store : Store V ε} {range : Nat} (hempty : store.Empty range)
    (operations : List (Operation V ε)) : (Operation.run operations store).Empty range := by
  induction operations generalizing store with
  | nil => exact hempty
  | cons operation operations ih => exact ih (hempty.transfer (after_transfers operation store))

omit [Textual V ε] in
theorem custody_of_no_ranges {origin : Store V ε} (hranges : origin.ranges = #[])
    (hcalls : origin.calls = #[]) : origin.Custody [] := by
  have hnone (range : Nat) : origin.executorOf range = none :=
    executorOf_of_size_le (by simp [hranges])
  constructor
  · intro executor range other hrange
    exact nomatch (hnone range).symm.trans hrange
  · intro range executor hrange
    exact nomatch (hnone range).symm.trans hrange
  · intro executor hreleased
    rw [hcalls] at hreleased
    exact nomatch hreleased
  · rw [hcalls]
    exact .nil

theorem count_release_le_one {calls : List Call} (hapart : calls.Pairwise Apart) (executor : Nat) :
    calls.count (.release executor) ≤ 1 := by
  induction hapart with
  | nil => exact Nat.zero_le 1
  | @cons call calls hlater _ ih =>
      by_cases hrelease : call = .release executor
      · have hnone : calls.count (.release executor) = 0 :=
          List.count_eq_zero_of_not_mem fun hagain =>
            hlater _ hagain executor hrelease rfl
        have hone : (call :: calls).count (.release executor) = 1 := by
          rw [hrelease, List.count_cons_self, hnone]
        exact Nat.le_of_eq hone
      · rw [List.count_cons_of_ne hrelease]
        exact ih

/-- **Sole ownership, and release at most once.** However ranges are made, moved, closed and pulled,
as long as every executor is handed to one new range at most: no two ranges hold the same executor,
a range that was made without one, moved or closed stays without one, and an executor is released
once at most and not called afterwards. Pulling through a range without an executor fails and
changes nothing. -/
theorem sole_ownership {origin : Store V ε} (hranges : origin.ranges = #[])
    (hcalls : origin.calls = #[]) {operations : List (Operation V ε)}
    (hhanded : (operations.filterMap Operation.handed?).Nodup) :
    let store := Operation.run operations origin
    (∀ executor range other, store.executorOf range = some executor →
      store.executorOf other = some executor → range = other) ∧
    (∀ before operation later range, operations = before ++ operation :: later →
      operation.emptied? (Operation.run before origin) = some range → store.Empty range) ∧
    (∀ executor, store.calls.toList.count (.release executor) ≤ 1) ∧
    store.calls.toList.Pairwise Apart ∧
    (∀ range, store.Empty range → store.Inert range) := by
  intro store
  obtain ⟨all, hcustody⟩ := (custody_of_no_ranges hranges hcalls).run hhanded (by simp)
  refine ⟨hcustody.sole, ?_, count_release_le_one hcustody.calls, hcustody.calls, ?_⟩
  · intro before operation later range hoperations hemptied
    have hempty := (empty_of_emptied hemptied).run later
    have hstore : store = Operation.run later
        (operation.after (Operation.run before origin)) := by
      change Operation.run operations origin = _
      rw [hoperations, Operation.run, List.foldl_append]
      rfl
    rw [hstore]
    exact hempty
  · rintro range ⟨hlt, hnone⟩
    have hown := Array.getElem?_eq_getElem hlt
    exact inert_of_no_executor hown ((executorOf_of_range hown).symm.trans hnone)

end Runs

def stubborn : Store Value Thrown :=
  { (initial : Store Value Thrown) with
    executors := #[
      { source := .script (.ofOutcomes [.yield .null] (some (.error (.value .null)))) },
      { source := .script (.ofOutcomes [.yield .null] (some (.ok ()))) }] }

def contested : List (Operation Value Thrown) :=
  [.makeRange (some 0), .makeRange (some 1), .start 0, .move 0, .close 2, .close 2, .start 2]

theorem sole_ownership_after_failed_release :
    let store := Operation.run contested stubborn
    store.calls = #[.ask 0, .release 0] ∧ store.Empty 0 ∧ store.Empty 2 ∧
      start 0 store = .error .noExecutor store := by
  intro store
  have hranges : stubborn.ranges = #[] := rfl
  have hhanded : (contested.filterMap Operation.handed?).Nodup := by decide
  obtain ⟨_, hemptied, _, _, hinert⟩ := sole_ownership hranges rfl hhanded
  have hmoved : store.Empty 0 :=
    hemptied [.makeRange (some 0), .makeRange (some 1), .start 0] (.move 0)
      [.close 2, .close 2, .start 2] 0 rfl rfl
  have hclosed : store.Empty 2 :=
    hemptied [.makeRange (some 0), .makeRange (some 1), .start 0, .move 0] (.close 2)
      [.close 2, .start 2] 2 rfl rfl
  exact ⟨rfl, hmoved, hclosed, (hinert 0 hmoved).start⟩

end PullRange.Store
