import PullRange.Proofs.Bounds
import PullRange.Proofs.Exhaustion
import PullRange.Proofs.Requests

/-!
# What a request may change in a store

Most requests pull through ranges, or call an executor, and no more. A few besides make, move or
close a range, or leave a cursor or a walk behind. `Encloses` bounds the two kinds apart, so that a
relation which bounds both of them bounds every entry of a run. Which walks a run may move on or stop
is part of the bound.
-/

namespace PullRange.Store

variable {V ε : Type}

section Calling

variable {touched : Nat → Prop} {rel : Store V ε → Store V ε → Prop} [Std.Refl rel] {number : Nat}

/-- Whether or not letting go of the resource fails, the buffer is at its end. -/
theorem releaseExecutor_leads [IsTrans (Store V ε) rel] (hbound : Bound touched rel)
    (htouched : touched number) (hnoting : ∀ store, rel store (store.noting (.release number)))
    (services : StoreServices V ε) (store : Store V ε) :
    (releaseExecutor services number).Leads rel store := by
  have hsource (store : Store V ε) : (releaseSource number).Leads rel store :=
    releaseSource_leads hbound.toAdmits htouched store
  unfold releaseExecutor
  refine .bind (leads_read _ store) ?_
  intro executor store' _
  have hnoted (action : Act V ε Unit) (haction : ∀ store, action.Leads rel store) :
      (do
        if executor.canRelease then
          note (.release number)
        action).Leads rel store' := by
    split
    · exact .bind (.of_ok (note_apply _ store') (hnoting store')) fun _ store'' _ => haction store''
    · exact haction store'
  cases executor.stage with
  | none => exact hnoted _ hsource
  | some stage =>
      apply hnoted
      intro store
      have hstays (own : Buffer V ε) :
          (Buffer.release (feed services number stage)).Leads
            (Beside StaysAtEnd rel) (own, store) := by
        refine ⟨?_, (buffer_release_leads hsource (own, store)).2⟩
        rw [Buffer.release_own]
        exact fun _ => own.dropped_isEof
      exact leads_focus (fun own _ => hstays own) fun own own' _ hown hstays hrel =>
        hbound.buffer number own own' _ _ htouched hown hstays hrel

variable [Textual V ε] {store : Store V ε} {bound : Nat}

theorem ask_below_leads (hask : (askExecutor (servicesBelow number) number).Leads rel store) :
    ((servicesBelow bound : StoreServices V ε).ask number).Leads rel store := by
  by_cases hlt : number < bound
  · rw [servicesBelow_ask hlt]
    exact hask
  · rw [(servicesBelow_of_le (Nat.le_of_not_lt hlt)).1]
    exact Action.leads_throw _

theorem release_below_leads
    (hrelease : (releaseExecutor (servicesBelow number) number).Leads rel store) :
    ((servicesBelow bound : StoreServices V ε).release number).Leads rel store := by
  by_cases hlt : number < bound
  · rw [servicesBelow_release hlt]
    exact hrelease
  · rw [(servicesBelow_of_le (Nat.le_of_not_lt hlt)).2]
    exact Action.leads_throw _

end Calling

section Pulling

variable {touched : Nat → Prop} {rel : Store V ε → Store V ε → Prop} [Std.Refl rel]
  [IsTrans (Store V ε) rel] (hbound : Bound touched rel) {store : Store V ε}

section Formats

include hbound

omit [Std.Refl rel] in
theorem line_leads (format : LineFormat V ε) (value : V) (index : Nat) :
    (format.line value index).Leads rel store := by
  have hrendered (store : Store V ε) :
      (carryOut (format.render value index) : Act V ε String).Leads rel store :=
    carryOut_leads hbound.toAdmits _ store
  unfold LineFormat.line
  split
  · exact .bind (emit_leads hbound.toAdmits (Event.within_of_none rfl) store)
      fun _ store' _ => hrendered store'
  · exact hrendered store

end Formats

theorem sideOf_leads (party : Party) : (sideOf party : Act V ε Side).Leads rel store := by
  cases party with
  | sentinel sentinel => exact Action.leads_pure _
  | cursor cursor => exact .bind (leads_read _ store) fun _ _ _ => Action.leads_pure _

variable [Textual V ε] (hserves : Serves rel store.services)

include hbound hserves

theorem collect_range_leads (fuel range : Nat) : (collect fuel range).Leads rel store := by
  unfold collect
  refine .of_read (Action.get_apply store) ?_
  exact onFreshWalk_leads (collect_leads (turnOn_leads hbound hserves range) fuel #[] _)

theorem take_range_leads (range wanted : Nat) : (take range wanted).Leads rel store := by
  unfold take
  refine .of_read (Action.get_apply store) ?_
  apply onFreshWalk_leads
  exact .of_ok (Action.ofTotal_apply _ _)
    ⟨trivial, take_bounded (turnOn_leads hbound hserves range) wanted #[] _⟩

theorem print_range_leads (fuel range : Nat) (format : LineFormat V ε) (writer : Nat) :
    (print fuel range format.line writer).Leads rel store := by
  unfold print
  refine .of_read (Action.get_apply store) ?_
  apply focus_range_leads hbound
  intro own hown
  apply range_print_leads (fun value index store => line_leads hbound format value index)
    (write_leads hbound.toAdmits writer) fuel
  rintro ⟨own', store'⟩ ⟨hsame, hrel⟩
  apply pull_leads_of_held hbound hserves
  intro executor hexecutor
  refine ⟨range, ?_⟩
  rw [hbound.executorOf store store' hrel, executorOf_of_range hown, ← hexecutor]
  exact hsame.executor.symm

end Pulling

/-- The walk that is moved on or stopped. -/
def Request.walk? : Request V ε → Option Nat
  | .walkOn walk => some walk
  | .stopWalk walk => some walk
  | _ => none

def Entry.walk? : Entry V ε → Option Nat
  | .perform request => request.walk?
  | _ => none

/-- Pulling through ranges and calling executors stays within `inner`. What is done to ranges,
cursors and walks themselves stays within `outer`, if no walk but those in `driven` is moved on or
stopped. -/
structure Encloses [Textual V ε] (touched driven : Nat → Prop)
    (inner outer : Store V ε → Store V ε → Prop) : Prop extends Bound touched inner where
  serves : ∀ bound, Serves inner (servicesBelow bound : StoreServices V ε)
  ask : ∀ executor store, (ask executor).Leads inner store
  release : ∀ executor store, (release executor).Leads inner store
  opened : ∀ store, inner store (store.logging [.opened store.executors.size])
  push : ∀ executor store, inner store { store with executors := store.executors.push executor }
  tracing : ∀ tracing store, inner store { store with tracing }
  traceWriter : ∀ traceWriter store, inner store { store with traceWriter }
  widen : ∀ before after, inner before after → outer before after
  makeRange : ∀ executor store, (addRange (.holding executor)).Leads outer store
  move : ∀ range store, (move range).Leads outer store
  close : ∀ range store, (close range).Leads outer store
  start : ∀ range store, (start range).Leads outer store
  advance : ∀ cursor store, (advance cursor).Leads outer store
  makeWalk : ∀ range store, (addWalk range).Leads outer store
  walkOn : ∀ walk store, driven walk → (walkOn walk).Leads outer store
  stopWalk : ∀ walk store, driven walk → (stopWalk walk).Leads outer store

section Requests

variable [Textual V ε] {touched driven : Nat → Prop} {inner outer : Store V ε → Store V ε → Prop}
  [Std.Refl inner] [IsTrans (Store V ε) inner] (hencloses : Encloses touched driven inner outer)

include hencloses

theorem perform_leads {request : Request V ε} (hdriven : ∀ walk ∈ request.walk?, driven walk)
    (store : Store V ε) : request.perform.Leads outer store := by
  have hbound := hencloses.toBound
  have hserves := hencloses.serves store.executors.size
  have hinner {α : Type} {action : Act V ε α} (haction : action.Leads inner store) :
      action.Leads outer store := haction.mono fun _ => hencloses.widen store _
  cases request with
  | makeRange executor => exact (hencloses.makeRange executor store).map _
  | move range => exact (hencloses.move range store).map _
  | close range => exact (hencloses.close range store).map _
  | start range => exact (hencloses.start range store).map _
  | advance cursor => exact (hencloses.advance cursor store).map _
  | makeExecutor source =>
      have hmade : addExecutor source store = .ok store.executors.size
          { store with executors := store.executors.push { source } } := rfl
      exact (hinner (.of_ok hmade (hencloses.push _ store))).map _
  | makeBuffered source opening compute size =>
      exact (hinner (addBuffered_leads source opening compute size hencloses.opened
        hencloses.push)).map _
  | ask executor => exact (hinner (hencloses.ask executor store)).map _
  | release executor => exact (hinner (hencloses.release executor store)).map _
  | inspect executor => exact (hinner (leads_read _ store)).map _
  | cached range => exact (hinner (leads_read _ store)).map _
  | sentinel range => exact (hinner (leads_read _ store)).map _
  | atEnd cursor => exact (hinner (leads_read _ store)).map _
  | value cursor =>
      refine (hinner (.bind (rangeOfCursor_leads cursor) fun range store' _ => ?_)).map _
      exact .bind (leads_read _ store') fun _ _ _ => Action.leads_pure _
  | get cursor => exact (hinner (valueAt_leads hbound cursor)).map _
  | compare cursor against =>
      refine hinner (.bind (leads_read _ store) fun own store' _ => ?_)
      exact Action.Leads.map _ (.of_settle rfl (Std.Refl.refl store'))
  | decide comparison left right =>
      refine hinner (.bind (sideOf_leads left) fun left store' _ => ?_)
      refine .bind (sideOf_leads right) fun right store'' _ => ?_
      exact Action.Leads.map _ (.of_settle rfl (Std.Refl.refl store''))
  | makeWalk range => exact (hencloses.makeWalk range store).map _
  | walkOn walk => exact (hencloses.walkOn walk store (hdriven walk rfl)).map _
  | stopWalk walk => exact (hencloses.stopWalk walk store (hdriven walk rfl)).map _
  | collect fuel range => exact (hinner (collect_range_leads hbound hserves fuel range)).map _
  | take range wanted => exact (hinner (take_range_leads hbound hserves range wanted)).map _
  | print fuel range format writer =>
      exact (hinner (print_range_leads hbound hserves fuel range format writer)).map _

theorem after_leads {entry : Entry V ε} (hdriven : ∀ walk ∈ entry.walk?, driven walk)
    (store : Store V ε) : outer store (entry.after store) := by
  cases entry with
  | perform request => exact perform_leads hencloses hdriven store
  | setTracing tracing => exact hencloses.widen store _ (hencloses.tracing tracing store)
  | traceTo writer => exact hencloses.widen store _ (hencloses.traceWriter writer store)

end Requests

end PullRange.Store
