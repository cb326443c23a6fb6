import PullRange.Proofs.Frames
import PullRange.Proofs.StoredScripts

/-!
# What a pull may change in a store

A pull may go through many ranges and executors, since an executor may walk over another range.
`Bound` lists the few things that it can do to a store on its way. A relation between stores that
admits each of them bounds whatever a pull comes to, whether or not it fails.
-/

namespace PullRange

variable {V ε : Type}

/-- The executor that an event tells of. -/
def Event.executor? {ν : Type} : Event ν V → Option ν
  | .opened executor => some executor
  | .asked _ executor => some executor
  | .released _ executor => some executor
  | .computing executor _ _ => some executor
  | _ => none

def Event.Within (touched : Nat → Prop) (event : Event Nat V) : Prop :=
  ∀ number, event.executor? = some number → touched number

theorem Event.within_of_none {touched : Nat → Prop} {event : Event Nat V}
    (hnone : event.executor? = none) : event.Within touched := by
  intro number hnumber
  rw [hnone] at hnumber
  exact nomatch hnumber

theorem Event.within_of_some {touched : Nat → Prop} {event : Event Nat V} {number : Nat}
    (hsome : event.executor? = some number) (htouched : touched number) : event.Within touched := by
  intro other hother
  rw [hsome] at hother
  cases hother
  exact htouched

theorem Writer.write_within (touched : Nat → Prop) (writer : Writer ε) (number : Nat)
    (text : String) :
    ∀ event ∈ (writer.write (V := V) number text).2.1.toList, event.Within touched := by
  intro event hevent
  cases writer with
  | accumulator pieces => exact nomatch hevent
  | console stream =>
      cases List.mem_singleton.mp hevent
      exact Event.within_of_none rfl
  | custom failures writes =>
      cases List.mem_singleton.mp hevent
      exact Event.within_of_none rfl

namespace Store

def executorOf (store : Store V ε) (range : Nat) : Option Nat :=
  store.ranges[range]?.bind Range.executor

def Held (executor : Nat) (store : Store V ε) : Prop :=
  ∃ range, store.executorOf range = some executor

theorem executorOf_put {range : Nat} {store : Store V ε} (hlt : range < store.ranges.size)
    (own : Range Nat V) :
    ((rangeAt range).put own store).executorOf =
      Function.update store.executorOf range own.executor := by
  funext other
  by_cases hsame : other = range
  · subst hsame
    simp [executorOf, rangeAt, hlt]
  · simp [executorOf, rangeAt, hsame, Ne.symm hsame]

theorem executorOf_of_range {range : Nat} {store : Store V ε} {own : Range Nat V}
    (hown : store.ranges[range]? = some own) : store.executorOf range = own.executor := by
  simp [executorOf, hown]

/-- A range that keeps its executor changes nothing about who holds what. -/
theorem executorOf_put_of_same {range : Nat} {before after : Store V ε} {own own' : Range Nat V}
    (hown : before.ranges[range]? = some own) (hsame : SameExecutor own own')
    (hkept : after.executorOf = before.executorOf) :
    ((rangeAt range).put own' after).executorOf = before.executorOf := by
  have hexecutor : own'.executor = before.executorOf range :=
    hsame.executor.trans (executorOf_of_range hown).symm
  by_cases hlt : range < after.ranges.size
  · rw [executorOf_put hlt, hexecutor, hkept, Function.update_eq_self]
  · have hranges : after.ranges.setIfInBounds range own' = after.ranges :=
      Array.setIfInBounds_eq_of_size_le (Nat.le_of_not_lt hlt)
    change ({ after with ranges := after.ranges.setIfInBounds range own' } : Store V ε).executorOf = _
    rw [hranges]
    exact hkept

/-- The relation admits writes, and any change of the sources of the executors in `touched`, with
the events that tell of no others. -/
structure Admits (touched : Nat → Prop) (rel : Store V ε → Store V ε → Prop) : Prop where
  logging : ∀ events store, (∀ event ∈ events, event.Within touched) →
    rel store (store.logging events)
  written : ∀ number own text store, store.writers[number]? = some own →
    rel store ((writerAt number).put (own.write (V := V) number text).1 store)
  script : ∀ number script before after, touched number → rel before after →
    rel before ((scriptOf number).put script after)
  walk : ∀ number walk before after, touched number → rel before after →
    rel before ((walkOf number).put walk after)

section Admits

variable {touched : Nat → Prop} {rel : Store V ε → Store V ε → Prop} [Std.Refl rel]
  [IsTrans (Store V ε) rel] {number : Nat} (hadmits : Admits touched rel)

include hadmits

omit [Std.Refl rel] [IsTrans (Store V ε) rel] in
theorem emit_leads {event : Event Nat V} (hevent : event.Within touched) (store : Store V ε) :
    (emit event).Leads rel store :=
  .of_ok (emit_apply event store) (hadmits.logging _ store (by simpa using hevent))

omit [Std.Refl rel] [IsTrans (Store V ε) rel] in
theorem carryOut_leads {α : Type} (reply : Reply ε α) (store : Store V ε) :
    (carryOut reply).Leads rel store := by
  refine .of_settle (carryOut_apply reply store) (hadmits.logging _ store ?_)
  intro event hevent
  obtain ⟨text, -, rfl⟩ := List.mem_map.mp hevent
  exact Event.within_of_none rfl

theorem write_leads (number : Nat) (text : String) (store : Store V ε) :
    (write number text).Leads rel store := by
  unfold write
  cases hwriter : store.writers[number]? with
  | none =>
      have hread : ((writerAt number).read : Act V ε (Writer ε)) store = .error .missing store :=
        Place.read_of_missing hwriter
      exact .of_error (Action.bind_of_error hread _) (Std.Refl.refl store)
  | some own =>
      refine .of_read (Place.read_of_find hwriter) ?_
      refine .bind (.of_ok (Action.modify_apply _ store) (hadmits.written _ _ text _ hwriter)) ?_
      intro _ store _
      refine .bind (.of_ok (forM_emit_apply _ store)
        (hadmits.logging _ store (own.write_within touched number text))) ?_
      intro _ store _
      split
      · exact Action.leads_pure _
      · exact Action.leads_throw _

theorem trace_leads {message : Act V ε String} (hmessage : ∀ store, message.Leads rel store)
    (tag : String) (store : Store V ε) : (trace tag message).Leads rel store := by
  unfold trace
  refine .of_read (Action.get_apply store) ?_
  split
  · exact .bind (hmessage store) fun text store _ => write_leads hadmits _ _ store
  · exact Action.leads_pure _

theorem askScript_leads (htouched : touched number) (role : Role) (store : Store V ε) :
    (askScript number role).Leads rel store := by
  have hfocus (store : Store V ε) : ((scriptOf number).focus
      (onOwn Script.ask : Action ε (Script V ε × Store V ε) (Step V))).Leads rel store :=
    leads_focus (fun _ _ => leads_onOwn _ _)
      (fun _ script _ _ _ hrel => hadmits.script number script _ _ htouched hrel)
  unfold askScript
  refine .bind (leads_read _ store) ?_
  intro script store _
  split
  · exact hfocus store
  · exact .bind (emit_leads hadmits (Event.within_of_some rfl htouched) store)
      fun _ store _ => hfocus store

theorem releaseScript_leads (htouched : touched number) (role : Role) (store : Store V ε) :
    (releaseScript number role).Leads rel store := by
  have hfocus (store : Store V ε) : ((scriptOf number).focus
      (onOwn Script.release : Action ε (Script V ε × Store V ε) Unit)).Leads rel store :=
    leads_focus (fun _ _ => leads_onOwn _ _)
      (fun _ script _ _ _ hrel => hadmits.script number script _ _ htouched hrel)
  unfold releaseScript
  refine .bind (leads_read _ store) ?_
  intro script store _
  split
  · exact .bind (emit_leads hadmits (Event.within_of_some rfl htouched) store)
      fun _ store _ => hfocus store
  · exact hfocus store

theorem releaseSource_leads (htouched : touched number) (store : Store V ε) :
    (releaseSource number).Leads rel store := by
  unfold releaseSource
  refine .bind (leads_read _ store) ?_
  intro executor store _
  cases executor.source with
  | script script => exact releaseScript_leads hadmits htouched executor.role store
  | walk range walk =>
      exact .of_ok (Action.modify_apply _ store)
        (hadmits.walk number walk.stop _ _ htouched (Std.Refl.refl store))

end Admits

/-- The relation admits also that executors are asked and refill their buffers, and that ranges
change their caches. A buffer at its end stays there. -/
structure Bound (touched : Nat → Prop) (rel : Store V ε → Store V ε → Prop) : Prop
    extends Admits touched rel where
  executorOf : ∀ before after, rel before after → after.executorOf = before.executorOf
  noting : ∀ number store, touched number → store.Held number →
    rel store (store.noting (.ask number))
  buffer : ∀ number buffer buffer' before after, touched number →
    (bufferOf number).find before = some buffer → StaysAtEnd buffer buffer' →
    rel before after → rel before ((bufferOf number).put buffer' after)
  range : ∀ range own own' before after, before.ranges[range]? = some own →
    SameExecutor own own' → rel before after → rel before ((rangeAt range).put own' after)

theorem Bound.held {touched : Nat → Prop} {rel : Store V ε → Store V ε → Prop}
    (hbound : Bound touched rel) {before after : Store V ε} {executor : Nat}
    (hrel : rel before after) (hheld : before.Held executor) : after.Held executor := by
  obtain ⟨range, hrange⟩ := hheld
  exact ⟨range, by rw [hbound.executorOf before after hrel, hrange]⟩

/-- Services that keep within the relation when they are asked for an executor that is held. -/
structure Serves [Textual V ε] (rel : Store V ε → Store V ε → Prop)
    (services : StoreServices V ε) : Prop where
  ask : ∀ executor store, store.Held executor → (services.ask executor).Leads rel store
  trace : services.trace = trace
  text : services.text = text

section Pull

variable {touched : Nat → Prop} {rel : Store V ε → Store V ε → Prop} [Std.Refl rel]
  [IsTrans (Store V ε) rel] (hbound : Bound touched rel)

include hbound

omit [IsTrans (Store V ε) rel] in
theorem focus_range_leads {α : Type} {action : Action ε (Range Nat V × Store V ε) α}
    {range : Nat} {store : Store V ε}
    (haction : ∀ own, store.ranges[range]? = some own →
      action.Leads (Beside SameExecutor rel) (own, store)) :
    ((rangeAt range).focus action).Leads rel store :=
  leads_focus haction fun own own' _ hown hsame hrel =>
    hbound.range range own own' _ _ hown hsame hrel

variable [Textual V ε] {services : StoreServices V ε} (hserves : Serves rel services)

include hserves

theorem pull_leads_of_held {store : Store V ε} {own : Range Nat V}
    (hheld : ∀ executor, own.executor = some executor → store.Held executor) :
    (Range.pull services).Leads (Beside SameExecutor rel) (own, store) := by
  have htrace (message : Act V ε String) (hmessage : ∀ store, message.Leads rel store)
      (store : Store V ε) : (services.trace "pull" message).Leads rel store := by
    rw [hserves.trace]
    exact trace_leads hbound.toAdmits hmessage "pull" store
  refine pull_leads ?_ ?_ ?_
  · intro executor hexecutor
    exact hserves.ask executor store (hheld executor hexecutor)
  · exact htrace _ fun _ => Action.leads_pure _
  · intro value
    rw [hserves.text]
    exact htrace _ fun store => carryOut_leads hbound.toAdmits _ store

theorem range_pull_leads {range : Nat} {store : Store V ε} {own : Range Nat V}
    (hown : store.ranges[range]? = some own) :
    (Range.pull services).Leads (Beside SameExecutor rel) (own, store) :=
  pull_leads_of_held hbound hserves fun _ hexecutor =>
    ⟨range, (executorOf_of_range hown).trans hexecutor⟩

theorem turnOn_leads (range : Nat) (cursor? : Option Cursor) (store : Store V ε) :
    (turnOn services range cursor?).Leads rel store :=
  focus_range_leads hbound fun _ hown => turn_leads cursor? (range_pull_leads hbound hserves hown)

theorem askSource_leads {number : Nat} (htouched : touched number) (store : Store V ε) :
    (askSource services number).Leads rel store := by
  unfold askSource
  refine .bind (leads_read _ store) ?_
  intro executor store _
  cases executor.source with
  | script script => exact askScript_leads hbound.toAdmits htouched executor.role store
  | walk range walk =>
      exact leads_focus
        (fun own _ => walk_next_leads (turnOn_leads hbound hserves range) (own, store))
        (fun _ own' _ _ _ hrel => hbound.walk number own' _ _ htouched hrel)

theorem askExecutor_leads {number : Nat} (htouched : touched number) {store : Store V ε}
    (hnoting : ∀ store', rel store store' → rel store' (store'.noting (.ask number))) :
    (askExecutor services number).Leads rel store := by
  unfold askExecutor
  refine .bind (leads_read _ store) ?_
  intro executor store' hrel
  refine .bind (.of_ok (note_apply _ store') (hnoting store' hrel)) ?_
  intro _ store'' _
  cases executor.stage with
  | none => exact askSource_leads hbound hserves htouched store''
  | some stage =>
      have hnext (own : Buffer V ε) : (Buffer.next (feed services number stage)).Leads
          (Beside Freely rel) (own, store'') :=
        buffer_next_leads (askSource_leads hbound hserves htouched)
          (fun input index store =>
            .bind (emit_leads hbound.toAdmits (Event.within_of_some rfl htouched) store)
              fun _ store _ => carryOut_leads hbound.toAdmits _ store)
          (fun message store => trace_leads hbound.toAdmits (fun _ => Action.leads_pure message)
            "underflow" store) (own, store'')
      exact leads_focus (fun own _ => ⟨buffer_next_stays _ (own, store''), (hnext own).2⟩)
        fun own own' _ hown hstays hrel => hbound.buffer number own own' _ _ htouched hown hstays hrel

end Pull

section Services

variable {touched : Nat → Prop} {rel : Store V ε → Store V ε → Prop} [Std.Refl rel]
  [Textual V ε]

/-- Services keep within the relation as soon as every executor does that such services serve. -/
theorem serves_below_of (bound : Nat)
    (hask : ∀ number < bound, Serves rel (servicesBelow number : StoreServices V ε) →
      ∀ store, store.Held number → (askExecutor (servicesBelow number) number).Leads rel store) :
    Serves rel (servicesBelow bound : StoreServices V ε) where
  ask := by
    induction bound with
    | zero => exact fun _ _ _ => Action.leads_throw _
    | succ bound ih =>
        have hbelow := ih fun number hlt => hask number (Nat.lt_succ_of_lt hlt)
        intro executor store hheld
        by_cases hlast : executor = bound
        · subst hlast
          rw [servicesBelow_ask (Nat.lt_succ_self executor)]
          exact hask executor (Nat.lt_succ_self executor)
            ⟨hbelow, servicesBelow_trace executor, servicesBelow_text executor⟩ store hheld
        · -- Adding executors on top does not change what serves the ones below.
          have hlower : (servicesBelow (bound + 1) : StoreServices V ε).ask executor =
              (servicesBelow bound : StoreServices V ε).ask executor := if_neg hlast
          rw [hlower]
          exact hbelow executor store hheld
  trace := servicesBelow_trace bound
  text := servicesBelow_text bound

theorem serves_below [IsTrans (Store V ε) rel] (hbound : Bound touched rel) (bound : Nat)
    (htouched : ∀ number < bound, touched number) :
    Serves rel (servicesBelow bound : StoreServices V ε) := by
  refine serves_below_of bound fun number hlt hserves store hheld => ?_
  exact askExecutor_leads hbound hserves (htouched number hlt) fun store' hrel =>
    hbound.noting number store' (htouched number hlt) (hbound.held hrel hheld)

end Services

/-! ## Requests -/

section Requests

variable {rel : Store V ε → Store V ε → Prop} [Std.Refl rel] {store : Store V ε}

theorem rangeOfCursor_leads (cursor : Nat) :
    (rangeOfCursor cursor : Act V ε Nat).Leads rel store := by
  cases hentry : store.cursors[cursor]? with
  | none => exact .of_error (rangeOfCursor_of_missing hentry) (Std.Refl.refl store)
  | some entry => exact .of_ok (rangeOfCursor_of_entry hentry) (Std.Refl.refl store)

variable [IsTrans (Store V ε) rel]

/-- Opening a resource leaves an event, and the new executor comes after all others. -/
theorem addBuffered_leads (source : Source V ε) (opening : Option ε)
    (compute : V → Nat → Reply ε V) (size : ChunkSize)
    (hopened : ∀ store, rel store (store.logging [.opened store.executors.size]))
    (hpush : ∀ executor store,
      rel store { store with executors := store.executors.push executor }) :
    (addBuffered source opening compute size).Leads rel store := by
  have hopened (next : Act V ε Nat) (hnext : ∀ store, next.Leads rel store)
      (script : Script V ε) : (do
        unless script.silent do
          emit (.opened store.executors.size)
        next : Act V ε Nat).Leads rel store := by
    split
    · exact hnext store
    · exact .bind (.of_ok (emit_apply _ store) (hopened store)) fun _ store' _ => hnext store'
  unfold addBuffered
  refine .of_read (Action.get_apply store) ?_
  cases opening with
  | some error =>
      cases source with
      | walk range walk => exact Action.leads_throw _
      | script script => exact hopened _ (fun _ => Action.leads_throw _) script
  | none =>
      cases size.capacity with
      | error written =>
          cases source with
          | walk range walk => exact Action.leads_throw _
          | script script => exact hopened _ (fun _ => Action.leads_throw _) script
      | ok capacity =>
          cases source with
          | walk range walk => exact .of_ok rfl (hpush _ store)
          | script script => exact hopened _ (fun store' => .of_ok rfl (hpush _ store')) script

section Cursors

variable [Textual V ε]
  (hnext : ∀ range (cursor : Cursor) store,
    ((rangeAt range).focus (cursor.next store.services)).Leads rel store)
  (hcursors : ∀ cursors store, rel store { store with cursors })

include hnext hcursors

omit [Std.Refl rel] in
theorem start_leads (range : Nat) (store : Store V ε) : (start range).Leads rel store := by
  unfold start
  refine .of_read (Action.get_apply store) ?_
  refine .bind (hnext range _ store) ?_
  intro cursor store' _
  exact .of_read (Action.get_apply store') (.of_ok rfl (hcursors _ store'))

theorem advance_leads (cursor : Nat) (store : Store V ε) : (advance cursor).Leads rel store := by
  unfold advance
  refine .bind (rangeOfCursor_leads cursor) ?_
  intro range store' _
  refine .bind (leads_read _ store') ?_
  intro current store'' _
  refine .of_read (Action.get_apply store'') ?_
  refine .bind (hnext range current store'') ?_
  intro advanced store _
  exact .of_ok (Action.modify_apply _ store) (hcursors _ store)

end Cursors

omit [Std.Refl rel] [IsTrans (Store V ε) rel] in
theorem onFreshWalk_leads {α : Type} {action : Action ε (Walk × Store V ε) α}
    (haction : action.Leads (Beside Freely rel) (.unstarted, store)) :
    (onFreshWalk action).Leads rel store :=
  .of_settle (onFreshWalk_apply action store) haction.2

section Walks

variable (hwalks : ∀ walks before after, rel before after → rel before { after with walks })

include hwalks

theorem stopWalk_leads (walk : Nat) : (stopWalk walk : Act V ε Unit).Leads rel store := by
  unfold stopWalk
  refine .bind (leads_read _ store) ?_
  intro current store' _
  exact .of_ok (Action.modify_apply _ store') (hwalks _ store' store' (Std.Refl.refl store'))

variable {touched : Nat → Prop} (hbound : Bound touched rel) [Textual V ε]
  (hserves : Serves rel store.services)

include hbound hserves

theorem walkOn_leads (walk : Nat) : (walkOn walk).Leads rel store := by
  unfold walkOn
  refine .of_read (Action.get_apply store) ?_
  split
  · exact Action.leads_throw _
  · exact leads_focus
      (fun own _ => walk_next_leads (turnOn_leads hbound hserves _) (own, store))
      fun _ _ _ _ _ hrel => hwalks _ _ _ hrel

end Walks

variable {touched : Nat → Prop} (hbound : Bound touched rel)

include hbound

theorem valueAt_leads (cursor : Nat) : (valueAt cursor : Act V ε V).Leads rel store := by
  unfold valueAt
  refine .bind (rangeOfCursor_leads cursor) ?_
  intro range store' _
  exact focus_range_leads hbound fun own _ => get_leads (own, store')

variable [Textual V ε] (hserves : Serves rel store.services)

include hserves

theorem next_on_range_leads (range : Nat) (cursor : Cursor) :
    ((rangeAt range).focus (cursor.next store.services)).Leads rel store :=
  focus_range_leads hbound fun _ hown =>
    cursor_next_leads cursor (range_pull_leads hbound hserves hown)

end Requests

end Store

end PullRange
