import PullRange.Proofs.Driving
import PullRange.Proofs.Records
import PullRange.Value

/-!
# The protocol of a resource

The resource of a buffer is opened once, when the buffer is made. It is asked as long as it has
neither reported done nor been let go, and is let go once at most. The log of a store tells so for a
script that serves as a resource, whatever else goes on in the store. After a buffer has been
released nothing about it changes any more.
-/

namespace PullRange

variable {V ε : Type}

/-- Whether the event is a call of the resource of this executor. -/
def Event.callsResource (number : Nat) : Event Nat V → Bool
  | .opened executor => executor == number
  | .asked .resource executor => executor == number
  | .released .resource executor => executor == number
  | _ => false

def ResourceCall.isAsk : ResourceCall → Bool
  | .ask _ => true
  | .release => false

/-- The events that a call of a script leaves. One that cannot be released is left alone. -/
def ResourceCall.events (script : Script V ε) (number : Nat) : ResourceCall → List (Event Nat V)
  | .ask _ => if script.silent then [] else [.asked .resource number]
  | .release => if script.releasing.isSome then [.released .resource number] else []

namespace Store

/-- The calls of the resource of an executor, in order. -/
def resourceEvents (number : Nat) (store : Store V ε) : List (Event Nat V) :=
  store.log.toList.filter (Event.callsResource number)

theorem filter_eventsOf (number : Nat) (store : Store V ε) :
    (store.eventsOf number).filter (Event.callsResource number) = store.resourceEvents number := by
  unfold eventsOf resourceEvents
  rw [List.filter_filter]
  refine List.filter_congr fun event _ => ?_
  cases event with
  | opened executor => simp [Event.callsResource, Event.executor?]
  | asked role executor => cases role <;> simp [Event.callsResource, Event.executor?]
  | released role executor => cases role <;> simp [Event.callsResource, Event.executor?]
  | _ => rfl

/-- The executor has a buffer over the script, and these calls have been made of the script. -/
structure Recounts (script : Script V ε) (number : Nat) (before : List (Event Nat V))
    (calls : List ResourceCall) (executor : Executor V ε) (events : List (Event Nat V)) :
    Prop where
  buffered : ∃ stage, executor.stage = some stage
  source : ∃ current : Script V ε, executor.source = .script current ∧
    current.silent = script.silent ∧ current.releasing = script.releasing ∧
    current.asked = script.asked + calls.countP ResourceCall.isAsk ∧
    (Open calls → current = script.later calls.length)
  events : events.filter (Event.callsResource number) =
    before ++ calls.flatMap (ResourceCall.events script number)
  reports : ∀ place reportsDone, calls[place]? = some (.ask reportsDone) →
    reportsDone = (script.coming place).isDone

section Recounts

variable {script : Script V ε} {number : Nat} {before : List (Event Nat V)}
  {calls : List ResourceCall}

theorem reportsDone_answer (outcome : Outcome V ε) : reportsDone outcome.answer = outcome.isDone := by
  cases outcome <;> rfl

theorem Knows.recounts {store : Store V ε}
    (hknows : store.Knows number (Recounts script number before calls)) :
    ∃ (current : Script V ε) (stage : Stage V ε),
      store.executors[number]? = some { source := .script current, stage := some stage } ∧
      Recounts script number before calls { source := .script current, stage := some stage }
        (store.eventsOf number) := by
  obtain ⟨⟨source, stage⟩, hexecutor, hrecounts⟩ := hknows
  obtain ⟨stage, rfl⟩ := hrecounts.buffered
  obtain ⟨current, rfl, -⟩ := hrecounts.source
  exact ⟨current, stage, hexecutor, hrecounts⟩

theorem recounts_logging {events : List (Event Nat V)}
    (hapart : ∀ event ∈ events, event.callsResource number = false) {store : Store V ε}
    (hknows : store.Knows number (Recounts script number before calls)) :
    (store.logging events).Knows number (Recounts script number before calls) := by
  obtain ⟨executor, hexecutor, hrecounts⟩ := hknows
  refine ⟨executor, hexecutor, hrecounts.buffered, hrecounts.source, ?_, hrecounts.reports⟩
  rw [filter_eventsOf, ← hrecounts.events, filter_eventsOf]
  have hnone : events.filter (Event.callsResource number) = [] :=
    List.filter_eq_nil_iff.mpr fun event hevent => by simp [hapart event hevent]
  simp [resourceEvents, List.filter_append, hnone]

theorem recounts_ask {current : Script V ε} {stage : Stage V ε} {store : Store V ε}
    (hexecutor : store.executors[number]? =
      some { source := .script current, stage := some stage })
    (hopen : Open calls) (hrecounts : Recounts script number before calls
      { source := .script current, stage := some stage } (store.eventsOf number)) :
    (store.asking number .resource current).Knows number
      (Recounts script number before (calls ++ [.ask current.upcoming.isDone])) := by
  obtain ⟨_, ⟨⟩, hsilent, hreleasing, hasked, hlater⟩ := hrecounts.source
  have hcurrent := hlater hopen
  refine ⟨_, asking_executor hexecutor, ⟨stage, rfl⟩,
    ⟨_, rfl, hsilent, hreleasing, ?_, fun _ => ?_⟩, ?_, ?_⟩
  · rw [List.countP_append, ← Nat.add_assoc, ← hasked]
    rfl
  · rw [hcurrent, Script.later_later, List.length_append]
    rfl
  · have hevents := hrecounts.events
    rw [filter_eventsOf] at hevents ⊢
    rw [List.flatMap_append, ← List.append_assoc, ← hevents]
    unfold resourceEvents
    rw [asking_log, hsilent]
    cases hquiet : script.silent <;> simp [Event.callsResource, ResourceCall.events, hquiet]
  · intro place reported hplace
    rw [List.getElem?_append] at hplace
    split at hplace
    · exact hrecounts.reports place reported hplace
    · obtain ⟨hzero, hcall⟩ := List.getElem?_eq_some_iff.mp hplace
      have hlast : place = calls.length := by
        simp only [List.length_singleton] at hzero
        omega
      subst hlast
      simp only [Nat.sub_self, List.getElem_cons_zero, ResourceCall.ask.injEq] at hcall
      rw [← hcall, hcurrent]
      rfl

theorem recounts_release {current : Script V ε} {stage : Stage V ε} {store : Store V ε}
    (hexecutor : store.executors[number]? =
      some { source := .script current, stage := some stage })
    (hrecounts : Recounts script number before calls
      { source := .script current, stage := some stage } (store.eventsOf number)) :
    (store.releasing number .resource current).Knows number
      (Recounts script number before (calls ++ [.release])) := by
  obtain ⟨_, ⟨⟩, hsilent, hreleasing, hasked, -⟩ := hrecounts.source
  refine ⟨_, releasing_executor hexecutor, ⟨stage, rfl⟩,
    ⟨_, rfl, hsilent, hreleasing, ?_, fun hopen => ?_⟩, ?_, ?_⟩
  · rw [List.countP_append, ← Nat.add_assoc, ← hasked]
    rfl
  · exact nomatch hopen .release (by simp)
  · have hevents := hrecounts.events
    rw [filter_eventsOf] at hevents ⊢
    rw [List.flatMap_append, ← List.append_assoc, ← hevents]
    unfold resourceEvents
    rw [releasing_log, hreleasing]
    cases hsome : script.releasing.isSome <;>
      simp [Event.callsResource, ResourceCall.events, hsome]
  · intro place reported hplace
    rw [List.getElem?_append] at hplace
    split at hplace
    · exact hrecounts.reports place reported hplace
    · have hcall := List.mem_of_getElem? hplace
      simp at hcall

end Recounts

section Obeys

variable [Textual V ε] {script : Script V ε} {number : Nat} {before : List (Event Nat V)}

omit [Textual V ε] in
/-- The log reveals the calls of the script. -/
theorem store_reveals (services : StoreServices V ε) (stage : Stage V ε) :
    (feed services number stage).Reveals fun calls store =>
      store.Knows number (Recounts script number before calls) where
  ask calls store hopen hknows := by
    obtain ⟨current, stage', hexecutor, hrecounts⟩ := hknows.recounts
    have hask : (feed services number stage).ask store = _ :=
      askSource_of_staged hexecutor services
    rw [Action.answer_of_settle hask, Action.after_of_settle hask, reportsDone_answer]
    exact recounts_ask hexecutor hopen hrecounts
  release calls store hopen hknows := by
    obtain ⟨current, stage', hexecutor, hrecounts⟩ := hknows.recounts
    have hrelease : (feed services number stage).release store = _ :=
      releaseSource_of_staged hexecutor
    rw [Action.after_of_settle hrelease]
    exact recounts_release hexecutor hrecounts
  compute calls store input index hknows := by
    have hcompute : (feed services number stage).compute input index store = _ :=
      (Action.bind_of_ok (emit_apply _ store) _).trans (carryOut_apply _ _)
    rw [Action.after_of_settle hcompute]
    refine recounts_logging ?_ (recounts_logging ?_ hknows)
    · intro event hevent
      obtain ⟨text, -, rfl⟩ := List.mem_map.mp hevent
      rfl
    · intro event hevent
      cases List.mem_singleton.mp hevent
      rfl
  trace calls store message hknows :=
    Respects.keeps
      (trace_leads (respects_bound number (Recounts script number before calls)).toAdmits
        (fun _ => Action.leads_pure message) "underflow" store) hknows

/-- The script is driven within its protocol, and the buffer abides by what it has called. -/
def Obeys (script : Script V ε) (number : Nat) (before : List (Event Nat V)) : Knowledge V ε :=
  fun executor events => ∃ calls stage, Recounts script number before calls executor events ∧
    executor.stage = some stage ∧ stage.buffer.Abides calls

omit [Textual V ε] in
theorem obeys_putBuffer {calls : List ResourceCall} {store : Store V ε} {buffer : Buffer V ε}
    (hknows : store.Knows number (Recounts script number before calls))
    (habides : buffer.Abides calls) :
    ((bufferOf number).put buffer store).Knows number (Obeys script number before) := by
  obtain ⟨current, ⟨compute, old⟩, hexecutor, hrecounts⟩ := hknows.recounts
  refine ⟨_, bufferOf_put_executor hexecutor, calls, _, ?_, rfl, habides⟩
  exact ⟨⟨_, rfl⟩, hrecounts.source, hrecounts.events, hrecounts.reports⟩

theorem obeys_lasting (script : Script V ε) (number : Nat) (before : List (Event Nat V)) :
    Lasting number (Obeys script number before) where
  ask store := by
    rintro ⟨⟨source, _⟩, hexecutor, calls, stage, hrecounts, ⟨⟩, habides⟩
    rw [Action.after_of_settle (askExecutor_of_buffered hexecutor _)]
    have hnoted : (store.noting (.ask number)).Knows number
        (Recounts script number before calls) := ⟨_, hexecutor, hrecounts⟩
    obtain ⟨calls', hknows', habides'⟩ :=
      Buffer.next_abides (store_reveals (servicesBelow number) stage) hnoted habides
    exact obeys_putBuffer hknows' habides'
  release store := by
    rintro ⟨⟨source, _⟩, hexecutor, calls, stage, hrecounts, ⟨⟩, habides⟩
    rw [Action.after_of_settle (releaseExecutor_of_buffered hexecutor _)]
    have hnoted : (store.noting (.release number)).Knows number
        (Recounts script number before calls) := ⟨_, hexecutor, hrecounts⟩
    obtain ⟨calls', hknows', habides'⟩ :=
      Buffer.release_abides (store_reveals (servicesBelow number) stage) hnoted habides
    exact obeys_putBuffer hknows' habides'

end Obeys

section Making

/-- The resource is opened once, whether or not a buffer comes of it. -/
theorem resourceEvents_addBuffered (script : Script V ε) (opening : Option ε)
    (compute : V → Nat → Reply ε V) (size : ChunkSize) (store : Store V ε) :
    let number := store.executors.size
    ((addBuffered (.script script) opening compute size).after store).resourceEvents number =
      store.resourceEvents number ++ openingEvents script number := by
  intro number
  have hopened : (store.logging (openingEvents script number)).resourceEvents number =
      store.resourceEvents number ++ openingEvents script number := by
    unfold openingEvents
    cases script.silent <;> simp [resourceEvents, Event.callsResource]
  rw [← hopened]
  unfold Action.after
  rw [addBuffered_of_script]
  cases opening with
  | some error => rfl
  | none =>
      cases size.capacity with
      | error written => rfl
      | ok capacity => rfl

theorem obeys_addBuffered {script : Script V ε} {store : Store V ε} {opening : Option ε}
    {compute : V → Nat → Reply ε V} {size : ChunkSize} {number : Nat} {made : Store V ε}
    (hmade : addBuffered (.script script) opening compute size store = .ok number made) :
    number = store.executors.size ∧
      made.Knows number (Obeys script number (made.resourceEvents number)) := by
  rw [addBuffered_of_script] at hmade
  cases opening with
  | some error => exact nomatch hmade
  | none =>
      cases hcapacity : size.capacity with
      | error written =>
          rw [hcapacity] at hmade
          exact nomatch hmade
      | ok capacity =>
          rw [hcapacity] at hmade
          cases hmade
          refine ⟨rfl, _, Array.getElem?_push_size, [], _, ?_, rfl, List.Pairwise.nil, fun _ => nofun⟩
          refine ⟨⟨_, rfl⟩, ⟨script, rfl, rfl, rfl, rfl, fun _ => rfl⟩, ?_, nofun⟩
          rw [filter_eventsOf]
          exact (List.append_nil _).symm

end Making

/-! ## After a release -/

/-- The buffer is at its end, and this is all that it has consumed and all that is told of it. -/
def Retired (consumed : Nat) (told : List (Event Nat V)) : Knowledge V ε := fun executor events =>
  (∃ stage, executor.stage = some stage ∧ stage.buffer.isEof ∧ stage.buffer.consumed = consumed) ∧
    events = told

section Retired

variable {number consumed : Nat} {told : List (Event Nat V)}

theorem retired_putBuffer {store : Store V ε} {executor : Executor V ε} {buffer : Buffer V ε}
    (hexecutor : store.executors[number]? = some executor) (hbuffered : executor.stage.isSome)
    (heof : buffer.isEof) :
    ((bufferOf number).put buffer store).Knows number
      (Retired buffer.consumed (store.eventsOf number)) := by
  obtain ⟨source, stage?⟩ := executor
  obtain ⟨⟨compute, old⟩, rfl⟩ := Option.isSome_iff_exists.mp hbuffered
  exact ⟨_, bufferOf_put_executor hexecutor, ⟨_, rfl, heof, rfl⟩, rfl⟩

variable [Textual V ε]

theorem ask_of_retired {store : Store V ε} (hknows : store.Knows number (Retired consumed told)) :
    ∃ store', store'.Knows number (Retired consumed told) ∧
      askExecutor (servicesBelow number) number store = settle (.ok (.done none)) store' := by
  obtain ⟨⟨source, _⟩, hexecutor, ⟨stage, ⟨⟩, heof, rfl⟩, rfl⟩ := hknows
  let feed := feed (servicesBelow number) number stage
  have hnext : Buffer.next feed (stage.buffer, store.noting (.ask number)) =
      settle (.ok (.done none)) _ := buffer_next_of_isEof heof feed _
  have hstays := buffer_next_stays feed (stage.buffer, store.noting (.ask number)) heof
  rw [Action.after_of_settle hnext] at hstays
  have hnoted : (store.noting (.ask number)).executors[number]? =
      some { source, stage := some stage } := hexecutor
  have hretired := retired_putBuffer hnoted rfl hstays
  refine ⟨_, hretired, ?_⟩
  rw [askExecutor_of_buffered hexecutor, Action.answer_of_settle hnext,
    Action.after_of_settle hnext]

theorem release_of_retired {store : Store V ε}
    (hknows : store.Knows number (Retired consumed told)) :
    ∃ store', store'.Knows number (Retired consumed told) ∧
      releaseExecutor (servicesBelow number) number store = settle (.ok ()) store' := by
  obtain ⟨⟨source, _⟩, hexecutor, ⟨stage, ⟨⟩, heof, rfl⟩, rfl⟩ := hknows
  obtain ⟨hheld, -, -⟩ := (Buffer.isEof_iff _).mp heof
  have hrelease (rest : Store V ε) : Buffer.release (feed (servicesBelow number) number stage)
      (stage.buffer, rest) = settle (.ok ()) (stage.buffer.dropped, rest) :=
    Buffer.release_of_not_held _ hheld
  have hnoted : (store.noting (.release number)).executors[number]? =
      some { source, stage := some stage } := hexecutor
  have hretired := retired_putBuffer hnoted rfl stage.buffer.dropped_isEof
  refine ⟨_, hretired, ?_⟩
  rw [releaseExecutor_of_buffered hexecutor, Action.answer_of_settle (hrelease _),
    Action.after_of_settle (hrelease _)]

theorem retired_lasting (number consumed : Nat) (told : List (Event Nat V)) :
    Lasting number (Retired consumed told : Knowledge V ε) where
  ask store := by
    intro hknows
    obtain ⟨store', hknows', hask⟩ := ask_of_retired hknows
    rwa [Action.after_of_settle hask]
  release store := by
    intro hknows
    obtain ⟨store', hknows', hrelease⟩ := release_of_retired hknows
    rwa [Action.after_of_settle hrelease]

/-- Whether or not letting go of the resource fails. -/
theorem retired_of_releaseExecutor {store : Store V ε} {source : Source V ε} {stage : Stage V ε}
    (hexecutor : store.executors[number]? = some { source, stage := some stage }) :
    let released := (releaseExecutor (servicesBelow number) number).after store
    released.Knows number (Retired stage.buffer.consumed (released.eventsOf number)) := by
  intro released
  let release := Buffer.release (feed (servicesBelow number) number stage)
  let noted := store.noting (.release number)
  have hreleased : released = (bufferOf number).put stage.buffer.dropped
      (release.after (stage.buffer, noted)).2 := by
    have happly := Action.after_of_settle
      (releaseExecutor_of_buffered hexecutor (servicesBelow number))
    rwa [Buffer.release_own] at happly
  have helapses : noted.Elapses (release.after (stage.buffer, noted)).2 :=
    (buffer_release_leads
      (fun store => releaseSource_leads elapses_bound.toAdmits trivial store)
      (stage.buffer, noted)).2
  obtain ⟨executor, hexecutor', hages⟩ := helapses.ages number _ hexecutor
  rw [hreleased]
  exact retired_putBuffer hexecutor' hages.buffered stage.buffer.dropped_isEof

end Retired

/-- The entry releases the executor, by itself or together with a range that holds it. -/
def Entry.Retires (number : Nat) (store : Store V ε) : Entry V ε → Prop
  | .perform (.release executor) => executor = number
  | .perform (.close range) => store.executorOf range = some number
  | _ => False

section Runs

variable [Textual V ε] {store : Store V ε} {number : Nat}

theorem retired_of_entry {source : Source V ε} {stage : Stage V ε}
    (hexecutor : store.executors[number]? = some { source, stage := some stage })
    {entry : Entry V ε} (hretires : entry.Retires number store) :
    (entry.after store).Knows number
      (Retired stage.buffer.consumed ((entry.after store).eventsOf number)) := by
  have hservices : ((store.services.release number).after store).Knows number
      (Retired stage.buffer.consumed
        (((store.services.release number).after store).eventsOf number)) := by
    unfold services
    rw [servicesBelow_release (lt_size_of_executor hexecutor)]
    exact retired_of_releaseExecutor hexecutor
  unfold Entry.Retires at hretires
  split at hretires
  · next executor =>
      subst hretires
      have hafter : Entry.after store (.perform (.release executor)) =
          (store.services.release executor).after store :=
        Action.after_of_settle (Action.map_of_settle _ ((release executor).apply_eq_settle store))
      rw [hafter]
      exact hservices
  · next range =>
      obtain ⟨own, hown, hholds⟩ := Option.bind_eq_some_iff.mp hretires
      have hafter : Entry.after store (.perform (.close range)) = (close range).after store :=
        Action.after_of_settle (Action.map_of_settle _ ((close range).apply_eq_settle store))
      rw [hafter, (close_after hown hholds).2]
      exact hservices
  · exact hretires.elim

omit [Textual V ε] in
/-- The calls of an orderly script, as they stand in the log. -/
theorem Obeys.events {number : Nat} {script : Script V ε} {before events : List (Event Nat V)}
    {executor : Executor V ε} (hobeys : Obeys script number before executor events) :
    ∃ (current : Script V ε) (asked : Nat) (released : Bool),
      executor.source = .script current ∧ current.asked = script.asked + asked ∧
      events.filter (Event.callsResource number) =
        before ++ (if script.silent then [] else List.replicate asked (.asked .resource number)) ++
          (if released then [.released .resource number] else []) ∧
      ∀ call < asked, (script.coming call).isDone → call + 1 = asked ∧ released = false := by
  obtain ⟨calls, stage, hrecounts, -, habides⟩ := hobeys
  obtain ⟨current, hsource, -, -, hasked, -⟩ := hrecounts.source
  obtain ⟨asked, last, hcalls⟩ := orderly_iff.mp habides.orderly
  have hasks :
      (List.replicate asked (.ask false)).flatMap (ResourceCall.events script number) =
        if script.silent then [] else List.replicate asked (.asked .resource number) := by
    cases hsilent : script.silent <;>
      simp [ResourceCall.events, List.flatMap_replicate, hsilent]
  have hearlier (call : Nat) (hlt : call < asked) : (script.coming call).isDone = false := by
    refine (hrecounts.reports call false ?_).symm
    rw [hcalls, List.getElem?_append_left (by simpa using hlt)]
    simp [hlt]
  have hevents := hrecounts.events
  rw [hcalls, List.flatMap_append, hasks, ← List.append_assoc] at hevents
  rw [hcalls, List.countP_append] at hasked
  cases last with
  | none =>
      refine ⟨current, asked, false, hsource, ?_, hevents, fun call hlt hdone => ?_⟩
      · simpa [ResourceCall.isAsk, List.countP_replicate] using hasked
      · rw [hearlier call hlt] at hdone
        exact nomatch hdone
  | some last =>
      cases last with
      | release =>
          refine ⟨current, asked, script.releasing.isSome, hsource, ?_, ?_, fun call hlt hdone => ?_⟩
          · simpa [ResourceCall.isAsk, List.countP_replicate] using hasked
          · rw [hevents]
            simp [ResourceCall.events]
          · rw [hearlier call hlt] at hdone
            exact nomatch hdone
      | ask reportsDone =>
          refine ⟨current, asked + 1, false, hsource, ?_, ?_, fun call hlt hdone => ⟨?_, rfl⟩⟩
          · simpa [ResourceCall.isAsk, List.countP_replicate] using hasked
          · rw [hevents, List.replicate_succ']
            cases hsilent : script.silent <;> simp [ResourceCall.events, hsilent]
          · by_contra hbefore
            rw [hearlier call (by omega)] at hdone
            exact nomatch hdone

/-- **A resource is driven within its protocol.** In every run of a buffer each call of the resource
but the last is a question that is not answered with the report that it is done. Once the buffer is
released, whether or not that fails, every call answers that nothing is left, nothing is called, and
nothing more is consumed. In a store the resource is opened when the buffer is made, and only then,
and whatever else goes on there, it is asked and let go by the same rule. -/
theorem resource_protocol {I R ω : Type} {capacity : Nat} (hpos : 0 < capacity)
    (feed : Feed I R ε ω) (state : ω) (calls later : List BufferCall) (script : Script V ε)
    (opening : Option ε) (compute : V → Nat → Reply ε V) (size : ChunkSize)
    (origin : Store V ε) (entries further : List (Entry V ε)) :
    let fresh : Buffer R ε := .empty capacity hpos
    let reached := BufferCall.run feed.watched calls (fresh, state, [])
    let dropped := (Buffer.release feed.watched).after reached
    let number := origin.executors.size
    let made := (addBuffered (.script script) opening compute size).after origin
    let store := Entry.run entries made
    (BufferCall.answers feed.watched calls (fresh, state, []) =
        BufferCall.answers feed calls (fresh, state) ∧
      reached.1 = (BufferCall.run feed calls (fresh, state)).1) ∧
    Orderly (reached.2.2.filterMap Contact.call?) ∧
    (BufferCall.answers feed.watched later dropped = later.map BufferCall.atEnd ∧
      (BufferCall.run feed.watched later dropped).2 = dropped.2 ∧
      (BufferCall.run feed.watched later dropped).1.consumed = reached.1.consumed) ∧
    made.resourceEvents number =
      origin.resourceEvents number ++ (if script.silent then [] else [.opened number]) ∧
    (∀ executor, (addBuffered (.script script) opening compute size).answer origin = .ok executor →
      executor = number ∧ ((bufferOf number).find store).isSome ∧
      ∃ (current : Script V ε) (asked : Nat) (released : Bool),
        store.executors[number]?.map Executor.source = some (.script current) ∧
        current.asked = script.asked + asked ∧
        store.resourceEvents number = made.resourceEvents number ++
          (if script.silent then [] else List.replicate asked (.asked .resource number)) ++
          (if released then [.released .resource number] else []) ∧
        ∀ call < asked, (script.coming call).isDone → call + 1 = asked ∧ released = false) ∧
    ∀ (executor : Nat) (entry : Entry V ε), entry.Retires executor store →
      ((bufferOf executor).find store).isSome →
      let retired := entry.after store
      let outcome := Entry.run further retired
      outcome.eventsOf executor = retired.eventsOf executor ∧
      ((bufferOf executor).find outcome).map Buffer.consumed =
        ((bufferOf executor).find store).map Buffer.consumed ∧
      (ask executor).answer outcome = .ok (.done none) ∧
      (release executor).answer outcome = .ok () := by
  intro fresh reached dropped number made store
  refine ⟨BufferCall.run_watched feed calls fresh state [], ?_, ?_, ?_, ?_, ?_⟩
  · have hfresh : fresh.Abides [] := ⟨List.Pairwise.nil, fun _ => nofun⟩
    obtain ⟨resourceCalls, hat, habides⟩ : ∃ resourceCalls,
        reached.2.2.filterMap Contact.call? = resourceCalls ∧ reached.1.Abides resourceCalls :=
      BufferCall.abides_run (watched_reveals feed) calls rfl hfresh
    rw [hat]
    exact habides.orderly
  · have heof : dropped.1.isEof := by
      rw [Buffer.release_own]
      exact reached.1.dropped_isEof
    obtain ⟨buffer, -, hrun, hanswers⟩ := BufferCall.run_of_isEof heof later dropped.2
    have hresumed : BufferCall.run feed.watched later dropped = (buffer, dropped.2) := hrun
    refine ⟨hanswers, by rw [hresumed], ?_⟩
    rw [BufferCall.consumed_run_of_isEof feed.watched heof later dropped.2, Buffer.release_own]
    rfl
  · exact resourceEvents_addBuffered script opening compute size origin
  · intro executor hmade
    obtain ⟨made', haction⟩ : ∃ made',
        addBuffered (.script script) opening compute size origin = .ok executor made' :=
      ⟨_, (Action.apply_eq_settle _ origin).trans (by rw [hmade]; rfl)⟩
    have hmade' : made = made' := Action.after_of_ok haction
    subst hmade'
    obtain ⟨hnumber, hobeys⟩ := obeys_addBuffered haction
    obtain ⟨found, hexecutor, hobeys⟩ :=
      Knows.run (obeys_lasting script executor _) hobeys entries
    subst hnumber
    obtain ⟨current, asked, released, hsource, hasked, hevents, hreports⟩ := hobeys.events
    rw [filter_eventsOf] at hevents
    obtain ⟨_, stage, -, hstage, -⟩ := hobeys
    have hfind : (bufferOf number).find store = some stage.buffer :=
      bufferOf_find_of_stage hexecutor hstage
    refine ⟨rfl, by rw [hfind]; rfl, current, asked, released, ?_, hasked, hevents, hreports⟩
    exact (congrArg (Option.map Executor.source) hexecutor).trans (congrArg some hsource)
  · intro executor entry hretires hbuffered retired outcome
    obtain ⟨buffer, hfind⟩ := Option.isSome_iff_exists.mp hbuffered
    obtain ⟨source, stage, hexecutor, rfl⟩ := executor_of_bufferOf_find hfind
    have hretired : outcome.Knows executor
        (Retired stage.buffer.consumed (retired.eventsOf executor)) :=
      Knows.run (retired_lasting executor _ _) (retired_of_entry hexecutor hretires) further
    obtain ⟨store', -, hask⟩ := ask_of_retired hretired
    obtain ⟨store'', -, hrelease⟩ := release_of_retired hretired
    obtain ⟨found, hfound, ⟨stage', hstage', -, hconsumed⟩, hevents⟩ := hretired
    have hlt := lt_size_of_executor hfound
    refine ⟨hevents, ?_, ?_, ?_⟩
    · rw [bufferOf_find_of_stage hfound hstage', hfind, Option.map_some, hconsumed,
        Option.map_some]
    · rw [← servicesBelow_ask hlt] at hask
      exact Action.answer_of_settle (Action.bind_of_ok (Action.get_apply outcome) _ |>.trans hask)
    · rw [← servicesBelow_release hlt] at hrelease
      exact Action.answer_of_settle
        (Action.bind_of_ok (Action.get_apply outcome) _ |>.trans hrelease)

/-- It fails once on the way, and again when it is let go. -/
def brittle : Script Value Thrown :=
  .ofOutcomes [.yield .null, .fail (.value .null), .done none] (some (.error (.value .null)))

theorem resource_protocol_after_failed_release :
    let made := (addBuffered (.script brittle) none (fun input _ => .pure input)
      (.number (.integer 2))).after initial
    let store := Entry.run [.perform (.makeRange (some 0)), .perform (.start 0)] made
    let retired := Entry.after store (.perform (.close 0))
    let outcome := Entry.run [.perform (.ask 0), .perform (.release 0)] retired
    made.resourceEvents 0 = [.opened 0] ∧
    ((bufferOf 0).find store).isSome ∧ outcome.eventsOf 0 = retired.eventsOf 0 ∧
    (ask 0).answer outcome = .ok (.done none) := by
  intro made store retired outcome
  obtain ⟨-, -, -, hopened, hobeys, hretired⟩ :=
    resource_protocol (by decide : 0 < 2)
      (feed (initial : Store Value Thrown).services 0
        { compute := fun input _ => .pure input, buffer := .empty 2 (by decide) })
      initial [] [] brittle none (fun input _ => .pure input) (.number (.integer 2)) initial
      [.perform (.makeRange (some 0)), .perform (.start 0)]
      [.perform (.ask 0), .perform (.release 0)]
  obtain ⟨-, hbuffered, -⟩ := hobeys 0 rfl
  obtain ⟨hevents, -, hask, -⟩ := hretired 0 (.perform (.close 0)) rfl hbuffered
  exact ⟨hopened, hbuffered, hevents, hask⟩

end Runs

end Store

end PullRange
