import PullRange.Proofs.Places

/-!
# Scripts at work in a store

What one call of a script does to the store that keeps it: `Store.asking` moves the script on and
notes the call, and leaves everything else alone. The services of a store reach every executor that
there is, and while tracing is off a trace line leaves no mark.
-/

namespace PullRange.Store

variable {V ε : Type}

@[simps]
def noting (call : Call) (store : Store V ε) : Store V ε :=
  { store with calls := store.calls.push call }

@[simps]
def logging (events : List (Event Nat V)) (store : Store V ε) : Store V ε :=
  { store with log := store.log ++ events.toArray }

@[simp]
theorem logging_nil (store : Store V ε) : store.logging [] = store := by
  simp [logging]

@[simp]
theorem emit_apply (event : Event Nat V) (store : Store V ε) :
    emit event store = .ok () (store.logging [event]) := by
  simp [emit, logging]

theorem forM_emit_apply (event : Option (Event Nat V)) (store : Store V ε) :
    (event.forM emit : Act V ε PUnit) store = .ok ⟨⟩ (store.logging event.toList) := by
  cases event with
  | none => simp [logging, Option.forM]
  | some event => exact emit_apply event store

@[simp]
theorem note_apply (call : Call) (store : Store V ε) :
    note call store = .ok () (store.noting call) := rfl

theorem carryOut_apply {α : Type} (reply : Reply ε α) (store : Store V ε) :
    carryOut reply store =
      settle (reply.result.mapError .raised)
        (store.logging (reply.converted.map Event.converted)) := by
  unfold carryOut logging
  simp only [Action.bind_apply, Action.modify_apply]
  cases reply.result <;> rfl

theorem write_apply {writer : Nat} {own : Writer ε} {store : Store V ε}
    (hwriter : store.writers[writer]? = some own) (text : String) :
    let written : Writer ε × Option (Event Nat V) × Option ε := own.write writer text
    write writer text store =
      settle (match written.2.2 with | none => .ok () | some error => .error (.raised error))
        (((writerAt writer).put written.1 store).logging written.2.1.toList) := by
  have hfind : (writerAt writer).find store = some own := hwriter
  intro written
  rw [write, Action.bind_of_ok (Place.read_of_find hfind)]
  change (do
    modify ((writerAt writer).put written.1)
    written.2.1.forM emit
    match written.2.2 with
    | none => return ()
    | some error => throw (.raised error) : Act V ε Unit) store = _
  rw [Action.bind_of_ok (Action.modify_apply _ _), Action.bind_of_ok (forM_emit_apply _ _)]
  cases written.2.2 <;> rfl

theorem write_of_missing {writer : Nat} {store : Store V ε}
    (hwriter : store.writers[writer]? = none) (text : String) :
    write writer text store = .error .missing store :=
  Action.bind_of_error (Place.read_of_missing hwriter) _

theorem trace_of_untraced {store : Store V ε} (huntraced : store.tracing = false) (tag : String)
    (message : Act V ε String) : trace tag message store = .ok () store := by
  simp only [trace, Action.bind_apply, Action.get_apply, huntraced, Bool.false_eq_true, ↓reduceIte,
    Action.pure_apply]

theorem trace_of_traced {store store' : Store V ε} (htraced : store.tracing = true)
    {tag text : String} {message : Act V ε String} (hmessage : message store = .ok text store') :
    trace tag message store = write store.traceWriter (tag ++ ": " ++ text ++ "\n") store' := by
  rw [trace, Action.bind_of_ok (Action.get_apply store), if_pos htraced,
    Action.bind_of_ok hmessage]

section Services

variable [Textual V ε]

@[simp]
theorem servicesBelow_trace (bound : Nat) :
    (servicesBelow bound : StoreServices V ε).trace = trace := by
  induction bound with
  | zero => rfl
  | succ bound ih => exact ih

@[simp]
theorem servicesBelow_text (bound : Nat) :
    (servicesBelow bound : StoreServices V ε).text = text := by
  induction bound with
  | zero => rfl
  | succ bound ih => exact ih

/-- An executor is served by the executors below it, whatever else there is. -/
theorem servicesBelow_ask {number bound : Nat} (hlt : number < bound) :
    (servicesBelow bound : StoreServices V ε).ask number =
      askExecutor (servicesBelow number) number := by
  induction bound with
  | zero => exact absurd hlt (Nat.not_lt_zero number)
  | succ bound ih =>
      by_cases hlast : number = bound
      · subst hlast
        simp [servicesBelow]
      · simpa [servicesBelow, hlast] using ih (by omega)

theorem servicesBelow_release {number bound : Nat} (hlt : number < bound) :
    (servicesBelow bound : StoreServices V ε).release number =
      releaseExecutor (servicesBelow number) number := by
  induction bound with
  | zero => exact absurd hlt (Nat.not_lt_zero number)
  | succ bound ih =>
      by_cases hlast : number = bound
      · subst hlast
        simp [servicesBelow]
      · simpa [servicesBelow, hlast] using ih (by omega)

theorem servicesBelow_of_le {number bound : Nat} (hle : bound ≤ number) :
    (servicesBelow bound : StoreServices V ε).ask number = throw .missing ∧
      (servicesBelow bound : StoreServices V ε).release number = throw .missing := by
  induction bound with
  | zero => exact ⟨rfl, rfl⟩
  | succ bound ih =>
      have hne : number ≠ bound := by omega
      simpa [servicesBelow, hne] using ih (by omega)

end Services

section Asking

variable {store : Store V ε} {number : Nat} {role : Role} {script : Script V ε}
  {stage : Option (Stage V ε)}

@[simps]
def asking (number : Nat) (role : Role) (script : Script V ε) (store : Store V ε) : Store V ε :=
  { store with
    executors := store.executors.modify number fun executor =>
      { executor with source := .script (script.later 1) }
    log := if script.silent then store.log else store.log ++ #[.asked role number] }

theorem askScript_apply
    (hexecutor : store.executors[number]? = some { source := .script script, stage }) :
    askScript number role store =
      settle script.upcoming.answer (store.asking number role script) := by
  have hfind := scriptOf_find hexecutor
  have hlogged (events : List (Event Nat V)) : (store.logging events).executors[number]? =
      some { source := .script script, stage } := hexecutor
  have hasked (events : List (Event Nat V)) := Place.focus_of_settle
    (scriptOf_find (hlogged events)) (onOwn_of_settle script.ask_apply (store.logging events))
  unfold askScript asking
  rw [Action.bind_of_ok (Place.read_of_find hfind)]
  cases hsilent : script.silent with
  | true => exact Place.focus_of_settle hfind (onOwn_of_settle script.ask_apply store)
  | false => exact hasked [.asked role number]

theorem asking_executor
    (hexecutor : store.executors[number]? = some { source := .script script, stage }) :
    (store.asking number role script).executors[number]? =
      some { source := .script (script.later 1), stage } := by
  simp [Array.getElem?_modify, hexecutor]

@[simps]
def releasing (number : Nat) (role : Role) (script : Script V ε) (store : Store V ε) :
    Store V ε :=
  { store with
    executors := store.executors.modify number fun executor =>
      { executor with source := .script script.letGo }
    log := if script.releasing.isSome then store.log ++ #[.released role number] else store.log }

theorem releaseScript_apply
    (hexecutor : store.executors[number]? = some { source := .script script, stage }) :
    releaseScript number role store =
      settle ((script.releasing.getD (.ok ())).mapError .raised)
        (store.releasing number role script) := by
  have hfind := scriptOf_find hexecutor
  have hlogged (events : List (Event Nat V)) : (store.logging events).executors[number]? =
      some { source := .script script, stage } := hexecutor
  have hreleased (events : List (Event Nat V)) := Place.focus_of_settle
    (scriptOf_find (hlogged events)) (onOwn_of_settle script.release_apply (store.logging events))
  unfold releaseScript releasing
  rw [Action.bind_of_ok (Place.read_of_find hfind)]
  cases hreleasing : script.releasing.isSome with
  | true => exact hreleased [.released role number]
  | false => exact Place.focus_of_settle hfind (onOwn_of_settle script.release_apply store)

theorem releasing_executor
    (hexecutor : store.executors[number]? = some { source := .script script, stage }) :
    (store.releasing number role script).executors[number]? =
      some { source := .script script.letGo, stage } := by
  simp [Array.getElem?_modify, hexecutor]

/-- The script of an executor with a buffer serves it as its resource. -/
theorem askSource_of_staged {stage : Stage V ε}
    (hexecutor : store.executors[number]? = some { source := .script script, stage := some stage })
    (services : StoreServices V ε) :
    askSource services number store =
      settle script.upcoming.answer (store.asking number .resource script) := by
  rw [askSource, Action.bind_of_ok (executorAt_read hexecutor)]
  exact askScript_apply hexecutor

theorem releaseSource_of_staged {stage : Stage V ε}
    (hexecutor : store.executors[number]? =
      some { source := .script script, stage := some stage }) :
    releaseSource number store =
      settle ((script.releasing.getD (.ok ())).mapError .raised)
        (store.releasing number .resource script) := by
  rw [releaseSource, Action.bind_of_ok (executorAt_read hexecutor)]
  exact releaseScript_apply hexecutor

end Asking

/-- A computation is noted, and then its conversions are. -/
theorem feed_compute_apply (services : StoreServices V ε) (number : Nat) (stage : Stage V ε)
    (input : V) (index : Nat) (store : Store V ε) :
    (feed services number stage).compute input index store =
      settle ((stage.compute input index).result.mapError .raised)
        (store.logging (.computing number input index ::
          (stage.compute input index).converted.map .converted)) := by
  have hcarried := carryOut_apply (stage.compute input index)
    (store.logging [.computing number input index])
  simp only [logging, Array.append_assoc, List.append_toArray, List.singleton_append] at hcarried
  change (emit _ >>= fun _ => carryOut (stage.compute input index)) store = _
  rw [Action.bind_of_ok (emit_apply _ store)]
  exact hcarried

@[simps! executors ranges cursors walks writers tracing traceWriter log calls]
def pulled (number : Nat) (script : Script V ε) (store : Store V ε) : Store V ε :=
  (store.noting (.ask number)).asking number .executor script

theorem pulled_executor {store : Store V ε} {number : Nat} {script : Script V ε}
    (hexecutor : store.executors[number]? = some { source := .script script }) :
    (store.pulled number script).executors[number]? = some { source := .script (script.later 1) } :=
  asking_executor hexecutor

theorem ask_of_script [Textual V ε] {store : Store V ε} {number bound : Nat}
    {script : Script V ε} (hexecutor : store.executors[number]? = some { source := .script script })
    (hlt : number < bound) :
    (servicesBelow bound : StoreServices V ε).ask number store =
      settle script.upcoming.answer (store.pulled number script) := by
  have hnoted : (store.noting (.ask number)).executors[number]? =
      some { source := .script script } := hexecutor
  rw [servicesBelow_ask hlt, askExecutor, Action.bind_of_ok (executorAt_read hexecutor),
    Action.bind_of_ok (note_apply _ _)]
  simp only [askSource]
  rw [Action.bind_of_ok (executorAt_read hnoted)]
  exact askScript_apply hnoted

theorem askExecutor_of_buffered {store : Store V ε} {number : Nat} {source : Source V ε}
    {stage : Stage V ε}
    (hexecutor : store.executors[number]? = some { source, stage := some stage })
    (services : StoreServices V ε) :
    let next := Buffer.next (feed services number stage)
    let noted := store.noting (.ask number)
    askExecutor services number store =
      settle (next.answer (stage.buffer, noted))
        ((bufferOf number).put (next.after (stage.buffer, noted)).1
          (next.after (stage.buffer, noted)).2) := by
  have hnoted : (store.noting (.ask number)).executors[number]? =
      some { source, stage := some stage } := hexecutor
  rw [askExecutor, Action.bind_of_ok (executorAt_read hexecutor),
    Action.bind_of_ok (note_apply _ _)]
  exact Place.focus_apply (bufferOf_find hnoted) _

theorem releaseExecutor_of_buffered {store : Store V ε} {number : Nat} {source : Source V ε}
    {stage : Stage V ε}
    (hexecutor : store.executors[number]? = some { source, stage := some stage })
    (services : StoreServices V ε) :
    let release := Buffer.release (feed services number stage)
    let noted := store.noting (.release number)
    releaseExecutor services number store =
      settle (release.answer (stage.buffer, noted))
        ((bufferOf number).put (release.after (stage.buffer, noted)).1
          (release.after (stage.buffer, noted)).2) := by
  have hnoted : (store.noting (.release number)).executors[number]? =
      some { source, stage := some stage } := hexecutor
  rw [releaseExecutor, Action.bind_of_ok (executorAt_read hexecutor)]
  exact (Action.bind_of_ok (note_apply _ _) _).trans (Place.focus_apply (bufferOf_find hnoted) _)

/-- The event of a resource that is opened. -/
def openingEvents (script : Script V ε) (number : Nat) : List (Event Nat V) :=
  if script.silent then [] else [.opened number]

theorem addBuffered_of_script (script : Script V ε) (opening : Option ε)
    (compute : V → Nat → Reply ε V) (size : ChunkSize) (store : Store V ε) :
    let opened := store.logging (openingEvents script store.executors.size)
    addBuffered (.script script) opening compute size store =
      match opening with
      | some error => .error (.raised error) opened
      | none =>
          match size.capacity with
          | .error written => .error (.badCapacity written) opened
          | .ok ⟨capacity, capacity_pos⟩ =>
              let stage := { compute, buffer := .empty capacity capacity_pos }
              .ok store.executors.size
                { opened with
                  executors := store.executors.push
                    { source := .script script, stage := some stage } } := by
  intro opened
  unfold addBuffered opened openingEvents
  rw [Action.bind_of_ok (Action.get_apply store)]
  cases hsilent : script.silent with
  | true =>
      simp only [hsilent, ↓reduceIte, logging_nil]
      cases opening with
      | some error => rfl
      | none => cases size.capacity <;> rfl
  | false =>
      simp only [hsilent, Bool.false_eq_true, ↓reduceIte]
      cases opening with
      | some error => exact Action.bind_of_ok (emit_apply _ store) _
      | none =>
          refine (Action.bind_of_ok (emit_apply _ store) _).trans ?_
          cases size.capacity <;> rfl

end PullRange.Store
