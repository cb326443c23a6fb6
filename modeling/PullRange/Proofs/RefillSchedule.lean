import PullRange.Proofs.ChunkedAnswers
import PullRange.Proofs.Printing
import PullRange.Proofs.Records
import PullRange.Proofs.Refills

/-!
# The refill schedule of a buffer in a store

A buffer over a script that brings its inputs and is then done is asked again and again. Between the
calls `Underway` tells how far it has read ahead, what its executor has left in the log, and what
the trace has got; one call makes `Underway calls` into `Underway (calls + 1)`. The trace may be on
or off, as long as its writer does not fail.
-/

namespace PullRange.Store

variable {V ε : Type}

/-- Tracing is as it was in `origin`, and the trace has got the lines since. -/
structure Traces (origin : Store V ε) (lines : List String) (store : Store V ε) : Prop where
  tracing : store.tracing = origin.tracing
  traceWriter : store.traceWriter = origin.traceWriter
  reliable : store.tracing = true → store.Reliable store.traceWriter
  received : store.tracing = true →
    store.received store.traceWriter = origin.received origin.traceWriter ++ lines

section Traces

variable {origin store store' : Store V ε} {lines : List String}

theorem Traces.refl (hreliable : store.tracing = true → store.Reliable store.traceWriter) :
    store.Traces [] store :=
  ⟨rfl, rfl, hreliable, fun _ => (List.append_nil _).symm⟩

/-- What does not write leaves the trace alone. -/
theorem Traces.of_quiet (htraces : origin.Traces lines store)
    (htracing : store'.tracing = store.tracing)
    (htraceWriter : store'.traceWriter = store.traceWriter)
    (hwriters : store'.writers = store.writers)
    (hreceived : ∀ writer, store'.received writer = store.received writer) :
    origin.Traces lines store' where
  tracing := htracing.trans htraces.tracing
  traceWriter := htraceWriter.trans htraces.traceWriter
  reliable := by
    intro htraced
    rw [htracing] at htraced
    rw [htraceWriter, Reliable, hwriters]
    exact htraces.reliable htraced
  received := by
    intro htraced
    rw [htracing] at htraced
    rw [htraceWriter, hreceived, htraces.received htraced]

theorem Traces.logging (htraces : origin.Traces lines store) {events : List (Event Nat V)}
    (hquiet : ∀ event ∈ events, event.isWrite = false) :
    origin.Traces lines (store.logging events) :=
  htraces.of_quiet rfl rfl rfl fun _ => received_logging_of_quiet hquiet

/-- Only writers and the log have changed, and no new event tells of an executor. -/
structure Undisturbed (before after : Store V ε) : Prop where
  executors : after.executors = before.executors
  ranges : after.ranges = before.ranges
  calls : after.calls = before.calls
  events : ∀ number, after.eventsOf number = before.eventsOf number

/-- A line is received whole, if tracing is on. -/
theorem Traces.trace (htraces : origin.Traces lines store) (tag : String)
    {message : Act V ε String} {text : String} {events : List (Event Nat V)}
    (hmessage : message store = .ok text (store.logging events))
    (hquiet : ∀ event ∈ events, event.isWrite = false)
    (hnone : ∀ event ∈ events, event.executor? = none) :
    ∃ store', Store.trace tag message store = .ok () store' ∧ store.Undisturbed store' ∧
      origin.Traces (lines ++ [traceLine tag text]) store' := by
  cases htracing : store.tracing with
  | false =>
      have huntraced : store.tracing ≠ true := by rw [htracing]; decide
      refine ⟨store, trace_of_untraced htracing tag message, ⟨rfl, rfl, rfl, fun _ => rfl⟩, ?_⟩
      exact ⟨htraces.tracing, htraces.traceWriter, htraces.reliable,
        fun htraced => absurd htraced huntraced⟩
  | true =>
      have hlogged := htraces.logging hquiet
      obtain ⟨own, hwriter, hown⟩ := hlogged.reliable htracing
      obtain ⟨hwrite, hreliable, hreceived⟩ :=
        write_of_reliable hwriter hown (traceLine tag text)
      refine ⟨_, (trace_of_traced htracing hmessage).trans hwrite, ⟨rfl, rfl, rfl, ?_⟩, ?_⟩
      · intro number
        rw [eventsOf_logging_of_within (own.write_within (· ≠ number) _ _)]
        exact eventsOf_logging_of_within
          (fun event hevent => Event.within_of_none (hnone event hevent)) store
      · refine ⟨htraces.tracing, htraces.traceWriter, fun _ => hreliable, fun _ => ?_⟩
        refine hreceived.trans ?_
        rw [hlogged.received htracing, List.append_assoc]

theorem Traces.trace_pure (htraces : origin.Traces lines store) (tag text : String) :
    ∃ store', Store.trace tag (pure text) store = .ok () store' ∧ store.Undisturbed store' ∧
      origin.Traces (lines ++ [traceLine tag text]) store' := by
  have hmessage : (pure text : Act V ε String) store = .ok text (store.logging []) := by
    rw [logging_nil]
    rfl
  exact htraces.trace tag hmessage nofun nofun

end Traces

/-- The events of so many calls of the resource. -/
def intakeEvents (number : Nat) (silent : Bool) (inputs : List V) (asked : Nat) :
    List (Event Nat V) :=
  (List.range asked).flatMap fun index =>
    (if silent then [] else [.asked .resource number]) ++
      (inputs[index]?.map fun input => .computing number input index).toList

def isComputing : Event Nat V → Bool
  | .computing _ _ _ => true
  | _ => false

theorem intakeEvents_succ (number : Nat) (silent : Bool) (inputs : List V) (asked : Nat) :
    intakeEvents number silent inputs (asked + 1) =
      intakeEvents number silent inputs asked ++
        ((if silent then [] else [.asked .resource number]) ++
          (inputs[asked]?.map fun input => .computing number input asked).toList) := by
  simp [intakeEvents, List.range_succ]

theorem countP_computing_intakeEvents (number : Nat) (silent : Bool) (inputs : List V)
    (asked : Nat) :
    (intakeEvents number silent inputs asked).countP isComputing = min inputs.length asked := by
  induction asked with
  | zero => simp [intakeEvents]
  | succ asked ih =>
      rw [intakeEvents_succ, List.countP_append, ih, List.countP_append]
      have hasked : (if silent then [] else
          [Event.asked .resource number] : List (Event Nat V)).countP isComputing = 0 := by
        cases silent <;> rfl
      rw [hasked]
      by_cases hlt : asked < inputs.length
      · simp [hlt, isComputing]
        omega
      · simp [hlt]
        omega

/-- The computation brings the results, input by input. -/
def Computes (compute : V → Nat → Reply ε V) (inputs results : List V) : Prop :=
  inputs.zipIdx.map (fun entry => (compute entry.1 entry.2).result) = results.map .ok

section Computes

variable {compute : V → Nat → Reply ε V} {inputs results : List V}

theorem Computes.length_eq (hcomputes : Computes compute inputs results) :
    inputs.length = results.length := by
  simpa using congrArg List.length hcomputes

theorem Computes.input_of_result (hcomputes : Computes compute inputs results) {index : Nat}
    {result : V} (hresult : results[index]? = some result) :
    ∃ input, inputs[index]? = some input ∧ (compute input index).result = .ok result := by
  have hat := congrArg (·[index]?) hcomputes
  simp only [List.getElem?_map, List.getElem?_zipIdx, hresult, Option.map_some] at hat
  cases hinput : inputs[index]? with
  | none => simp [hinput] at hat
  | some input =>
      rw [hinput] at hat
      simp only [Option.map_some, Nat.zero_add, Option.some.injEq] at hat
      exact ⟨input, rfl, hat⟩

end Computes

/-- Since `origin`, the script of executor `number` has been asked so many times, the computations
on its inputs have been noted in their order, and the trace has got the lines. -/
structure Steady (origin : Store V ε) (number : Nat) (script : Script V ε)
    (compute : V → Nat → Reply ε V) (inputs : List V) (asked : Nat) (lines : List String)
    (store : Store V ε) : Prop extends origin.Traces lines store where
  executor : ∃ buffer,
    store.executors[number]? = some
      { source := .script (script.later asked), stage := some { compute, buffer } }
  events : store.eventsOf number =
    origin.eventsOf number ++ intakeEvents number script.silent inputs asked
  size : store.ranges.size = origin.ranges.size

section Steady

variable {origin store store' : Store V ε} {number asked : Nat} {script : Script V ε}
  {compute : V → Nat → Reply ε V} {inputs results : List V} {lines : List String}

theorem Steady.of_undisturbed
    (hsteady : origin.Steady number script compute inputs asked lines store)
    (hsame : store.Undisturbed store') {lines' : List String}
    (htraces : origin.Traces lines' store') :
    origin.Steady number script compute inputs asked lines' store' where
  toTraces := htraces
  executor := hsame.executors ▸ hsteady.executor
  events := (hsame.events number).trans hsteady.events
  size := hsame.ranges ▸ hsteady.size

/-- The script is asked. The events of the computation are still missing. -/
theorem Steady.ask (hsteady : origin.Steady number script compute inputs asked lines store)
    (services : StoreServices V ε) :
    ∃ store', askSource services number store = settle (script.coming asked).answer store' ∧
      origin.Traces lines store' ∧ store'.ranges.size = origin.ranges.size ∧
      (∃ buffer, store'.executors[number]? = some
        { source := .script (script.later (asked + 1)), stage := some { compute, buffer } }) ∧
      store'.eventsOf number = origin.eventsOf number ++
        intakeEvents number script.silent inputs asked ++
          (if script.silent then [] else [.asked .resource number]) := by
  obtain ⟨buffer, hexecutor⟩ := hsteady.executor
  refine ⟨_, askSource_of_staged hexecutor services, ?_, hsteady.size, ⟨buffer, ?_⟩, ?_⟩
  · exact hsteady.toTraces.of_quiet rfl rfl rfl fun writer => received_asking .resource store
  · rw [asking_executor hexecutor, Script.later_later]
  · rw [← hsteady.events]
    have hsilent : (script.later asked).silent = script.silent := rfl
    rw [eventsOf, asking_log, hsilent]
    cases script.silent with
    | true => simp [eventsOf]
    | false => simp [eventsOf, Event.executor?]

theorem steady_flows {parting : Option V} (hruns : script.Runs (.done parting) inputs)
    (hcomputes : Computes compute inputs results)
    (origin : Store V ε) (services : StoreServices V ε) (stage : Stage V ε)
    (hcompute : stage.compute = compute) :
    (feed services number stage).Flows results
      (origin.Steady number script compute inputs) where
  intake := by
    intro index result lines store hresult hsteady
    obtain ⟨input, hinput, hcomes⟩ := hcomputes.input_of_result hresult
    have hcoming := (Script.runs_iff.mp hruns).1 index input hinput
    obtain ⟨asked, hask, htraces, hsize, hexecutor, hevents⟩ := hsteady.ask services
    rw [hcoming] at hask
    have hcomputed := feed_compute_apply services number stage input index asked
    rw [hcompute, hcomes] at hcomputed
    refine ⟨input, asked, _, hask, hcomputed, ?_⟩
    exact {
      toTraces := htraces.logging (by simp [Event.isWrite])
      executor := hexecutor
      events := by
        rw [eventsOf_logging, hevents, intakeEvents_succ, hinput, List.append_assoc]
        simp [List.filter_map, Function.comp_def, Event.executor?]
      size := hsize }
  finish := by
    intro lines store hsteady
    have hcoming := (Script.runs_iff.mp hruns).2.1
    have hlength := hcomputes.length_eq
    obtain ⟨asked, hask, htraces, hsize, hexecutor, hevents⟩ := hsteady.ask services
    rw [← hlength, hcoming] at hask
    refine ⟨parting, asked, hask, htraces, hexecutor, ?_, hsize⟩
    have hnone : inputs[results.length]? = none := List.getElem?_eq_none hlength.le
    rw [hevents, intakeEvents_succ, hnone, List.append_assoc]
    simp
  trace := by
    intro asked lines text store hsteady
    obtain ⟨store', htrace, hsame, htraces⟩ := hsteady.toTraces.trace_pure "underflow" text
    exact ⟨store', htrace, hsteady.of_undisturbed hsame htraces⟩

end Steady

/-- Executor `number` has been called so many times since `origin`. -/
def Underway (origin : Store V ε) (number : Nat) (script : Script V ε)
    (compute : V → Nat → Reply ε V) (inputs results : List V) (size calls : Nat)
    (lines : List String) (store : Store V ε) : Prop :=
  let asked := min (horizon size calls) (results.length + 1)
  origin.Steady number script compute inputs asked lines store ∧
    ∃ buffer : Buffer V ε, buffer.Scheduled size results calls ∧
      store.executors[number]? = some
        { source := .script (script.later asked), stage := some { compute, buffer } }

section Underway

variable {origin store : Store V ε} {number size calls : Nat} {script : Script V ε}
  {compute : V → Nat → Reply ε V} {inputs results : List V} {lines : List String}
  {parting : Option V}

theorem askExecutor_of_underway (hruns : script.Runs (.done parting) inputs)
    (hcomputes : Computes compute inputs results)
    (hunderway : origin.Underway number script compute inputs results size calls lines store)
    (services : StoreServices V ε) :
    ∃ store', origin.Underway number script compute inputs results size (calls + 1)
        (lines ++ Buffer.refillLines size results.length calls) store' ∧
      askExecutor services number store =
        settle (.ok (Buffer.stepAt results calls)) store' := by
  obtain ⟨hsteady, buffer, hscheduled, hexecutor⟩ := hunderway
  have hnoted : origin.Steady number script compute inputs
      (min (horizon size calls) (results.length + 1)) lines (store.noting (.ask number)) :=
    ⟨hsteady.toTraces.of_quiet rfl rfl rfl fun _ => rfl, hsteady.executor, hsteady.events,
      hsteady.size⟩
  obtain ⟨buffer', after, hscheduled', hafter, hnext⟩ := Buffer.next_of_scheduled
    (steady_flows hruns hcomputes origin services { compute, buffer } rfl) hscheduled
    hnoted
  obtain ⟨stale, hstale⟩ := hafter.executor
  have hput : ((bufferOf number).put buffer' after).executors[number]? = _ :=
    bufferOf_put_executor hstale
  refine ⟨(bufferOf number).put buffer' after, ⟨?_, buffer', hscheduled', hput⟩, ?_⟩
  · exact ⟨hafter.toTraces.of_quiet rfl rfl rfl fun _ => rfl, ⟨buffer', hput⟩, hafter.events,
      hafter.size⟩
  · have hask := askExecutor_of_buffered hexecutor services
    simp only [Action.answer_of_settle hnext, Action.after_of_settle hnext] at hask
    exact hask

theorem Underway.lt_size
    (hunderway : origin.Underway number script compute inputs results size calls lines store) :
    number < store.executors.size :=
  lt_size_of_executor hunderway.2.choose_spec.2

variable [Textual V ε]

theorem ask_of_underway (hruns : script.Runs (.done parting) inputs)
    (hcomputes : Computes compute inputs results)
    (hunderway : origin.Underway number script compute inputs results size calls lines store) :
    ∃ store', origin.Underway number script compute inputs results size (calls + 1)
        (lines ++ Buffer.refillLines size results.length calls) store' ∧
      (Request.ask number).perform store =
        settle (.ok (.step (Buffer.stepAt results calls))) store' := by
  obtain ⟨store', hunderway', hask⟩ := askExecutor_of_underway hruns hcomputes hunderway
    (servicesBelow number)
  have hasked : Store.ask number store = settle (.ok (Buffer.stepAt results calls)) store' := by
    rw [Store.ask, Action.bind_of_ok (Action.get_apply store), services,
      servicesBelow_ask hunderway.lt_size]
    exact hask
  exact ⟨store', hunderway', Action.map_of_settle Response.step hasked⟩

/-- A run of calls. -/
theorem asks_of_underway (hruns : script.Runs (.done parting) inputs)
    (hcomputes : Computes compute inputs results) (more : Nat)
    (hunderway : origin.Underway number script compute inputs results size calls lines store) :
    let entries := List.replicate more (Entry.perform (.ask number))
    (∃ lines', origin.Underway number script compute inputs results size (calls + more) lines'
      (Entry.run entries store)) ∧
    Entry.answers entries store = (List.range more).map fun later =>
      .ok (.step (Buffer.stepAt results (calls + later))) := by
  induction more generalizing calls lines store with
  | zero => exact ⟨⟨lines, hunderway⟩, rfl⟩
  | succ more ih =>
      obtain ⟨store', hunderway', hask⟩ := ask_of_underway hruns hcomputes hunderway
      obtain ⟨hrun, hanswers⟩ := ih hunderway'
      rw [Nat.add_assoc, Nat.add_comm 1] at hrun
      constructor
      · rw [List.replicate_succ, Entry.run, List.foldl_cons, Entry.after,
          Action.after_of_settle hask]
        exact hrun
      · rw [List.replicate_succ, Entry.answers, Action.after_of_settle hask,
          Action.answer_of_settle hask, hanswers, List.range_succ_eq_map, List.map_cons,
          List.map_map]
        refine congrArg₂ _ rfl (List.map_congr_left fun later _ => ?_)
        simp only [Function.comp_apply, Nat.succ_eq_add_one, Nat.add_assoc, Nat.add_comm 1]

end Underway

/-- A buffer and a range that holds it. -/
def addBufferedRange (source : Source V ε) (compute : V → Nat → Reply ε V) (size : ChunkSize) :
    Act V ε Nat := do
  let number ← addBuffered source none compute size
  addRange (.holding (some number))

/-- The store with a new buffer over a script and a range that holds it. -/
@[simps]
def buffering (script : Script V ε) (stage : Stage V ε) (store : Store V ε) : Store V ε :=
  { store with
    executors := store.executors.push { source := .script script, stage := some stage }
    ranges := store.ranges.push (.holding (some store.executors.size))
    log := store.log ++ (openingEvents script store.executors.size).toArray }

section Buffering

variable {store : Store V ε} {script : Script V ε} {stage : Stage V ε}

theorem capacity_of_nat {size : Nat} (hsize : 1 ≤ size) :
    (ChunkSize.number (.integer size)).capacity = .ok ⟨size, hsize⟩ := by
  obtain ⟨hpos, hcapacity⟩ := capacity_of_pos (Int.ofNat_le.mpr hsize)
  exact hcapacity

theorem addBufferedRange_apply {size : ChunkSize} {capacity : Nat} {hpos : 0 < capacity}
    (hsize : size.capacity = .ok ⟨capacity, hpos⟩) (script : Script V ε)
    (compute : V → Nat → Reply ε V) (store : Store V ε) :
    addBufferedRange (.script script) compute size store =
      .ok store.ranges.size
        (store.buffering script { compute, buffer := .empty capacity hpos }) := by
  have hadd := addBuffered_of_script script none compute size store
  simp only [hsize] at hadd
  exact Action.bind_of_ok hadd _

theorem buffering_executor : (store.buffering script stage).executors[store.executors.size]? =
    some { source := .script script, stage := some stage } := by
  simp

theorem buffering_eventsOf : (store.buffering script stage).eventsOf store.executors.size =
    store.eventsOf store.executors.size ++ openingEvents script store.executors.size := by
  unfold eventsOf openingEvents
  cases hsilent : script.silent <;> simp [openingEvents, hsilent, Event.executor?]

theorem buffering_traces (hreliable : store.tracing = true → store.Reliable store.traceWriter) :
    store.Traces [] (store.buffering script stage) := by
  refine (Traces.refl hreliable).of_quiet rfl rfl rfl fun writer => ?_
  refine received_of_quiet (openingEvents script store.executors.size) rfl rfl ?_
  unfold openingEvents
  cases script.silent <;> simp [Event.isWrite]

theorem buffering_underway {size : Nat} (hpos : 0 < size) (script : Script V ε)
    (compute : V → Nat → Reply ε V) (inputs results : List V)
    (hreliable : store.tracing = true → store.Reliable store.traceWriter) :
    let built := store.buffering script { compute, buffer := .empty size hpos }
    built.Underway store.executors.size script compute inputs results size 0 [] built := by
  intro built
  have hexecutor : built.executors[store.executors.size]? = some _ := buffering_executor
  refine ⟨⟨.refl (buffering_traces hreliable).reliable, ?_, ?_, rfl⟩,
    .empty size hpos, Buffer.empty_scheduled size hpos results, ?_⟩
  · simpa using ⟨_, hexecutor⟩
  · simp [intakeEvents]
  · simpa using hexecutor

end Buffering

/-- What so many calls are answered. -/
theorem map_stepAt (results : List V) (calls : Nat) :
    (List.range calls).map (Buffer.stepAt results) =
      (results.take calls).map .yield ++ List.replicate (calls - results.length) (.done none) := by
  induction calls with
  | zero => simp
  | succ calls ih =>
      rw [List.range_succ, List.map_append, ih, List.map_singleton, Buffer.stepAt]
      by_cases hlt : calls < results.length
      · have hnone : calls + 1 - results.length = 0 := Nat.sub_eq_zero_of_le hlt
        have hnone' : calls - results.length = 0 := by omega
        rw [hnone, hnone', List.take_add_one, List.getElem?_eq_getElem hlt, List.map_append]
        simp only [List.replicate_zero, List.append_nil]
        rfl
      · have hall : results.length ≤ calls := by omega
        rw [List.getElem?_eq_none hall, List.take_of_length_le hall,
          List.take_of_length_le (Nat.le_succ_of_le hall), Nat.succ_sub hall,
          List.replicate_succ', List.append_assoc]
        rfl

section Schedule

variable [Textual V ε]

theorem inspect_apply {store : Store V ε} {number : Nat} {source : Source V ε} {stage : Stage V ε}
    (hexecutor : store.executors[number]? = some { source, stage := some stage }) :
    (Request.inspect number).perform store =
      settle (.ok (.progress stage.buffer.isEof stage.buffer.consumed)) store := by
  have hread : ((bufferOf number).read : Act V ε (Buffer V ε)) store =
      settle (.ok stage.buffer) store := Place.read_of_find (bufferOf_find hexecutor)
  exact Action.map_of_settle (fun own => Response.progress own.isEof own.consumed) hread

/-- **The exact refill schedule.** Making a buffer over a script that brings its inputs and is then
done, and a range over it, asks the script nothing. After so many calls the script has been asked as
often as the chunks need that these calls have opened, inputs and end together, every input that it
brought has been consumed and computed once and in its turn, and the calls have been given the first
results, and then the report that nothing is left. With chunks of one a call computes one input. -/
theorem refill_schedule {script : Script V ε} {inputs results : List V} {parting : Option V}
    (hruns : script.Runs (.done parting) inputs) {compute : V → Nat → Reply ε V}
    (hcomputes : Computes compute inputs results) {size : Nat} (hsize : 1 ≤ size)
    {store : Store V ε} (hreliable : store.tracing = true → store.Reliable store.traceWriter) :
    let number := store.executors.size
    let taken (calls : Nat) := size * (calls ⌈/⌉ size)
    ∃ built, addBufferedRange (.script script) compute (.number (.integer size)) store =
        .ok store.ranges.size built ∧
      built.ranges[store.ranges.size]? = some (.holding (some number)) ∧
      (∃ buffer, built.executors[number]? =
        some { source := .script script, stage := some { compute, buffer } }) ∧
      built.eventsOf number = store.eventsOf number ++ openingEvents script number ∧
      ∀ calls,
        let entries := List.replicate calls (Entry.perform (.ask number))
        let after := Entry.run entries built
        let asked := min (inputs.length + 1) (taken calls)
        (∃ buffer, after.executors[number]? =
          some { source := .script (script.later asked), stage := some { compute, buffer } }) ∧
        (∃ isEof, (Request.inspect number).perform.answer after =
          .ok (.progress isEof (min inputs.length (taken calls)))) ∧
        after.eventsOf number =
          built.eventsOf number ++ intakeEvents number script.silent inputs asked ∧
        (intakeEvents number script.silent inputs asked).countP isComputing =
          min inputs.length (taken calls) ∧
        Entry.answers entries built =
          (results.take calls).map (fun result => .ok (.step (.yield result))) ++
            List.replicate (calls - inputs.length) (.ok (.step (.done none))) ∧
        (results.take calls).length = min inputs.length calls ∧
        (size = 1 → min inputs.length (taken calls) = min inputs.length calls) := by
  intro number taken
  have hcapacity := capacity_of_nat hsize
  have hunderway := buffering_underway hsize script compute inputs results hreliable
  have hlength := hcomputes.length_eq
  refine ⟨_, addBufferedRange_apply hcapacity script compute store, ?_, ⟨_, buffering_executor⟩,
    buffering_eventsOf, fun calls => ?_⟩
  · rw [buffering_ranges]
    exact Array.getElem?_push_size
  · obtain ⟨⟨lines, hsteady, buffer, hscheduled, hexecutor⟩, hanswers⟩ :=
      asks_of_underway hruns hcomputes calls hunderway
    have hasked : min (horizon size calls) (results.length + 1) =
        min (inputs.length + 1) (taken calls) := by rw [Nat.min_comm, hlength]; rfl
    rw [Nat.zero_add, hasked] at hexecutor
    rw [Nat.zero_add, hasked] at hsteady
    rw [Nat.zero_add] at hscheduled
    intro entries after asked
    refine ⟨⟨buffer, hexecutor⟩, ⟨buffer.isEof, ?_⟩, hsteady.events, ?_, ?_, ?_, ?_⟩
    · have hconsumed : min inputs.length (taken calls) = buffer.consumed := by
        rw [hlength]
        exact hscheduled.consumed.symm
      rw [hconsumed]
      exact Action.answer_of_settle (inspect_apply hexecutor)
    · rw [countP_computing_intakeEvents]
      omega
    · have hsteps := congrArg (List.map fun step => (.ok (.step step) :
        Except (Fault ε) (Response V ε))) (map_stepAt results calls)
      rw [List.map_map, List.map_append, List.map_map, List.map_replicate, ← hlength] at hsteps
      refine (hanswers.trans ?_).trans hsteps
      exact List.map_congr_left fun call _ => by rw [Nat.zero_add]; rfl
    · rw [List.length_take, hlength, Nat.min_comm]
    · rintro rfl
      rw [show taken calls = calls from horizon_one calls]

end Schedule

def shortScript : Script Value Thrown :=
  .ofOutcomes [.yield (.boolean true), .yield .null, .yield .undefined] none

/-- The second chunk of two is short, so the fourth call finds the end without another refill. -/
theorem refill_schedule_of_short_chunk :
    ∃ built : Store Value Thrown,
      addBufferedRange (.script shortScript) (fun input _ => pure input) (.number (.integer 2))
        .initial = .ok 0 built ∧
      (∃ buffer, (Entry.run [.perform (.ask 0)] built).executors[0]? =
        some { source := .script (shortScript.later 2),
               stage := some { compute := fun input _ => pure input, buffer } }) ∧
      (∃ buffer, (Entry.run (List.replicate 4 (.perform (.ask 0))) built).executors[0]? =
        some { source := .script (shortScript.later 4),
               stage := some { compute := fun input _ => pure input, buffer } }) ∧
      Entry.answers (List.replicate 4 (.perform (.ask 0))) built =
        [.ok (.step (.yield (.boolean true))), .ok (.step (.yield .null)),
          .ok (.step (.yield .undefined)), .ok (.step (.done none))] := by
  have hruns : shortScript.Runs (.done none) [.boolean true, .null, .undefined] :=
    ⟨rfl, rfl, rfl, rfl, rfl⟩
  have hcomputes : Computes (fun input _ => (pure input : Reply Thrown Value))
      [.boolean true, .null, .undefined] [.boolean true, .null, .undefined] := rfl
  have huntraced : (initial : Store Value Thrown).tracing = true →
      (initial : Store Value Thrown).Reliable (initial : Store Value Thrown).traceWriter := nofun
  obtain ⟨built, hbuilt, -, -, -, hcalls⟩ :=
    refill_schedule hruns hcomputes (Nat.le_succ 1) huntraced
  obtain ⟨hfirst, -⟩ := hcalls 1
  obtain ⟨hlast, -, -, -, hanswers, -⟩ := hcalls 4
  exact ⟨built, hbuilt, hfirst, hlast, hanswers⟩

end PullRange.Store
