import PullRange.Proofs.Bounds
import PullRange.Proofs.Chunking
import PullRange.Store.Operations
import PullRange.Value

/-!
# Buffers at work in a store

A buffer in a store answers its calls as if it computed its results one at a time, whatever the size
of its chunks. `Supply` says what its resource brings, `Standing` what the buffer brings; either
also says what the answers to come depend on, so that the objects above may change meanwhile.
-/

namespace PullRange

variable {I R ε : Type}

/-- The answers of a producer that computes its results one at a time, as outcomes. -/
def produced (outcome : Nat → Outcome I ε) (compute : I → Nat → Except ε R) (call : Nat) :
    Outcome R ε :=
  if endsBefore outcome call then .done none
  else
    match outcome call with
    | .done _ => .done none
    | .fail error => .fail error
    | .yield input =>
        match compute input (inputsBefore outcome call) with
        | .ok result => .yield result
        | .error error => .fail error

theorem produced_answer (outcome : Nat → Outcome I ε) (compute : I → Nat → Except ε R)
    (call : Nat) : (produced outcome compute call).answer = oneAtATime outcome compute call := by
  unfold produced oneAtATime
  cases endsBefore outcome call with
  | true => rfl
  | false =>
      cases outcome call with
      | yield input =>
          simp only [Bool.false_eq_true, if_false]
          cases compute input (inputsBefore outcome call) <;> rfl
      | done parting => rfl
      | fail error => rfl

namespace Store

variable {V : Type}

/-- What the computations of a stage come to, their conversions apart. -/
def results (compute : V → Nat → Reply ε V) (input : V) (index : Nat) : Except ε V :=
  (compute input index).result

/-- The stores agree on the executors below a bound and on the switch of the trace, and no range
loses its executor. -/
structure SameBelow (bound : Nat) (before after : Store V ε) : Prop where
  executors : ∀ number < bound, after.executors[number]? = before.executors[number]?
  executorOf : ∀ range executor, before.executorOf range = some executor →
    after.executorOf range = some executor
  tracing : after.tracing = before.tracing

/-- The resource of executor `number` plays the outcomes. `At` tells what the resource has come to
after it has been asked so many times, which depends on executors with smaller numbers only. -/
structure Supply (services : StoreServices V ε) (number : Nat) (outcome : Nat → Outcome V ε)
    (At : Nat → Source V ε → Store V ε → Prop) : Prop where
  ask : ∀ asked source stage store, At asked source store → store.tracing = false →
    store.executors[number]? = some { source, stage := some stage } →
    ∃ source' store', At (asked + 1) source' store' ∧ store'.tracing = false ∧
      store'.executors[number]? = some { source := source', stage := some stage } ∧
      askSource services number store = settle (outcome asked).answer store'
  keep : ∀ asked source before after, At asked source before → before.SameBelow number after →
    At asked source after

/-- Executor `number` plays the outcomes. `At` tells the stores in which it has been asked so many
times. -/
structure Standing [Textual V ε] (number : Nat) (outcome : Nat → Outcome V ε) (At : Nat → Store V ε → Prop) :
    Prop where
  lt_size : ∀ asked store, At asked store → number < store.executors.size
  untraced : ∀ asked store, At asked store → store.tracing = false
  ask : ∀ asked store, At asked store → ∃ store', At (asked + 1) store' ∧
    askExecutor (servicesBelow number) number store = settle (outcome asked).answer store'
  keep : ∀ asked before after, At asked before → before.SameBelow (number + 1) after →
    At asked after

section Buffers

variable {number : Nat} {outcome : Nat → Outcome V ε} {compute : V → Nat → Reply ε V}
  {At : Nat → Source V ε → Store V ε → Prop}

/-- Executor `number` is a buffer whose resource has been asked `asked` times. -/
structure Stocked (number : Nat) (compute : V → Nat → Reply ε V)
    (At : Nat → Source V ε → Store V ε → Prop) (asked : Nat) (store : Store V ε) : Prop where
  untraced : store.tracing = false
  executor : ∃ source buffer, At asked source store ∧
    store.executors[number]? = some { source, stage := some { compute, buffer } }

theorem Supply.plays {services : StoreServices V ε} (hsupply : Supply services number outcome At)
    (stage : Stage V ε) :
    (feed services number stage).Plays outcome (results stage.compute)
      (Stocked number stage.compute At) where
  ask := by
    rintro asked store ⟨huntraced, source, buffer, hat, hexecutor⟩
    obtain ⟨source', store', hat', huntraced', hexecutor', hask⟩ :=
      hsupply.ask asked source _ store hat huntraced hexecutor
    exact ⟨store', ⟨huntraced', source', buffer, hat', hexecutor'⟩, hask⟩
  compute := by
    rintro asked store input index ⟨huntraced, source, buffer, hat, hexecutor⟩
    have hcomputed := feed_compute_apply services number stage input index store
    have hkept : ∀ events, At asked source (store.logging events) := fun events =>
      hsupply.keep asked source store _ hat ⟨fun _ _ => rfl, fun _ _ hholds => hholds, rfl⟩
    refine ⟨_, ?_, hcomputed⟩
    exact ⟨huntraced, source, buffer, hkept _, hexecutor⟩
  trace := by
    intro asked store tag message hstocked
    exact ⟨store, hstocked, trace_of_untraced hstocked.untraced tag message⟩

/-- What executor `number` has answered so far is what a producer one at a time answers to so many
calls. -/
structure Answering (number : Nat) (outcome : Nat → Outcome V ε) (compute : V → Nat → Reply ε V)
    (At : Nat → Source V ε → Store V ε → Prop) (call : Nat) (store : Store V ε) : Prop where
  untraced : store.tracing = false
  executor : ∃ asked source buffer, At asked source store ∧
    store.executors[number]? = some { source, stage := some { compute, buffer } } ∧
    buffer.Keeps outcome (results compute) call asked

variable [Textual V ε]

omit [Textual V ε] in
theorem bufferOf_put_same_below (number : Nat) (buffer : Buffer V ε) (store : Store V ε) :
    store.SameBelow number ((bufferOf number).put buffer store) where
  executors other hlt := by
    simp only [bufferOf, Array.getElem?_modify]
    rw [if_neg (Nat.ne_of_gt hlt)]
  executorOf _ _ hholds := hholds
  tracing := rfl

theorem Supply.standing (hsupply : Supply (servicesBelow number) number outcome At)
    (compute : V → Nat → Reply ε V) :
    Standing number (produced outcome (results compute))
      (Answering number outcome compute At) where
  lt_size := by
    rintro call store ⟨-, asked, source, buffer, -, hexecutor, -⟩
    exact lt_size_of_executor hexecutor
  untraced := fun _ _ hanswering => hanswering.untraced
  ask := by
    rintro call store ⟨huntraced, asked, source, buffer, hat, hexecutor, hkeeps⟩
    let noted := store.noting (.ask number)
    have hnoted : noted.executors[number]? =
        some { source, stage := some { compute, buffer } } := hexecutor
    have hatNoted : At asked source noted := hsupply.keep asked source store noted hat
      ⟨fun _ _ => rfl, fun _ _ hholds => hholds, rfl⟩
    obtain ⟨asked', buffer', store', hstocked, hkeeps', hnext⟩ := Buffer.next_answers
      (hsupply.plays { compute, buffer }) noted ⟨huntraced, source, buffer, hatNoted, hnoted⟩ hkeeps
    obtain ⟨huntraced', source', shown, hat', hexecutor'⟩ := hstocked
    have hput := hsupply.keep asked' source' store' _ hat'
      (bufferOf_put_same_below number buffer' store')
    refine ⟨(bufferOf number).put buffer' store',
      ⟨huntraced', asked', source', buffer', hput, bufferOf_put_executor hexecutor', hkeeps'⟩, ?_⟩
    rw [produced_answer, askExecutor_of_buffered hexecutor, Action.answer_of_settle hnext,
      Action.after_of_settle hnext]
  keep := by
    rintro call before after ⟨huntraced, asked, source, buffer, hat, hexecutor, hkeeps⟩ hsame
    have hbelow : before.SameBelow number after :=
      ⟨fun other hlt => hsame.executors other (Nat.lt_succ_of_lt hlt), hsame.executorOf,
        hsame.tracing⟩
    refine ⟨hsame.tracing.trans huntraced, asked, source, buffer,
      hsupply.keep asked source before after hat hbelow, ?_, hkeeps⟩
    rw [hsame.executors number (Nat.lt_succ_self number), hexecutor]

theorem answers_of_standing {At : Nat → Store V ε → Prop}
    (hstanding : Standing number outcome At) {store : Store V ε} (hat : At 0 store)
    (calls : Nat) :
    (ask number).answers calls store =
      (List.range calls).map fun call => (outcome call).answer := by
  have hcall (call : Nat) (store : Store V ε) (hat : At call store) :
      ∃ store', At (call + 1) store' ∧ ask number store = settle (outcome call).answer store' := by
    obtain ⟨store', hat', hask⟩ := hstanding.ask call store hat
    refine ⟨store', hat', ?_⟩
    rw [ask, Action.bind_of_ok (Action.get_apply store), services,
      servicesBelow_ask (hstanding.lt_size call store hat)]
    exact hask
  have hanswers := Action.answers_eq_map (ask number) (fun call => (outcome call).answer) At hcall
    calls 0 store hat
  simpa only [Nat.zero_add] using hanswers

theorem capacity_of_pos {capacity : Int} (hcapacity : 1 ≤ capacity) :
    ∃ hpos, (ChunkSize.number (.integer capacity)).capacity = .ok ⟨capacity.toNat, hpos⟩ := by
  obtain ⟨size, rfl⟩ : ∃ size : Nat, capacity = size + 1 := ⟨capacity.toNat - 1, by omega⟩
  exact ⟨size.succ_pos, rfl⟩

omit [Textual V ε] in
theorem addBuffered_apply (source : Source V ε) (compute : V → Nat → Reply ε V) {size : ChunkSize}
    {capacity : Nat} {hpos : 0 < capacity} (hsize : size.capacity = .ok ⟨capacity, hpos⟩)
    (store : Store V ε) :
    ∃ events : List (Event Nat V), addBuffered source none compute size store =
      .ok store.executors.size
        { store with
          executors := store.executors.push
            { source, stage := some { compute, buffer := .empty capacity hpos } }
          log := store.log ++ events.toArray } := by
  unfold addBuffered
  rw [Action.bind_of_ok (Action.get_apply store)]
  cases source with
  | walk range walk =>
      refine ⟨[], ?_⟩
      simp only [hsize, Array.append_empty]
      rfl
  | script script =>
      cases hsilent : script.silent with
      | true =>
          refine ⟨[], ?_⟩
          simp only [hsilent, hsize, Array.append_empty]
          rfl
      | false =>
          refine ⟨[.opened store.executors.size], ?_⟩
          simp only [hsilent, hsize]
          rfl

/-- A new buffer over a supply that has not been asked yet. -/
theorem Supply.addBuffered {store : Store V ε} {source : Source V ε}
    (hsupply : Supply (servicesBelow store.executors.size) store.executors.size outcome At)
    (hat : At 0 source store) (huntraced : store.tracing = false) (compute : V → Nat → Reply ε V)
    {capacity : Int} (hcapacity : 1 ≤ capacity) :
    ∃ store', Answering store.executors.size outcome compute At 0 store' ∧
      store'.executors.size = store.executors.size + 1 ∧
      addBuffered source none compute (.number (.integer capacity)) store =
        .ok store.executors.size store' := by
  obtain ⟨hpos, hsize⟩ := capacity_of_pos hcapacity
  obtain ⟨events, hadd⟩ := addBuffered_apply source compute hsize store
  refine ⟨_, ?_, by simp, hadd⟩
  refine ⟨huntraced, 0, source, .empty _ hpos, ?_, by simp, Buffer.empty_keeps _ _⟩
  refine hsupply.keep 0 source store _ hat ⟨fun number hlt => ?_, fun _ _ hholds => hholds, rfl⟩
  simp [Array.getElem?_push, Nat.ne_of_lt hlt]

end Buffers

theorem script_supply (services : StoreServices V ε) (number : Nat) (script : Script V ε) :
    Supply services number script.coming
      (fun asked source _ => source = .script (script.later asked)) where
  ask := by
    rintro asked _ stage store rfl huntraced hexecutor
    refine ⟨_, store.asking number .resource (script.later asked),
      congrArg Source.script (script.later_later asked 1), ?_, asking_executor hexecutor, ?_⟩
    · rw [asking_tracing, huntraced]
    · exact askSource_of_staged hexecutor services
  keep _ _ _ _ hsource _ := hsource

/-- **Chunking is invisible.** Whatever the size of its chunks, a buffer over a script answers one
call after another what a producer that computes its results one at a time answers, and so buffers
of any two sizes answer alike. -/
theorem answers_eq_oneAtATime [Textual V ε] (script : Script V ε) (compute : V → Nat → Reply ε V)
    (store : Store V ε) (huntraced : store.tracing = false) (calls : Nat) :
    (∀ capacity : Int, 1 ≤ capacity → ∃ store',
      addBuffered (.script script) none compute (.number (.integer capacity)) store =
        .ok store.executors.size store' ∧
      (ask store.executors.size).answers calls store' = (List.range calls).map
        (oneAtATime script.coming fun input index => (compute input index).result)) ∧
    (∀ left right : Int, 1 ≤ left → 1 ≤ right → ∀ leftStore rightStore,
      addBuffered (.script script) none compute (.number (.integer left)) store =
        .ok store.executors.size leftStore →
      addBuffered (.script script) none compute (.number (.integer right)) store =
        .ok store.executors.size rightStore →
      (ask store.executors.size).answers calls leftStore =
        (ask store.executors.size).answers calls rightStore) := by
  have hanswers (capacity : Int) (hcapacity : 1 ≤ capacity) : ∃ store',
      addBuffered (.script script) none compute (.number (.integer capacity)) store =
        .ok store.executors.size store' ∧
      (ask store.executors.size).answers calls store' = (List.range calls).map
        (oneAtATime script.coming fun input index => (compute input index).result) := by
    obtain ⟨store', hanswering, -, hadd⟩ :=
      (script_supply _ _ script).addBuffered rfl huntraced compute hcapacity
    have hstanding := (script_supply _ store.executors.size script).standing compute
    refine ⟨store', hadd, ?_⟩
    rw [answers_of_standing hstanding hanswering calls]
    exact List.map_congr_left fun call _ => produced_answer _ _ call
  refine ⟨hanswers, ?_⟩
  intro left right hleft hright leftStore rightStore haddLeft haddRight
  obtain ⟨leftStore', haddLeft', hansweredLeft⟩ := hanswers left hleft
  obtain ⟨rightStore', haddRight', hansweredRight⟩ := hanswers right hright
  cases haddLeft.symm.trans haddLeft'
  cases haddRight.symm.trans haddRight'
  rw [hansweredLeft, hansweredRight]

def interrupted : Script Value Thrown :=
  .ofOutcomes [.yield (.boolean true), .fail (.value .null), .yield .undefined] none

theorem answers_around_failure : ∃ store' : Store Value Thrown,
    addBuffered (.script interrupted) none (fun input _ => pure input) (.number (.integer 3))
      .initial = .ok 0 store' ∧
    (ask 0).answers 5 store' =
      [.ok (.yield (.boolean true)), .error (.raised (.value .null)), .ok (.yield .undefined),
        .ok (.done none), .ok (.done none)] :=
  (answers_eq_oneAtATime interrupted (fun input _ => pure input) .initial rfl 5).1 3 (by decide)

end PullRange.Store
