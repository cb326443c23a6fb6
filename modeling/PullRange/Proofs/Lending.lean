import PullRange.Proofs.DrainTrace
import PullRange.Proofs.Endings
import PullRange.Proofs.Interleaving

/-!
# Lending a range to a buffer

A range may serve a buffer as its resource. The buffer walks over it and reads ahead, so that the
range is always further than the results that the buffer has handed out. When the range that holds
the buffer is closed, the walk is stopped and the results that wait are dropped, but the range below
keeps its executor and goes on where the buffer stopped reading.
-/

namespace PullRange

variable {V ε : Type}

theorem Script.Ends.value?_coming {script : Script V ε} {values : List V}
    (hends : script.Ends values) (call : Nat) :
    (script.coming call).value? = values[call]? ∧
      (script.coming call).turned = (outcomeAt ε values call).turned := by
  cases hvalue : values[call]? with
  | none =>
      obtain ⟨parting, hdone⟩ := hends.done call (List.getElem?_eq_none_iff.mp hvalue)
      rw [hdone, outcomeAt, hvalue]
      exact ⟨rfl, rfl⟩
  | some value =>
      rw [hends.yields call value hvalue, outcomeAt, hvalue]
      exact ⟨rfl, rfl⟩

theorem Script.ofOutcomes_ends (values : List V) (releasing : Option (Except ε Unit)) :
    (Script.ofOutcomes (values.map .yield) releasing).Ends values := by
  have hcoming (call : Nat) : (Script.ofOutcomes (values.map .yield) releasing).coming call =
      (values[call]?.map .yield).getD (.done none) := by
    change (values.map Outcome.yield)[0 + call]?.getD (.done none) = _
    rw [Nat.zero_add, List.getElem?_map]
  constructor
  · intro index value hvalue
    rw [hcoming, hvalue]
    rfl
  · intro call hle
    rw [hcoming, List.getElem?_eq_none hle]
    exact ⟨none, rfl⟩

section Outcomes

variable {results : List V} {call : Nat}

theorem outcomeAt_drop (values : List V) (asked call : Nat) :
    outcomeAt ε (values.drop asked) call = outcomeAt ε values (asked + call) := by
  rw [outcomeAt, outcomeAt, List.getElem?_drop]

theorem outcomeAt_answer :
    (outcomeAt ε results call).answer = .ok (Buffer.stepAt results call) := by
  rw [outcomeAt, Buffer.stepAt]
  cases results[call]? <;> rfl

theorem outcomeAt_value? : (outcomeAt ε results call).value? = results[call]? := by
  rw [outcomeAt]
  cases results[call]? <;> rfl

theorem outcomeAt_cursor :
    (outcomeAt ε results call).cursor = .ok { atEnd := decide (results.length ≤ call) } := by
  rw [outcomeAt]
  by_cases hlt : call < results.length
  · rw [List.getElem?_eq_getElem hlt, decide_eq_false (Nat.not_le_of_lt hlt)]
    rfl
  · have hle := Nat.le_of_not_lt hlt
    rw [List.getElem?_eq_none hle, decide_eq_true hle]
    rfl

theorem getLast?_take_succ (results : List V) (call : Nat) (cache : Option V) :
    (results.take (call + 1)).getLast?.or cache =
      results[call]?.or ((results.take call).getLast?.or cache) := by
  rw [List.take_add_one, List.getLast?_append, Option.or_assoc]
  cases results[call]? <;> rfl

end Outcomes

/-- Noticing the end takes no more than the last value. -/
theorem drop_min_succ (values : List V) (taken : Nat) :
    values.drop (min taken (values.length + 1)) = values.drop (min values.length taken) := by
  by_cases hle : taken ≤ values.length
  · rw [Nat.min_eq_left (Nat.le_succ_of_le hle), Nat.min_eq_right hle]
  · rw [List.drop_of_length_le (by omega), List.drop_of_length_le (by omega)]

theorem take_drop_drop {first taken : Nat} (hle : first ≤ taken) (values : List V) :
    let whole := min values.length taken
    values.take first ++ (values.take whole).drop first ++ values.drop whole = values := by
  intro whole
  have hfirst : values.take first = (values.take whole).take first := by
    rw [List.take_take, List.take_eq_take_iff]
    omega
  rw [hfirst, List.take_append_drop, List.take_append_drop]

/-- Where a walk over so many values has come to after so many calls. -/
def walked (count calls : Nat) : Walk :=
  if calls = 0 then .unstarted
  else if calls ≤ count then .suspended { atEnd := false }
  else .finished

theorem walked_ne_finished {count calls : Nat} (hle : calls ≤ count) :
    walked count calls ≠ .finished := by
  unfold walked
  rw [if_pos hle]
  split <;> exact nofun

theorem walked_of_lt {count calls : Nat} (hlt : count < calls) : walked count calls = .finished := by
  unfold walked
  rw [if_neg (Nat.ne_of_gt (Nat.zero_lt_of_lt hlt)), if_neg (Nat.not_le_of_lt hlt)]

theorem outcomeAt_walk (values : List V) (calls : Nat) :
    (outcomeAt ε values calls).walk = walked values.length (calls + 1) := by
  unfold walked
  rw [outcomeAt, if_neg calls.succ_ne_zero]
  by_cases hle : calls + 1 ≤ values.length
  · rw [List.getElem?_eq_getElem hle, if_pos hle]
    rfl
  · rw [List.getElem?_eq_none (Nat.le_of_lt_succ (Nat.lt_of_not_le hle)), if_neg hle]
    rfl

namespace Store

variable [Textual V ε]

/-- A pull whose trace, if there is one, does not fail. -/
theorem Traces.pull {origin store asked : Store V ε} {lines : List String} {handle bound : Nat}
    {outcome : Outcome V ε} (htraces : origin.Traces lines asked)
    (hask : (servicesBelow bound).ask handle store = settle outcome.answer asked)
    (htext : asked.tracing = true → ∀ value, outcome.value? = some value →
      ∃ line, (Textual.toText value).result = .ok line) (cache : Option V) :
    ∃ after lines', asked.Undisturbed after ∧ origin.Traces lines' after ∧
      Range.pull (servicesBelow bound) ({ executor := some handle, cache }, store) =
        settle outcome.pulled
          ({ executor := some handle, cache := outcome.value?.or cache }, after) := by
  cases htracing : asked.tracing with
  | false =>
      refine ⟨asked, lines, ⟨rfl, rfl, rfl, fun _ => rfl⟩, htraces, pull_of_ask hask ?_⟩
      rw [servicesBelow_trace]
      exact fun tag message => trace_of_untraced htracing tag message
  | true =>
      rw [pull_of_executor _ rfl, Action.answer_of_settle hask, Action.after_of_settle hask,
        servicesBelow_trace, servicesBelow_text]
      cases outcome with
      | yield value =>
          obtain ⟨line, hline⟩ := htext htracing value rfl
          have hmessage : text value asked =
              .ok line (asked.logging ((Textual.toText value).converted.map .converted)) := by
            have hcarried := carryOut_apply (Textual.toText value) asked
            rw [hline] at hcarried
            exact hcarried
          obtain ⟨after, htrace, hsame, htraces'⟩ := htraces.trace "pull" hmessage
            (by simp [Event.isWrite]) (by simp [Event.executor?])
          have htraced : Store.trace "pull" (text value) asked = settle (.ok ()) after := htrace
          refine ⟨after, _, hsame, htraces', ?_⟩
          simp only [Outcome.answer, Action.answer_of_settle htraced,
            Action.after_of_settle htraced]
          rfl
      | done parting =>
          obtain ⟨after, htrace, hsame, htraces'⟩ := htraces.trace_pure "pull" "exhausted"
          have htraced : Store.trace "pull" (pure "exhausted") asked = settle (.ok ()) after :=
            htrace
          refine ⟨after, _, hsame, htraces', ?_⟩
          simp only [Outcome.answer, Action.answer_of_settle htraced,
            Action.after_of_settle htraced]
          rfl
      | fail error => exact ⟨asked, lines, ⟨rfl, rfl, rfl, fun _ => rfl⟩, htraces, rfl⟩

/-- A range that is closed lets its executor go, whatever comes of that. -/
theorem close_of_release {store released : Store V ε} {range executor : Nat} {own : Range Nat V}
    {answer : Except (Fault ε) Unit} (hown : store.ranges[range]? = some own)
    (hexecutor : own.executor = some executor)
    (hrelease : store.services.release executor store = settle answer released) :
    close range store =
      settle answer ((rangeAt range).put { own with executor := none } released) := by
  have hclose : Range.close store.services (own, store) =
      settle answer ({ own with executor := none }, released) := by
    rw [Range.close, Action.bind_of_ok (getOwn_apply own store)]
    simp only [hexecutor]
    rw [Action.bind_of_ok (setOwn_apply _ _ _)]
    exact onRest_of_settle hrelease _
  rw [close, Action.bind_of_ok (Action.get_apply store)]
  exact Place.focus_of_settle hown hclose

/-- The first advance makes the cursor, and every later one moves it on. -/
def advanceAfter (range cursor : Nat) : (earlier : Nat) → Act V ε Unit
  | 0 => do
      let _ ← start range
      return ()
  | _ + 1 => advance cursor

/-- What the cursor has come to after each of so many advances. -/
def deliveries (range cursor : Nat) : (times : Nat) → Act V ε (List (Step V))
  | 0 => return []
  | times + 1 => do
      let earlier ← deliveries range cursor times
      advanceAfter range cursor times
      let step ← standing cursor
      return earlier ++ [step]

/-! ## The range that is lent -/

/-- Range `inner` holds executor `lower`, a script that yields the values and is then done for good.
Executor `upper` is a buffer that computes the results, with `inner` as its resource, and range
`outer` holds it, through which `cursor` goes. Everything is told since `origin`, where a trace that
is on does not fail. -/
structure Loan (V ε : Type) [Textual V ε] where
  origin : Store V ε
  lower : Nat
  upper : Nat
  lower_lt : lower < upper
  inner : Nat
  outer : Nat
  inner_ne : inner ≠ outer
  cursor : Nat
  script : Script V ε
  values : List V
  ends : script.Ends values
  cache : Option V
  compute : V → Nat → Reply ε V
  results : List V
  computes : Computes compute values results
  size : Nat
  texts : origin.tracing = true →
    ∀ value, value ∈ values ∨ value ∈ results → ∃ line, (Textual.toText value).result = .ok line

namespace Loan

variable {loan : Loan V ε} {store store' : Store V ε} {asked calls bound : Nat}

theorem length_eq (loan : Loan V ε) : loan.results.length = loan.values.length :=
  loan.computes.length_eq.symm

/-- The range that is lent, with the last of so many values in its cache. -/
def innerRange (loan : Loan V ε) (asked : Nat) : Range Nat V :=
  { executor := some loan.lower, cache := (loan.values.take asked).getLast?.or loan.cache }

/-- Executor `lower` has been asked so many times, by the range that holds it, and not been
released. -/
structure Lent (loan : Loan V ε) (asked : Nat) (store : Store V ε) : Prop where
  traces : ∃ lines, loan.origin.Traces lines store
  executor : store.executors[loan.lower]? = some { source := .script (loan.script.later asked) }
  range : store.ranges[loan.inner]? = some (loan.innerRange asked)
  releases : store.calls.count (.release loan.lower) =
    loan.origin.calls.count (.release loan.lower)

/-- What does not write leaves the trace alone. -/
theorem Lent.quiet (hlent : loan.Lent asked store) (htracing : store'.tracing = store.tracing)
    (htraceWriter : store'.traceWriter = store.traceWriter)
    (hwriters : store'.writers = store.writers)
    (hreceived : ∀ writer, store'.received writer = store.received writer) :
    ∃ lines, loan.origin.Traces lines store' := by
  obtain ⟨lines, htraces⟩ := hlent.traces
  exact ⟨lines, htraces.of_quiet htracing htraceWriter hwriters hreceived⟩

theorem Lent.of_kept (hlent : loan.Lent asked store)
    (htraces : ∃ lines, loan.origin.Traces lines store')
    (hexecutor : store'.executors[loan.lower]? = store.executors[loan.lower]?)
    (hrange : store'.ranges[loan.inner]? = store.ranges[loan.inner]?)
    (hreleases : store'.calls.count (.release loan.lower) =
      store.calls.count (.release loan.lower)) : loan.Lent asked store' where
  traces := htraces
  executor := hexecutor.trans hlent.executor
  range := hrange.trans hlent.range
  releases := hreleases.trans hlent.releases

theorem Lent.of_undisturbed (hlent : loan.Lent asked store) (hsame : store.Undisturbed store')
    {lines : List String} (htraces : loan.origin.Traces lines store') : loan.Lent asked store' :=
  hlent.of_kept ⟨lines, htraces⟩ (by rw [hsame.executors]) (by rw [hsame.ranges])
    (by rw [hsame.calls])

/-- The buffer and its walk are of no concern to the range below. -/
theorem Lent.of_upper (hlent : loan.Lent asked store) (change : Executor V ε → Executor V ε) :
    loan.Lent asked { store with executors := store.executors.modify loan.upper change } := by
  refine hlent.of_kept (hlent.quiet rfl rfl rfl fun _ => rfl) ?_ rfl rfl
  rw [Array.getElem?_modify, if_neg (Nat.ne_of_gt loan.lower_lt)]

/-- A turn of whoever goes through the range. -/
theorem Lent.turn (hlent : loan.Lent asked store) (hlt : loan.lower < bound) :
    ∃ store', loan.Lent (asked + 1) store' ∧
      (∀ other, loan.lower ≠ other → store'.executors[other]? = store.executors[other]?) ∧
      ∀ cursor?, turnOn (servicesBelow bound) loan.inner cursor? store =
        settle (outcomeAt ε loan.values asked).turned store' := by
  obtain ⟨hvalue, hturned⟩ := loan.ends.value?_coming asked
  obtain ⟨lines, htraces⟩ := hlent.traces
  have hpulled : loan.origin.Traces lines (store.pulled loan.lower (loan.script.later asked)) :=
    htraces.of_quiet rfl rfl rfl fun writer =>
      received_asking .executor (store.noting (.ask loan.lower))
  have htext : (store.pulled loan.lower (loan.script.later asked)).tracing = true →
      ∀ value, (loan.script.later asked).upcoming.value? = some value →
        ∃ line, (Textual.toText value).result = .ok line := by
    intro htraced value hupcoming
    refine loan.texts (hpulled.tracing.symm.trans htraced) value (.inl ?_)
    exact List.mem_of_getElem? (hvalue.symm.trans hupcoming)
  obtain ⟨after, lines', hsame, htraces', hpull⟩ :=
    hpulled.pull (ask_of_script hlent.executor hlt) htext
      ((loan.values.take asked).getLast?.or loan.cache)
  have hasked : after.executors[loan.lower]? =
      some { source := .script (loan.script.later (asked + 1)) } := by
    rw [hsame.executors, ← Script.later_later]
    exact pulled_executor hlent.executor
  have hinner : loan.inner < after.ranges.size := by
    rw [hsame.ranges]
    exact lt_size_of_range hlent.range
  have hcache := getLast?_take_succ loan.values asked loan.cache
  rw [← hvalue] at hcache
  refine ⟨(rangeAt loan.inner).put (loan.innerRange (asked + 1)) after, ?_, ?_, ?_⟩
  · exact {
      traces := ⟨lines', htraces'.of_quiet rfl rfl rfl fun _ => rfl⟩
      executor := hasked
      range := Array.getElem?_setIfInBounds_self_of_lt hinner
      releases := by
        rw [← hlent.releases]
        have hcalls : after.calls = store.calls.push (.ask loan.lower) := hsame.calls
        change after.calls.count _ = _
        rw [hcalls, Array.count_push]
        rfl }
  · intro other hne
    change after.executors[other]? = _
    rw [hsame.executors, pulled_executors, Array.getElem?_modify, if_neg hne]
  · intro cursor?
    rw [← hturned, innerRange, hcache]
    refine Place.focus_of_settle hlent.range (turn_of_pull hpull ?_ cursor?)
    intro value houtcome
    rw [houtcome]
    rfl

/-- Executor `upper` walks over the range, which it has asked so many times. -/
structure Walked (loan : Loan V ε) (asked : Nat) (store : Store V ε) : Prop
    extends loan.Lent asked store where
  buffer : ∃ buffer, store.executors[loan.upper]? = some
    { source := .walk loan.inner (walked loan.values.length asked)
      stage := some { compute := loan.compute, buffer } }

theorem Walked.of_undisturbed (hwalked : loan.Walked asked store)
    (hsame : store.Undisturbed store') {lines : List String}
    (htraces : loan.origin.Traces lines store') : loan.Walked asked store' where
  toLent := hwalked.toLent.of_undisturbed hsame htraces
  buffer := hsame.executors ▸ hwalked.buffer

theorem Walked.ask (hwalked : loan.Walked asked store) (hle : asked ≤ loan.values.length) :
    ∃ store', loan.Walked (asked + 1) store' ∧
      askSource (servicesBelow loan.upper) loan.upper store =
        settle (outcomeAt ε loan.values asked).delivered store' := by
  obtain ⟨buffer, hexecutor⟩ := hwalked.buffer
  obtain ⟨turned, hlent, hothers, hturn⟩ := hwalked.toLent.turn loan.lower_lt
  have hturned := (hothers loan.upper (Nat.ne_of_lt loan.lower_lt)).trans hexecutor
  refine ⟨(walkOf loan.upper).put (walked loan.values.length (asked + 1)) turned, ?_, ?_⟩
  · exact ⟨hlent.of_upper _, buffer, walkOf_put_executor hturned⟩
  · rw [askSource, Action.bind_of_ok (executorAt_read hexecutor), ← outcomeAt_walk]
    exact Place.focus_of_settle (walkOf_find hexecutor)
      (walk_next_of_turn hturn (walked_ne_finished hle))

/-- What feeds the buffer brings all values and then the end, whatever is traced. -/
theorem walked_flows (loan : Loan V ε) (stage : Stage V ε)
    (hcompute : stage.compute = loan.compute) :
    (feed (servicesBelow loan.upper) loan.upper stage).Flows loan.results
      fun asked _ => loan.Walked asked where
  intake := by
    intro index result lines store hresult hwalked
    obtain ⟨input, hinput, hcomes⟩ := loan.computes.input_of_result hresult
    have hlt := (List.getElem?_eq_some_iff.mp hinput).1
    obtain ⟨asked, hasked, hask⟩ := hwalked.ask (Nat.le_of_lt hlt)
    rw [outcomeAt, hinput] at hask
    have hcomputed :=
      feed_compute_apply (servicesBelow loan.upper) loan.upper stage input index asked
    rw [hcompute, hcomes] at hcomputed
    refine ⟨input, asked, _, hask, hcomputed, ?_, hasked.buffer⟩
    obtain ⟨lines, htraces⟩ := hasked.traces
    exact hasked.toLent.of_kept ⟨lines, htraces.logging (by simp [Event.isWrite])⟩ rfl rfl rfl
  finish := by
    intro lines store hwalked
    rw [loan.length_eq] at hwalked ⊢
    obtain ⟨asked, hasked, hask⟩ := hwalked.ask (Nat.le_refl _)
    rw [outcomeAt, List.getElem?_eq_none (Nat.le_refl _)] at hask
    exact ⟨none, asked, hask, hasked⟩
  trace := by
    intro asked _ text store hwalked
    obtain ⟨lines, htraces⟩ := hwalked.traces
    obtain ⟨store', htrace, hsame, htraces'⟩ := htraces.trace_pure "underflow" text
    exact ⟨store', htrace, hwalked.of_undisturbed hsame htraces'⟩

/-- The buffer has been called so many times, and has read ahead of that. -/
structure Ahead (loan : Loan V ε) (calls : Nat) (store : Store V ε) : Prop where
  walked : loan.Walked (min (horizon loan.size calls) (loan.values.length + 1)) store
  buffer : ∃ buffer : Buffer V ε, buffer.Scheduled loan.size loan.results calls ∧
    store.executors[loan.upper]? = some
      { source := .walk loan.inner
          (PullRange.walked loan.values.length
            (min (horizon loan.size calls) (loan.values.length + 1)))
        stage := some { compute := loan.compute, buffer } }

theorem Ahead.ask (hahead : loan.Ahead calls store) :
    ∃ store', loan.Ahead (calls + 1) store' ∧
      askExecutor (servicesBelow loan.upper) loan.upper store =
        settle (outcomeAt ε loan.results calls).answer store' := by
  obtain ⟨hwalked, buffer, hscheduled, hexecutor⟩ := hahead
  have hnoted : loan.Walked (min (horizon loan.size calls) (loan.results.length + 1))
      (store.noting (.ask loan.upper)) := by
    rw [loan.length_eq]
    refine ⟨hwalked.toLent.of_kept (hwalked.quiet rfl rfl rfl fun _ => rfl) rfl rfl ?_,
      hwalked.buffer⟩
    rw [noting_calls, Array.count_push]
    rfl
  have hflows := loan.walked_flows { compute := loan.compute, buffer } rfl
  obtain ⟨buffer', after, hscheduled', hafter, hnext⟩ :=
    @Buffer.next_of_scheduled _ _ _ _ _ _ _ [] _ _ _ _ hflows hscheduled hnoted
  rw [loan.length_eq] at hafter
  obtain ⟨stale, hstale⟩ := hafter.buffer
  have hput : ((bufferOf loan.upper).put buffer' after).executors[loan.upper]? = _ :=
    bufferOf_put_executor hstale
  refine ⟨(bufferOf loan.upper).put buffer' after,
    ⟨⟨hafter.toLent.of_upper _, buffer', hput⟩, buffer', hscheduled', hput⟩, ?_⟩
  have hask := askExecutor_of_buffered hexecutor (servicesBelow loan.upper)
  simp only [Action.answer_of_settle hnext, Action.after_of_settle hnext] at hask
  rw [outcomeAt_answer]
  exact hask

theorem Ahead.of_kept (hahead : loan.Ahead calls store)
    (htraces : ∃ lines, loan.origin.Traces lines store')
    (hexecutors : store'.executors = store.executors)
    (hrange : store'.ranges[loan.inner]? = store.ranges[loan.inner]?)
    (hcalls : store'.calls = store.calls) : loan.Ahead calls store' where
  walked := by
    refine ⟨hahead.walked.toLent.of_kept htraces (by rw [hexecutors]) hrange (by rw [hcalls]), ?_⟩
    rw [hexecutors]
    exact hahead.walked.buffer
  buffer := by
    rw [hexecutors]
    exact hahead.buffer

/-- Range `outer` has pulled so often. -/
structure Delivered (loan : Loan V ε) (calls : Nat) (store : Store V ε) : Prop
    extends loan.Ahead calls store where
  range : store.ranges[loan.outer]? =
    some { executor := some loan.upper, cache := (loan.results.take calls).getLast? }

theorem Delivered.next (hdelivered : loan.Delivered calls store) (cursor : Cursor) :
    ∃ store', loan.Delivered (calls + 1) store' ∧ store'.cursors = store.cursors ∧
      (rangeAt loan.outer).focus (cursor.next store.services) store =
        .ok { atEnd := decide (loan.results.length ≤ calls) } store' := by
  obtain ⟨hahead, hrange⟩ := hdelivered
  obtain ⟨buffer, -, hexecutor⟩ := hahead.buffer
  obtain ⟨asked, hasked, hask⟩ := hahead.ask
  have hsize : asked.ranges.size = store.ranges.size := by
    have hleads := askExecutor_elapses store loan.upper
    rw [Action.Leads, Action.after_of_settle hask] at hleads
    exact hleads.size
  rw [← servicesBelow_ask (lt_size_of_executor hexecutor)] at hask
  obtain ⟨lines, htraces⟩ := hasked.walked.traces
  have htext : asked.tracing = true →
      ∀ value, (outcomeAt ε loan.results calls).value? = some value →
        ∃ line, (Textual.toText value).result = .ok line := by
    intro htraced value hvalue
    rw [outcomeAt_value?] at hvalue
    exact loan.texts (htraces.tracing.symm.trans htraced) value (.inr (List.mem_of_getElem? hvalue))
  obtain ⟨pulled, lines', hsame, htraces', hpull⟩ :=
    htraces.pull hask htext (loan.results.take calls).getLast?
  have hfind : (rangeAt loan.outer).find store = some _ := hrange
  have hnext := Place.focus_of_settle hfind (cursor_next_of_pull hpull cursor)
  have helapses := next_on_range_elapses loan.outer cursor store
  have hcache := getLast?_take_succ loan.results calls none
  rw [Option.or_none, Option.or_none] at hcache
  rw [outcomeAt_value?, ← hcache, outcomeAt_cursor] at hnext
  unfold Action.Leads services at helapses
  rw [Action.after_of_settle hnext] at helapses
  have houter : loan.outer < pulled.ranges.size := by
    rw [hsame.ranges, hsize]
    exact lt_size_of_range hrange
  refine ⟨_, ⟨?_, Array.getElem?_setIfInBounds_self_of_lt houter⟩, helapses.cursors, hnext⟩
  refine hasked.of_kept ⟨lines', htraces'.of_quiet rfl rfl rfl fun _ => rfl⟩ hsame.executors ?_
    hsame.calls
  rw [← hsame.ranges]
  exact Array.getElem?_setIfInBounds_ne loan.inner_ne.symm

/-- What has become of the cursor after so many advances, of which the first one makes it. -/
def CursorStands (loan : Loan V ε) : (calls : Nat) → Store V ε → Prop
  | 0, store => store.cursors.size = loan.cursor
  | calls + 1, store => store.cursors[loan.cursor]? =
      some (loan.outer, { atEnd := decide (loan.results.length ≤ calls) })

theorem Delivered.of_cursors (hdelivered : loan.Delivered calls store)
    (cursors : Array (Nat × Cursor)) : loan.Delivered calls { store with cursors } where
  toAhead := hdelivered.toAhead.of_kept (hdelivered.walked.quiet rfl rfl rfl fun _ => rfl) rfl rfl rfl
  range := hdelivered.range

theorem Delivered.advance (hdelivered : loan.Delivered calls store)
    (hcursor : loan.CursorStands calls store) :
    ∃ store', loan.Delivered (calls + 1) store' ∧ loan.CursorStands (calls + 1) store' ∧
      advanceAfter loan.outer loan.cursor calls store = .ok () store' := by
  cases calls with
  | zero =>
      obtain ⟨store', hdelivered', hcursors, hnext⟩ := hdelivered.next { atEnd := true }
      have hsize : store'.cursors.size = loan.cursor := hcursors ▸ hcursor
      have hstart := start_eq_focus loan.outer store
      rw [Cursor.start, hnext] at hstart
      have hentry := binding_entry loan.outer { atEnd := decide (loan.results.length ≤ 0) } store'
      rw [hsize] at hentry
      exact ⟨_, hdelivered'.of_cursors _, hentry, Action.bind_of_ok hstart _⟩
  | succ calls =>
      obtain ⟨store', hdelivered', hcursors, hnext⟩ := hdelivered.next
        { atEnd := decide (loan.results.length ≤ calls) }
      have hentry : store'.cursors[loan.cursor]? =
          some (loan.outer, { atEnd := decide (loan.results.length ≤ calls) }) := by
        rw [hcursors]
        exact hcursor
      have hadvance := advance_eq_focus hcursor
      rw [hnext] at hadvance
      exact ⟨_, hdelivered'.of_cursors _, putCursor_entry hentry _, hadvance⟩

theorem Delivered.standing (hdelivered : loan.Delivered (calls + 1) store)
    (hcursor : loan.CursorStands (calls + 1) store) :
    Store.standing loan.cursor store = .ok (Buffer.stepAt loan.results calls) store := by
  have hentry : store.cursors[loan.cursor]? = _ := hcursor
  rw [Store.standing, Action.bind_of_ok (Place.read_of_find (cursorAt_find hentry)),
    Buffer.stepAt]
  by_cases hlt : calls < loan.results.length
  · have hcache : (loan.results.take (calls + 1)).getLast? = some loan.results[calls] := by
      have hlast := getLast?_take_succ loan.results calls none
      rw [List.getElem?_eq_getElem hlt] at hlast
      simpa using hlast
    have hrange := hdelivered.range
    rw [hcache] at hrange
    have hget : (Range.get : Action ε (Range Nat V × Store V ε) V)
        ({ executor := some loan.upper, cache := some loan.results[calls] }, store) =
          settle (.ok loan.results[calls])
            ({ executor := some loan.upper, cache := some loan.results[calls] }, store) := rfl
    have hvalue : valueAt loan.cursor store = .ok loan.results[calls] store := by
      rw [valueAt, Action.bind_of_ok (rangeOfCursor_of_entry hentry)]
      exact focus_range_of_same hrange hget
    rw [decide_eq_false (Nat.not_le_of_lt hlt), List.getElem?_eq_getElem hlt]
    exact Action.bind_of_ok hvalue _
  · have hle := Nat.le_of_not_lt hlt
    rw [decide_eq_true hle, List.getElem?_eq_none hle]
    rfl

theorem deliveries_apply (hdelivered : loan.Delivered 0 store) (hcursor : loan.CursorStands 0 store)
    (times : Nat) :
    ∃ advanced, loan.Delivered times advanced ∧ loan.CursorStands times advanced ∧
      deliveries loan.outer loan.cursor times store =
        .ok ((List.range times).map (Buffer.stepAt loan.results)) advanced := by
  induction times with
  | zero => exact ⟨store, hdelivered, hcursor, rfl⟩
  | succ times ih =>
      obtain ⟨earlier, hearlier, hstands, hdeliveries⟩ := ih
      obtain ⟨advanced, hadvanced, hstands', hadvance⟩ := hearlier.advance hstands
      refine ⟨advanced, hadvanced, hstands', ?_⟩
      rw [deliveries, Action.bind_of_ok hdeliveries, Action.bind_of_ok hadvance,
        Action.bind_of_ok (hadvanced.standing hstands'), List.range_succ, List.map_append]
      rfl

/-! ## Closing -/

/-- The walk is stopped, unless it has come to its end by itself. -/
theorem Lent.dropBuffer (hlent : loan.Lent asked store) {buffer : Buffer V ε}
    (hexecutor : store.executors[loan.upper]? = some
      { source := .walk loan.inner (walked loan.values.length asked)
        stage := some { compute := loan.compute, buffer } })
    (hended : buffer.held = false → loan.values.length < asked) :
    ∃ stopped, loan.Lent asked stopped ∧ stopped.ranges = store.ranges ∧
      stopped.executors[loan.upper]? = some
        { source := .walk loan.inner .finished
          stage := some { compute := loan.compute, buffer } } ∧
      Buffer.release (feed (servicesBelow loan.upper) loan.upper
          { compute := loan.compute, buffer }) (buffer, store) =
        settle (.ok ()) (buffer.dropped, stopped) := by
  cases hheld : buffer.held with
  | true =>
      have hsource : releaseSource loan.upper store =
          settle (.ok ()) ((walkOf loan.upper).put .finished store) := by
        rw [releaseSource, Action.bind_of_ok (executorAt_read hexecutor)]
        rfl
      refine ⟨(walkOf loan.upper).put .finished store, hlent.of_upper _, rfl,
        walkOf_put_executor hexecutor, ?_⟩
      rw [Buffer.release_of_held _ hheld]
      exact congrArg₂ settle (Action.answer_of_settle hsource)
        (congrArg _ (Action.after_of_settle hsource))
  | false =>
      rw [walked_of_lt (hended hheld)] at hexecutor
      exact ⟨store, hlent, rfl, hexecutor, Buffer.release_of_not_held _ hheld⟩

/-- What the buffer holds is dropped. -/
theorem Delivered.close (hdelivered : loan.Delivered calls store) :
    ∃ closed buffer,
      (bufferOf loan.upper).find store = some buffer ∧
      buffer.Scheduled loan.size loan.results calls ∧
      loan.Lent (min (horizon loan.size calls) (loan.values.length + 1)) closed ∧
      closed.ranges[loan.outer]? =
        some { executor := none, cache := (loan.results.take calls).getLast? } ∧
      closed.executors[loan.upper]? = some
        { source := .walk loan.inner .finished
          stage := some { compute := loan.compute, buffer := Buffer.dropped buffer } } ∧
      Store.close loan.outer store = .ok () closed := by
  obtain ⟨⟨hwalked, buffer, hscheduled, hexecutor⟩, hrange⟩ := hdelivered
  have hnoted : loan.Lent (min (horizon loan.size calls) (loan.values.length + 1))
      (store.noting (.release loan.upper)) := by
    refine hwalked.toLent.of_kept (hwalked.quiet rfl rfl rfl fun _ => rfl) rfl rfl ?_
    rw [noting_calls, Array.count_push]
    simp [Nat.ne_of_gt loan.lower_lt]
  have hended : buffer.held = false →
      loan.values.length < min (horizon loan.size calls) (loan.values.length + 1) := by
    intro hheld
    have hpassed := of_decide_eq_false (hscheduled.held.symm.trans hheld)
    rw [loan.length_eq] at hpassed
    omega
  obtain ⟨stopped, hlent, hranges, hfinished, hstopped⟩ := hnoted.dropBuffer hexecutor hended
  have hrelease := releaseExecutor_of_buffered hexecutor (servicesBelow loan.upper)
  simp only [Action.answer_of_settle hstopped, Action.after_of_settle hstopped] at hrelease
  rw [← servicesBelow_release (lt_size_of_executor hexecutor)] at hrelease
  have hclose := close_of_release hrange rfl hrelease
  have houter : loan.outer < stopped.ranges.size := by
    rw [hranges]
    exact lt_size_of_range hrange
  refine ⟨_, buffer, bufferOf_find hexecutor, hscheduled, ?_, ?_, ?_, hclose⟩
  · have hdropped : loan.Lent _ ((bufferOf loan.upper).put buffer.dropped stopped) :=
      hlent.of_upper _
    exact hdropped.of_kept (hdropped.quiet rfl rfl rfl fun _ => rfl) rfl
      (Array.getElem?_setIfInBounds_ne loan.inner_ne.symm) rfl
  · exact Array.getElem?_setIfInBounds_self_of_lt houter
  · exact bufferOf_put_executor hfinished

/-- Whoever drains the range gets the values that it has not brought yet. -/
theorem Lent.collect (hlent : loan.Lent asked store) {fuel : Nat}
    (hfuel : loan.values.length < fuel) :
    ∃ after, Store.collect fuel loan.inner store =
      .ok (loan.values.drop asked).toArray after := by
  have hlt := lt_size_of_executor hlent.executor
  have hturn (call : Nat) (store' : Store V ε) (hlent' : loan.Lent (asked + call) store') :
      ∃ store'', loan.Lent (asked + (call + 1)) store'' ∧ ∀ cursor?,
        turnOn store.services loan.inner cursor? store' =
          settle (outcomeAt ε (loan.values.drop asked) call).turned store'' := by
    obtain ⟨store'', hlent'', -, hturn⟩ := hlent'.turn hlt
    rw [outcomeAt_drop]
    exact ⟨store'', hlent'', hturn⟩
  have hunstarted : Walk.unstarted ≠ .finished := nofun
  have hremaining : (loan.values.drop asked).length - 0 < fuel := by
    rw [List.length_drop]
    omega
  obtain ⟨after, -, hcollect⟩ :=
    collect_of_turns hturn (Nat.zero_le _) hremaining #[] hunstarted hlent
  refine ⟨after, ?_⟩
  rw [Store.collect, Action.bind_of_ok (Action.get_apply store)]
  simpa using onFreshWalk_of_settle hcollect

end Loan

/-- The store with a new buffer over a walk and a range that holds it. -/
@[simps]
def lending (inner : Nat) (stage : Stage V ε) (store : Store V ε) : Store V ε :=
  { store with
    executors := store.executors.push { source := .walk inner .unstarted, stage := some stage }
    ranges := store.ranges.push (.holding (some store.executors.size)) }

omit [Textual V ε] in
theorem addBufferedRange_of_walk {size : ChunkSize} {capacity : Nat} {hpos : 0 < capacity}
    (hsize : size.capacity = .ok ⟨capacity, hpos⟩) (inner : Nat) (compute : V → Nat → Reply ε V)
    (store : Store V ε) :
    addBufferedRange (.walk inner .unstarted) compute size store =
      .ok store.ranges.size
        (store.lending inner { compute, buffer := .empty capacity hpos }) := by
  have hadd : addBuffered (.walk inner .unstarted) none compute size store =
      .ok store.executors.size
        { store with
          executors := store.executors.push
            { source := .walk inner .unstarted
              stage := some { compute, buffer := .empty capacity hpos } } } := by
    unfold addBuffered
    rw [Action.bind_of_ok (Action.get_apply store)]
    simp only [hsize]
    rfl
  exact Action.bind_of_ok hadd _

theorem Loan.lending_delivered (loan : Loan V ε) (hpos : 0 < loan.size)
    (hupper : loan.upper = loan.origin.executors.size)
    (houter : loan.outer = loan.origin.ranges.size) (hlent : loan.Lent 0 loan.origin) :
    loan.Delivered 0 (loan.origin.lending loan.inner
      { compute := loan.compute, buffer := .empty loan.size hpos }) := by
  set built := loan.origin.lending loan.inner
    { compute := loan.compute, buffer := .empty loan.size hpos } with hbuilt
  have hexecutor : built.executors[loan.upper]? = some
      { source := .walk loan.inner .unstarted
        stage := some { compute := loan.compute, buffer := .empty loan.size hpos } } := by
    rw [hbuilt, lending_executors, hupper]
    exact Array.getElem?_push_size
  have hkept : loan.Lent 0 built := {
    traces := hlent.quiet rfl rfl rfl fun _ => rfl
    executor := getElem?_push_of_some hlent.executor _
    range := getElem?_push_of_some hlent.range _
    releases := hlent.releases }
  have hasked : min (horizon loan.size 0) (loan.values.length + 1) = 0 := by simp
  refine ⟨⟨?_, .empty loan.size hpos, Buffer.empty_scheduled loan.size hpos loan.results, ?_⟩, ?_⟩
  · rw [hasked]
    exact ⟨hkept, _, hexecutor⟩
  · rw [hasked]
    exact hexecutor
  · rw [houter, hbuilt, lending_ranges, hupper]
    exact Array.getElem?_push_size

/-- **Closing a layer hands back the rest of the range below.** A buffer over a range that reads a
script is asked through a range of its own, any number of times, and that range is closed. Then the
range below keeps its executor, which has not been released, and collecting it brings exactly the
values from the buffer's horizon on. The values whose results were delivered, those whose results
waited in the buffer and were dropped, and those that are collected are all values in their order.
-/
theorem close_hands_back {script : Script V ε} {values : List V} (hends : script.Ends values)
    {compute : V → Nat → Reply ε V} {results : List V} (hcomputes : Computes compute values results)
    {size : Nat} (hsize : 1 ≤ size) {store : Store V ε} {inner number : Nat} {cache : Option V}
    (hexecutor : store.executors[number]? = some { source := .script script })
    (hrange : store.ranges[inner]? = some { executor := some number, cache })
    (hreliable : store.tracing = true → store.Reliable store.traceWriter)
    (htexts : store.tracing = true → ∀ value, value ∈ values ∨ value ∈ results →
      ∃ line, (Textual.toText value).result = .ok line)
    {fuel : Nat} (hfuel : values.length < fuel) :
    let outer := store.ranges.size
    let upper := store.executors.size
    ∃ built, addBufferedRange (.walk inner .unstarted) compute (.number (.integer size)) store =
        .ok outer built ∧
      ∀ times,
        let asked := min (size * (times ⌈/⌉ size)) (values.length + 1)
        let resumed := min values.length (size * (times ⌈/⌉ size))
        ∃ advanced closed after buffer,
          deliveries outer store.cursors.size times built =
            .ok ((results.take times).map .yield ++
              List.replicate (times - values.length) (.done none)) advanced ∧
          (bufferOf upper).find advanced = some buffer ∧
          buffer.chunk.toList.drop buffer.position = (results.take resumed).drop times ∧
          close outer advanced = .ok () closed ∧
          closed.executorOf outer = none ∧
          (bufferOf upper).find closed = some buffer.dropped ∧
          (walkOf upper).find closed = some .finished ∧
          closed.executorOf inner = some number ∧
          closed.executors[number]? = some { source := .script (script.later asked) } ∧
          closed.calls.count (.release number) = store.calls.count (.release number) ∧
          collect fuel inner closed = .ok (values.drop resumed).toArray after ∧
          values.take times ++ (values.take resumed).drop times ++ values.drop resumed = values := by
  intro outer upper
  let loan : Loan V ε := {
    origin := store, lower := number, upper, lower_lt := lt_size_of_executor hexecutor
    inner, outer, inner_ne := Nat.ne_of_lt (lt_size_of_range hrange), cursor := store.cursors.size
    script, values, ends := hends, cache, compute, results, computes := hcomputes, size
    texts := htexts }
  have hlent : loan.Lent 0 store := ⟨⟨[], .refl hreliable⟩, hexecutor, hrange, rfl⟩
  have hbuilt := loan.lending_delivered hsize rfl rfl hlent
  refine ⟨_, addBufferedRange_of_walk (capacity_of_nat hsize) inner compute store, ?_⟩
  intro times asked resumed
  obtain ⟨advanced, hadvanced, -, hdeliveries⟩ := loan.deliveries_apply hbuilt rfl times
  obtain ⟨closed, buffer, hfind, hscheduled, hlent', houter, hupper, hclose⟩ := hadvanced.close
  obtain ⟨after, hcollect⟩ := hlent'.collect hfuel
  refine ⟨advanced, closed, after, buffer, ?_, hfind, ?_, hclose, executorOf_of_range houter,
    bufferOf_find hupper, walkOf_find hupper, executorOf_of_range hlent'.range, hlent'.executor,
    hlent'.releases, ?_, take_drop_drop (le_horizon hsize times) values⟩
  · rw [map_stepAt, loan.length_eq] at hdeliveries
    exact hdeliveries
  · have hconsumed : buffer.consumed = resumed := by
      rw [hscheduled.consumed, loan.length_eq]
      rfl
    rw [hscheduled.waiting, hconsumed]
  · have hrest : values.drop asked = values.drop resumed :=
      drop_min_succ values (horizon size times)
    rw [← hrest]
    exact hcollect

def lenderScript : Script Value Thrown :=
  .ofOutcomes ([.boolean true, .null, .undefined].map .yield) (some (.ok ()))

def lender : Store Value Thrown :=
  { (initial : Store Value Thrown) with
    executors := #[{ source := .script lenderScript }],
    ranges := #[.holding (some 0)],
    writers := #[.accumulator #[]],
    tracing := true }

/-- The second value waits in the buffer when it is closed, and is lost. -/
theorem close_hands_back_mid_chunk :
    ∃ built advanced closed after : Store Value Thrown,
      addBufferedRange (.walk 0 .unstarted) (fun input _ => pure input) (.number (.integer 2))
        lender = .ok 1 built ∧
      deliveries 1 0 1 built = .ok [.yield (.boolean true)] advanced ∧
      close 1 advanced = .ok () closed ∧
      closed.calls.count (.release 0) = 0 ∧
      collect 4 0 closed = .ok #[.undefined] after := by
  have hends : lenderScript.Ends [.boolean true, .null, .undefined] := Script.ofOutcomes_ends _ _
  have hcomputes : Computes (fun input _ => (pure input : Reply Thrown Value))
      [.boolean true, .null, .undefined] [.boolean true, .null, .undefined] := rfl
  have hreliable : lender.tracing = true → lender.Reliable lender.traceWriter :=
    fun _ => ⟨_, rfl, trivial⟩
  have htexts : lender.tracing = true → ∀ value : Value,
      value ∈ [.boolean true, .null, .undefined] ∨ value ∈ [.boolean true, .null, .undefined] →
        ∃ line, (Textual.toText value : Reply Thrown String).result = .ok line := by
    intro _ value hvalue
    have hmem := hvalue.elim id id
    simp only [List.mem_cons, List.not_mem_nil, or_false] at hmem
    rcases hmem with rfl | rfl | rfl <;> exact ⟨_, rfl⟩
  obtain ⟨built, hbuilt, hcloses⟩ := close_hands_back hends hcomputes (Nat.le_succ 1)
    (rfl : lender.executors[0]? = _) (rfl : lender.ranges[0]? = _) hreliable htexts
    (Nat.lt_succ_self 3)
  obtain ⟨advanced, closed, after, -, hdeliveries, -, -, hclose, -, -, -, -, -, hreleases,
    hcollect, -⟩ := hcloses 1
  exact ⟨built, advanced, closed, after, hbuilt, hdeliveries, hclose, hreleases, hcollect⟩

end Store

end PullRange
