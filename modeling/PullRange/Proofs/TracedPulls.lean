import PullRange.Proofs.Cursors
import PullRange.Proofs.Refills
import PullRange.Proofs.StoreLockstep

/-!
# Pulls whose trace fails

While tracing is on, a pull keeps its value in the cache first and traces it then, and only after that
its cursor moves. A trace that fails, since the value cannot be converted or the writer refuses the
line, finds the outcome received. `pull_aloud` says what is left behind, and `ReadsAloud.attempt`
what this makes of a cursor that is made or moved on: nothing that the executor brought is lost.
-/

namespace PullRange

variable {V ε : Type}

namespace Store

section Traces

variable {store : Store V ε}

def writeFault? (writer : Nat) (text : String) (store : Store V ε) : Option (Fault ε) :=
  match store.writers[writer]? with
  | none => some .missing
  | some own =>
      let written : Writer ε × Option (Event Nat V) × Option ε := own.write writer text
      written.2.2.map .raised

/-- A line is not traced if its text cannot be built or the writer of the trace refuses it. -/
def traceFault? (tag : String) (text : Except ε String) (store : Store V ε) : Option (Fault ε) :=
  match text with
  | .error error => some (.raised error)
  | .ok text => store.writeFault? store.traceWriter (traceLine tag text)

/-- Only the writers and the log have changed. -/
structure Unmoved (before after : Store V ε) : Prop where
  objects : after.objects = before.objects
  tracing : after.tracing = before.tracing

theorem write_unmoved (writer : Nat) (text : String) (store : Store V ε) :
    ∃ store', store.Unmoved store' ∧ write writer text store =
      settle ((store.writeFault? writer text).elim (.ok ()) .error) store' := by
  unfold writeFault?
  cases hwriter : store.writers[writer]? with
  | none => exact ⟨store, ⟨rfl, rfl⟩, write_of_missing hwriter text⟩
  | some own =>
      obtain ⟨own', event, failure, hwritten⟩ : ∃ own' event failure,
          (own.write writer text : Writer ε × Option (Event Nat V) × Option ε) =
            (own', event, failure) := ⟨_, _, _, rfl⟩
      have hwrite := write_apply hwriter text
      simp only [hwritten] at hwrite ⊢
      refine ⟨((writerAt writer).put own' store).logging event.toList, ⟨rfl, rfl⟩, ?_⟩
      cases failure with
      | none => exact hwrite
      | some error => exact hwrite

/-- The text of the line is built from a reply, whose conversions are noted. -/
theorem trace_unmoved (htraced : store.tracing = true) (tag : String) {message : Act V ε String}
    {text : Except ε String} {events : List (Event Nat V)}
    (hmessage : message store = settle (text.mapError .raised) (store.logging events)) :
    ∃ store', store.Unmoved store' ∧ trace tag message store =
      settle ((store.traceFault? tag text).elim (.ok ()) .error) store' := by
  cases text with
  | error error =>
      refine ⟨store.logging events, ⟨rfl, rfl⟩, ?_⟩
      rw [trace, Action.bind_of_ok (Action.get_apply store), if_pos htraced]
      exact Action.bind_of_error hmessage _
  | ok text =>
      obtain ⟨store', ⟨hobjects, htracing⟩, hwrite⟩ :=
        write_unmoved store.traceWriter (traceLine tag text) (store.logging events)
      exact ⟨store', ⟨hobjects, htracing⟩, (trace_of_traced htraced hmessage).trans hwrite⟩

end Traces

/-- What goes wrong when the outcome is received: it is a failure itself, or it cannot be traced. -/
def pullFault? (conversion : V → Reply ε String) (outcome : Outcome V ε) (store : Store V ε) :
    Option (Fault ε) :=
  match outcome with
  | .yield value => store.traceFault? "pull" (conversion value).result
  | .done _ => store.traceFault? "pull" (.ok "exhausted")
  | .fail error => some (.raised error)

/-- Range `range` holds executor `number`, which is a script, and tracing is on. -/
structure ReadsAloud (range number : Nat) (script : Script V ε) (cache : Option V)
    (store : Store V ε) : Prop where
  executor : store.executors[number]? = some { source := .script script }
  range : store.ranges[range]? = some { executor := some number, cache }
  traced : store.tracing = true

section Pull

variable [Textual V ε] {store : Store V ε} {range number bound : Nat} {script : Script V ε}
  {cache : Option V}

/-- The outcome is received, whatever becomes of its trace. -/
theorem pull_aloud (haloud : store.ReadsAloud range number script cache) (hlt : number < bound) :
    ∃ store', (store.pulled number script).Unmoved store' ∧
      Range.pull (servicesBelow bound) ({ executor := some number, cache }, store) =
        settle ((store.pullFault? Textual.toText script.upcoming).elim
            (.ok !script.upcoming.isDone) .error)
          (rangeAfter number script cache, store') := by
  have hask := ask_of_script haloud.executor hlt
  have htraced : (store.pulled number script).tracing = true := haloud.traced
  rw [pull_of_executor _ rfl, Action.answer_of_settle hask, Action.after_of_settle hask,
    servicesBelow_trace, servicesBelow_text]
  unfold rangeAfter
  cases script.upcoming with
  | fail error => exact ⟨_, ⟨rfl, rfl⟩, rfl⟩
  | done parting =>
      have hmessage : (pure "exhausted" : Act V ε String) (store.pulled number script) =
          settle ((Except.ok "exhausted" : Except ε String).mapError .raised)
            ((store.pulled number script).logging []) := by
        rw [logging_nil]
        rfl
      obtain ⟨store', hunmoved, htrace⟩ := trace_unmoved htraced "pull" hmessage
      refine ⟨store', hunmoved, ?_⟩
      simp only [Outcome.answer, Action.answer_of_settle htrace, Action.after_of_settle htrace]
      change settle (Except.map _ ((store.traceFault? "pull" (.ok "exhausted")).elim _ _)) _ =
        settle ((store.traceFault? "pull" (.ok "exhausted")).elim _ _) _
      cases store.traceFault? "pull" (.ok "exhausted") <;> rfl
  | yield value =>
      have hmessage := carryOut_apply (Textual.toText value) (store.pulled number script)
      obtain ⟨store', hunmoved, htrace⟩ := trace_unmoved htraced "pull" hmessage
      refine ⟨store', hunmoved, ?_⟩
      simp only [Outcome.answer, text, Action.answer_of_settle htrace,
        Action.after_of_settle htrace]
      change settle (Except.map _
          ((store.traceFault? "pull" (Textual.toText value).result).elim _ _)) _ =
        settle ((store.traceFault? "pull" (Textual.toText value).result).elim _ _) _
      cases store.traceFault? "pull" (Textual.toText value).result <;> rfl

/-- A cursor moves only after the trace. -/
theorem focus_aloud (haloud : store.ReadsAloud range number script cache) (hlt : number < bound)
    (cursor : Cursor) :
    ∃ store', store'.ReadsAloud range number (script.later 1) (script.upcoming.value?.or cache) ∧
      store'.calls = store.calls.push (.ask number) ∧ store'.cursors = store.cursors ∧
      (rangeAt range).focus (cursor.next (servicesBelow bound)) store =
        settle ((store.pullFault? Textual.toText script.upcoming).elim
          (.ok { atEnd := script.upcoming.isDone }) .error) store' := by
  obtain ⟨pulled, ⟨hobjects, htracing⟩, hpull⟩ := pull_aloud haloud hlt
  have hranges : pulled.ranges = store.ranges := congrArg Objects.ranges hobjects
  have hexecutor : pulled.executors[number]? = some { source := .script (script.later 1) } := by
    rw [show pulled.executors = _ from congrArg Objects.executors hobjects]
    exact pulled_executor haloud.executor
  have hlast : range < pulled.ranges.size := hranges ▸ lt_size_of_range haloud.range
  have hnext : cursor.next (servicesBelow bound) ({ executor := some number, cache }, store) =
      settle ((store.pullFault? Textual.toText script.upcoming).elim
        (.ok { atEnd := script.upcoming.isDone }) .error)
        (rangeAfter number script cache, pulled) := by
    rw [Cursor.next, Action.bind_of_settle _ hpull]
    cases store.pullFault? Textual.toText script.upcoming <;> simp
  refine ⟨(rangeAt range).put (rangeAfter number script cache) pulled, ⟨hexecutor, ?_, ?_⟩,
    congrArg Objects.calls hobjects, congrArg Objects.cursors hobjects,
    Place.focus_of_settle haloud.range hnext⟩
  · exact Array.getElem?_setIfInBounds_self_of_lt hlast
  · exact htracing.trans haloud.traced

theorem start_aloud (haloud : store.ReadsAloud range number script cache) :
    let fault? := store.pullFault? Textual.toText script.upcoming
    ∃ store', store'.ReadsAloud range number (script.later 1) (script.upcoming.value?.or cache) ∧
      store'.calls = store.calls.push (.ask number) ∧
      start range store = settle (fault?.elim (.ok store.cursors.size) .error) store' ∧
      store'.cursors = fault?.elim
        (store.cursors.push (range, { atEnd := script.upcoming.isDone })) fun _ => store.cursors := by
  intro fault?
  obtain ⟨received, haloud', hcalls, hcursors, hnext⟩ :=
    focus_aloud haloud (lt_size_of_executor haloud.executor) { atEnd := true }
  have hfocus : (rangeAt range).focus (Cursor.start store.services) store =
      settle (fault?.elim (.ok { atEnd := script.upcoming.isDone }) .error) received := hnext
  rw [start_eq_focus, hfocus]
  cases fault? with
  | some fault => exact ⟨received, haloud', hcalls, rfl, hcursors⟩
  | none =>
      refine ⟨received.binding range { atEnd := script.upcoming.isDone },
        ⟨haloud'.executor, haloud'.range, haloud'.traced⟩, hcalls, ?_, ?_⟩
      · simp [hcursors]
      · simp [hcursors]

theorem advance_aloud (haloud : store.ReadsAloud range number script cache) {place : Nat}
    {current : Cursor} (hentry : store.cursors[place]? = some (range, current)) :
    let fault? := store.pullFault? Textual.toText script.upcoming
    ∃ store', store'.ReadsAloud range number (script.later 1) (script.upcoming.value?.or cache) ∧
      store'.calls = store.calls.push (.ask number) ∧
      advance place store = settle (fault?.elim (.ok ()) .error) store' ∧
      store'.cursors = fault?.elim
        (store.cursors.modify place fun entry => (entry.1, { atEnd := script.upcoming.isDone }))
        fun _ => store.cursors := by
  intro fault?
  obtain ⟨received, haloud', hcalls, hcursors, hnext⟩ :=
    focus_aloud haloud (lt_size_of_executor haloud.executor) current
  have hfocus : (rangeAt range).focus (current.next store.services) store =
      settle (fault?.elim (.ok { atEnd := script.upcoming.isDone }) .error) received := hnext
  rw [advance_eq_focus hentry, hfocus]
  cases fault? with
  | some fault => exact ⟨received, haloud', hcalls, rfl, hcursors⟩
  | none =>
      refine ⟨(cursorAt place).put { atEnd := script.upcoming.isDone } received,
        ⟨haloud'.executor, haloud'.range, haloud'.traced⟩, hcalls, rfl, ?_⟩
      simp [cursorAt, hcursors]

end Pull

/-- One advance: a cursor is moved on, or a new one is made. Values may be converted differently each
time. -/
structure Attempt (V ε : Type) where
  cursor? : Option Nat
  conversion : V → Reply ε String

namespace Attempt

def act (range : Nat) (attempt : Attempt V ε) : Act V ε (Response V ε) :=
  letI : Textual V ε := ⟨attempt.conversion⟩
  match attempt.cursor? with
  | none => (Request.start range).perform
  | some cursor => (Request.advance cursor).perform

/-- A cursor that is moved on is one of the range. -/
def Concerns (range : Nat) (store : Store V ε) (attempt : Attempt V ε) : Prop :=
  ∀ cursor, attempt.cursor? = some cursor → ∃ own, store.cursors[cursor]? = some (range, own)

def response (store : Store V ε) (attempt : Attempt V ε) : Response V ε :=
  match attempt.cursor? with
  | none => .made store.cursors.size
  | some _ => .nothing

/-- The cursors once this one has come to stand where `own` does. -/
def moved (range : Nat) (own : Cursor) (store : Store V ε) (attempt : Attempt V ε) :
    Array (Nat × Cursor) :=
  match attempt.cursor? with
  | none => store.cursors.push (range, own)
  | some cursor => store.cursors.modify cursor fun entry => (entry.1, own)

end Attempt

/-- So many advances, failed or not, lead from one store to the other. -/
inductive AfterAdvances (range : Nat) (origin : Store V ε) : Nat → Store V ε → Prop
  | none : AfterAdvances range origin 0 origin
  | more {advances : Nat} {store : Store V ε} (hbefore : AfterAdvances range origin advances store)
      (attempt : Attempt V ε) (hconcerns : attempt.Concerns range store) :
      AfterAdvances range origin (advances + 1) ((attempt.act range).after store)

section Advances

variable {origin store : Store V ε} {range number advances : Nat} {script : Script V ε}
  {cache : Option V}

/-- An advance that fails leaves the cursors as they are, but has received its outcome. -/
theorem ReadsAloud.attempt (haloud : store.ReadsAloud range number script cache)
    {attempt : Attempt V ε} (hconcerns : attempt.Concerns range store) :
    let fault? := store.pullFault? attempt.conversion script.upcoming
    ∃ store', store'.ReadsAloud range number (script.later 1) (script.upcoming.value?.or cache) ∧
      store'.calls = store.calls.push (.ask number) ∧
      attempt.act range store =
        settle (fault?.elim (.ok (attempt.response store)) .error) store' ∧
      store'.cursors = fault?.elim (attempt.moved range { atEnd := script.upcoming.isDone } store)
        fun _ => store.cursors := by
  intro fault?
  let converts : Textual V ε := ⟨attempt.conversion⟩
  have hact {α : Type} {action : Act V ε α} {made : α} {store' : Store V ε}
      (response : α → Response V ε)
      (haction : action store = settle (fault?.elim (.ok made) .error) store') :
      (response <$> action) store = settle (fault?.elim (.ok (response made)) .error) store' := by
    refine (Action.map_of_settle response haction).trans ?_
    cases fault? <;> rfl
  cases hcursor : attempt.cursor? with
  | none =>
      obtain ⟨store', haloud', hcalls, hstart, hcursors⟩ := start_aloud haloud
      rw [Attempt.act, Attempt.response, Attempt.moved, hcursor]
      exact ⟨store', haloud', hcalls, hact .made hstart, hcursors⟩
  | some cursor =>
      obtain ⟨current, hentry⟩ := hconcerns cursor hcursor
      obtain ⟨store', haloud', hcalls, hadvance, hcursors⟩ := advance_aloud haloud hentry
      rw [Attempt.act, Attempt.response, Attempt.moved, hcursor]
      exact ⟨store', haloud', hcalls, hact (fun _ => .nothing) hadvance, hcursors⟩

/-- The last value among the first outcomes is one that no other of them came after. -/
theorem Account.lastYield_eq_some {asked call : Nat} {value : V} (hlt : call < asked)
    (hvalue : script.coming call = .yield value)
    (hbarren : ∀ later, call < later → later < asked → (script.coming later).value? = none) :
    lastYield script asked = some value := by
  induction asked with
  | zero => exact absurd hlt (Nat.not_lt_zero call)
  | succ asked ih =>
      rw [lastYield_succ]
      change (script.coming asked).value?.or _ = _
      by_cases hlast : call = asked
      · rw [← hlast, hvalue]
        rfl
      · rw [hbarren asked (by omega) (Nat.lt_succ_self asked), Option.none_or]
        exact ih (by omega) fun later hafter hlt => hbarren later hafter (Nat.lt_succ_of_lt hlt)

theorem AfterAdvances.received (hafter : AfterAdvances range origin advances store)
    (haloud : origin.ReadsAloud range number script cache) :
    store.ReadsAloud range number (script.later advances)
        ((Account.lastYield script advances).or cache) ∧
      store.calls = origin.calls ++ Array.replicate advances (.ask number) := by
  induction hafter with
  | none => exact ⟨haloud, by simp⟩
  | more hbefore attempt hconcerns ih =>
      rename_i advances store
      obtain ⟨hbeforeAloud, hbeforeCalls⟩ := ih
      obtain ⟨store', haloud', hcalls, hact, -⟩ := hbeforeAloud.attempt hconcerns
      rw [Script.later_later, ← Option.or_assoc, ← Account.lastYield_succ] at haloud'
      rw [Action.after_of_settle hact, hcalls, hbeforeCalls, Array.replicate_succ,
        Array.push_append]
      exact ⟨haloud', rfl⟩

/-- **A trace that fails loses no result.** Tracing is on, and values may be converted and lines
refused as it happens. So many advances of one range, failed or not, have asked its executor as often
and for nothing else, and the cache holds the last value among the outcomes that they received, where
every cursor of the range finds it until the next value. An advance throws what its outcome throws or
its trace, and then no cursor has moved; otherwise its cursor has come to the end if the outcome said
so. Either way the range keeps its executor, whose next outcome the next advance receives. -/
theorem traced_pulls_lose_nothing (haloud : origin.ReadsAloud range number script cache)
    (hafter : AfterAdvances range origin advances store) :
    store.calls = origin.calls ++ Array.replicate advances (.ask number) ∧
    store.executors[number]? = some { source := .script (script.later advances) } ∧
    store.ranges[range]? =
      some { executor := some number, cache := (Account.lastYield script advances).or cache } ∧
    (∀ call value, call < advances → script.coming call = .yield value →
      (∀ later, call < later → later < advances → (script.coming later).value? = none) →
      ∀ cursor own, store.cursors[cursor]? = some (range, own) →
        valueAt cursor store = .ok value store) ∧
    ∀ attempt : Attempt V ε, attempt.Concerns range store →
      let outcome := script.coming advances
      let store' := (attempt.act range).after store
      AfterAdvances range origin (advances + 1) store' ∧
      match store.pullFault? attempt.conversion outcome with
      | some fault =>
          (attempt.act range).answer store = .error fault ∧ store'.cursors = store.cursors
      | none =>
          (attempt.act range).answer store = .ok (attempt.response store) ∧
          store'.cursors = attempt.moved range { atEnd := outcome.isDone } store := by
  obtain ⟨haloud, hcalls⟩ := hafter.received haloud
  refine ⟨hcalls, haloud.executor, haloud.range, ?_, ?_⟩
  · intro call value hlt hvalue hbarren cursor own hentry
    have hrange := haloud.range
    rw [Account.lastYield_eq_some hlt hvalue hbarren, Option.some_or] at hrange
    rw [valueAt, Action.bind_of_ok (rangeOfCursor_of_entry hentry)]
    have hget : (Range.get : Action ε (Range Nat V × Store V ε) V)
        ({ executor := some number, cache := some value }, store) =
          settle (.ok value) ({ executor := some number, cache := some value }, store) := rfl
    exact focus_range_of_same hrange hget
  · intro attempt hconcerns outcome store'
    obtain ⟨received, -, -, hact, hcursors⟩ := haloud.attempt hconcerns
    have hstore' : store' = received := Action.after_of_settle hact
    refine ⟨.more hafter attempt hconcerns, ?_⟩
    rw [hstore', Action.answer_of_settle hact, hcursors]
    change match store.pullFault? attempt.conversion (script.later advances).upcoming with
      | some _ => _
      | none => _
    cases store.pullFault? attempt.conversion (script.later advances).upcoming with
    | some fault => exact ⟨rfl, rfl⟩
    | none => exact ⟨rfl, rfl⟩

end Advances

def unwritableScript : Script Value Thrown :=
  .ofOutcomes [.yield (.boolean true), .yield .null, .done none, .yield .undefined] none

/-- The writer of the trace takes one line only. -/
def unwritable : Store Value Thrown :=
  { (initial : Store Value Thrown) with
    executors := #[{ source := .script unwritableScript }],
    ranges := #[.holding (some 0)],
    writers := #[.custom (fun write => if write = 0 then none else some (.value .null)) 0],
    tracing := true }

def making : Attempt Value Thrown where
  cursor? := none
  conversion := Textual.toText

def moving : Attempt Value Thrown where
  cursor? := some 0
  conversion := Textual.toText

def garbling : Attempt Value Thrown where
  cursor? := some 0
  conversion _ := .fail (.value .undefined)

/-- The line of the second value is refused, then the line of the end, and the last value cannot be
converted. -/
theorem traced_pulls_lose_nothing_unwritable :
    let first := (making.act 0).after unwritable
    let second := (moving.act 0).after first
    let third := (moving.act 0).after second
    let last := (garbling.act 0).after third
    (moving.act 0).answer first = .error (.raised (.value .null)) ∧
      valueAt 0 second = .ok .null second ∧
      (moving.act 0).answer second = .error (.raised (.value .null)) ∧
      third.cursors = #[(0, { atEnd := false })] ∧
      (garbling.act 0).answer third = .error (.raised (.value .undefined)) ∧
      valueAt 0 last = .ok .undefined last := by
  intro first second third last
  have haloud : unwritable.ReadsAloud 0 0 unwritableScript none := ⟨rfl, rfl, rfl⟩
  have hentry {store : Store Value Thrown} (hcursors : store.cursors = first.cursors) :
      store.cursors[0]? = some (0, { atEnd := false }) := by
    rw [hcursors]
    rfl
  have hconcerns {store : Store Value Thrown} (hcursors : store.cursors = first.cursors)
      {attempt : Attempt Value Thrown} (hown : attempt.cursor? = some 0) :
      attempt.Concerns 0 store := by
    rintro cursor hcursor
    cases hown.symm.trans hcursor
    exact ⟨_, hentry hcursors⟩
  have hfirst : AfterAdvances 0 unwritable 1 first := .more .none making nofun
  obtain ⟨-, -, -, -, hadvance⟩ := traced_pulls_lose_nothing haloud hfirst
  obtain ⟨hsecond, hrefused, hkept⟩ := hadvance moving (hconcerns rfl rfl)
  obtain ⟨-, -, -, hread, hadvance⟩ := traced_pulls_lose_nothing haloud hsecond
  obtain ⟨hthird, hunended, hkept'⟩ := hadvance moving (hconcerns hkept rfl)
  have hkept' := hkept'.trans hkept
  obtain ⟨-, -, -, -, hadvance⟩ := traced_pulls_lose_nothing haloud hthird
  obtain ⟨hlast, hgarbled, hkept''⟩ := hadvance garbling (hconcerns hkept' rfl)
  obtain ⟨-, -, -, hreadLast, -⟩ := traced_pulls_lose_nothing haloud hlast
  refine ⟨hrefused, ?_, hunended, hkept', hgarbled, ?_⟩
  · exact hread 1 .null (by decide) rfl (by omega) 0 _ (hentry hkept)
  · exact hreadLast 3 .undefined (by decide) rfl (by omega) 0 _ (hentry (hkept''.trans hkept'))

end Store

end PullRange
