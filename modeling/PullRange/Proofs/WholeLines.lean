import Mathlib.Data.List.Infix
import PullRange.Proofs.Requests
import PullRange.Proofs.Traversal

/-!
# No line is torn

Printing asks, formats and writes, and each of these may fail. `Carries` follows a printout call by
call, from the store before it to the store after it, and `Printout` says in which order the calls
come: a line is two writes, and the first failure is the last call. How many calls of each kind
there have been is read off the order.
-/

namespace PullRange

variable {V ε : Type}

/-- A call that printing makes, with what it comes to. -/
inductive PrintCall (V ε : Type) where
  | asked (outcome : Outcome V ε)
  | formatted (value : V) (index : Nat) (line : Except (Fault ε) String)
  | wrote (text : String) (written : Except (Fault ε) Unit)

namespace PrintCall

@[simp]
def outcome? : PrintCall V ε → Option (Outcome V ε)
  | .asked outcome => some outcome
  | _ => none

@[simp]
def formatted? : PrintCall V ε → Option (V × Nat)
  | .formatted value index _ => some (value, index)
  | _ => none

@[simp]
def wrote? : PrintCall V ε → Option (String × Except (Fault ε) Unit)
  | .wrote text written => some (text, written)
  | _ => none

def fault? : PrintCall V ε → Option (Fault ε)
  | .asked outcome => outcome.failure?
  | .formatted _ _ (.error fault) => some fault
  | .wrote _ (.error fault) => some fault
  | _ => none

end PrintCall

def outcomesOf (calls : List (PrintCall V ε)) : List (Outcome V ε) :=
  calls.filterMap PrintCall.outcome?

def valuesOf (calls : List (PrintCall V ε)) : List V :=
  (outcomesOf calls).filterMap Outcome.value?

def formatsOf (calls : List (PrintCall V ε)) : List (V × Nat) :=
  calls.filterMap PrintCall.formatted?

def writesOf (calls : List (PrintCall V ε)) : List (String × Except (Fault ε) Unit) :=
  calls.filterMap PrintCall.wrote?

/-- The calls for a line that is completed, before `calls`. -/
def wholeLine (value : V) (index : Nat) (line : String) (calls : List (PrintCall V ε)) :
    List (PrintCall V ε) :=
  .asked (.yield value) :: .formatted value index (.ok line) :: .wrote line (.ok ()) ::
    .wrote "\n" (.ok ()) :: calls

section WholeLine

variable (value : V) (index : Nat) (line : String) (calls : List (PrintCall V ε))

@[simp]
theorem outcomesOf_wholeLine :
    outcomesOf (wholeLine value index line calls) = .yield value :: outcomesOf calls := rfl

@[simp]
theorem valuesOf_wholeLine :
    valuesOf (wholeLine value index line calls) = value :: valuesOf calls := rfl

@[simp]
theorem formatsOf_wholeLine :
    formatsOf (wholeLine value index line calls) = (value, index) :: formatsOf calls := rfl

@[simp]
theorem writesOf_wholeLine :
    writesOf (wholeLine value index line calls) =
      (line, .ok ()) :: ("\n", .ok ()) :: writesOf calls := rfl

theorem mem_wholeLine {call : PrintCall V ε} (hcall : call ∈ calls) :
    call ∈ wholeLine value index line calls := by
  simp [wholeLine, hcall]

end WholeLine

/-- The texts of the lines from `index` on, each with its end, until the format fails. -/
def linesFrom (format : Store.LineFormat V ε) (index : Nat) : List V → List String
  | [] => []
  | value :: values =>
      match (format.render value index).result with
      | .ok line => line :: "\n" :: linesFrom format (index + 1) values
      | .error _ => []

/-- The calls for a line that is not completed, and what it fails with. -/
inductive BrokenLine (value : V) (index : Nat) : List (PrintCall V ε) → Fault ε → Prop where
  | unformatted (fault : Fault ε) :
      BrokenLine value index [.formatted value index (.error fault)] fault
  | unwritten (line : String) (fault : Fault ε) :
      BrokenLine value index [.formatted value index (.ok line), .wrote line (.error fault)] fault
  | unended (line : String) (fault : Fault ε) :
      BrokenLine value index
        [.formatted value index (.ok line), .wrote line (.ok ()), .wrote "\n" (.error fault)] fault

/-- The calls of a printout from line `count` on, and what it comes to. It is cut off after `fuel`
lines, unless the executor fails just then. -/
inductive Printout : (fuel count : Nat) → List (PrintCall V ε) → Except (Fault ε) Nat → Prop where
  | ended {fuel count : Nat} {parting : Option V} :
      Printout (fuel + 1) count [.asked (.done parting)] (.ok count)
  | stopped {fuel count : Nat} {error : ε} :
      Printout fuel count [.asked (.fail error)] (.error (.raised error))
  | cut {count : Nat} {outcome : Outcome V ε} (houtcome : ∀ error, outcome ≠ .fail error) :
      Printout 0 count [.asked outcome] (.error .unfinished)
  | broken {fuel count : Nat} {value : V} {calls : List (PrintCall V ε)} {fault : Fault ε}
      (hbroken : BrokenLine value count calls fault) :
      Printout (fuel + 1) count (.asked (.yield value) :: calls) (.error fault)
  | line {fuel count : Nat} {value : V} {line : String} {calls : List (PrintCall V ε)}
      {answer : Except (Fault ε) Nat} (hrest : Printout fuel (count + 1) calls answer) :
      Printout (fuel + 1) count (wholeLine value count line calls) answer

namespace Printout

variable {fuel count : Nat} {calls : List (PrintCall V ε)} {answer : Except (Fault ε) Nat}

theorem ok_of_rendered {result : Except ε String} {line : String}
    (hrendered : .ok line = result.mapError Fault.raised) : result = .ok line := by
  cases result with
  | ok rendered => cases hrendered; rfl
  | error error => exact nomatch hrendered

/-- What is written is a beginning of the lines. -/
theorem writes_prefix {format : Store.LineFormat V ε} (hprintout : Printout fuel count calls answer)
    (hrendered : ∀ value index line, .formatted value index line ∈ calls →
      line = (format.render value index).result.mapError .raised) :
    (writesOf calls).map Prod.fst <+: linesFrom format count (valuesOf calls) := by
  induction hprintout with
  | @line fuel count value line calls answer hrest ih =>
      have hline := ok_of_rendered (hrendered value count (.ok line) (by simp [wholeLine]))
      have hmore := ih fun other index rendered hformat =>
        hrendered other index rendered (mem_wholeLine value count line calls hformat)
      simpa [linesFrom, hline] using hmore
  | @broken fuel count value calls fault hbroken =>
      cases hbroken with
      | unformatted fault => simp [writesOf, List.filterMap_cons]
      | unwritten line fault =>
          have hline := ok_of_rendered (hrendered value count (.ok line) (by simp))
          simp [writesOf, valuesOf, outcomesOf, Outcome.value?, linesFrom, hline,
            List.filterMap_cons]
      | unended line fault =>
          have hline := ok_of_rendered (hrendered value count (.ok line) (by simp))
          simp [writesOf, valuesOf, outcomesOf, Outcome.value?, linesFrom, hline,
            List.filterMap_cons]
  | _ => simp [writesOf, List.filterMap_cons]

/-- Every value is formatted once, in its turn, unless the printout is cut off before. -/
theorem formats_prefix (hprintout : Printout fuel count calls answer) :
    formatsOf calls <+: (valuesOf calls).zipIdx count := by
  induction hprintout with
  | line hrest ih => simpa using ih
  | broken hbroken =>
      cases hbroken <;>
        simp [formatsOf, valuesOf, outcomesOf, Outcome.value?, List.filterMap_cons]
  | _ => simp [formatsOf, valuesOf, outcomesOf, Outcome.value?, List.filterMap_cons]

/-- A value is formatted when the lines before it are complete. -/
theorem writes_before_format (hprintout : Printout fuel count calls answer) {place : Nat}
    {value : V} {index : Nat} {line : Except (Fault ε) String}
    (hformat : calls[place]? = some (.formatted value index line)) :
    (writesOf (calls.take place)).length + 2 * count = 2 * index := by
  induction hprintout generalizing place with
  | line hrest ih =>
      rcases place with _ | _ | _ | _ | place
      · cases hformat
      · cases hformat
        exact Nat.zero_add _
      · cases hformat
      · cases hformat
      · have hcounted := ih hformat
        change (writesOf (wholeLine _ _ _ (List.take place _))).length + _ = _
        rw [writesOf_wholeLine, List.length_cons, List.length_cons]
        omega
  | broken hbroken =>
      cases hbroken
      all_goals
        rcases place with _ | _ | _ | _ | place <;> cases hformat
        simp [writesOf]
  | _ => rcases place with _ | place <;> cases hformat

theorem executor_failed (hprintout : Printout fuel count calls answer) {error : ε}
    (hfailed : .asked (.fail error) ∈ calls) :
    (writesOf calls).length = 2 * (valuesOf calls).length ∧ answer = .error (.raised error) ∧
      (outcomesOf calls).length = (valuesOf calls).length + 1 := by
  induction hprintout with
  | line hrest ih =>
      obtain ⟨hwrites, hanswer, houtcomes⟩ := ih (by simpa [wholeLine] using hfailed)
      simp only [writesOf_wholeLine, valuesOf_wholeLine, outcomesOf_wholeLine, List.length_cons]
      exact ⟨by omega, hanswer, by omega⟩
  | stopped =>
      cases List.mem_singleton.mp hfailed
      exact ⟨rfl, rfl, rfl⟩
  | cut houtcome =>
      cases List.mem_singleton.mp hfailed
      exact absurd rfl (houtcome error)
  | broken hbroken => cases hbroken <;> simp at hfailed
  | ended => simp at hfailed

theorem format_failed (hprintout : Printout fuel count calls answer) {value : V} {index : Nat}
    {fault : Fault ε} (hfailed : .formatted value index (.error fault) ∈ calls) :
    (writesOf calls).length + 2 * count = 2 * index ∧ answer = .error fault ∧
      (outcomesOf calls).length + count = index + 1 := by
  induction hprintout with
  | line hrest ih =>
      obtain ⟨hwrites, hanswer, houtcomes⟩ := ih (by simpa [wholeLine] using hfailed)
      simp only [writesOf_wholeLine, outcomesOf_wholeLine, List.length_cons]
      exact ⟨by omega, hanswer, by omega⟩
  | broken hbroken =>
      cases hbroken with
      | unformatted fault =>
          simp only [List.mem_cons, reduceCtorEq, PrintCall.formatted.injEq, Except.error.injEq,
            List.not_mem_nil, or_false, false_or] at hfailed
          obtain ⟨rfl, rfl, rfl⟩ := hfailed
          exact ⟨Nat.zero_add _, rfl, Nat.add_comm 1 _⟩
      | unwritten line fault => simp at hfailed
      | unended line fault => simp at hfailed
  | _ => simp at hfailed

theorem write_failed (hprintout : Printout fuel count calls answer) {write : Nat} {text : String}
    {fault : Fault ε} (hfailed : (writesOf calls)[write]? = some (text, .error fault)) :
    (writesOf calls).length = write + 1 ∧ answer = .error fault ∧
      (outcomesOf calls).length = write / 2 + 1 := by
  induction hprintout generalizing write with
  | line hrest ih =>
      rcases write with _ | _ | write
      · cases hfailed
      · cases hfailed
      · obtain ⟨hwrites, hanswer, houtcomes⟩ := ih hfailed
        simp only [writesOf_wholeLine, outcomesOf_wholeLine, List.length_cons]
        exact ⟨by omega, hanswer, by omega⟩
  | broken hbroken =>
      cases hbroken
      all_goals
        rcases write with _ | _ | write <;> cases hfailed
        try exact ⟨rfl, rfl, rfl⟩
  | _ => cases hfailed

theorem returned_iff (hprintout : Printout fuel count calls answer) (total : Nat) :
    answer = .ok total ↔ ∃ lines, total = count + lines ∧ lines < fuel ∧
      (writesOf calls).length = 2 * lines ∧
      ∃ parting, (outcomesOf calls)[lines]? = some (.done parting) := by
  induction hprintout with
  | @ended fuel count parting =>
      constructor
      · rintro ⟨⟩
        exact ⟨0, rfl, Nat.succ_pos fuel, rfl, parting, rfl⟩
      · rintro ⟨lines, rfl, -, hwrites, -⟩
        cases lines with
        | zero => rfl
        | succ lines => exact nomatch hwrites
  | @line fuel count value text calls answer hrest ih =>
      have hwrites (lines : Nat) : (writesOf (wholeLine value count text calls)).length =
          2 * (lines + 1) ↔ (writesOf calls).length = 2 * lines := by
        rw [writesOf_wholeLine, List.length_cons, List.length_cons]
        omega
      rw [ih]
      constructor
      · rintro ⟨lines, rfl, hfuel, hcounted, parting, houtcome⟩
        exact ⟨lines + 1, by omega, by omega, (hwrites lines).mpr hcounted, parting, houtcome⟩
      · rintro ⟨lines, rfl, hfuel, hcounted, parting, houtcome⟩
        cases lines with
        | zero => exact nomatch houtcome
        | succ lines =>
            exact ⟨lines, by omega, by omega, (hwrites lines).mp hcounted, parting, houtcome⟩
  | cut _ => exact ⟨nofun, fun ⟨_, _, hfuel, _⟩ => absurd hfuel (Nat.not_lt_zero _)⟩
  | stopped =>
      refine ⟨nofun, ?_⟩
      rintro ⟨lines, rfl, -, -, parting, houtcome⟩
      cases lines <;> exact nomatch houtcome
  | broken hbroken =>
      refine ⟨nofun, ?_⟩
      rintro ⟨lines, rfl, -, -, parting, houtcome⟩
      cases hbroken <;> cases lines <;> exact nomatch houtcome

/-- A printout fails with the fault of its last call, or it has run out of fuel. -/
theorem failed (hprintout : Printout fuel count calls answer) {fault : Fault ε}
    (hfailed : answer = .error fault) :
    (∃ call, calls.getLast? = some call ∧ call.fault? = some fault) ∨
      fault = .unfinished ∧ (writesOf calls).length = 2 * fuel := by
  induction hprintout with
  | ended => exact nomatch hfailed
  | stopped =>
      cases hfailed
      exact .inl ⟨_, rfl, rfl⟩
  | cut _ =>
      cases hfailed
      exact .inr ⟨rfl, rfl⟩
  | broken hbroken =>
      cases hfailed
      refine .inl ?_
      cases hbroken <;> exact ⟨_, rfl, rfl⟩
  | @line fuel count value text calls answer hrest ih =>
      rcases ih hfailed with ⟨call, hlast, hfault⟩ | ⟨rfl, hwrites⟩
      · refine .inl ⟨call, ?_, hfault⟩
        simp only [wholeLine, List.getLast?_cons, hlast, Option.getD_some]
      · refine .inr ⟨rfl, ?_⟩
        rw [writesOf_wholeLine, List.length_cons, List.length_cons]
        omega

end Printout

theorem Outcome.answer_injective : Function.Injective (Outcome.answer : Outcome V ε → _) := by
  intro outcome other hanswer
  cases outcome <;> cases other <;> cases hanswer <;> rfl

/-! ## A printout in a store -/

namespace Store

variable {number writer fuel count : Nat} {script : Script V ε} {calls more : List (PrintCall V ε)}
  {store middle after : Store V ε}

theorem line_apply (format : LineFormat V ε) (value : V) (index : Nat) (store : Store V ε) :
    ∃ events, format.line value index store =
      settle ((format.render value index).result.mapError .raised) (store.logging events) := by
  unfold LineFormat.line
  cases format.noted with
  | false => exact ⟨_, carryOut_apply _ store⟩
  | true =>
      refine ⟨.formatting value index :: (format.render value index).converted.map .converted, ?_⟩
      refine (Action.bind_of_ok (emit_apply _ store) _).trans ((carryOut_apply _ _).trans ?_)
      simp [logging]

theorem Plays.logging (hplays : store.Plays number script) (events : List (Event Nat V)) :
    (store.logging events).Plays number script :=
  ⟨hplays.executor, hplays.untraced⟩

/-- A write may fail, but it calls no executor. -/
theorem write_settles (hplays : store.Plays number script) (writer : Nat) (text : String) :
    ∃ written after, write writer text store = settle written after ∧
      after.Plays number script ∧ after.calls = store.calls := by
  cases hwriter : store.writers[writer]? with
  | none => exact ⟨.error .missing, store, write_of_missing hwriter text, hplays, rfl⟩
  | some own =>
      exact ⟨_, _, write_apply hwriter text, ⟨hplays.executor, hplays.untraced⟩, rfl⟩

/-- Between the two stores the script came to the outcomes, in answer to so many calls. -/
structure Asks (number : Nat) (script : Script V ε) (outcomes : List (Outcome V ε))
    (before after : Store V ε) : Prop where
  plays : after.Plays number (script.later outcomes.length)
  calls : after.calls = before.calls ++ Array.replicate outcomes.length (.ask number)
  outcomes : ∀ call outcome, outcomes[call]? = some outcome → outcome = script.coming call

theorem Asks.trans {outcomes others : List (Outcome V ε)}
    (hfirst : Asks number script outcomes store middle)
    (hsecond : Asks number (script.later outcomes.length) others middle after) :
    Asks number script (outcomes ++ others) store after where
  plays := by
    have hplays := hsecond.plays
    rw [Script.later_later] at hplays
    rwa [List.length_append]
  calls := by
    rw [List.length_append]
    exact asks_append hfirst.calls hsecond.calls
  outcomes := by
    intro call outcome houtcome
    by_cases hlt : call < outcomes.length
    · rw [List.getElem?_append_left hlt] at houtcome
      exact hfirst.outcomes call outcome houtcome
    · have hle := Nat.le_of_not_lt hlt
      rw [List.getElem?_append_right hle] at houtcome
      rw [hsecond.outcomes _ outcome houtcome, Script.coming_later, Nat.add_sub_cancel' hle]

variable [Textual V ε]

theorem ask_apply_of_plays (hplays : store.Plays number script) :
    ask number store = settle script.upcoming.answer (store.pulled number script) := by
  rw [ask, Action.bind_of_ok (Action.get_apply store)]
  exact ask_of_script hplays.executor (lt_size_of_executor hplays.executor)

/-- The call takes the store from `before` to `after`. -/
def Makes (number writer : Nat) (format : V → Nat → Act V ε String) :
    PrintCall V ε → (before after : Store V ε) → Prop
  | .asked outcome, before, after => ask number before = settle outcome.answer after
  | .formatted value index line, before, after => format value index before = settle line after
  | .wrote text written, before, after => write writer text before = settle written after

/-- The calls, one after another and with nothing between them, take the store from `before` to
`after`. -/
def Carries (number writer : Nat) (format : V → Nat → Act V ε String) :
    List (PrintCall V ε) → (before after : Store V ε) → Prop
  | [], before, after => before = after
  | call :: calls, before, after =>
      ∃ middle, Makes number writer format call before middle ∧
        Carries number writer format calls middle after

theorem Carries.append {format : V → Nat → Act V ε String}
    (hcalls : Carries number writer format calls store middle)
    (hmore : Carries number writer format more middle after) :
    Carries number writer format (calls ++ more) store after := by
  induction calls generalizing store with
  | nil => exact hcalls ▸ hmore
  | cons call calls ih =>
      obtain ⟨next, hmakes, hcarries⟩ := hcalls
      exact ⟨next, hmakes, ih hcarries⟩

/-- Formatting is carried out in some store on the way, and comes to what the format says. -/
theorem Carries.rendered {format : LineFormat V ε}
    (hcarries : Carries number writer format.line calls store after) {value : V} {index : Nat}
    {line : Except (Fault ε) String} (hformat : .formatted value index line ∈ calls) :
    line = (format.render value index).result.mapError .raised := by
  induction calls generalizing store with
  | nil => exact nomatch hformat
  | cons call calls ih =>
      obtain ⟨next, hmakes, hrest⟩ := hcarries
      rcases List.mem_cons.mp hformat with rfl | hlater
      · obtain ⟨events, hline⟩ := line_apply format value index store
        have hmakes : format.line value index store = settle line next := hmakes
        rw [← Action.answer_of_settle hmakes, Action.answer_of_settle hline]
      · exact ih hrest hlater

theorem makes_asks {format : LineFormat V ε} {call : PrintCall V ε}
    (hplays : store.Plays number script)
    (hmakes : Makes number writer format.line call store after) :
    Asks number script call.outcome?.toList store after := by
  cases call with
  | asked outcome =>
      have hask := ask_apply_of_plays hplays
      have hmakes : ask number store = settle outcome.answer after := hmakes
      obtain rfl : after = store.pulled number script :=
        (Action.after_of_settle hmakes).symm.trans (Action.after_of_settle hask)
      have houtcome : outcome = script.upcoming := Outcome.answer_injective
        ((Action.answer_of_settle hmakes).symm.trans (Action.answer_of_settle hask))
      refine ⟨hplays.pull, by simp [Array.replicate_succ], ?_⟩
      intro call other hother
      cases call with
      | zero => cases hother; exact houtcome
      | succ call => cases hother
  | formatted value index line =>
      obtain ⟨events, hline⟩ := line_apply format value index store
      obtain rfl : after = store.logging events :=
        (Action.after_of_settle hmakes).symm.trans (Action.after_of_settle hline)
      exact ⟨hplays.logging events, by simp, nofun⟩
  | wrote text written =>
      obtain ⟨wrote, written', hwrite, hwritten, hcalls⟩ := write_settles hplays writer text
      obtain rfl : after = written' :=
        (Action.after_of_settle hmakes).symm.trans (Action.after_of_settle hwrite)
      exact ⟨hwritten, by simp [hcalls], nofun⟩

/-- The executor is asked where the calls say so, and nowhere else. -/
theorem carries_asks {format : LineFormat V ε} (hplays : store.Plays number script)
    (hcarries : Carries number writer format.line calls store after) :
    Asks number script (outcomesOf calls) store after := by
  induction calls generalizing store script with
  | nil =>
      cases hcarries
      exact ⟨hplays, by simp [outcomesOf], nofun⟩
  | cons call calls ih =>
      obtain ⟨next, hmakes, hrest⟩ := hcarries
      have hfirst := makes_asks hplays hmakes
      have hall := hfirst.trans (ih hfirst.plays hrest)
      cases call <;> exact hall

section Run

variable {bound : Nat} {format : LineFormat V ε}

def lineWriter (format : LineFormat V ε) (writer : Nat) : Printer V ε (Store V ε) where
  format := format.line
  write := write writer

/-- The calls for one line, which is completed and followed by the next advance, or is broken. -/
theorem printLines_apply (hplays : store.Plays number script) (writer : Nat)
    (format : LineFormat V ε) (fuel count : Nat) (value : V) :
    let printer := lineWriter format writer
    let own : Range Nat V := { executor := some number, cache := some value }
    let lines := Cursor.printLines (servicesBelow bound) printer (fuel + 1) count { atEnd := false }
    ∃ calls middle, Carries number writer format.line calls store middle ∧
      middle.Plays number script ∧
      ((∃ fault, BrokenLine value count calls fault ∧
        lines (own, store) = .error fault (own, middle)) ∨
      (∃ line,
        calls = [.formatted value count (.ok line), .wrote line (.ok ()), .wrote "\n" (.ok ())] ∧
        lines (own, store) =
          (do
            let cursor ← ({ atEnd := false } : Cursor).next (servicesBelow bound)
            cursor.printLines (servicesBelow bound) printer fuel (count + 1)) (own, middle))) := by
  intro printer own lines
  have hlines : lines = (do
      let value ← Range.get
      let line ← onRest (format.line value count)
      onRest (write writer line)
      onRest (write writer "\n")
      let cursor ← ({ atEnd := false } : Cursor).next (servicesBelow bound)
      cursor.printLines (servicesBelow bound) printer fuel (count + 1)) := rfl
  have hget : (Range.get : Action ε (Range Nat V × Store V ε) V) (own, store) =
      .ok value (own, store) := rfl
  rw [hlines, Action.bind_of_ok hget]
  obtain ⟨events, hformat⟩ := line_apply format value count store
  have hformatted := hplays.logging events
  rw [Action.bind_of_settle _ (onRest_of_settle hformat _)]
  cases hrendered : (format.render value count).result.mapError Fault.raised with
  | error fault =>
      rw [hrendered] at hformat
      refine ⟨_, _, ?_, hformatted, .inl ⟨fault, .unformatted fault, rfl⟩⟩
      exact ⟨_, hformat, rfl⟩
  | ok line =>
      rw [hrendered] at hformat
      obtain ⟨written, wrote, hwrite, hwrote, -⟩ := write_settles hformatted writer line
      simp only
      rw [Action.bind_of_settle _ (onRest_of_settle hwrite _)]
      cases written with
      | error fault =>
          refine ⟨_, _, ?_, hwrote, .inl ⟨fault, .unwritten line fault, rfl⟩⟩
          exact ⟨_, hformat, _, hwrite, rfl⟩
      | ok done =>
          obtain ⟨ended, ending, hend, hended, -⟩ := write_settles hwrote writer "\n"
          simp only
          rw [Action.bind_of_settle _ (onRest_of_settle hend _)]
          cases ended with
          | error fault =>
              refine ⟨_, _, ?_, hended, .inl ⟨fault, .unended line fault, rfl⟩⟩
              exact ⟨_, hformat, _, hwrite, _, hend, rfl⟩
          | ok done =>
              refine ⟨_, _, ?_, hended, .inr ⟨line, rfl, rfl⟩⟩
              exact ⟨_, hformat, _, hwrite, _, hend, rfl⟩

theorem next_printLines_apply (hplays : store.Plays number script) (hlt : number < bound)
    (printer : Printer V ε (Store V ε)) (fuel count : Nat) (cache : Option V) (current : Cursor) :
    (do
      let cursor ← current.next (servicesBelow bound)
      cursor.printLines (servicesBelow bound) printer fuel count)
        ({ executor := some number, cache }, store) =
      match script.upcoming with
      | .yield value =>
          Cursor.printLines (servicesBelow bound) printer fuel count { atEnd := false }
            ({ executor := some number, cache := some value }, store.pulled number script)
      | .done _ =>
          Cursor.printLines (servicesBelow bound) printer fuel count { atEnd := true }
            ({ executor := some number, cache }, store.pulled number script)
      | .fail error =>
          .error (.raised error)
            ({ executor := some number, cache }, store.pulled number script) := by
  rw [Action.bind_of_settle _ (cursor_next_apply hplays hlt current)]
  unfold rangeAfter
  cases script.upcoming <;> rfl

theorem next_printLines (hplays : store.Plays number script) (hlt : number < bound) (writer : Nat)
    (format : LineFormat V ε) (fuel count : Nat) (cache : Option V) (current : Cursor) :
    ∃ calls answer after, Printout fuel count calls answer ∧
      Carries number writer format.line calls store after ∧
      (do
        let cursor ← current.next (servicesBelow bound)
        cursor.printLines (servicesBelow bound) (lineWriter format writer) fuel count)
          ({ executor := some number, cache }, store) =
        settle answer
          ({ executor := some number, cache := (valuesOf calls).getLast?.or cache }, after) := by
  have hasked := ask_apply_of_plays hplays
  rw [next_printLines_apply hplays hlt]
  induction fuel generalizing store script count cache current with
  | zero =>
      cases houtcome : script.upcoming with
      | fail error => exact ⟨_, _, _, .stopped, ⟨_, houtcome ▸ hasked, rfl⟩, rfl⟩
      | done parting =>
          exact ⟨[.asked (.done parting)], _, _, .cut nofun, ⟨_, houtcome ▸ hasked, rfl⟩, rfl⟩
      | yield value =>
          exact ⟨[.asked (.yield value)], _, _, .cut nofun, ⟨_, houtcome ▸ hasked, rfl⟩, rfl⟩
  | succ fuel ih =>
      cases houtcome : script.upcoming with
      | fail error => exact ⟨_, _, _, .stopped, ⟨_, houtcome ▸ hasked, rfl⟩, rfl⟩
      | done parting => exact ⟨_, _, _, .ended, ⟨_, houtcome ▸ hasked, rfl⟩, rfl⟩
      | yield value =>
          obtain ⟨calls, middle, hcarries, hmiddle, hline⟩ :=
            printLines_apply hplays.pull writer format fuel count value
          rcases hline with ⟨fault, hbroken, hlines⟩ | ⟨line, rfl, hlines⟩
          · refine ⟨_, _, middle, .broken hbroken, ⟨_, houtcome ▸ hasked, hcarries⟩,
              hlines.trans ?_⟩
            cases hbroken <;> rfl
          · obtain ⟨more, answer, after, hprintout, hmore, hnext⟩ :=
              ih hmiddle (count + 1) (some value) { atEnd := false } (ask_apply_of_plays hmiddle)
            rw [← next_printLines_apply hmiddle hlt _ _ _ _ { atEnd := false }] at hnext
            refine ⟨_, answer, after, .line hprintout,
              ⟨_, houtcome ▸ hasked, hcarries.append hmore⟩, hlines.trans (hnext.trans ?_)⟩
            rw [← getLast?_cons_or value (valuesOf more) cache]
            rfl

end Run

/-- What the calls of a printout come to, whichever of them fails. -/
structure WholeLines (format : LineFormat V ε) (fuel : Nat) (calls : List (PrintCall V ε))
    (answer : Except (Fault ε) Nat) : Prop where
  written : (writesOf calls).map Prod.fst <+: linesFrom format 0 (valuesOf calls)
  formatted : formatsOf calls <+: (valuesOf calls).zipIdx
  inTurn : ∀ place value index line, calls[place]? = some (.formatted value index line) →
    (writesOf (calls.take place)).length = 2 * index ∧
      line = (format.render value index).result.mapError .raised
  executorFails : ∀ error, .asked (.fail error) ∈ calls →
    (writesOf calls).length = 2 * (valuesOf calls).length ∧ answer = .error (.raised error) ∧
      (outcomesOf calls).length = (valuesOf calls).length + 1
  formatFails : ∀ value index fault, .formatted value index (.error fault) ∈ calls →
    (writesOf calls).length = 2 * index ∧ answer = .error fault ∧
      (outcomesOf calls).length = index + 1
  writerFails : ∀ write text fault, (writesOf calls)[write]? = some (text, .error fault) →
    (writesOf calls).length = write + 1 ∧ answer = .error fault ∧
      (outcomesOf calls).length = write / 2 + 1
  returnsIff : ∀ lines, answer = .ok lines ↔ lines < fuel ∧
    (writesOf calls).length = 2 * lines ∧
      ∃ parting, (outcomesOf calls)[lines]? = some (.done parting)
  fails : ∀ fault, answer = .error fault →
    (∃ call, calls.getLast? = some call ∧ call.fault? = some fault) ∨
      fault = .unfinished ∧ (writesOf calls).length = 2 * fuel

/-- **No line is torn.** A printout is nothing but its calls, and the first call that fails is its
last one. Before it all lines are complete, unless the writer itself has failed in the middle of
one. -/
theorem print_wholeLines {range : Nat} {cache : Option V}
    (hreads : store.Reads range number script cache) (writer fuel : Nat) (format : LineFormat V ε) :
    ∃ calls answer after,
      print fuel range format.line writer store = settle answer
        ((rangeAt range).put
          { executor := some number, cache := (valuesOf calls).getLast?.or cache } after) ∧
      Carries number writer format.line calls store after ∧
      Asks number script (outcomesOf calls) store after ∧ WholeLines format fuel calls answer := by
  obtain ⟨calls, answer, after, hprintout, hcarries, hprint⟩ :=
    next_printLines hreads.toPlays (lt_size_of_executor hreads.executor) writer format fuel 0 cache
      { atEnd := true }
  refine ⟨calls, answer, after, ?_, hcarries, carries_asks hreads.toPlays hcarries, ?_⟩
  · rw [print, Action.bind_of_ok (Action.get_apply store)]
    exact Place.focus_of_settle hreads.range hprint
  have hrendered (value : V) (index : Nat) (line : Except (Fault ε) String)
      (hformat : .formatted value index line ∈ calls) :
      line = (format.render value index).result.mapError .raised := hcarries.rendered hformat
  exact {
    written := hprintout.writes_prefix hrendered
    formatted := hprintout.formats_prefix
    inTurn := fun place value index line hformat =>
      ⟨hprintout.writes_before_format hformat,
        hrendered value index line (List.mem_of_getElem? hformat)⟩
    executorFails := fun error hfailed => hprintout.executor_failed hfailed
    formatFails := fun value index fault hfailed => hprintout.format_failed hfailed
    writerFails := fun write text fault hfailed => hprintout.write_failed hfailed
    returnsIff := by
      intro lines
      rw [hprintout.returned_iff]
      simp only [Nat.zero_add, exists_eq_left']
    fails := fun fault hfailed => hprintout.failed hfailed }

/-- The executor fails after one value, before the writer would have failed on its fifth write. -/
def faltering : Store Value Thrown :=
  { (initial : Store Value Thrown) with
    executors := #[{ source := .script (.ofOutcomes [.yield .null, .fail (.value .null)] none) }],
    ranges := #[.holding (some 0)],
    writers := #[.custom (fun write => if write = 4 then some (.value .undefined) else none) 0] }

def numbers : LineFormat Value Thrown where
  render _ index := .pure (toString index)
  noted := true

theorem print_wholeLines_before_failure :
    ∃ calls after, print 3 0 numbers.line 0 faltering = .error (.raised (.value .null)) after ∧
      WholeLines numbers 3 calls (.error (.raised (.value .null))) ∧
      (writesOf calls).length = 2 ∧ (outcomesOf calls).length = 2 := by
  have hreads : faltering.Reads 0 0
      (.ofOutcomes [.yield .null, .fail (.value .null)] none) none := ⟨⟨rfl, rfl⟩, rfl⟩
  obtain ⟨calls, answer, after, hprint, -, hasks, hwhole⟩ := print_wholeLines hreads 0 3 numbers
  have hcalls : ((print 3 0 numbers.line 0).after faltering).calls = #[.ask 0, .ask 0] := rfl
  rw [Action.after_of_settle hprint] at hcalls
  have hasked : (outcomesOf calls).length = 2 := by
    have hsize := congrArg Array.size (hasks.calls.symm.trans hcalls)
    simpa [faltering, initial] using hsize
  have houtcome := List.getElem?_eq_getElem (l := outcomesOf calls) (i := 1) (by omega)
  obtain ⟨call, hcall, hfailed⟩ :=
    List.mem_filterMap.mp (hasks.outcomes 1 _ houtcome ▸ List.mem_of_getElem? houtcome)
  have hfailed : .asked (.fail (.value .null)) ∈ calls := by
    cases call <;> cases hfailed
    exact hcall
  obtain ⟨hwrites, rfl, hvalues⟩ := hwhole.executorFails _ hfailed
  exact ⟨calls, _, hprint, hwhole, by omega, hasked⟩

end Store

end PullRange
