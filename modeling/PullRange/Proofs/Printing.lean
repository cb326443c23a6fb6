import PullRange.Proofs.Traversal

/-!
# Printing

What a writer has received is either kept by the writer itself or told by the log. Printing writes
two texts for each value and asks once, so a traversal that is printed is a chain of `Prints` steps,
in which the texts and the calls add up.
-/

namespace PullRange

variable {V ε : Type}

def Event.isWrite {ν : Type} : Event ν V → Bool
  | .wrote _ _ => true
  | .streamed _ _ => true
  | _ => false

/-- The writer that an event tells of. -/
def Event.writer? {ν : Type} : Event ν V → Option ν
  | .wrote writer _ => some writer
  | @Event.streamed _ _ writer _ _ => some writer
  | _ => none

namespace Writer

def Reliable : Writer ε → Prop
  | .custom failures _ => ∀ write, failures write = none
  | _ => True

def textOf : Writer ε → Nat → Event Nat V → Option String
  | .console _, number, @Event.streamed _ _ source _ text =>
      if source = number then some text else none
  | .custom _ _, number, .wrote source text => if source = number then some text else none
  | _, _, _ => none

/-- The texts that the writer has received. An accumulator leaves no events and keeps them. -/
def received (writer : Writer ε) (number : Nat) (log : Array (Event Nat V)) : List String :=
  match writer with
  | .accumulator pieces => pieces.toList
  | _ => log.toList.filterMap (writer.textOf number)

theorem textOf_of_other (writer : Writer ε) {number : Nat} {event : Event Nat V}
    (hother : event.writer? ≠ some number) : writer.textOf number event = none := by
  cases event with
  | wrote source text =>
      have hne : source ≠ number := fun hsame => hother (congrArg some hsame)
      cases writer <;> simp [textOf, hne]
  | @streamed source stream text =>
      have hne : source ≠ number := fun hsame => hother (congrArg some hsame)
      cases writer <;> simp [textOf, hne]
  | _ => cases writer <;> rfl

theorem textOf_of_not_isWrite (writer : Writer ε) (number : Nat) {event : Event Nat V}
    (hquiet : event.isWrite = false) : writer.textOf number event = none := by
  apply writer.textOf_of_other
  cases event with
  | wrote source text => exact nomatch hquiet
  | streamed stream text => exact nomatch hquiet
  | _ => exact nofun

theorem received_append_quiet (writer : Writer ε) (number : Nat) (log : Array (Event Nat V))
    {events : List (Event Nat V)} (hquiet : ∀ event ∈ events, event.isWrite = false) :
    writer.received number (log ++ events.toArray) = writer.received number log := by
  have hnone : events.filterMap (writer.textOf number) = [] :=
    List.filterMap_eq_nil_iff.mpr fun event hevent =>
      writer.textOf_of_not_isWrite number (hquiet event hevent)
  cases writer with
  | accumulator pieces => rfl
  | console stream => simp [received, hnone]
  | custom failures writes => simp [received, hnone]

theorem write_of_reliable {writer : Writer ε} (hreliable : writer.Reliable) (number : Nat)
    (text : String) (log : Array (Event Nat V)) :
    ∃ writer' event, writer.write number text = (writer', event, none) ∧ writer'.Reliable ∧
      writer'.received number (log ++ event.toList.toArray) =
        writer.received number log ++ [text] := by
  cases writer with
  | accumulator pieces =>
      refine ⟨_, _, rfl, trivial, ?_⟩
      simp [received]
  | console stream =>
      refine ⟨_, _, rfl, trivial, ?_⟩
      simp [received, textOf]
  | custom failures writes =>
      have hwrite : (Writer.custom failures writes).write number text =
          (.custom failures (writes + 1), some (.wrote number text : Event Nat V), none) := by
        rw [write, hreliable writes]
      refine ⟨_, _, hwrite, hreliable, ?_⟩
      have htextOf : (Writer.custom failures (writes + 1)).textOf number =
          ((Writer.custom failures writes).textOf number : Event Nat V → Option String) := by
        funext event
        cases event <;> rfl
      simp [received, htextOf, textOf]

end Writer

namespace Store

def Reliable (number : Nat) (store : Store V ε) : Prop :=
  ∃ writer, store.writers[number]? = some writer ∧ writer.Reliable

def received (number : Nat) (store : Store V ε) : List String :=
  match store.writers[number]? with
  | none => []
  | some writer => writer.received number store.log

/-- Between the two stores executor `number` was asked so often and the writer received `texts`.
Ranges are left alone: a range that is printed is kept beside the store meanwhile. -/
structure Prints (number writer : Nat) (script : Script V ε) (asked : Nat) (texts : List String)
    (before after : Store V ε) : Prop where
  plays : after.Plays number (script.later asked)
  reliable : after.Reliable writer
  received : after.received writer = before.received writer ++ texts
  calls : after.calls = before.calls ++ Array.replicate asked (.ask number)
  ranges : after.ranges = before.ranges

section Prints

variable {number writer asked more : Nat} {script : Script V ε} {texts lines : List String}
  {store middle after : Store V ε}

theorem Prints.trans (hfirst : store.Prints number writer script asked texts middle)
    (hsecond : middle.Prints number writer (script.later asked) more lines after) :
    store.Prints number writer script (asked + more) (texts ++ lines) after where
  plays := by
    have hplays := hsecond.plays
    rw [Script.later_later] at hplays
    exact hplays
  reliable := hsecond.reliable
  received := by rw [hsecond.received, hfirst.received, List.append_assoc]
  calls := asks_append hfirst.calls hsecond.calls
  ranges := hsecond.ranges.trans hfirst.ranges

/-- What does not write is not received. -/
theorem received_of_quiet {before after : Store V ε} (events : List (Event Nat V))
    (hwriters : after.writers = before.writers) (hlog : after.log = before.log ++ events.toArray)
    (hquiet : ∀ event ∈ events, event.isWrite = false) :
    after.received writer = before.received writer := by
  unfold received
  rw [hwriters, hlog]
  cases before.writers[writer]? with
  | none => rfl
  | some own => exact own.received_append_quiet writer before.log hquiet

theorem received_logging_of_quiet {events : List (Event Nat V)}
    (hquiet : ∀ event ∈ events, event.isWrite = false) :
    (store.logging events).received writer = store.received writer :=
  received_of_quiet events (logging_writers events store) (logging_log events store) hquiet

theorem received_asking (role : Role) (store : Store V ε) :
    (store.asking number role script).received writer = store.received writer := by
  cases hsilent : script.silent with
  | true =>
      refine received_of_quiet [] rfl ?_ nofun
      simp [hsilent]
  | false =>
      refine received_of_quiet [.asked role number] rfl ?_ ?_
      · simp [hsilent]
      · simp [Event.isWrite]

theorem prints_logging (hplays : store.Plays number script) (hreliable : store.Reliable writer)
    {events : List (Event Nat V)} (hquiet : ∀ event ∈ events, event.isWrite = false) :
    store.Prints number writer script 0 [] (store.logging events) where
  plays := ⟨hplays.executor, hplays.untraced⟩
  reliable := hreliable
  received := by rw [received_logging_of_quiet hquiet, List.append_nil]
  calls := by simp
  ranges := rfl

theorem prints_pulled (hplays : store.Plays number script) (hreliable : store.Reliable writer) :
    store.Prints number writer script 1 [] (store.pulled number script) where
  plays := hplays.pull
  reliable := hreliable
  received := by
    rw [List.append_nil]
    exact received_asking .executor (store.noting (.ask number))
  calls := by simp [Array.replicate_succ]
  ranges := rfl

theorem write_of_reliable {own : Writer ε} (hwriter : store.writers[writer]? = some own)
    (hreliable : own.Reliable) (text : String) :
    let written : Writer ε × Option (Event Nat V) × Option ε := own.write writer text
    let after := ((writerAt writer).put written.1 store).logging written.2.1.toList
    write writer text store = .ok () after ∧ after.Reliable writer ∧
      after.received writer = store.received writer ++ [text] := by
  intro written after
  obtain ⟨own', event, hwrite, hown', hreceived⟩ :=
    Writer.write_of_reliable hreliable writer text store.log
  have hwritten : written = (own', event, none) := hwrite
  have hafter : after.writers[writer]? = some own' := by
    rw [show own' = written.1 by rw [hwritten]]
    exact putWriter_self hwriter written.1
  refine ⟨?_, ⟨own', hafter, hown'⟩, ?_⟩
  · rw [write_apply hwriter text, hwrite]
    simp only [after, hwritten]
    rfl
  · unfold received
    rw [hafter, hwriter]
    simp only [after, hwritten]
    exact hreceived

theorem write_prints (hplays : store.Plays number script) (hreliable : store.Reliable writer)
    (text : String) :
    ∃ after, write writer text store = .ok () after ∧
      store.Prints number writer script 0 [text] after := by
  obtain ⟨own, hwriter, hown⟩ := hreliable
  obtain ⟨hwrite, hreliable', hreceived⟩ := write_of_reliable hwriter hown text
  exact ⟨_, hwrite, {
    plays := ⟨hplays.executor, hplays.untraced⟩
    reliable := hreliable'
    received := hreceived
    calls := by simp [writerAt]
    ranges := rfl }⟩

/-- The format turns the value into the line, in any store, and writes nothing itself. -/
def Renders (format : V → Nat → Act V ε String) (value : V) (index : Nat) (line : String) : Prop :=
  ∀ store, ∃ events, format value index store = .ok line (store.logging events) ∧
    ∀ event ∈ events, event.isWrite = false

theorem renders_carryOut {format : V → Nat → Reply ε String} {value : V} {index : Nat}
    {line : String} (hline : (format value index).result = .ok line) :
    Renders (fun value index => carryOut (format value index)) value index line := by
  intro store
  refine ⟨(format value index).converted.map .converted, ?_, ?_⟩
  · have hcarried := carryOut_apply (format value index) store
    rw [hline] at hcarried
    exact hcarried
  · intro event hevent
    obtain ⟨text, _, rfl⟩ := List.mem_map.mp hevent
    rfl

def printed (line : V → Nat → String) (values : List V) (count : Nat) : List String :=
  (values.zipIdx count).flatMap fun (value, index) => [line value index, "\n"]

variable [Textual V ε] {bound fuel count : Nat} {value : V} {line : String}
  {format : V → Nat → Act V ε String}

theorem printLines_round (fuel : Nat) (hplays : store.Plays number script) (hlt : number < bound)
    (hreliable : store.Reliable writer) (hrenders : Renders format value count line) :
    ∃ after, store.Prints number writer script 1 [line, "\n"] after ∧
      Cursor.printLines (servicesBelow bound) { format, write := write writer } (fuel + 1) count
          { atEnd := false } ({ executor := some number, cache := some value }, store) =
        match script.upcoming.cursor with
        | .ok cursor =>
            cursor.printLines (servicesBelow bound) { format, write := write writer } fuel
              (count + 1) (rangeAfter number script (some value), after)
        | .error fault => .error fault (rangeAfter number script (some value), after) := by
  obtain ⟨events, hformat, hquiet⟩ := hrenders store
  have hformatted := prints_logging hplays hreliable hquiet
  obtain ⟨written, hwrite, hwritten⟩ :=
    write_prints hformatted.plays hformatted.reliable line
  obtain ⟨ended, hnewline, hended⟩ := write_prints hwritten.plays hwritten.reliable "\n"
  have hplays : ended.Plays number script := hended.plays
  have hpulled := prints_pulled hplays hended.reliable
  refine ⟨ended.pulled number script, ((hformatted.trans hwritten).trans hended).trans hpulled, ?_⟩
  have hget : (Range.get : Action ε (Range Nat V × Store V ε) V)
      ({ executor := some number, cache := some value }, store) =
        .ok value ({ executor := some number, cache := some value }, store) := rfl
  have hnext : (Cursor.next (servicesBelow bound) { atEnd := false })
      ({ executor := some number, cache := some value }, ended) = _ :=
    cursor_next_apply hplays hlt { atEnd := false }
  rw [Cursor.printLines]
  have hnot : ({ atEnd := false } : Cursor).notEquals .shared = true := rfl
  simp only [hnot, ↓reduceIte]
  rw [Action.bind_of_ok hget, Action.bind_of_ok (onRest_of_ok hformat _),
    Action.bind_of_ok (onRest_of_ok hwrite _), Action.bind_of_ok (onRest_of_ok hnewline _),
    Action.bind_of_settle _ hnext]
  cases script.upcoming <;> rfl

theorem printLines_of_end (hfuel : 0 < fuel) (printer : Printer V ε (Store V ε))
    (state : Range Nat V × Store V ε) :
    Cursor.printLines (servicesBelow bound) printer fuel count { atEnd := true } state =
      .ok count state := by
  cases fuel with
  | zero => exact absurd hfuel (Nat.lt_irrefl 0)
  | succ fuel => rfl

theorem printLines_of_runs {values : List V} {ending : Outcome V ε} {line : V → Nat → String}
    (hplays : store.Plays number script) (hlt : number < bound)
    (hreliable : store.Reliable writer) (hruns : script.Runs ending values)
    (hrenders : ∀ entry ∈ (value :: values).zipIdx count,
      Renders format entry.1 entry.2 (line entry.1 entry.2))
    (hfuel : values.length + 1 < fuel) :
    ∃ after, store.Prints number writer script (values.length + 1)
        (printed line (value :: values) count) after ∧
      Cursor.printLines (servicesBelow bound) { format, write := write writer } fuel count
          { atEnd := false } ({ executor := some number, cache := some value }, store) =
        settle (ending.closing (count + (values.length + 1)))
          ({ executor := some number, cache := values.getLast?.or (some value) }, after) := by
  -- As in a loop by hand, `value` is cached already and not yet printed.
  induction values generalizing store script value fuel count with
  | nil =>
      cases fuel with
      | zero => exact absurd hfuel (Nat.not_lt_zero _)
      | succ fuel =>
          obtain ⟨after, hprints, hround⟩ :=
            printLines_round fuel hplays hlt hreliable (hrenders (value, count) (by simp))
          obtain ⟨houtcome, hbarren⟩ := hruns
          refine ⟨after, hprints, hround.trans ?_⟩
          unfold rangeAfter
          rw [houtcome, hbarren]
          cases ending with
          | yield value => exact nomatch hbarren
          | done parting => exact printLines_of_end (Nat.lt_of_succ_lt_succ hfuel) _ _
          | fail error => rfl
  | cons next values ih =>
      cases fuel with
      | zero => exact absurd hfuel (Nat.not_lt_zero _)
      | succ fuel =>
          obtain ⟨middle, hprints, hround⟩ :=
            printLines_round fuel hplays hlt hreliable (hrenders (value, count) (by simp))
          obtain ⟨houtcome, hruns⟩ := hruns
          have htail : ∀ entry ∈ (next :: values).zipIdx (count + 1),
              Renders format entry.1 entry.2 (line entry.1 entry.2) :=
            fun entry hentry => hrenders entry (List.mem_cons_of_mem _ hentry)
          obtain ⟨after, hprinted, hlines⟩ := ih hprints.plays hprints.reliable hruns htail
            (Nat.lt_of_succ_lt_succ hfuel)
          have hall := hprints.trans hprinted
          rw [Nat.add_comm 1] at hall
          refine ⟨after, hall, hround.trans ?_⟩
          unfold rangeAfter
          rw [houtcome]
          have hcount : count + 1 + (values.length + 1) = count + ((next :: values).length + 1) := by
            simp only [List.length_cons]
            omega
          rw [hcount, ← getLast?_cons_or next values (some value)] at hlines
          exact hlines

theorem rangePrint_of_runs (cache : Option V) {values : List V} {ending : Outcome V ε}
    {line : V → Nat → String} (hplays : store.Plays number script) (hlt : number < bound)
    (hreliable : store.Reliable writer) (hruns : script.Runs ending values)
    (hrenders : ∀ entry ∈ values.zipIdx, Renders format entry.1 entry.2 (line entry.1 entry.2))
    (hfuel : values.length < fuel) :
    ∃ after, store.Prints number writer script (values.length + 1) (printed line values 0) after ∧
      Range.print (servicesBelow bound) { format, write := write writer } fuel
          ({ executor := some number, cache }, store) =
        settle (ending.closing values.length)
          ({ executor := some number, cache := values.getLast?.or cache }, after) := by
  have hstart : (Cursor.start (servicesBelow bound))
      ({ executor := some number, cache }, store) = _ := cursor_next_apply hplays hlt _
  have hpulled := prints_pulled hplays hreliable
  rw [Range.print, Action.bind_of_settle _ hstart]
  unfold rangeAfter
  cases values with
  | nil =>
      obtain ⟨houtcome, hbarren⟩ := hruns
      refine ⟨_, hpulled, ?_⟩
      rw [houtcome, hbarren]
      cases ending with
      | yield value => exact nomatch hbarren
      | done parting => exact printLines_of_end hfuel _ _
      | fail error => rfl
  | cons value values =>
      obtain ⟨houtcome, hruns⟩ := hruns
      obtain ⟨after, hprinted, hlines⟩ :=
        printLines_of_runs hpulled.plays hlt hpulled.reliable hruns hrenders hfuel
      have hall := hpulled.trans hprinted
      rw [Nat.add_comm 1] at hall
      refine ⟨after, hall, ?_⟩
      rw [houtcome]
      rw [Nat.zero_add, ← getLast?_cons_or value values cache] at hlines
      exact hlines

omit [Textual V ε] in
theorem Prints.traversed {range : Nat} {cache : Option V} {values : List V}
    (hreads : store.Reads range number script cache)
    (hprints : store.Prints number writer script (values.length + 1) texts after) :
    store.Traversed range number script cache values
      ((rangeAt range).put { executor := some number, cache := values.getLast?.or cache } after)
    where
  reads := {
    executor := hprints.plays.executor
    untraced := hprints.plays.untraced
    range := by simp [rangeAt, hprints.ranges, hreads.lt_size] }
  calls := hprints.calls

theorem print_of_runs {range : Nat} {cache : Option V} {values : List V} {ending : Outcome V ε}
    {line : V → Nat → String} (hreads : store.Reads range number script cache)
    (hreliable : store.Reliable writer) (hruns : script.Runs ending values)
    (hrenders : ∀ entry ∈ values.zipIdx, Renders format entry.1 entry.2 (line entry.1 entry.2))
    (hfuel : values.length < fuel) :
    ∃ after, store.Traversed range number script cache values after ∧
      after.received writer = store.received writer ++ printed line values 0 ∧
      print fuel range format writer store = settle (ending.closing values.length) after := by
  obtain ⟨after, hprints, hprint⟩ := rangePrint_of_runs cache hreads.toPlays
    (lt_size_of_executor hreads.executor) hreliable hruns hrenders hfuel
  refine ⟨_, hprints.traversed hreads, hprints.received, ?_⟩
  rw [print, Action.bind_of_ok (Action.get_apply store)]
  exact Place.focus_of_settle hreads.range hprint

end Prints

end Store

end PullRange
