import PullRange.Proofs.RefillSchedule

/-!
# The trace of a drained range

Two layers write to the trace while a range over a buffer is drained: the buffer writes a line for
each refill, the range a line for each pull. `callLines` are the lines of one call, in the order in
which they are written, and `flatMap_callLines` orders the lines of all calls by chunks.
-/

namespace PullRange

/-- The lines of a call: that of the refill, if there is one, and that of the pull. -/
def callLines (size : Nat) (texts : List String) (call : Nat) : List String :=
  Buffer.refillLines size texts.length call ++
    [traceLine "pull" (texts[call]?.getD "exhausted")]

/-- How many results a chunk brings. -/
def chunkCount (size count chunk : Nat) : Nat :=
  min size (count - chunk * size)

def chunkLines (size : Nat) (texts : List String) (chunk : Nat) : List String :=
  traceLine "underflow" (toString (chunkCount size texts.length chunk) ++ " results") ::
    ((texts.drop (chunk * size)).take size).map (traceLine "pull")

/-- The lines of all chunks in their order, those of an empty refill if the last chunk was full, and
that of the end. -/
def drainLines (size : Nat) (texts : List String) : List String :=
  (List.range (texts.length ⌈/⌉ size)).flatMap (chunkLines size texts) ++
    (if size ∣ texts.length then [traceLine "underflow" "0 results"] else []) ++
      [traceLine "pull" "exhausted"]

section Lines

variable {size : Nat} {texts : List String}

theorem sum_chunkCount (hpos : 0 < size) (count : Nat) :
    ((List.range (count ⌈/⌉ size)).map (chunkCount size count)).sum = count := by
  have hsum (chunks : Nat) :
      ((List.range chunks).map (chunkCount size count)).sum = min count (chunks * size) := by
    induction chunks with
    | zero => simp
    | succ chunks ih =>
        rw [List.range_succ, List.map_append, List.sum_append, ih, List.map_singleton,
          List.sum_singleton, chunkCount, Nat.succ_mul]
        omega
  have hle : count ≤ horizon size count := le_horizon hpos count
  rw [horizon, Nat.mul_comm] at hle
  rw [hsum, Nat.min_eq_left hle]

theorem flatMap_range_mul {α : Type} (items : Nat → List α) (chunks size : Nat) :
    (List.range (chunks * size)).flatMap items =
      (List.range chunks).flatMap fun chunk =>
        (List.range size).flatMap fun offset => items (chunk * size + offset) := by
  induction chunks with
  | zero => simp
  | succ chunks ih =>
      rw [Nat.succ_mul, List.range_add, List.flatMap_append, ih, List.range_succ,
        List.flatMap_append, List.flatMap_map, List.flatMap_singleton]

/-- Only the first call of a chunk refills. -/
theorem flatMap_chunk (chunk : Nat) {room : Nat} (hroom : room < size)
    (hle : chunk * size + room ≤ texts.length) :
    ((List.range (room + 1)).flatMap fun offset => callLines size texts (chunk * size + offset)) =
      traceLine "underflow" (toString (chunkCount size texts.length chunk) ++ " results") ::
        (List.range (room + 1)).map fun offset =>
          traceLine "pull" (texts[chunk * size + offset]?.getD "exhausted") := by
  induction room with
  | zero =>
      have hrefills : size ∣ chunk * size + 0 ∧ chunk * size + 0 ≤ texts.length :=
        ⟨Nat.dvd_mul_left size chunk, hle⟩
      rw [Nat.zero_add, List.range_one, List.flatMap_singleton, callLines, Buffer.refillLines,
        if_pos hrefills]
      rfl
  | succ room ih =>
      have hwithin : ¬ size ∣ chunk * size + (room + 1) := by
        rw [Nat.dvd_add_right (Nat.dvd_mul_left size chunk)]
        exact Nat.not_dvd_of_pos_of_lt room.succ_pos hroom
      have hnone : Buffer.refillLines size texts.length (chunk * size + (room + 1)) = [] :=
        if_neg fun hrefills => hwithin hrefills.1
      rw [List.range_succ, List.flatMap_append, ih (by omega) (by omega), List.map_append,
        List.flatMap_singleton, callLines, hnone]
      rfl

theorem map_pullLines (first : Nat) {count : Nat} (hle : first + count ≤ texts.length) :
    ((List.range count).map fun offset =>
        traceLine "pull" (texts[first + offset]?.getD "exhausted")) =
      ((texts.drop first).take count).map (traceLine "pull") := by
  apply List.ext_getElem
  · simp
    omega
  · intro offset hoffset _
    have hlt : first + offset < texts.length := by
      rw [List.length_map, List.length_range] at hoffset
      omega
    simp [hlt]

theorem flatMap_of_chunk (chunk : Nat) (hpos : 0 < size)
    (hle : chunk * size + size ≤ texts.length) :
    ((List.range size).flatMap fun offset => callLines size texts (chunk * size + offset)) =
      chunkLines size texts chunk := by
  obtain ⟨room, rfl⟩ : ∃ room, size = room + 1 := ⟨size - 1, by omega⟩
  rw [flatMap_chunk chunk (Nat.lt_add_one room) (by omega), map_pullLines _ hle]
  rfl

/-- The calls that drain the range, the one that finds the end included. -/
theorem flatMap_callLines (hpos : 0 < size) (texts : List String) :
    (List.range (texts.length + 1)).flatMap (callLines size texts) = drainLines size texts := by
  have hcount := Nat.div_add_mod' texts.length size
  have hlt := Nat.mod_lt texts.length hpos
  set chunks := texts.length / size
  set left := texts.length % size with hleft
  have hchunks : (List.range (chunks * size)).flatMap (callLines size texts) =
      (List.range chunks).flatMap (chunkLines size texts) := by
    rw [flatMap_range_mul]
    refine List.flatMap_congr fun chunk hchunk => flatMap_of_chunk chunk hpos ?_
    have hnext := Nat.mul_le_mul_right size (List.mem_range.mp hchunk)
    rw [Nat.succ_mul] at hnext
    omega
  have hcut : (List.range (left + 1)).map (fun offset =>
      traceLine "pull" (texts[chunks * size + offset]?.getD "exhausted")) =
        ((texts.drop (chunks * size)).take size).map (traceLine "pull") ++
          [traceLine "pull" "exhausted"] := by
    have hend : texts[chunks * size + left]? = none := List.getElem?_eq_none hcount.ge
    have hall : (texts.drop (chunks * size)).take size = (texts.drop (chunks * size)).take left := by
      rw [List.take_of_length_le, List.take_of_length_le] <;> rw [List.length_drop] <;> omega
    rw [List.range_succ, List.map_append, map_pullLines _ hcount.le, hall, List.map_singleton, hend]
    rfl
  have hlast := flatMap_chunk chunks hlt hcount.le
  rw [hcut, ← List.cons_append] at hlast
  change _ = chunkLines size texts chunks ++ _ at hlast
  have hsplit : texts.length + 1 = chunks * size + (left + 1) := by omega
  rw [hsplit, List.range_add, List.flatMap_append, hchunks, List.flatMap_map, hlast, drainLines]
  rw [Nat.mul_comm] at hcount
  by_cases hzero : left = 0
  · rw [hzero, Nat.add_zero] at hcount
    have hlength : texts.length ⌈/⌉ size = chunks := by rw [← hcount, mul_ceilDiv hpos]
    have hdvd : size ∣ texts.length := ⟨chunks, hcount.symm⟩
    have hempty : chunkLines size texts chunks = [traceLine "underflow" "0 results"] := by
      rw [chunkLines, chunkCount, Nat.mul_comm chunks, hcount, Nat.sub_self, Nat.min_zero,
        List.drop_length, List.take_nil]
      rfl
    rw [hlength, if_pos hdvd, hempty, List.append_assoc]
  · have hlength : texts.length ⌈/⌉ size = chunks + 1 := by
      rw [← hcount, mul_add_ceilDiv hpos chunks (Nat.pos_of_ne_zero hzero) hlt.le]
    have hdvd : ¬ size ∣ texts.length := fun hdvd => hzero (Nat.mod_eq_zero_of_dvd hdvd)
    rw [hlength, if_neg hdvd, List.range_succ, List.flatMap_append, List.flatMap_singleton,
      List.append_nil, List.append_assoc]

theorem exists_body_of_mem_drainLines {line : String} (hline : line ∈ drainLines size texts) :
    ∃ body, line = body ++ "\n" := by
  have hlines : ∃ tag text, line = traceLine tag text := by
    rw [drainLines, List.mem_append, List.mem_append, List.mem_flatMap] at hline
    rcases hline with (⟨chunk, -, hchunk⟩ | hempty) | hend
    · rcases List.mem_cons.mp hchunk with rfl | hpull
      · exact ⟨_, _, rfl⟩
      · obtain ⟨text, -, rfl⟩ := List.mem_map.mp hpull
        exact ⟨_, _, rfl⟩
    · split at hempty
      · exact ⟨_, _, List.mem_singleton.mp hempty⟩
      · exact nomatch hempty
    · exact ⟨_, _, List.mem_singleton.mp hend⟩
  obtain ⟨tag, text, rfl⟩ := hlines
  exact ⟨tag ++ ": " ++ text, rfl⟩

end Lines

/-- What a producer of these results comes to, call by call. -/
def outcomeAt {V : Type} (ε : Type) (results : List V) (call : Nat) : Outcome V ε :=
  results[call]?.elim (.done none) .yield

/-- A loop that is taken to the end, when each turn leads to the next one. -/
theorem collect_of_turns {V ε ω : Type} {turn : Turn V ε ω} {results : List V}
    {At : Nat → ω → Prop}
    (hturn : ∀ call state, At call state → ∃ state', At (call + 1) state' ∧
      ∀ cursor?, turn cursor? state = settle (outcomeAt ε results call).turned state')
    {call fuel : Nat} (hcall : call ≤ results.length) (hfuel : results.length - call < fuel)
    (collected : Array V) {walk : Walk} (hwalk : walk ≠ .finished) {state : ω}
    (hat : At call state) :
    ∃ after, At (results.length + 1) after ∧
      Walk.collect turn fuel collected (walk, state) =
        settle (.ok (collected ++ (results.drop call).toArray)) (.finished, after) := by
  induction fuel generalizing call collected walk state with
  | zero => exact absurd hfuel (Nat.not_lt_zero _)
  | succ fuel ih =>
      obtain ⟨state', hat', hnext⟩ := hturn call state hat
      have hwalked := walk_next_of_turn hnext hwalk
      rw [Walk.collect, Action.bind_of_settle _ hwalked]
      by_cases hlt : call < results.length
      · have houtcome : outcomeAt ε results call = .yield results[call] := by
          rw [outcomeAt, List.getElem?_eq_getElem hlt]
          rfl
        have hsuspended : Walk.suspended { atEnd := false } ≠ .finished := by decide
        obtain ⟨after, hafter, hcollect⟩ :=
          ih hlt (by omega) (collected.push results[call]) hsuspended hat'
        refine ⟨after, hafter, ?_⟩
        rw [houtcome, List.drop_eq_getElem_cons hlt, ← List.push_append_toArray]
        exact hcollect
      · have hend : call = results.length := by omega
        subst hend
        have houtcome : outcomeAt ε results results.length = .done none := by
          rw [outcomeAt, List.getElem?_eq_none (Nat.le_refl _)]
          rfl
        refine ⟨state', hat', ?_⟩
        rw [houtcome]
        simp [Outcome.delivered, Outcome.walk]

namespace Store

variable {V ε : Type} [Textual V ε]

/-- The results are converted to the texts. -/
def Converts (results : List V) (texts : List String) : Prop :=
  results.map (fun result => (Textual.toText result).result) = texts.map .ok

theorem Converts.text_of_result {results : List V} {texts : List String}
    (hconverts : Converts results texts) {call : Nat} {result : V}
    (hresult : results[call]? = some result) :
    ∃ line, texts[call]? = some line ∧ (Textual.toText result).result = .ok line := by
  have hat := congrArg (·[call]?) hconverts
  simp only [List.getElem?_map, hresult, Option.map_some] at hat
  cases htext : texts[call]? with
  | none => simp [htext] at hat
  | some line =>
      rw [htext] at hat
      exact ⟨line, rfl, Option.some.inj hat⟩

theorem Converts.length_eq {results : List V} {texts : List String}
    (hconverts : Converts results texts) : texts.length = results.length := by
  simpa using (congrArg List.length hconverts).symm

section Underway

variable {origin store store' : Store V ε} {number size calls bound : Nat} {script : Script V ε}
  {compute : V → Nat → Reply ε V} {inputs results : List V} {texts lines lines' : List String}
  {parting : Option V}

omit [Textual V ε] in
theorem Underway.of_undisturbed
    (hunderway : origin.Underway number script compute inputs results size calls lines store)
    (hsame : store.Undisturbed store') (htraces : origin.Traces lines' store') :
    origin.Underway number script compute inputs results size calls lines' store' := by
  obtain ⟨hsteady, buffer, hscheduled, hexecutor⟩ := hunderway
  exact ⟨hsteady.of_undisturbed hsame htraces, buffer, hscheduled, hsame.executors ▸ hexecutor⟩

omit [Textual V ε] in
theorem Underway.putRange
    (hunderway : origin.Underway number script compute inputs results size calls lines store)
    (range : Nat) (own : Range Nat V) :
    origin.Underway number script compute inputs results size calls lines
      ((rangeAt range).put own store) := by
  obtain ⟨hsteady, hbuffer⟩ := hunderway
  refine ⟨⟨?_, hsteady.executor, hsteady.events, ?_⟩, hbuffer⟩
  · exact hsteady.toTraces.of_quiet rfl rfl rfl fun _ => rfl
  · exact Array.size_setIfInBounds.trans hsteady.size

/-- The buffer traces before the range does. -/
theorem pull_of_underway (hruns : script.Runs (.done parting) inputs)
    (hcomputes : Computes compute inputs results) (hconverts : Converts results texts)
    (hunderway : origin.Underway number script compute inputs results size calls lines store)
    (hlt : number < bound) (cache : Option V) :
    ∃ store', origin.Underway number script compute inputs results size (calls + 1)
        (lines ++ callLines size texts calls) store' ∧
      Range.pull (servicesBelow bound) ({ executor := some number, cache }, store) =
        settle (outcomeAt ε results calls).pulled
          ({ executor := some number, cache := results[calls]?.or cache }, store') := by
  obtain ⟨asked, hasked, hask⟩ := askExecutor_of_underway hruns hcomputes hunderway
    (servicesBelow number)
  rw [← servicesBelow_ask hlt] at hask
  rw [callLines, hconverts.length_eq, ← List.append_assoc, outcomeAt]
  rw [pull_of_executor _ rfl, Action.answer_of_settle hask, Action.after_of_settle hask,
    servicesBelow_trace, servicesBelow_text, Buffer.stepAt]
  cases hresult : results[calls]? with
  | none =>
      have htext : texts[calls]? = none :=
        List.getElem?_eq_none (hconverts.length_eq ▸ List.getElem?_eq_none_iff.mp hresult)
      obtain ⟨store', htrace, hsame, htraces⟩ :=
        hasked.1.toTraces.trace_pure "pull" "exhausted"
      have htraced : Store.trace "pull" (pure "exhausted") asked = settle (.ok ()) store' := htrace
      refine ⟨store', ?_, ?_⟩
      · rw [htext]
        exact hasked.of_undisturbed hsame htraces
      · simp only [Option.elim_none, Action.answer_of_settle htraced,
          Action.after_of_settle htraced]
        rfl
  | some result =>
      obtain ⟨line, htext, hline⟩ := hconverts.text_of_result hresult
      have hmessage : text result asked =
          .ok line (asked.logging ((Textual.toText result).converted.map .converted)) := by
        have hcarried := carryOut_apply (Textual.toText result) asked
        rw [hline] at hcarried
        exact hcarried
      obtain ⟨store', htrace, hsame, htraces⟩ := hasked.1.toTraces.trace "pull" hmessage
        (by simp [Event.isWrite]) (by simp [Event.executor?])
      have htraced : Store.trace "pull" (text result) asked = settle (.ok ()) store' := htrace
      refine ⟨store', ?_, ?_⟩
      · rw [htext]
        exact hasked.of_undisturbed hsame htraces
      · simp only [Option.elim_some, Action.answer_of_settle htraced,
          Action.after_of_settle htraced]
        rfl

/-! ## Draining -/

/-- Range `range` holds executor `number`, which has been called so often by pulls. -/
structure Draining (origin : Store V ε) (range number : Nat) (script : Script V ε)
    (compute : V → Nat → Reply ε V) (inputs results : List V) (texts : List String)
    (size calls : Nat) (store : Store V ε) : Prop where
  underway : origin.Underway number script compute inputs results size calls
    ((List.range calls).flatMap (callLines size texts)) store
  range : ∃ cache, store.ranges[range]? = some { executor := some number, cache }

theorem turn_of_draining {range : Nat} (hruns : script.Runs (.done parting) inputs)
    (hcomputes : Computes compute inputs results) (hconverts : Converts results texts)
    (hdraining : origin.Draining range number script compute inputs results texts size calls store)
    (hlt : number < bound) :
    ∃ store', origin.Draining range number script compute inputs results texts size (calls + 1)
        store' ∧
      ∀ cursor?, turnOn (servicesBelow bound) range cursor? store =
        settle (outcomeAt ε results calls).turned store' := by
  obtain ⟨hunderway, cache, hrange⟩ := hdraining
  obtain ⟨pulled, hpulled, hpull⟩ := pull_of_underway hruns hcomputes hconverts hunderway hlt cache
  have hcache : ∀ value, outcomeAt ε results calls = .yield value →
      results[calls]?.or cache = some value := by
    intro value hvalue
    unfold outcomeAt at hvalue
    cases hresult : results[calls]? with
    | none =>
        rw [hresult] at hvalue
        exact nomatch hvalue
    | some result =>
        rw [hresult] at hvalue
        cases hvalue
        rfl
  have hfind : (rangeAt range).find store = some { executor := some number, cache } := hrange
  have hsize : pulled.ranges.size = store.ranges.size :=
    hpulled.1.size.trans hunderway.1.size.symm
  refine ⟨(rangeAt range).put { executor := some number, cache := results[calls]?.or cache } pulled,
    ⟨?_, results[calls]?.or cache, ?_⟩,
    fun cursor? => Place.focus_of_settle hfind (turn_of_pull hpull hcache cursor?)⟩
  · rw [List.range_succ, List.flatMap_append, List.flatMap_singleton]
    exact hpulled.putRange range _
  · exact Array.getElem?_setIfInBounds_self_of_lt (hsize ▸ lt_size_of_range hrange)

/-- **The exact trace of a drained range.** Collecting all results of a buffer over a list, with
tracing on, writes the lines of the chunks in their order, a refill before the pulls of its results,
then the line of an empty refill if the last chunk was full, and at last the line of the end. -/
theorem drain_trace {inputs results : List V} {texts : List String}
    {compute : V → Nat → Reply ε V} (hcomputes : Computes compute inputs results)
    (hconverts : Converts results texts) {size : Nat} (hsize : 1 ≤ size) {store : Store V ε}
    (htraced : store.tracing = true) (hreliable : store.Reliable store.traceWriter) {fuel : Nat}
    (hfuel : inputs.length < fuel) :
    ∃ built after,
      addBufferedRange (.script (.ofList inputs)) compute (.number (.integer size)) store =
        .ok store.ranges.size built ∧
      built.received store.traceWriter = store.received store.traceWriter ∧
      collect fuel store.ranges.size built = .ok results.toArray after ∧
      after.received store.traceWriter =
        store.received store.traceWriter ++ drainLines size texts ∧
      (∀ line ∈ drainLines size texts, ∃ body, line = body ++ "\n") ∧
      ((List.range (inputs.length ⌈/⌉ size)).map (chunkCount size inputs.length)).sum =
        inputs.length := by
  obtain ⟨parting, hruns⟩ := (Script.ofList_ends inputs : (Script.ofList inputs).Ends inputs).runs
  have hreliable' : store.tracing = true → store.Reliable store.traceWriter := fun _ => hreliable
  have hunderway := buffering_underway hsize (.ofList inputs) compute inputs results hreliable'
  set built := store.buffering (.ofList inputs) { compute, buffer := .empty size hsize } with hbuilt
  have hrange : built.ranges[store.ranges.size]? = some (.holding (some store.executors.size)) := by
    rw [hbuilt, buffering_ranges]
    exact Array.getElem?_push_size
  have hquiet : store.Traces [] built := buffering_traces hreliable'
  have hnothing := (hquiet.received htraced).trans (List.append_nil _)
  have hlength := hcomputes.length_eq
  have hdraining : built.Draining store.ranges.size store.executors.size (.ofList inputs) compute
      inputs results texts size 0 built := ⟨hunderway, none, hrange⟩
  have hunstarted : Walk.unstarted ≠ .finished := nofun
  have hremaining : results.length - 0 < fuel := by omega
  have hturn (call : Nat) (store' : Store V ε)
      (hat : built.Draining store.ranges.size store.executors.size (.ofList inputs) compute inputs
        results texts size call store') :=
    turn_of_draining hruns hcomputes hconverts hat hunderway.lt_size
  obtain ⟨after, hafter, hcollect⟩ := collect_of_turns hturn (Nat.zero_le _) hremaining #[]
    hunstarted hdraining
  have hresults : #[] ++ (results.drop 0).toArray = results.toArray := by simp
  rw [hresults] at hcollect
  refine ⟨built, after, addBufferedRange_apply (capacity_of_nat hsize) _ compute store, hnothing, ?_,
    ?_, fun line hline => exists_body_of_mem_drainLines hline, sum_chunkCount hsize _⟩
  · rw [collect, Action.bind_of_ok (Action.get_apply built)]
    exact onFreshWalk_of_settle hcollect
  · have htraces := hafter.underway.1.toTraces
    have hreceived := htraces.received (htraces.tracing.trans htraced)
    rw [htraces.traceWriter] at hreceived
    rw [← hconverts.length_eq, flatMap_callLines hsize] at hreceived
    exact hreceived.trans (congrArg (· ++ _) hnothing)

end Underway

def tracingStore : Store Value Thrown :=
  { (initial : Store Value Thrown) with tracing := true, writers := #[.accumulator #[]] }

/-- The last chunk is full, so that the end is found by an empty refill. -/
theorem drain_trace_of_full_chunk :
    ∃ built after : Store Value Thrown,
      addBufferedRange (.script (.ofList [.boolean true, .null])) (fun input _ => pure input)
        (.number (.integer 2)) tracingStore = .ok 0 built ∧
      collect 3 0 built = .ok #[.boolean true, .null] after ∧
      after.received 0 =
        ["underflow: 2 results\n", "pull: true\n", "pull: null\n", "underflow: 0 results\n",
          "pull: exhausted\n"] := by
  have hcomputes : Computes (fun input _ => (pure input : Reply Thrown Value))
      [.boolean true, .null] [.boolean true, .null] := rfl
  have hconverts : Converts [Value.boolean true, .null] ["true", "null"] := rfl
  have htraced : tracingStore.tracing = true := rfl
  obtain ⟨built, after, hbuilt, -, hcollect, hreceived, -, -⟩ :=
    drain_trace hcomputes hconverts (Nat.le_succ 1) htraced ⟨_, rfl, trivial⟩ (Nat.lt_succ_self 2)
  refine ⟨built, after, hbuilt, hcollect, hreceived.trans ?_⟩
  rfl

end Store

end PullRange
