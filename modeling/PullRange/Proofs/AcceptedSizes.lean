import PullRange.Proofs.EnvironmentSettings
import PullRange.Proofs.RefillSchedule

/-!
# Which chunk sizes a buffer takes

A chunk size is looked at in two places: a literal is when options are read, and whatever the options
hold in the end is when a buffer is made of them. What was read from a literal is never refused the
second time. What the options got from their base was not looked at before, so it may be.
-/

namespace PullRange

namespace ChunkSize

/-- How many inputs at a time the size means to a buffer. -/
inductive StandsFor : ChunkSize → Nat → Prop where
  | unset : StandsFor .unset 1
  | null : StandsFor .null 1
  | integer {whole : Nat} (hpos : 1 ≤ whole) : StandsFor (.number (.integer whole)) whole

/-- The size is neither left open nor a positive integer. -/
structure Unusable (size : ChunkSize) : Prop where
  not_unset : size ≠ .unset
  not_null : size ≠ .null
  not_positive : ∀ whole : Int, 1 ≤ whole → size ≠ .number (.integer whole)

variable {size : ChunkSize} {capacity : Nat}

theorem StandsFor.capacity_eq (hstands : size.StandsFor capacity) :
    ∃ hpos, size.capacity = .ok ⟨capacity, hpos⟩ := by
  cases hstands with
  | unset => exact ⟨Nat.one_pos, rfl⟩
  | null => exact ⟨Nat.one_pos, rfl⟩
  | integer hpos => exact ⟨hpos, Store.capacity_of_nat hpos⟩

theorem Unusable.capacity_eq (hunusable : size.Unusable) :
    ∃ written, size.capacity = .error written := by
  cases size with
  | unset => exact absurd rfl hunusable.not_unset
  | null => exact absurd rfl hunusable.not_null
  | number value =>
      cases value with
      | integer whole =>
          cases whole with
          | ofNat whole =>
              cases whole with
              | zero => exact ⟨_, rfl⟩
              | succ whole => exact absurd rfl (hunusable.not_positive (whole + 1) (by omega))
          | negSucc whole => exact ⟨_, rfl⟩
      | negativeZero => exact ⟨_, rfl⟩
      | fraction negative grains => exact ⟨_, rfl⟩
      | infinite negative => exact ⟨_, rfl⟩
      | notANumber => exact ⟨_, rfl⟩

theorem standsFor_or_unusable (size : ChunkSize) :
    (∃ capacity, size.StandsFor capacity) ∨ size.Unusable := by
  by_cases hwhole : ∃ whole : Int, 1 ≤ whole ∧ size = .number (.integer whole)
  · obtain ⟨whole, hpos, rfl⟩ := hwhole
    obtain ⟨capacity, rfl⟩ := Int.eq_ofNat_of_zero_le (Int.le_of_lt hpos)
    exact .inl ⟨capacity, .integer (Int.ofNat_le.mp hpos)⟩
  · cases size with
    | unset => exact .inl ⟨1, .unset⟩
    | null => exact .inl ⟨1, .null⟩
    | number value =>
        exact .inr ⟨nofun, nofun, fun whole hpos hvalue => hwhole ⟨whole, hpos, hvalue⟩⟩

theorem StandsFor.not_unusable (hstands : size.StandsFor capacity) : ¬ size.Unusable := by
  intro hunusable
  obtain ⟨hpos, hcapacity⟩ := hstands.capacity_eq
  obtain ⟨written, hrefused⟩ := hunusable.capacity_eq
  exact nomatch hcapacity.symm.trans hrefused

theorem default_standsFor : default.StandsFor 1 :=
  .integer (Nat.le_refl 1)

end ChunkSize

namespace Store

variable {V : Type}

/-- Making a buffer of the size throws a range error. -/
def Refuses (size : ChunkSize) (source : Source V Thrown) (compute : V → Nat → Reply Thrown V)
    (store : Store V Thrown) : Prop :=
  ∃ fault message, (addBuffered source none compute size).answer store = .error fault ∧
    fault.report = .error "RangeError" message

/-- A buffer that is made of the size asks for so many inputs at a time. -/
structure RefillsBy (V : Type) [Textual V Thrown] (size : ChunkSize) (capacity : Nat) : Prop where
  made : ∀ (source : Source V Thrown) (compute : V → Nat → Reply Thrown V)
    (store : Store V Thrown), ∃ built hpos,
      addBuffered source none compute size store = .ok store.executors.size built ∧
      built.executors[store.executors.size]? =
        some { source, stage := some { compute, buffer := .empty capacity hpos } }
  scheduled : ∀ (script : Script V Thrown) (compute : V → Nat → Reply Thrown V)
    (store : Store V Thrown) (inputs results : List V) (parting : Option V),
    script.Runs (.done parting) inputs → Computes compute inputs results →
    (store.tracing = true → store.Reliable store.traceWriter) →
    let number := store.executors.size
    ∀ built, addBuffered (.script script) none compute size store = .ok number built →
      ∀ calls, ∃ isEof,
        (Request.inspect number).perform.answer
            (Entry.run (List.replicate calls (.perform (.ask number))) built) =
          .ok (.progress isEof (min inputs.length (capacity * (calls ⌈/⌉ capacity))))

theorem refuses_of_unusable {size : ChunkSize} (hunusable : size.Unusable)
    (source : Source V Thrown) (compute : V → Nat → Reply Thrown V) (store : Store V Thrown) :
    Refuses size source compute store := by
  obtain ⟨written, hcapacity⟩ := hunusable.capacity_eq
  have hrefused : ∃ opened, addBuffered source none compute size store =
      settle (.error (.badCapacity written)) opened := by
    unfold addBuffered
    rw [Action.bind_of_ok (Action.get_apply store)]
    cases source with
    | walk range walk =>
        simp only [hcapacity]
        exact ⟨store, rfl⟩
    | script script =>
        cases hsilent : script.silent with
        | true =>
            simp only [hsilent, hcapacity]
            exact ⟨store, rfl⟩
        | false =>
            simp only [hsilent, hcapacity]
            exact ⟨_, Action.bind_of_ok (emit_apply _ store) _⟩
  obtain ⟨opened, hrefused⟩ := hrefused
  exact ⟨_, _, Action.answer_of_settle hrefused, rfl⟩

section Textual

variable {size : ChunkSize} {capacity : Nat}

theorem underway_of_empty {built : Store V Thrown} {number : Nat} {script : Script V Thrown}
    {compute : V → Nat → Reply Thrown V} {hpos : 0 < capacity}
    (hexecutor : built.executors[number]? =
      some { source := .script script, stage := some { compute, buffer := .empty capacity hpos } })
    (hreliable : built.tracing = true → built.Reliable built.traceWriter)
    (inputs results : List V) :
    built.Underway number script compute inputs results capacity 0 [] built := by
  refine ⟨⟨.refl hreliable, ?_, ?_, rfl⟩, .empty capacity hpos,
    Buffer.empty_scheduled capacity hpos results, ?_⟩
  · simpa using ⟨_, hexecutor⟩
  · simp [intakeEvents]
  · simpa using hexecutor

variable [Textual V Thrown]

theorem refillsBy_of_standsFor (hstands : size.StandsFor capacity) : RefillsBy V size capacity := by
  obtain ⟨hpos, hcapacity⟩ := hstands.capacity_eq
  constructor
  · intro source compute store
    obtain ⟨events, hadd⟩ := addBuffered_apply source compute hcapacity store
    exact ⟨_, hpos, hadd, Array.getElem?_push_size⟩
  · intro script compute store inputs results parting hruns hcomputes hreliable number built hbuilt
      calls
    obtain ⟨events, hadd⟩ := addBuffered_apply (.script script) compute hcapacity store
    have hsame := (EStateM.Result.ok.inj (hbuilt.symm.trans hadd)).2
    have hexecutor : built.executors[number]? = some
        { source := .script script, stage := some { compute, buffer := .empty capacity hpos } } := by
      rw [hsame]
      exact Array.getElem?_push_size
    have hreliable' : built.tracing = true → built.Reliable built.traceWriter := by
      rw [hsame]
      exact hreliable
    obtain ⟨⟨_, -, buffer, hscheduled, hasked⟩, -⟩ := asks_of_underway hruns hcomputes calls
      (underway_of_empty hexecutor hreliable' inputs results)
    have hconsumed : buffer.consumed = min inputs.length (capacity * (calls ⌈/⌉ capacity)) := by
      rw [hscheduled.consumed, hcomputes.length_eq, Nat.zero_add]
      rfl
    rw [← hconsumed]
    exact ⟨buffer.isEof, Action.answer_of_settle (inspect_apply hasked)⟩

theorem RefillsBy.not_refuses (hrefills : RefillsBy V size capacity) (source : Source V Thrown)
    (compute : V → Nat → Reply Thrown V) (store : Store V Thrown) :
    ¬ Refuses size source compute store := by
  rintro ⟨fault, message, hrefused, -⟩
  obtain ⟨built, hpos, hadd, -⟩ := hrefills.made source compute store
  have hmade : addBuffered source none compute size store =
      settle (.ok store.executors.size) built := hadd
  exact nomatch hrefused.symm.trans (Action.answer_of_settle hmade)

end Textual

end Store

namespace Settings

/-- The size that the entries choose: that of the literal, if there is one, or else that of the base. -/
inductive Chosen (entries : List (String × String)) (base : ChunkSize) : Nat → Prop where
  | literal {written : String} {value : Nat} (hentry : ("chunksize", written) ∈ entries)
      (hdenotes : Denotes written value) : Chosen entries base (Binary64.round value)
  | base {capacity : Nat} (hnone : ∀ written, ("chunksize", written) ∉ entries)
      (hstands : base.StandsFor capacity) : Chosen entries base capacity

/-- Nothing was said about the size, and the base has none that a buffer can work with. -/
structure LeftUnusable (entries : List (String × String)) (base : ChunkSize) : Prop where
  none : ∀ written, ("chunksize", written) ∉ entries
  unusable : base.Unusable

section Parsed

variable {settings after : Settings} {base record : Nat} {size : ChunkSize}
  {entries : List (String × String)}

theorem standsFor_of_sizes {written : String} {parsed : ChunkSize} (hsizes : Sizes written parsed) :
    ∃ value, Denotes written value ∧ parsed.StandsFor (Binary64.round value) := by
  obtain ⟨value, hdenotes, hsizable, rfl⟩ := hsizes
  obtain ⟨whole, hwhole, -⟩ := whole_of_sizable hsizable
  exact ⟨value, hdenotes, .integer (by omega)⟩

/-- What the options hold in the end. -/
theorem parsed_size (hbase : settings.records[base]? = some size)
    (hnames : (entries.map Prod.fst).Nodup)
    (hparse : parse entries base settings = .ok record after) :
    ∃ parsed, after.records[record]? = some parsed ∧
      (LeftUnusable entries size ∧ parsed.Unusable ∨
        ∃ capacity, Chosen entries size capacity ∧ parsed.StandsFor capacity) := by
  obtain ⟨-, final, hfinal, rfl, rfl⟩ := (parse_ok_iff hbase hnames).mp hparse
  have hparses : settings.Parses entries size _ _ := parses_of_settles hfinal
  by_cases hsome : ∃ written, ("chunksize", written) ∈ entries
  · obtain ⟨written, hentry⟩ := hsome
    obtain ⟨parsed, hsizes, hrecord⟩ := hparses.sized written hentry
    obtain ⟨value, hdenotes, hstands⟩ := standsFor_of_sizes hsizes
    exact ⟨parsed, hrecord, .inr ⟨_, .literal hentry hdenotes, hstands⟩⟩
  · have hnone := not_exists.mp hsome
    refine ⟨size, hparses.unsized hnone, ?_⟩
    rcases size.standsFor_or_unusable with ⟨capacity, hstands⟩ | hunusable
    · exact .inr ⟨capacity, .base hnone hstands, hstands⟩
    · exact .inl ⟨⟨hnone, hunusable⟩, hunusable⟩

theorem Chosen.not_left {capacity : Nat} (hchosen : Chosen entries size capacity) :
    ¬ LeftUnusable entries size := by
  intro hleft
  cases hchosen with
  | literal hentry hdenotes => exact hleft.none _ hentry
  | base hnone hstands => exact hstands.not_unusable hleft.unusable

/-- A buffer refuses the size that was read exactly if it was left unusable, and otherwise refills by
the one that was chosen. -/
structure Judged (V : Type) [Textual V Thrown] (entries : List (String × String))
    (base parsed : ChunkSize) : Prop where
  refuses : ∀ (source : Source V Thrown) (compute : V → Nat → Reply Thrown V)
    (store : Store V Thrown),
    Store.Refuses parsed source compute store ↔ LeftUnusable entries base
  refills : ¬ LeftUnusable entries base →
    ∃ capacity, Chosen entries base capacity ∧ Store.RefillsBy V parsed capacity

theorem not_left_default (entries : List (String × String)) : ¬ LeftUnusable entries .default :=
  fun hleft => ChunkSize.default_standsFor.not_unusable hleft.unusable

theorem judged_of_parse (V : Type) [Textual V Thrown]
    (hbase : settings.records[base]? = some size) (hnames : (entries.map Prod.fst).Nodup)
    (hparse : parse entries base settings = .ok record after) :
    ∃ parsed, after.records[record]? = some parsed ∧ Judged V entries size parsed := by
  obtain ⟨parsed, hrecord, ⟨hleft, hunusable⟩ | ⟨capacity, hchosen, hstands⟩⟩ :=
    parsed_size hbase hnames hparse
  · refine ⟨parsed, hrecord, fun source compute store => ?_, absurd hleft⟩
    exact iff_of_true (Store.refuses_of_unusable hunusable source compute store) hleft
  · have hrefills : Store.RefillsBy V parsed capacity := Store.refillsBy_of_standsFor hstands
    refine ⟨parsed, hrecord, fun source compute store => ?_, fun _ => ⟨capacity, hchosen, hrefills⟩⟩
    exact iff_of_false (hrefills.not_refuses source compute store) hchosen.not_left

/-- **The options and the buffer agree on what a chunk size is.** A buffer refuses the size that was
read exactly if nothing was said about it and the base has none that a buffer can work with. Otherwise
it is made, and refills by the integer of the literal or by what the base stands for. So nothing that
was read over the defaults or from an environment is ever refused. -/
theorem parsed_sizes_accepted (V : Type) [Textual V Thrown]
    (hbase : settings.records[base]? = some size) (hnames : (entries.map Prod.fst).Nodup)
    (hparse : parse entries base settings = .ok record after) :
    (∃ parsed, after.records[record]? = some parsed ∧ Judged V entries size parsed ∧
      (size = .default →
        ∃ capacity, Chosen entries size capacity ∧ Store.RefillsBy V parsed capacity)) ∧
    ∀ (environment : List (String × String)) (settings after : Settings) (record : Nat),
      settings.records[defaults]? = some .default →
      parseEnvironment environment settings = .ok record after →
      ∃ parsed capacity, after.records[record]? = some parsed ∧
        Chosen (Options.entriesOfEnvironment environment) .default capacity ∧
        Store.RefillsBy V parsed capacity := by
  constructor
  · obtain ⟨parsed, hrecord, hjudged⟩ := judged_of_parse V hbase hnames hparse
    refine ⟨parsed, hrecord, hjudged, ?_⟩
    rintro rfl
    exact hjudged.refills (not_left_default entries)
  · intro environment settings after record hbase hparse
    have hnames : ((Options.entriesOfEnvironment environment).map Prod.fst).Nodup := by
      rw [Options.entriesOfEnvironment_eq]
      exact Options.nodup_variableEntries _ _
    obtain ⟨parsed, hrecord, hjudged⟩ := judged_of_parse V hbase hnames hparse
    obtain ⟨capacity, hchosen, hrefills⟩ := hjudged.refills (not_left_default _)
    exact ⟨parsed, capacity, hrecord, hchosen, hrefills⟩

end Parsed

def looseSettings : Settings :=
  { records := #[.default, .number .notANumber], tracing := false }

/-- A literal makes up for a base that is no number at all, and an environment does not depend on it. -/
theorem parsed_sizes_accepted_over_no_number :
    (∃ after parsed, parse [] 1 looseSettings = .ok 2 after ∧ after.records[2]? = some parsed ∧
      ∀ compute, Store.Refuses parsed (.script (.ofList [])) compute
        (Store.initial : Store Value Thrown)) ∧
    (∃ after parsed, parse [("chunksize", " 0x10")] 1 looseSettings = .ok 2 after ∧
      after.records[2]? = some parsed ∧ Store.RefillsBy Value parsed 16) ∧
    ∃ after parsed, parseEnvironment [("chunksize", "zero")] looseSettings = .ok 2 after ∧
      after.records[2]? = some parsed ∧ Store.RefillsBy Value parsed 1 := by
  have hbase : looseSettings.records[1]? = some (.number .notANumber) := rfl
  have hread : ChunkSize.read " 0x10" = .ok 16 := by decide +kernel
  have hvalue {value : Nat} (hdenotes : Denotes " 0x10" value) : Binary64.round value = 16 :=
    ((read_ok_iff hdenotes 16).mp hread).2.symm
  have hnames : (([] : List (String × String)).map Prod.fst).Nodup := List.nodup_nil
  have hparse : parse [] 1 looseSettings = .ok 2 _ := rfl
  obtain ⟨⟨parsed, hrecord, hjudged, -⟩, henvironment⟩ :=
    parsed_sizes_accepted Value hbase hnames hparse
  refine ⟨?_, ?_, ?_⟩
  · have hleft : LeftUnusable [] (.number .notANumber) := ⟨nofun, nofun, nofun, nofun⟩
    exact ⟨_, parsed, hparse, hrecord, fun compute => (hjudged.refuses _ compute _).mpr hleft⟩
  · have hall : ∀ entry ∈ [("chunksize", " 0x10")], Acceptable entry := by
      intro entry hentry
      cases List.mem_singleton.mp hentry
      obtain ⟨value, hdenotes⟩ := denotes_of_read hread
      exact .size rfl ⟨value, hdenotes, ((read_ok_iff hdenotes 16).mp hread).1, rfl⟩
    have hnames : ([("chunksize", " 0x10")].map Prod.fst).Nodup := by decide
    obtain ⟨final, -, hparse⟩ := parse_of_acceptable hall 1 looseSettings
    obtain ⟨⟨parsed, hrecord, hjudged, -⟩, -⟩ := parsed_sizes_accepted Value hbase hnames hparse
    have hset : ¬ LeftUnusable [("chunksize", " 0x10")] (.number .notANumber) :=
      fun hleft => hleft.none _ (List.mem_singleton.mpr rfl)
    obtain ⟨capacity, hchosen, hrefills⟩ := hjudged.refills hset
    refine ⟨_, parsed, hparse, hrecord, ?_⟩
    cases hchosen with
    | literal hentry hdenotes =>
        cases List.mem_singleton.mp hentry
        rw [hvalue hdenotes] at hrefills
        exact hrefills
    | base hnone hstands => exact absurd (List.mem_singleton.mpr rfl) (hnone " 0x10")
  · have hparse : parseEnvironment [("chunksize", "zero")] looseSettings = .ok 2 _ := rfl
    obtain ⟨parsed, capacity, hrecord, hchosen, hrefills⟩ := henvironment _ _ _ _ rfl hparse
    refine ⟨_, parsed, hparse, hrecord, ?_⟩
    cases hchosen with
    | literal hentry hdenotes => exact absurd hentry List.not_mem_nil
    | base hnone hstands =>
        cases hstands
        exact hrefills

end Settings

end PullRange
