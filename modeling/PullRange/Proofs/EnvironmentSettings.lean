import PullRange.Proofs.EntryOrder

/-!
# Settings from the environment

An environment holds any number of variables in any order, and two of them are settings. What is read
from it depends on these two alone, and is what is read from entries that say the same: variables that
have the names of the entries are not taken for them. The chunk size is looked at first.
-/

namespace PullRange

theorem Entries.index?_eq_none_of_letter {name : String} {letter : Char}
    (hletter : letter ∈ name.toList) (hdigit : letter.isDigit = false) : index? name = none := by
  rw [Option.eq_none_iff_forall_ne_some]
  intro index hindex
  obtain ⟨-, rfl⟩ := index?_eq_some_iff.mp hindex
  exact Bool.false_ne_true (hdigit.symm.trans (isDigit_of_mem hletter))

namespace Options

/-- The entries that say what the two variables do. -/
def variableEntries (size? toggle? : Option String) : List (String × String) :=
  (size?.map fun written => ("chunksize", written)).toList ++
    (toggle?.map fun written => ("debug", written)).toList

/-- What the two variables are set to, if they are. -/
structure Sets (environment : List (String × String)) (size? toggle? : Option String) : Prop where
  size : ∀ written, (chunkSizeVariable, written) ∈ environment ↔ size? = some written
  toggle : ∀ written, (tracingVariable, written) ∈ environment ↔ toggle? = some written

/-- The environments agree on the two variables, whatever else they hold. -/
def Agree (environment other : List (String × String)) : Prop :=
  ∀ name ∈ [chunkSizeVariable, tracingVariable], ∀ written,
    (name, written) ∈ environment ↔ (name, written) ∈ other

section Environments

variable {environment other : List (String × String)} {size? toggle? : Option String}

theorem Sets.of_agree (hsets : Sets environment size? toggle?) (hagree : Agree environment other) :
    Sets other size? toggle? where
  size written := (hagree chunkSizeVariable (by simp) written).symm.trans (hsets.size written)
  toggle written := (hagree tracingVariable (by simp) written).symm.trans (hsets.toggle written)

theorem lookup_eq_of_mem_iff (hnames : (environment.map Prod.fst).Nodup) {name : String}
    {value? : Option String}
    (hvalue : ∀ written, (name, written) ∈ environment ↔ value? = some written) :
    environment.lookup name = value? := by
  apply Option.ext
  intro written
  rw [← hvalue, Entries.mem_iff_lookup hnames]

theorem entriesOfEnvironment_eq (environment : List (String × String)) :
    entriesOfEnvironment environment =
      variableEntries (environment.lookup chunkSizeVariable) (environment.lookup tracingVariable) :=
  rfl

theorem entriesOfEnvironment_of_sets (hnames : (environment.map Prod.fst).Nodup)
    (hsets : Sets environment size? toggle?) :
    entriesOfEnvironment environment = variableEntries size? toggle? := by
  rw [entriesOfEnvironment_eq, lookup_eq_of_mem_iff hnames hsets.size,
    lookup_eq_of_mem_iff hnames hsets.toggle]

end Environments

theorem nodup_variableEntries (size? toggle? : Option String) :
    ((variableEntries size? toggle?).map Prod.fst).Nodup := by
  cases size? <;> cases toggle? <;> simp [variableEntries]

/-- Neither name is an index, and the chunk size stands in front already. -/
theorem ofPairs_variableEntries (size? toggle? : Option String) :
    Entries.ofPairs (variableEntries size? toggle?) = variableEntries size? toggle? := by
  have hsize : Entries.index? "chunksize" = none :=
    Entries.index?_eq_none_of_letter (by decide : 'c' ∈ "chunksize".toList) (by decide)
  have htoggle : Entries.index? "debug" = none :=
    Entries.index?_eq_none_of_letter (by decide : 'd' ∈ "debug".toList) (by decide)
  cases size? <;> cases toggle? <;>
    simp [variableEntries, Entries.ofPairs, Entries.put, Entries.indexed, Entries.named, hsize,
      htoggle]

section Reading

variable {size? toggle? : Option String} {written : String}

theorem readFrom_of_bad_size (hnone : ∀ size, ¬ Sizes written size) (options : Options) :
    options.readFrom (variableEntries (some written) toggle?) =
      .error (.badChunkSize written) := by
  have hentry : options.apply "chunksize" written = .error (.badChunkSize written) := by
    rw [apply, if_pos rfl, read_of_not_sizes hnone]
    rfl
  exact readFrom_cons_of_error hentry

theorem readFrom_toggle_error {error : OptionError} {options : Options}
    (hread : options.readFrom (variableEntries none toggle?) = .error error) :
    ∃ written, toggle? = some written ∧ (∀ tracing, ¬ Toggles written tracing) ∧
      error = .badToggle := by
  cases toggle? with
  | none => exact nomatch hread
  | some written =>
      by_cases hsome : ∃ tracing, Toggles written tracing
      · obtain ⟨tracing, htoggles⟩ := hsome
        have hentry := apply_of_toggles options rfl htoggles
        exact nomatch (readFrom_cons_of_ok hentry).symm.trans hread
      · have hnone := not_exists.mp hsome
        have hentry : options.apply "debug" written = .error .badToggle := by
          rw [apply, if_neg debug_ne_chunksize, if_pos rfl, readToggle_of_not_toggles hnone]
          rfl
        cases (readFrom_cons_of_error hentry).symm.trans hread
        exact ⟨written, rfl, hnone, rfl⟩

/-- The toggle is looked at only if the chunk size is left out or can be read. -/
theorem readFrom_error {error : OptionError} {options : Options}
    (hread : options.readFrom (variableEntries size? toggle?) = .error error) :
    (∃ written, size? = some written ∧ (∀ size, ¬ Sizes written size) ∧
      error = .badChunkSize written) ∨
    ∃ written, toggle? = some written ∧ (∀ tracing, ¬ Toggles written tracing) ∧
      error = .badToggle := by
  cases size? with
  | none => exact .inr (readFrom_toggle_error hread)
  | some written =>
      by_cases hsome : ∃ size, Sizes written size
      · obtain ⟨size, hsize⟩ := hsome
        have hentry := apply_of_sizes options rfl hsize
        exact .inr (readFrom_toggle_error ((readFrom_cons_of_ok hentry).symm.trans hread))
      · have hnone := not_exists.mp hsome
        cases (readFrom_of_bad_size hnone options).symm.trans hread
        exact .inl ⟨written, rfl, hnone, rfl⟩

end Reading

end Options

namespace Settings

open Options

/-- **Two variables decide.** What is read from an environment is what is read from entries that say
what its two variables do, in the same order, with the same error and the same switch, so that no two
environments that agree on the two can be told apart. No error is about an unknown option, a chunk
size that cannot be read is reported whatever the switch is set to, and an error leaves the switch
alone. -/
theorem environment_decided {environment : List (String × String)}
    (hnames : (environment.map Prod.fst).Nodup) {size? toggle? : Option String}
    (hsets : Sets environment size? toggle?) (settings : Settings) :
    parseEnvironment environment settings =
      parse (Entries.ofPairs (variableEntries size? toggle?)) defaults settings ∧
    (∀ other : List (String × String), (other.map Prod.fst).Nodup → Agree environment other →
      parseEnvironment other settings = parseEnvironment environment settings) ∧
    (∀ written, size? = some written → (∀ size, ¬ Sizes written size) →
      ∃ after, parseEnvironment environment settings = .error (.badChunkSize written) after) ∧
    ∀ error after, parseEnvironment environment settings = .error error after →
      ((∃ written, size? = some written ∧ (∀ size, ¬ Sizes written size) ∧
          error = .badChunkSize written) ∨
        ∃ written, toggle? = some written ∧ (∀ tracing, ¬ Toggles written tracing) ∧
          error = .badToggle) ∧
      (∀ name, error ≠ .unknown name) ∧
      after.tracing = settings.tracing ∧ settings.Keeps after := by
  have hentries {other : List (String × String)} (hnames : (other.map Prod.fst).Nodup)
      (hsets : Sets other size? toggle?) :
      parseEnvironment other settings = parse (variableEntries size? toggle?) defaults settings := by
    rw [parseEnvironment, entriesOfEnvironment_of_sets hnames hsets]
  obtain ⟨size, hparse⟩ := parse_apply (variableEntries size? toggle?) defaults settings
  rw [ofPairs_variableEntries, hentries hnames hsets]
  refine ⟨rfl, fun other hother hagree => hentries hother (hsets.of_agree hagree), ?_, ?_⟩
  · rintro written rfl hnone
    have hread : Options.read (variableEntries (some written) toggle?)
        (settings.records[defaults]?.getD .unset) = .error (.badChunkSize written) :=
      readFrom_of_bad_size hnone _
    rw [hread] at hparse
    exact ⟨_, hparse⟩
  · intro error after hfails
    rw [hparse] at hfails
    cases hread : Options.read (variableEntries size? toggle?)
        (settings.records[defaults]?.getD .unset) with
    | ok final =>
        rw [hread] at hfails
        exact nomatch hfails
    | error found =>
        rw [hread] at hfails
        cases hfails
        have hreported := readFrom_error hread
        refine ⟨hreported, ?_, rfl, making_keeps size settings⟩
        rintro name rfl
        rcases hreported with ⟨_, _, _, hsize⟩ | ⟨_, _, _, htoggle⟩
        · exact nomatch hsize
        · exact nomatch htoggle

theorem not_sizes_of_refused {written : String} {error : OptionError}
    (hrefused : ChunkSize.read written = .error error) (size : ChunkSize) : ¬ Sizes written size := by
  intro hsize
  obtain ⟨whole, hread, -⟩ := read_of_sizes hsize
  exact nomatch hrefused.symm.trans hread

/-- Both variables are bad, and two others have the names of options. -/
theorem environment_decided_among_others :
    let environment := [("debug", "on"), ("RESULT_RANGE_DEBUG", "maybe"), ("chunksize", "2"),
      ("RESULT_RANGE_CHUNK_SIZE", "x")]
    let other := [("RESULT_RANGE_CHUNK_SIZE", "x"), ("RESULT_RANGE_DEBUG", "maybe")]
    let settings : Settings := { records := initialRecords, tracing := true }
    parseEnvironment other settings = parseEnvironment environment settings ∧
      ∃ after, parseEnvironment environment settings = .error (.badChunkSize "x") after ∧
        after.tracing = true := by
  intro environment other settings
  have hnames : (environment.map Prod.fst).Nodup := by decide
  have hsets : Sets environment (some "x") (some "maybe") := by
    constructor <;> intro written <;>
      simp [environment, chunkSizeVariable, tracingVariable, eq_comm]
  have hagree : Agree environment other := by
    intro name hname written
    simp only [List.mem_cons, List.not_mem_nil, or_false] at hname
    rcases hname with rfl | rfl <;>
      simp [environment, other, chunkSizeVariable, tracingVariable]
  have hrefused : ChunkSize.read "x" = .error (.badChunkSize "x") := by decide +kernel
  obtain ⟨-, htold, hbad, hfails⟩ := environment_decided hnames hsets settings
  obtain ⟨after, hparse⟩ := hbad "x" rfl (not_sizes_of_refused hrefused)
  obtain ⟨-, -, htracing, -⟩ := hfails _ _ hparse
  exact ⟨htold other (by decide) hagree, after, hparse, htracing⟩

end Settings

end PullRange
