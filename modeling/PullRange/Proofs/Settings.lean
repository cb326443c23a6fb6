import PullRange.Options.Settings
import PullRange.Proofs.NearestDoubles

/-!
# Reading options changes all or nothing

Which entries are acceptable, and what is said of one that is not, is told without reference to the
order in which they are read. `Options.read` comes to what the acceptable entries say, or fails at
the first one that is not acceptable. `Settings.parse` comes to the same on records: it writes to a
record of its own, so that nobody sees what it has written before it failed.
-/

namespace PullRange

/-- The text is a literal, and the chunk size is the integer that it denotes. -/
def Sizes (written : String) (size : ChunkSize) : Prop :=
  ∃ value, Denotes written value ∧ Sizable value ∧ size = .number (.integer (Binary64.round value))

inductive Toggles : String → Bool → Prop where
  | bare : Toggles "" true
  | on : Toggles "on" true
  | off : Toggles "off" false

inductive Acceptable (entry : String × String) : Prop where
  | size {size : ChunkSize} (hname : entry.1 = "chunksize") (hsize : Sizes entry.2 size)
  | toggle {tracing : Bool} (hname : entry.1 = "debug") (htoggle : Toggles entry.2 tracing)

/-- The entry is not acceptable, and the message says so. -/
inductive Offends (entry : String × String) : (message : String) → Prop where
  | unknown (hsize : entry.1 ≠ "chunksize") (htoggle : entry.1 ≠ "debug") :
      Offends entry ("Unknown option: " ++ entry.1)
  | size (hname : entry.1 = "chunksize") (hnone : ∀ size, ¬ Sizes entry.2 size) :
      Offends entry ("Bad chunk size: " ++ entry.2)
  | toggle (hname : entry.1 = "debug") (hnone : ∀ tracing, ¬ Toggles entry.2 tracing) :
      Offends entry "Must specify toggle value, on/off"

theorem debug_ne_chunksize : "debug" ≠ "chunksize" := by decide

theorem acceptable_or_offends (entry : String × String) :
    Acceptable entry ∨ ∃ message, Offends entry message := by
  by_cases hsize : entry.1 = "chunksize"
  · by_cases hsome : ∃ size, Sizes entry.2 size
    · obtain ⟨size, hsome⟩ := hsome
      exact .inl (.size hsize hsome)
    · exact .inr ⟨_, .size hsize (not_exists.mp hsome)⟩
  · by_cases htoggle : entry.1 = "debug"
    · by_cases hsome : ∃ tracing, Toggles entry.2 tracing
      · obtain ⟨tracing, hsome⟩ := hsome
        exact .inl (.toggle htoggle hsome)
      · exact .inr ⟨_, .toggle htoggle (not_exists.mp hsome)⟩
    · exact .inr ⟨_, .unknown hsize htoggle⟩

theorem Offends.not_acceptable {entry : String × String} {message : String}
    (hoffends : Offends entry message) : ¬ Acceptable entry := by
  rintro (⟨hname, hsize⟩ | ⟨hname, htoggle⟩)
  · cases hoffends with
    | unknown hother _ => exact hother hname
    | size _ hnone => exact hnone _ hsize
    | toggle hother _ => exact debug_ne_chunksize (hother.symm.trans hname)
  · cases hoffends with
    | unknown _ hother => exact hother hname
    | size hother _ => exact debug_ne_chunksize (hname.symm.trans hother)
    | toggle _ hnone => exact hnone _ htoggle

/-- Either every entry is acceptable or there is a first one that is not. -/
theorem acceptable_or_first (entries : List (String × String)) :
    (∀ entry ∈ entries, Acceptable entry) ∨
      ∃ before entry after message, entries = before ++ entry :: after ∧
        (∀ other ∈ before, Acceptable other) ∧ Offends entry message := by
  induction entries with
  | nil => exact .inl nofun
  | cons entry entries ih =>
      rcases acceptable_or_offends entry with hacceptable | ⟨message, hoffends⟩
      · rcases ih with hall | ⟨before, offending, after, message, rfl, hbefore, hoffends⟩
        · exact .inl (List.forall_mem_cons.mpr ⟨hacceptable, hall⟩)
        · exact .inr ⟨entry :: before, offending, after, message, rfl,
            List.forall_mem_cons.mpr ⟨hacceptable, hbefore⟩, hoffends⟩
      · exact .inr ⟨[], entry, entries, message, rfl, nofun, hoffends⟩

theorem read_of_sizes {written : String} {size : ChunkSize} (hsize : Sizes written size) :
    ∃ whole, ChunkSize.read written = .ok whole ∧ size = .number (.integer whole) := by
  obtain ⟨value, hdenotes, hsizable, rfl⟩ := hsize
  exact ⟨_, (read_ok_iff hdenotes _).mpr ⟨hsizable, rfl⟩, rfl⟩

theorem read_of_not_sizes {written : String} (hnone : ∀ size, ¬ Sizes written size) :
    ChunkSize.read written = .error (.badChunkSize written) := by
  by_cases hspells : ∃ value, Spells (Text.trim written.toList) value
  · obtain ⟨value, hspells⟩ := hspells
    exact (read_of_spells hspells).2 fun hsizable =>
      hnone _ ⟨value, denotes_iff.mpr hspells, hsizable, rfl⟩
  · exact read_of_not_spells hspells

theorem Sizes.unique {written : String} {size other : ChunkSize} (hsize : Sizes written size)
    (hother : Sizes written other) : size = other := by
  obtain ⟨whole, hread, rfl⟩ := read_of_sizes hsize
  obtain ⟨otherWhole, hreadOther, rfl⟩ := read_of_sizes hother
  cases hread.symm.trans hreadOther
  rfl

theorem readToggle_of_toggles {written : String} {tracing : Bool}
    (htoggle : Toggles written tracing) : readToggle written = .ok tracing := by
  cases htoggle <;> rfl

theorem readToggle_of_not_toggles {written : String}
    (hnone : ∀ tracing, ¬ Toggles written tracing) : readToggle written = .error .badToggle := by
  have hbare : written ≠ "" := fun hwritten => hnone true (hwritten ▸ .bare)
  have hon : written ≠ "on" := fun hwritten => hnone true (hwritten ▸ .on)
  have hoff : written ≠ "off" := fun hwritten => hnone false (hwritten ▸ .off)
  rw [readToggle, if_neg hbare, if_neg hon, if_neg hoff]

theorem Toggles.unique {written : String} {tracing other : Bool} (htoggle : Toggles written tracing)
    (hother : Toggles written other) : tracing = other :=
  Except.ok.inj ((readToggle_of_toggles htoggle).symm.trans (readToggle_of_toggles hother))

/-! ## Reading entries one after another -/

namespace Options

variable {entries others : List (String × String)} {options final : Options}

theorem apply_of_sizes (options : Options) {name written : String} {size : ChunkSize}
    (hname : name = "chunksize") (hsize : Sizes written size) :
    options.apply name written = .ok { options with chunkSize := size } := by
  obtain ⟨whole, hread, rfl⟩ := read_of_sizes hsize
  rw [apply, if_pos hname, hread]
  rfl

theorem apply_of_toggles (options : Options) {name written : String} {tracing : Bool}
    (hname : name = "debug") (htoggle : Toggles written tracing) :
    options.apply name written = .ok { options with tracing := some tracing } := by
  rw [apply, if_neg (hname ▸ debug_ne_chunksize), if_pos hname, readToggle_of_toggles htoggle]
  rfl

theorem apply_of_offends {entry : String × String} {message : String}
    (hoffends : Offends entry message) :
    ∃ error, error.message = message ∧
      ∀ options, apply options entry.1 entry.2 = .error error := by
  cases hoffends with
  | unknown hsize htoggle =>
      refine ⟨.unknown entry.1, rfl, fun options => ?_⟩
      rw [apply, if_neg hsize, if_neg htoggle]
  | size hname hnone =>
      refine ⟨.badChunkSize entry.2, rfl, fun options => ?_⟩
      rw [apply, if_pos hname, read_of_not_sizes hnone]
      rfl
  | toggle hname hnone =>
      refine ⟨.badToggle, rfl, fun options => ?_⟩
      rw [apply, if_neg (hname ▸ debug_ne_chunksize), if_pos hname, readToggle_of_not_toggles hnone]
      rfl

/-- The options that were there before, changed as the entries say. -/
structure Settles (entries : List (String × String)) (before after : Options) : Prop where
  sized : ∀ written, ("chunksize", written) ∈ entries → Sizes written after.chunkSize
  unsized : (∀ written, ("chunksize", written) ∉ entries) → after.chunkSize = before.chunkSize
  toggled : ∀ written, ("debug", written) ∈ entries →
    ∃ tracing, Toggles written tracing ∧ after.tracing = some tracing
  untoggled : (∀ written, ("debug", written) ∉ entries) → after.tracing = before.tracing

theorem Settles.unique (hfinal : Settles entries options final) {other : Options}
    (hother : Settles entries options other) : final = other := by
  have hsize : final.chunkSize = other.chunkSize := by
    by_cases hsome : ∃ written, ("chunksize", written) ∈ entries
    · obtain ⟨written, hwritten⟩ := hsome
      exact (hfinal.sized written hwritten).unique (hother.sized written hwritten)
    · rw [not_exists] at hsome
      rw [hfinal.unsized hsome, hother.unsized hsome]
  have htracing : final.tracing = other.tracing := by
    by_cases hsome : ∃ written, ("debug", written) ∈ entries
    · obtain ⟨written, hwritten⟩ := hsome
      obtain ⟨tracing, htoggle, htracing⟩ := hfinal.toggled written hwritten
      obtain ⟨otherTracing, hotherToggle, hotherTracing⟩ := hother.toggled written hwritten
      rw [htracing, hotherTracing, htoggle.unique hotherToggle]
    · rw [not_exists] at hsome
      rw [hfinal.untoggled hsome, hother.untoggled hsome]
  cases final
  cases other
  cases hsize
  cases htracing
  rfl

theorem Settles.perm (hfinal : Settles entries options final) (hperm : others.Perm entries) :
    Settles others options final where
  sized written hwritten := hfinal.sized written (hperm.mem_iff.mp hwritten)
  unsized hnone := hfinal.unsized fun written => mt hperm.mem_iff.mpr (hnone written)
  toggled written hwritten := hfinal.toggled written (hperm.mem_iff.mp hwritten)
  untoggled hnone := hfinal.untoggled fun written => mt hperm.mem_iff.mpr (hnone written)

def readFrom (options : Options) (entries : List (String × String)) : Except OptionError Options :=
  entries.foldlM (fun options entry => options.apply entry.1 entry.2) options

theorem readFrom_cons_of_ok {entry : String × String} {middle : Options}
    (hentry : options.apply entry.1 entry.2 = .ok middle) :
    options.readFrom (entry :: entries) = middle.readFrom entries := by
  rw [readFrom, List.foldlM_cons, hentry]
  rfl

theorem readFrom_cons_of_error {entry : String × String} {error : OptionError}
    (hentry : options.apply entry.1 entry.2 = .error error) :
    options.readFrom (entry :: entries) = .error error := by
  rw [readFrom, List.foldlM_cons, hentry]
  rfl

theorem readFrom_append_of_ok {middle : Options} (hread : options.readFrom entries = .ok middle) :
    options.readFrom (entries ++ others) = middle.readFrom others := by
  unfold readFrom at hread ⊢
  rw [List.foldlM_append, hread]
  rfl

theorem readFrom_of_acceptable (hall : ∀ entry ∈ entries, Acceptable entry) (options : Options) :
    ∃ final, options.readFrom entries = .ok final := by
  induction entries generalizing options with
  | nil => exact ⟨options, rfl⟩
  | cons entry entries ih =>
      obtain ⟨hfirst, hrest⟩ := List.forall_mem_cons.mp hall
      obtain ⟨middle, hmiddle⟩ : ∃ middle, options.apply entry.1 entry.2 = .ok middle := by
        cases hfirst with
        | size hname hsize => exact ⟨_, apply_of_sizes options hname hsize⟩
        | toggle hname htoggle => exact ⟨_, apply_of_toggles options hname htoggle⟩
      rw [readFrom_cons_of_ok hmiddle]
      exact ih hrest middle

theorem mem_cons_of_name {entry : String × String} {name : String} (hname : entry.1 = name)
    (hnew : entry.1 ∉ entries.map Prod.fst) (written : String) :
    (name, written) ∈ entry :: entries ↔ written = entry.2 := by
  subst hname
  rw [List.mem_cons, Prod.ext_iff]
  refine ⟨?_, fun hwritten => .inl ⟨rfl, hwritten⟩⟩
  rintro (⟨-, hwritten⟩ | hlater)
  · exact hwritten
  · exact absurd (List.mem_map_of_mem hlater) hnew

theorem mem_cons_of_other_name {entry : String × String} {name : String} (hname : entry.1 ≠ name)
    (written : String) : (name, written) ∈ entry :: entries ↔ (name, written) ∈ entries := by
  rw [List.mem_cons, or_iff_right]
  rintro rfl
  exact hname rfl

theorem settles_of_readFrom (hall : ∀ entry ∈ entries, Acceptable entry)
    (hnames : (entries.map Prod.fst).Nodup) (hread : options.readFrom entries = .ok final) :
    Settles entries options final := by
  induction entries generalizing options with
  | nil =>
      cases hread
      exact ⟨nofun, fun _ => rfl, nofun, fun _ => rfl⟩
  | cons entry entries ih =>
      obtain ⟨hfirst, hrest⟩ := List.forall_mem_cons.mp hall
      obtain ⟨hnew, hnames⟩ := List.nodup_cons.mp hnames
      -- The other entries have other names, so what the first one sets stays as it is.
      cases hfirst with
      | @size size hname hsize =>
          have hdebug : entry.1 ≠ "debug" := hname ▸ debug_ne_chunksize.symm
          rw [readFrom_cons_of_ok (apply_of_sizes options hname hsize)] at hread
          have hlater := ih hrest hnames hread
          have hfinal : final.chunkSize = size := hlater.unsized fun written hwritten =>
            hnew (hname ▸ List.mem_map_of_mem hwritten)
          constructor
          · intro written hwritten
            rw [mem_cons_of_name hname hnew] at hwritten
            rwa [hwritten, hfinal]
          · intro hnone
            exact absurd ((mem_cons_of_name hname hnew entry.2).mpr rfl) (hnone entry.2)
          · simp only [mem_cons_of_other_name hdebug]
            exact hlater.toggled
          · simp only [mem_cons_of_other_name hdebug]
            exact hlater.untoggled
      | @toggle tracing hname htoggle =>
          have hsize : entry.1 ≠ "chunksize" := hname ▸ debug_ne_chunksize
          rw [readFrom_cons_of_ok (apply_of_toggles options hname htoggle)] at hread
          have hlater := ih hrest hnames hread
          have hfinal : final.tracing = some tracing := hlater.untoggled fun written hwritten =>
            hnew (hname ▸ List.mem_map_of_mem hwritten)
          constructor
          · simp only [mem_cons_of_other_name hsize]
            exact hlater.sized
          · simp only [mem_cons_of_other_name hsize]
            exact hlater.unsized
          · intro written hwritten
            rw [mem_cons_of_name hname hnew] at hwritten
            exact ⟨tracing, hwritten ▸ htoggle, hfinal⟩
          · intro hnone
            exact absurd ((mem_cons_of_name hname hnew entry.2).mpr rfl) (hnone entry.2)

theorem readFrom_of_offends {entry : String × String} {before : List (String × String)}
    {message : String} (hbefore : ∀ other ∈ before, Acceptable other)
    (hoffends : Offends entry message) (after : List (String × String)) (options : Options) :
    ∃ error, error.message = message ∧
      options.readFrom (before ++ entry :: after) = .error error := by
  obtain ⟨middle, hmiddle⟩ := readFrom_of_acceptable hbefore options
  obtain ⟨error, hmessage, happly⟩ := apply_of_offends hoffends
  exact ⟨error, hmessage,
    (readFrom_append_of_ok hmiddle).trans (readFrom_cons_of_error (happly middle))⟩

end Options

namespace Settings

variable {settings : Settings} {record : Nat} {options : Options}

def writing (record : Nat) (size : ChunkSize) (settings : Settings) : Settings :=
  { settings with records := settings.records.setIfInBounds record size }

theorem writing_same {size : ChunkSize} (hrecord : settings.records[record]? = some size) :
    settings.writing record size = settings := by
  obtain ⟨hlt, rfl⟩ := Array.getElem?_eq_some_iff.mp hrecord
  rw [writing, Array.setIfInBounds_def, dif_pos hlt, Array.set_getElem_self]

theorem writing_writing (record : Nat) (size other : ChunkSize) (settings : Settings) :
    (settings.writing record size).writing record other = settings.writing record other := by
  simp [writing]

theorem Act.bind_of_ok {α β : Type} {act : Act α} {answer : α} {after : Settings}
    (hact : act settings = .ok answer after) (next : α → Act β) :
    (act >>= next) settings = next answer after := by
  change EStateM.bind act next settings = _
  rw [EStateM.bind, hact]

theorem Act.bind_of_error {α β : Type} {act : Act α} {error : OptionError} {after : Settings}
    (hact : act settings = .error error after) (next : α → Act β) :
    (act >>= next) settings = .error error after := by
  change EStateM.bind act next settings = _
  rw [EStateM.bind, hact]

theorem accept_apply (hrecord : settings.records[record]? = some options.chunkSize)
    (entry : String × String) :
    accept record options.tracing entry settings =
      match options.apply entry.1 entry.2 with
      | .ok options => .ok options.tracing (settings.writing record options.chunkSize)
      | .error error => .error error settings := by
  unfold accept Options.apply
  split
  · cases ChunkSize.read entry.2 <;> rfl
  · split
    · have hsame := writing_same hrecord
      cases readToggle entry.2 with
      | ok tracing => exact congrArg _ hsame.symm
      | error error => rfl
    · rfl

theorem foldlM_accept_apply (hrecord : settings.records[record]? = some options.chunkSize)
    (entries : List (String × String)) :
    ∃ size, entries.foldlM (accept record) options.tracing settings =
      match options.readFrom entries with
      | .ok final => .ok final.tracing (settings.writing record final.chunkSize)
      | .error error => .error error (settings.writing record size) := by
  -- The record and the remembered toggle are the options that have been read so far.
  induction entries generalizing settings options with
  | nil =>
      refine ⟨options.chunkSize, ?_⟩
      rw [Options.readFrom, List.foldlM_nil]
      exact congrArg _ (writing_same hrecord).symm
  | cons entry entries ih =>
      have hentry := accept_apply hrecord entry
      rw [List.foldlM_cons]
      cases happly : options.apply entry.1 entry.2 with
      | error error =>
          refine ⟨options.chunkSize, ?_⟩
          rw [happly] at hentry
          rw [Options.readFrom_cons_of_error happly, writing_same hrecord]
          exact Act.bind_of_error hentry _
      | ok middle =>
          obtain ⟨hlt, -⟩ := Array.getElem?_eq_some_iff.mp hrecord
          have hwritten : (settings.writing record middle.chunkSize).records[record]? =
              some middle.chunkSize := by
            rw [writing, Array.getElem?_setIfInBounds_self_of_lt hlt]
          obtain ⟨size, hrest⟩ := ih hwritten
          simp only [writing_writing] at hrest
          refine ⟨size, ?_⟩
          rw [happly] at hentry
          rw [Options.readFrom_cons_of_ok happly, Act.bind_of_ok hentry]
          exact hrest

def making (size : ChunkSize) (settings : Settings) : Settings :=
  { settings with records := settings.records.push size }

theorem writing_making (size other : ChunkSize) (settings : Settings) :
    (settings.making size).writing settings.records.size other = settings.making other := by
  simp [making, writing, Array.setIfInBounds_def, Array.set_push]

/-- The record is new, and a reading that fails leaves no more than what it has written to it. -/
theorem parse_apply (entries : List (String × String)) (base : Nat) (settings : Settings) :
    ∃ size, parse entries base settings =
      match Options.read entries (settings.records[base]?.getD .unset) with
      | .ok final =>
          .ok settings.records.size
            { settings.making final.chunkSize with
              tracing := final.tracing.getD settings.tracing }
      | .error error => .error error (settings.making size) := by
  let options : Options :=
    { chunkSize := settings.records[base]?.getD .unset, tracing := none }
  have hsize : sizeOf base settings = .ok options.chunkSize settings := rfl
  have hmake : make options.chunkSize settings =
      .ok settings.records.size (settings.making options.chunkSize) := rfl
  have hrecord : (settings.making options.chunkSize).records[settings.records.size]? =
      some options.chunkSize := Array.getElem?_push_size
  obtain ⟨written, hfold⟩ := foldlM_accept_apply hrecord entries
  simp only [writing_making] at hfold
  refine ⟨written, ?_⟩
  rw [parse, Act.bind_of_ok hsize, Act.bind_of_ok hmake]
  change _ = match options.readFrom entries with
    | .ok final => _
    | .error error => _
  cases hread : options.readFrom entries with
  | error error =>
      rw [hread] at hfold
      exact Act.bind_of_error hfold _
  | ok final =>
      rw [hread] at hfold
      rw [Act.bind_of_ok hfold]
      dsimp only
      cases final.tracing <;> rfl

/-- Options that are read without a record come to the same. -/
theorem configure_eq_parse {base : Nat} {size : ChunkSize}
    (hbase : settings.records[base]? = some size) (entries : List (String × String)) :
    Options.configure entries size settings.tracing =
      match parse entries base settings with
      | .ok record after => (.ok (after.records[record]?.getD .unset), after.tracing)
      | .error error after => (.error error, after.tracing) := by
  obtain ⟨written, hparse⟩ := parse_apply entries base settings
  rw [hbase, Option.getD_some] at hparse
  rw [hparse, Options.configure]
  cases Options.read entries size with
  | error error => rfl
  | ok final =>
      have hrecord : (settings.making final.chunkSize).records[settings.records.size]? =
          some final.chunkSize := Array.getElem?_push_size
      simp [hrecord]

theorem parse_of_acceptable {entries : List (String × String)}
    (hall : ∀ entry ∈ entries, Acceptable entry) (base : Nat) (settings : Settings) :
    ∃ final,
      Options.read entries (settings.records[base]?.getD .unset) = .ok final ∧
      parse entries base settings = .ok settings.records.size
        { settings.making final.chunkSize with
          tracing := final.tracing.getD settings.tracing } := by
  obtain ⟨size, hparse⟩ := parse_apply entries base settings
  obtain ⟨final, hread⟩ := Options.readFrom_of_acceptable hall
    { chunkSize := settings.records[base]?.getD .unset, tracing := none }
  have hread : Options.read entries (settings.records[base]?.getD .unset) = .ok final := hread
  rw [hread] at hparse
  exact ⟨final, hread, hparse⟩

theorem parse_of_offends {entry : String × String} {before : List (String × String)}
    {message : String} (hbefore : ∀ other ∈ before, Acceptable other)
    (hoffends : Offends entry message) (after : List (String × String)) (base : Nat)
    (settings : Settings) :
    ∃ error size, error.report = .error "ParseError" message ∧
      parse (before ++ entry :: after) base settings = .error error (settings.making size) := by
  obtain ⟨size, hparse⟩ := parse_apply (before ++ entry :: after) base settings
  obtain ⟨error, rfl, hread⟩ := Options.readFrom_of_offends hbefore hoffends after
    { chunkSize := settings.records[base]?.getD .unset, tracing := none }
  have hread : Options.read (before ++ entry :: after) _ = .error error := hread
  rw [hread] at hparse
  exact ⟨error, size, rfl, hparse⟩

section Parse

variable {entries others : List (String × String)} {base : Nat} {size : ChunkSize}
  {after : Settings} (hbase : settings.records[base]? = some size)

include hbase

theorem parse_ok_iff (hnames : (entries.map Prod.fst).Nodup) :
    parse entries base settings = .ok record after ↔
      (∀ entry ∈ entries, Acceptable entry) ∧
        ∃ final, Options.Settles entries { chunkSize := size, tracing := none } final ∧
          record = settings.records.size ∧
          after = { settings.making final.chunkSize with
            tracing := final.tracing.getD settings.tracing } := by
  rcases acceptable_or_first entries with
    hall | ⟨before, entry, rest, message, rfl, hbefore, hoffends⟩
  · obtain ⟨final, hread, hparse⟩ := parse_of_acceptable hall base settings
    rw [hbase, Option.getD_some] at hread
    have hfinal := Options.settles_of_readFrom hall hnames hread
    rw [hparse]
    constructor
    · rintro ⟨⟩
      exact ⟨hall, final, hfinal, rfl, rfl⟩
    · rintro ⟨-, other, hother, rfl, rfl⟩
      rw [hfinal.unique hother]
  · obtain ⟨error, written, -, hparse⟩ := parse_of_offends hbefore hoffends rest base settings
    rw [hparse]
    refine ⟨nofun, fun ⟨hall, _⟩ => ?_⟩
    exact absurd (hall entry (by simp)) hoffends.not_acceptable

/-- The order of the entries does not matter to a reading that succeeds. -/
theorem parse_ok_perm (hnames : (entries.map Prod.fst).Nodup) (hperm : others.Perm entries) :
    parse others base settings = .ok record after ↔
      parse entries base settings = .ok record after := by
  have hnamesOthers : (others.map Prod.fst).Nodup := (hperm.map Prod.fst).nodup_iff.mpr hnames
  rw [parse_ok_iff hbase hnames, parse_ok_iff hbase hnamesOthers]
  constructor
  · rintro ⟨hall, final, hfinal, hafter⟩
    exact ⟨fun entry hentry => hall entry (hperm.mem_iff.mpr hentry), final,
      hfinal.perm hperm.symm, hafter⟩
  · rintro ⟨hall, final, hfinal, hafter⟩
    exact ⟨fun entry hentry => hall entry (hperm.mem_iff.mp hentry), final, hfinal.perm hperm,
      hafter⟩

end Parse

/-- The records that were there are as they were. -/
def Keeps (before after : Settings) : Prop :=
  ∀ record < before.records.size, after.records[record]? = before.records[record]?

/-- The record is new, and nothing else has changed but the switch, if the entries name it. -/
structure Parses (entries : List (String × String)) (size : ChunkSize) (before : Settings)
    (record : Nat) (after : Settings) : Prop where
  fresh : before.records.size ≤ record
  keeps : before.Keeps after
  sized : ∀ written, ("chunksize", written) ∈ entries →
    ∃ parsed, Sizes written parsed ∧ after.records[record]? = some parsed
  unsized : (∀ written, ("chunksize", written) ∉ entries) → after.records[record]? = some size
  toggled : ∀ written, ("debug", written) ∈ entries → Toggles written after.tracing
  untoggled : (∀ written, ("debug", written) ∉ entries) → after.tracing = before.tracing

theorem making_keeps (size : ChunkSize) (settings : Settings) :
    settings.Keeps (settings.making size) := by
  intro record hrecord
  exact Array.getElem?_push_lt hrecord ▸ (Array.getElem?_eq_getElem hrecord).symm

theorem parses_of_settles {entries : List (String × String)} {size : ChunkSize} {final : Options}
    (hfinal : Options.Settles entries { chunkSize := size, tracing := none } final) :
    settings.Parses entries size settings.records.size
      { settings.making final.chunkSize with tracing := final.tracing.getD settings.tracing } where
  fresh := le_rfl
  keeps := making_keeps _ settings
  sized written hwritten :=
    ⟨final.chunkSize, hfinal.sized written hwritten, Array.getElem?_push_size⟩
  unsized hnone := hfinal.unsized hnone ▸ Array.getElem?_push_size
  toggled written hwritten := by
    obtain ⟨tracing, htoggle, htracing⟩ := hfinal.toggled written hwritten
    simpa [htracing] using htoggle
  untoggled hnone := by
    simp [hfinal.untoggled hnone]

/-- **Reading options changes all or nothing.** It succeeds exactly if every entry is acceptable,
and then the record and the switch are as the entries say, in whatever order they stand. Otherwise
it fails and leaves the switch alone. No record that was there is ever written to. -/
theorem parse_all_or_nothing {entries : List (String × String)} {base : Nat} {size : ChunkSize}
    (hbase : settings.records[base]? = some size) (hnames : (entries.map Prod.fst).Nodup) :
    (((∀ entry ∈ entries, Acceptable entry) ∧
        ∃ record after, parse entries base settings = .ok record after ∧
          settings.Parses entries size record after) ∨
      ((∃ entry ∈ entries, ¬ Acceptable entry) ∧
        ∃ error after, parse entries base settings = .error error after ∧
          (∃ entry ∈ entries, ∃ message, Offends entry message ∧
            error.report = .error "ParseError" message) ∧
          after.tracing = settings.tracing ∧ settings.Keeps after)) ∧
    ∀ others : List (String × String), others.Perm entries → ∀ record after,
      parse others base settings = .ok record after ↔
        parse entries base settings = .ok record after := by
  refine ⟨?_, fun others hperm record after => parse_ok_perm hbase hnames hperm⟩
  rcases acceptable_or_first entries with
    hall | ⟨before, entry, rest, message, rfl, hbefore, hoffends⟩
  · obtain ⟨final, hread, hparse⟩ := parse_of_acceptable hall base settings
    rw [hbase, Option.getD_some] at hread
    have hfinal := Options.settles_of_readFrom hall hnames hread
    exact .inl ⟨hall, _, _, hparse, parses_of_settles hfinal⟩
  · obtain ⟨error, written, hreport, hparse⟩ := parse_of_offends hbefore hoffends rest base settings
    have hentry : entry ∈ before ++ entry :: rest := by simp
    exact .inr ⟨⟨entry, hentry, hoffends.not_acceptable⟩, error, _, hparse,
      ⟨entry, hentry, message, hoffends, hreport⟩, rfl, making_keeps written settings⟩

theorem parse_all_or_nothing_after_toggle :
    let settings : Settings := { records := #[.default, .null], tracing := false }
    ∃ error after, parse [("debug", "on"), ("chunksize", "x")] 1 settings = .error error after ∧
      error.report = .error "ParseError" "Bad chunk size: x" ∧ after.tracing = false ∧
        after.records[1]? = some .null := by
  intro settings
  have hbase : settings.records[1]? = some .null := rfl
  have hnames : ([("debug", "on"), ("chunksize", "x")].map Prod.fst).Nodup := by decide
  obtain ⟨hparse, -⟩ := parse_all_or_nothing hbase hnames
  have hrefused : ChunkSize.read "x" = .error (.badChunkSize "x") := by decide +kernel
  have hnone (size : ChunkSize) : ¬ Sizes "x" size := by
    intro hsize
    obtain ⟨whole, hread, -⟩ := read_of_sizes hsize
    exact nomatch hrefused.symm.trans hread
  rcases hparse with ⟨hall, -⟩ | ⟨-, error, after, hparse, hoffends, htracing, hkeeps⟩
  · exact absurd (hall ("chunksize", "x") (by simp)) (Offends.size rfl hnone).not_acceptable
  · refine ⟨error, after, hparse, ?_, htracing, hkeeps 1 (by decide)⟩
    obtain ⟨entry, hentry, message, hoffends, hreport⟩ := hoffends
    rw [hreport]
    simp only [List.mem_cons, List.not_mem_nil, or_false] at hentry
    obtain rfl | rfl := hentry
    · exact absurd (Acceptable.toggle rfl .on) hoffends.not_acceptable
    · cases hoffends with
      | unknown hsize _ => exact absurd rfl hsize
      | size _ _ => rfl
      | toggle hname _ => exact absurd hname debug_ne_chunksize.symm

end Settings

end PullRange
