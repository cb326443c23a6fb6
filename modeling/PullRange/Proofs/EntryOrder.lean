import Mathlib
import PullRange.Options.Entries
import PullRange.Proofs.Settings

/-!
# Which error is reported

Entries are read in the order of `Entries.ofPairs`: plain indices first, the least one in front, and
then the other names by first appearance, each with its last value. Since the names of options are
no indices, an index that is there is the first to be refused, and without one it is the first name
that offends under its last value.
-/

namespace PullRange

/-- The value that a name has in the end. -/
def lastValue (pairs : List (String × String)) (name : String) : Option String :=
  pairs.reverse.lookup name

namespace Entries

variable {entries pairs : List (String × String)} {name : String}

def collect (pairs : List (String × String)) : List (String × String) :=
  pairs.foldl (fun entries pair => put entries pair.1 pair.2) []

theorem collect_snoc (pairs : List (String × String)) (pair : String × String) :
    collect (pairs ++ [pair]) = put (collect pairs) pair.1 pair.2 := by
  simp [collect]

theorem names_put (entries : List (String × String)) (name value : String) :
    (put entries name value).map Prod.fst =
      if name ∈ entries.map Prod.fst then entries.map Prod.fst
      else entries.map Prod.fst ++ [name] := by
  induction entries with
  | nil => rfl
  | cons entry entries ih =>
      rw [put]
      by_cases hhere : entry.1 = name
      · simp [hhere]
      · simp only [hhere, ↓reduceIte, List.map_cons, List.mem_cons, Ne.symm hhere, false_or, ih]
        split <;> rfl

theorem lookup_cons_eq_ite (entry : String × String) (entries : List (String × String))
    (name : String) :
    (entry :: entries).lookup name =
      if name = entry.1 then some entry.2 else entries.lookup name := by
  rw [List.lookup_cons]
  by_cases hhere : name = entry.1
  · simp [hhere]
  · rw [beq_false_of_ne hhere, if_neg hhere]

theorem lookup_put (entries : List (String × String)) (name value other : String) :
    (put entries name value).lookup other =
      if other = name then some value else entries.lookup other := by
  induction entries with
  | nil => exact lookup_cons_eq_ite (name, value) [] other
  | cons entry entries ih =>
      rw [put]
      by_cases hhere : entry.1 = name
      · rw [if_pos hhere, lookup_cons_eq_ite, lookup_cons_eq_ite, hhere]
        split <;> rfl
      · rw [if_neg hhere, lookup_cons_eq_ite, lookup_cons_eq_ite, ih]
        by_cases hother : other = entry.1
        · rw [if_pos hother, if_neg (hother ▸ hhere), if_pos hother]
        · simp only [hother, ↓reduceIte]

theorem nodup_collect (pairs : List (String × String)) : ((collect pairs).map Prod.fst).Nodup := by
  induction pairs using List.reverseRecOn with
  | nil => exact List.nodup_nil
  | append_singleton pairs pair ih =>
      rw [collect_snoc, names_put]
      split
      · exact ih
      · next hnew =>
          rw [← List.concat_eq_append]
          exact List.Nodup.concat hnew ih

theorem lookup_collect (pairs : List (String × String)) (name : String) :
    (collect pairs).lookup name = lastValue pairs name := by
  induction pairs using List.reverseRecOn with
  | nil => rfl
  | append_singleton pairs pair ih =>
      rw [collect_snoc, lookup_put, ih]
      unfold lastValue
      rw [List.reverse_append, List.reverse_singleton, List.singleton_append, lookup_cons_eq_ite]

theorem mem_names_collect (pairs : List (String × String)) (name : String) :
    name ∈ (collect pairs).map Prod.fst ↔ name ∈ pairs.map Prod.fst := by
  induction pairs using List.reverseRecOn with
  | nil => rfl
  | append_singleton pairs pair ih =>
      rw [collect_snoc, names_put, List.map_append, List.mem_append, ← ih]
      split
      · next hold =>
          rw [or_iff_left_of_imp]
          intro hlast
          rwa [List.mem_singleton.mp hlast]
      · simp

theorem mem_iff_lookup (hnames : (entries.map Prod.fst).Nodup) (entry : String × String) :
    entry ∈ entries ↔ entries.lookup entry.1 = some entry.2 := by
  induction entries with
  | nil => simp
  | cons first entries ih =>
      obtain ⟨hnew, hnames⟩ := List.nodup_cons.mp hnames
      rw [lookup_cons_eq_ite, List.mem_cons]
      by_cases hhere : entry.1 = first.1
      · have hlater : entry ∉ entries := fun hlater => hnew (hhere ▸ List.mem_map_of_mem hlater)
        rw [if_pos hhere, or_iff_left hlater, Prod.ext_iff, and_iff_right hhere, Option.some_inj,
          eq_comm]
      · have hfirst : entry ≠ first := fun hfirst => hhere (congrArg Prod.fst hfirst)
        rw [if_neg hhere, or_iff_right hfirst, ih hnames]

/-- The order is the one of first appearance. -/
theorem first_appearance {before after : List String}
    (hnames : (collect pairs).map Prod.fst = before ++ name :: after) :
    ∃ earlier written later, pairs = earlier ++ (name, written) :: later ∧
      name ∉ earlier.map Prod.fst ∧ ∀ pair ∈ earlier, pair.1 ∈ before := by
  induction pairs using List.reverseRecOn generalizing after with
  | nil => simp [collect] at hnames
  | append_singleton pairs pair ih =>
      have hearlier {rest : List String}
          (hrest : (collect pairs).map Prod.fst = before ++ name :: rest) :
          ∃ earlier written later, pairs ++ [pair] = earlier ++ (name, written) :: later ∧
            name ∉ earlier.map Prod.fst ∧ ∀ pair ∈ earlier, pair.1 ∈ before := by
        obtain ⟨earlier, written, later, rfl, hnew, hbefore⟩ := ih hrest
        exact ⟨earlier, written, later ++ [pair], by simp, hnew, hbefore⟩
      rw [collect_snoc, names_put] at hnames
      -- A name that the last pair brings stands last. Every other split is one of the pairs before.
      split at hnames
      · exact hearlier hnames
      · next hnew =>
          rcases after.eq_nil_or_concat with rfl | ⟨rest, last, rfl⟩
          · obtain ⟨rfl, hlast⟩ := List.append_inj' hnames rfl
            cases hlast
            refine ⟨pairs, pair.2, [], rfl, mt (mem_names_collect pairs pair.1).mpr hnew, ?_⟩
            intro other hother
            exact (mem_names_collect pairs other.1).mpr (List.mem_map_of_mem hother)
          · rw [List.concat_eq_append, ← List.cons_append, ← List.append_assoc] at hnames
            exact hearlier (List.append_inj' hnames rfl).1

theorem index?_eq_some_iff {index : Nat} :
    index? name = some index ↔ index < indexBound ∧ name = toString index := by
  rw [index?, Option.filter_eq_some_iff]
  simp only [Bool.and_eq_true, decide_eq_true_eq, beq_iff_eq]
  constructor
  · rintro ⟨-, hlt, hname⟩
    exact ⟨hlt, hname.symm⟩
  · rintro ⟨hlt, rfl⟩
    exact ⟨Nat.toNat?_repr index, hlt, rfl⟩

theorem isDigit_of_mem {index : Nat} {character : Char}
    (hcharacter : character ∈ (toString index).toList) : character.isDigit = true := by
  rw [Nat.toString_eq_repr, Nat.toList_repr] at hcharacter
  exact Nat.isDigit_of_mem_toDigits (by decide) (by decide) hcharacter

/-- The entries that have indices, with their indices and in ascending order. -/
def sorted (entries : List (String × String)) : List (Nat × String × String) :=
  entries.foldr
    (fun entry sorted =>
      match index? entry.1 with
      | some index => insertIndexed index entry sorted
      | none => sorted) []

theorem insertIndexed_perm (index : Nat) (entry : String × String)
    (rest : List (Nat × String × String)) :
    (insertIndexed index entry rest).Perm ((index, entry) :: rest) := by
  induction rest with
  | nil => rfl
  | cons other rest ih =>
      rw [insertIndexed]
      split
      · rfl
      · exact (ih.cons other).trans (List.Perm.swap _ _ _)

theorem insertIndexed_ascends {index : Nat} {entry : String × String}
    {rest : List (Nat × String × String)}
    (hrest : rest.Pairwise fun first second => first.1 ≤ second.1) :
    (insertIndexed index entry rest).Pairwise fun first second => first.1 ≤ second.1 := by
  induction rest with
  | nil => exact List.pairwise_singleton _ _
  | cons other rest ih =>
      obtain ⟨hother, hlater⟩ := List.pairwise_cons.mp hrest
      rw [insertIndexed]
      split
      · next hlt =>
          refine List.pairwise_cons.mpr ⟨List.forall_mem_cons.mpr ⟨hlt.le, ?_⟩, hrest⟩
          exact fun later hmem => hlt.le.trans (hother later hmem)
      · next hnot =>
          refine List.pairwise_cons.mpr ⟨fun later hmem => ?_, ih hlater⟩
          rcases List.mem_cons.mp ((insertIndexed_perm index entry rest).mem_iff.mp hmem) with
            rfl | hmem
          · exact Nat.le_of_not_lt hnot
          · exact hother later hmem

theorem sorted_ascends (entries : List (String × String)) :
    (sorted entries).Pairwise fun first second => first.1 ≤ second.1 := by
  induction entries with
  | nil => exact .nil
  | cons entry entries ih =>
      rw [sorted, List.foldr_cons, ← sorted]
      split
      · exact insertIndexed_ascends ih
      · exact ih

theorem mem_sorted {entry : Nat × String × String} :
    entry ∈ sorted entries ↔ entry.2 ∈ entries ∧ index? entry.2.1 = some entry.1 := by
  induction entries with
  | nil => simp [sorted]
  | cons first entries ih =>
      rw [sorted, List.foldr_cons, ← sorted, List.mem_cons]
      cases hindex : index? first.1 with
      | none =>
          simp only [ih]
          constructor
          · exact fun ⟨hentry, hhere⟩ => ⟨.inr hentry, hhere⟩
          · rintro ⟨rfl | hentry, hhere⟩
            · exact nomatch hindex.symm.trans hhere
            · exact ⟨hentry, hhere⟩
      | some index =>
          simp only [(insertIndexed_perm index first _).mem_iff, List.mem_cons, ih]
          constructor
          · rintro (rfl | ⟨hentry, hhere⟩)
            · exact ⟨.inl rfl, hindex⟩
            · exact ⟨.inr hentry, hhere⟩
          · rintro ⟨rfl | hentry, hhere⟩
            · cases hindex.symm.trans hhere
              exact .inl rfl
            · exact .inr ⟨hentry, hhere⟩

theorem mem_ofPairs (pairs : List (String × String)) (entry : String × String) :
    entry ∈ ofPairs pairs ↔ lastValue pairs entry.1 = some entry.2 := by
  rw [← lookup_collect, ← mem_iff_lookup (nodup_collect pairs)]
  change entry ∈ (sorted (collect pairs)).map Prod.snd ++ named (collect pairs) ↔ _
  rw [named, List.mem_append, List.mem_filter, List.mem_map]
  constructor
  · rintro (⟨other, hother, rfl⟩ | ⟨hentry, -⟩)
    · exact (mem_sorted.mp hother).1
    · exact hentry
  · intro hentry
    cases hindex : index? entry.1 with
    | none => exact .inr ⟨hentry, rfl⟩
    | some index => exact .inl ⟨(index, entry), mem_sorted.mpr ⟨hentry, hindex⟩, rfl⟩

/-- The indices that are names of pairs. -/
def indices (pairs : List (String × String)) : Set Nat :=
  {index | index < indexBound ∧ toString index ∈ pairs.map Prod.fst}

/-- The least index comes first. -/
theorem ofPairs_of_isLeast {index : Nat} (hleast : IsLeast (indices pairs) index) :
    ∃ value rest, ofPairs pairs = (toString index, value) :: rest := by
  have hindex {entry : Nat × String × String} (hentry : entry ∈ sorted (collect pairs)) :
      entry.1 ∈ indices pairs ∧ entry.2.1 = toString entry.1 := by
    obtain ⟨hmem, hindex⟩ := mem_sorted.mp hentry
    obtain ⟨hlt, hname⟩ := index?_eq_some_iff.mp hindex
    refine ⟨⟨hlt, ?_⟩, hname⟩
    rw [← hname, ← mem_names_collect]
    exact List.mem_map_of_mem hmem
  obtain ⟨hlt, hname⟩ := hleast.1
  obtain ⟨entry, hentry, hnamed⟩ := List.mem_map.mp ((mem_names_collect pairs _).mpr hname)
  have hmem : (index, entry) ∈ sorted (collect pairs) :=
    mem_sorted.mpr ⟨hentry, index?_eq_some_iff.mpr ⟨hlt, hnamed⟩⟩
  have hofPairs : ofPairs pairs =
      (sorted (collect pairs)).map Prod.snd ++ named (collect pairs) := rfl
  have hascends := sorted_ascends (collect pairs)
  cases hsorted : sorted (collect pairs) with
  | nil => exact nomatch hsorted ▸ hmem
  | cons first rest =>
      have hfirst := hindex (hsorted ▸ List.mem_cons_self : first ∈ sorted (collect pairs))
      rw [hsorted] at hmem hascends hofPairs
      have hle : first.1 ≤ index := by
        rcases List.mem_cons.mp hmem with hhere | hlater
        · exact (congrArg Prod.fst hhere).symm.le
        · exact (List.pairwise_cons.mp hascends).1 _ hlater
      have hsame : first.1 = index := hle.antisymm (hleast.2 hfirst.1)
      refine ⟨first.2.2, rest.map Prod.snd ++ named (collect pairs), ?_⟩
      rw [hofPairs, ← hsame, ← hfirst.2]
      rfl

/-- Without an index all names stand by first appearance. -/
theorem ofPairs_of_no_index (hnone : indices pairs = ∅) : ofPairs pairs = collect pairs := by
  have hindex (entry : String × String) (hentry : entry ∈ collect pairs) :
      index? entry.1 = none := by
    rw [Option.eq_none_iff_forall_ne_some]
    intro index hindex
    obtain ⟨hlt, hname⟩ := index?_eq_some_iff.mp hindex
    have hmem : index ∈ indices pairs :=
      ⟨hlt, hname ▸ (mem_names_collect pairs _).mp (List.mem_map_of_mem hentry)⟩
    rw [hnone] at hmem
    exact hmem
  have hsorted : sorted (collect pairs) = [] := by
    rw [List.eq_nil_iff_forall_not_mem]
    intro entry hentry
    obtain ⟨hmem, hsome⟩ := mem_sorted.mp hentry
    exact nomatch (hindex _ hmem).symm.trans hsome
  have hnamed : named (collect pairs) = collect pairs :=
    List.filter_eq_self.mpr fun entry hentry => Option.isNone_iff_eq_none.mpr (hindex entry hentry)
  change (sorted (collect pairs)).map Prod.snd ++ named (collect pairs) = collect pairs
  rw [hsorted, hnamed]
  rfl

end Entries

namespace Settings

variable {pairs : List (String × String)} {base : Nat} {settings after : Settings}
  {error : OptionError}

/-- The options have names that are no indices. -/
theorem offends_of_index (index : Nat) (value : String) :
    Offends (toString index, value) ("Unknown option: " ++ toString index) := by
  have hsize : toString index ≠ "chunksize" := fun hname =>
    absurd (Entries.isDigit_of_mem (hname ▸ by decide : 'c' ∈ (toString index).toList)) (by decide)
  have htoggle : toString index ≠ "debug" := fun hname =>
    absurd (Entries.isDigit_of_mem (hname ▸ by decide : 'd' ∈ (toString index).toList)) (by decide)
  exact .unknown hsize htoggle

theorem parse_fails_iff :
    (∃ error after, parse (Entries.ofPairs pairs) base settings = .error error after) ↔
      ∃ name value, lastValue pairs name = some value ∧ ¬ Acceptable (name, value) := by
  rcases acceptable_or_first (Entries.ofPairs pairs) with
    hall | ⟨before, entry, rest, message, hentries, hbefore, hoffends⟩
  · obtain ⟨final, -, hparse⟩ := parse_of_acceptable hall base settings
    rw [hparse]
    refine ⟨nofun, fun ⟨name, value, hvalue, hnot⟩ => ?_⟩
    exact absurd (hall (name, value) ((Entries.mem_ofPairs pairs _).mpr hvalue)) hnot
  · have hentry : entry ∈ Entries.ofPairs pairs := by simp [hentries]
    obtain ⟨error, size, -, hparse⟩ := parse_of_offends hbefore hoffends rest base settings
    rw [hentries]
    refine ⟨fun _ => ?_, fun _ => ⟨error, _, hparse⟩⟩
    exact ⟨entry.1, entry.2, (Entries.mem_ofPairs pairs entry).mp hentry, hoffends.not_acceptable⟩

theorem report_of_index {index : Nat} (hleast : IsLeast (Entries.indices pairs) index)
    (hparse : parse (Entries.ofPairs pairs) base settings = .error error after) :
    error.report = .error "ParseError" ("Unknown option: " ++ toString index) := by
  obtain ⟨value, rest, hentries⟩ := Entries.ofPairs_of_isLeast hleast
  have hbefore : ∀ other ∈ ([] : List (String × String)), Acceptable other := nofun
  obtain ⟨first, size, hreport, hfirst⟩ :=
    parse_of_offends hbefore (offends_of_index index value) rest base settings
  rw [hentries] at hparse
  cases hparse.symm.trans hfirst
  exact hreport

theorem report_of_no_index (hnone : Entries.indices pairs = ∅)
    (hparse : parse (Entries.ofPairs pairs) base settings = .error error after) :
    ∃ earlier name written later value message, pairs = earlier ++ (name, written) :: later ∧
      name ∉ earlier.map Prod.fst ∧ lastValue pairs name = some value ∧
      Offends (name, value) message ∧
      (∀ pair ∈ earlier, ∃ last, lastValue pairs pair.1 = some last ∧ Acceptable (pair.1, last)) ∧
      error.report = .error "ParseError" message := by
  have hvalue (entry : String × String) (hentry : entry ∈ Entries.collect pairs) :
      lastValue pairs entry.1 = some entry.2 := by
    rw [← Entries.mem_ofPairs, Entries.ofPairs_of_no_index hnone]
    exact hentry
  rcases acceptable_or_first (Entries.ofPairs pairs) with
    hall | ⟨before, entry, rest, message, hentries, hbefore, hoffends⟩
  · obtain ⟨final, -, hother⟩ := parse_of_acceptable hall base settings
    exact nomatch hparse.symm.trans hother
  · obtain ⟨first, size, hreport, hfirst⟩ := parse_of_offends hbefore hoffends rest base settings
    rw [hentries] at hparse
    cases hparse.symm.trans hfirst
    rw [Entries.ofPairs_of_no_index hnone] at hentries
    rw [hentries] at hvalue
    have hnames : (Entries.collect pairs).map Prod.fst =
        before.map Prod.fst ++ entry.1 :: rest.map Prod.fst := by simp [hentries]
    obtain ⟨earlier, written, later, hpairs, hnew, hearlier⟩ := Entries.first_appearance hnames
    refine ⟨earlier, entry.1, written, later, entry.2, message, hpairs, hnew,
      hvalue entry (by simp), hoffends, ?_, hreport⟩
    intro pair hpair
    obtain ⟨other, hother, hsame⟩ := List.mem_map.mp (hearlier pair hpair)
    rw [← hsame]
    exact ⟨other.2, hvalue other (by simp [hother]), hbefore other hother⟩

/-- **Which error is reported.** Reading fails exactly if some name offends under its last value.
The least index that is a name is reported before everything else; without one, it is the first name
that offends under its last value, by first appearance. -/
theorem reported_error (pairs : List (String × String)) (base : Nat) (settings : Settings) :
    ((∃ error after, parse (Entries.ofPairs pairs) base settings = .error error after) ↔
      ∃ name value, lastValue pairs name = some value ∧ ¬ Acceptable (name, value)) ∧
    ∀ error after, parse (Entries.ofPairs pairs) base settings = .error error after →
      (∀ index, IsLeast (Entries.indices pairs) index →
        error.report = .error "ParseError" ("Unknown option: " ++ toString index)) ∧
      (Entries.indices pairs = ∅ →
        ∃ earlier name written later value message, pairs = earlier ++ (name, written) :: later ∧
          name ∉ earlier.map Prod.fst ∧ lastValue pairs name = some value ∧
          Offends (name, value) message ∧
          (∀ pair ∈ earlier,
            ∃ last, lastValue pairs pair.1 = some last ∧ Acceptable (pair.1, last)) ∧
          error.report = .error "ParseError" message) :=
  ⟨parse_fails_iff, fun _ _ hparse =>
    ⟨fun _ hleast => report_of_index hleast hparse, fun hnone => report_of_no_index hnone hparse⟩⟩

theorem reported_error_at_index :
    let pairs := [("debug", "maybe"), ("7", ""), ("3", "")]
    ∃ error after, parse (Entries.ofPairs pairs) 0 ⟨initialRecords, false⟩ = .error error after ∧
      error.report = .error "ParseError" "Unknown option: 3" := by
  intro pairs
  have hleast : IsLeast (Entries.indices pairs) 3 := by
    refine ⟨⟨by decide, by decide⟩, ?_⟩
    rintro index ⟨-, hname⟩
    have hname : toString index = "debug" ∨ toString index = "7" ∨ toString index = "3" := by
      simpa [pairs] using hname
    rcases hname with hname | hname | hname
    · exact absurd (Entries.isDigit_of_mem (hname ▸ by decide : 'd' ∈ (toString index).toList))
        (by decide)
    · have hindex : index = 7 := Nat.repr_inj.mp (hname.trans (by decide : "7" = Nat.repr 7))
      omega
    · have hindex : index = 3 := Nat.repr_inj.mp (hname.trans (by decide : "3" = Nat.repr 3))
      omega
  have hnot : ¬ Acceptable ("3", "") := (offends_of_index 3 "").not_acceptable
  obtain ⟨hfails, hreports⟩ := reported_error pairs 0 ⟨initialRecords, false⟩
  obtain ⟨error, after, hparse⟩ := hfails.mpr ⟨"3", "", rfl, hnot⟩
  exact ⟨error, after, hparse, (hreports error after hparse).1 3 hleast⟩

end Settings

end PullRange
