import Mathlib.Data.Nat.Digits.Defs
import Mathlib.Tactic.IntervalCases
import PullRange.Options.Entries
import PullRange.Report

/-!
# Which texts are chunk sizes

`Spells` is the grammar of integer literals, with the integer that a literal denotes. A text is
looked at twice when a chunk size is read from it, by a test and by a lenient reader that tells the
radix from the first characters. They agree: whatever passes the test is read to its end, in the
radix that the grammar gives it. What is then refused is zero, and what rounds to infinity.
-/

namespace PullRange

def smallDigits : List Char :=
  ['0', '1', '2', '3', '4', '5', '6', '7', '8', '9', 'a', 'b', 'c', 'd', 'e', 'f']

def capitalDigits : List Char :=
  ['0', '1', '2', '3', '4', '5', '6', '7', '8', '9', 'A', 'B', 'C', 'D', 'E', 'F']

/-- The character is this digit in a notation with so many digits. -/
def DigitOf (base : Nat) (character : Char) (digit : Nat) : Prop :=
  digit < base ∧ (smallDigits[digit]? = some character ∨ capitalDigits[digit]? = some character)

/-- The codes of the characters that may surround a literal. -/
def blankCodes : List Nat :=
  [0x09, 0x0A, 0x0B, 0x0C, 0x0D, 0x20, 0xA0, 0x1680, 0x2000, 0x2001, 0x2002, 0x2003, 0x2004, 0x2005,
    0x2006, 0x2007, 0x2008, 0x2009, 0x200A, 0x2028, 0x2029, 0x202F, 0x205F, 0x3000, 0xFEFF]

/-- The text is an integer literal that denotes this integer. -/
inductive Spells : List Char → Nat → Prop where
  | hexadecimal {marker : Char} {text : List Char} {digits : List Nat}
      (hmarker : marker = 'x' ∨ marker = 'X') (hsome : text ≠ [])
      (hdigits : List.Forall₂ (DigitOf 16) text digits) :
      Spells ('0' :: marker :: text) (Nat.ofDigits 16 digits.reverse)
  | octal {text : List Char} {digits : List Nat} (hdigits : List.Forall₂ (DigitOf 8) text digits) :
      Spells ('0' :: text) (Nat.ofDigits 8 digits.reverse)
  | decimal {first : Char} {text : List Char} {leading : Nat} {digits : List Nat}
      (hfirst : DigitOf 10 first leading) (hnonzero : leading ≠ 0)
      (hdigits : List.Forall₂ (DigitOf 10) text digits) :
      Spells (first :: text) (Nat.ofDigits 10 (leading :: digits).reverse)

/-- The text is a literal of this integer, with blanks around it. -/
def Denotes (written : String) (value : Nat) : Prop :=
  ∃ before text after, written.toList = before ++ text ++ after ∧
    (∀ character ∈ before, character.toNat ∈ blankCodes) ∧
    (∀ character ∈ after, character.toNat ∈ blankCodes) ∧ Spells text value

theorem exists_code_of_between {low high character : Char}
    (hrange : low ≤ character ∧ character ≤ high) :
    ∃ code, low.toNat ≤ code ∧ code ≤ high.toNat ∧ character = Char.ofNat code :=
  ⟨character.toNat, hrange.1, hrange.2, (Char.ofNat_toNat character).symm⟩

theorem Radix.digit?_eq_some {radix : Radix} {character : Char} {digit : Nat} :
    radix.digit? character = some digit ↔ DigitOf radix.base character digit := by
  constructor
  · intro hdigit
    simp only [Radix.digit?, Option.filter_eq_some_iff, decide_eq_true_eq] at hdigit
    obtain ⟨hvalue, hlt⟩ := hdigit
    refine ⟨hlt, ?_⟩
    split_ifs at hvalue with hdecimal hsmall hcapital
    · obtain ⟨code, hlow, hhigh, rfl⟩ := exists_code_of_between hdecimal
      change 48 ≤ code at hlow
      change code ≤ 57 at hhigh
      cases hvalue
      interval_cases code <;> exact .inl rfl
    · obtain ⟨code, hlow, hhigh, rfl⟩ := exists_code_of_between hsmall
      change 97 ≤ code at hlow
      change code ≤ 102 at hhigh
      cases hvalue
      interval_cases code <;> exact .inl rfl
    · obtain ⟨code, hlow, hhigh, rfl⟩ := exists_code_of_between hcapital
      change 65 ≤ code at hlow
      change code ≤ 70 at hhigh
      cases hvalue
      interval_cases code <;> exact .inr rfl
  · rintro ⟨hlt, hwritten⟩
    have hdigit : digit < 16 := Nat.lt_of_lt_of_le hlt (by cases radix <;> decide)
    have hvalue : Radix.hexadecimal.digit? character = some digit := by
      cases hwritten with
      | inl hsmall => interval_cases digit <;> cases hsmall <;> rfl
      | inr hcapital => interval_cases digit <;> cases hcapital <;> rfl
    simp only [Radix.digit?, Option.filter_eq_some_iff, decide_eq_true_eq] at hvalue ⊢
    exact ⟨hvalue.1, hlt⟩

/-- A digit is none of the other characters that are looked for. -/
theorem DigitOf.plain {base digit : Nat} {character : Char} (hbase : base ≤ 16)
    (hdigit : DigitOf base character digit) :
    Text.isBlank character = false ∧ character ≠ '-' ∧ character ≠ '+' ∧
      Literal.isMarker character = false := by
  obtain ⟨hlt, hwritten⟩ := hdigit
  have hdigit : digit < 16 := by omega
  cases hwritten with
  | inl hsmall => interval_cases digit <;> cases hsmall <;> decide
  | inr hcapital => interval_cases digit <;> cases hcapital <;> decide

section Digits

variable {radix : Radix} {text : List Char} {digits : List Nat}

theorem all_isDigit_iff : text.all radix.isDigit = true ↔
    ∃ digits, List.Forall₂ (DigitOf radix.base) text digits := by
  induction text with
  | nil => exact ⟨fun _ => ⟨[], .nil⟩, fun _ => rfl⟩
  | cons character text ih =>
      rw [List.all_cons, Bool.and_eq_true, ih, Radix.isDigit, Option.isSome_iff_exists]
      constructor
      · rintro ⟨⟨digit, hdigit⟩, digits, hdigits⟩
        exact ⟨digit :: digits, .cons (Radix.digit?_eq_some.mp hdigit) hdigits⟩
      · rintro ⟨_, hdigits⟩
        cases hdigits with
        | cons hdigit hdigits => exact ⟨⟨_, Radix.digit?_eq_some.mpr hdigit⟩, _, hdigits⟩

theorem leading_of_digits (hdigits : List.Forall₂ (DigitOf radix.base) text digits) :
    radix.leading text = digits := by
  induction hdigits with
  | nil => rfl
  | cons hdigit _ ih => rw [Radix.leading, Radix.digit?_eq_some.mpr hdigit, ih]

theorem valueOf_eq (radix : Radix) (digits : List Nat) :
    radix.valueOf digits = Nat.ofDigits radix.base digits.reverse := by
  rw [Radix.valueOf, List.foldl_eq_foldr_reverse, Nat.ofDigits_eq_foldr]
  congr 1
  funext digit total
  rw [Nat.cast_id, Nat.mul_comm, Nat.add_comm]

end Digits

theorem isBlank_iff {character : Char} :
    Text.isBlank character = true ↔ character.toNat ∈ blankCodes := by
  simp only [Text.isBlank, blankCodes, Bool.or_eq_true, Bool.and_eq_true, decide_eq_true_eq,
    beq_iff_eq, List.mem_cons, List.not_mem_nil, or_false]
  omega

section Blanks

variable {before text after : List Char}

theorem dropWhile_blanks (after : List Char)
    (hbefore : ∀ character ∈ before, Text.isBlank character = true)
    (htext : ∀ character ∈ text, Text.isBlank character = false) (hsome : text ≠ []) :
    (before ++ (text ++ after)).dropWhile Text.isBlank = text ++ after := by
  rw [List.dropWhile_append_of_pos hbefore]
  cases text with
  | nil => exact absurd rfl hsome
  | cons first text =>
      have hfirst := htext first List.mem_cons_self
      rw [List.cons_append, List.dropWhile_cons_of_neg (by simp [hfirst])]

theorem trim_of_blanks (hbefore : ∀ character ∈ before, Text.isBlank character = true)
    (hafter : ∀ character ∈ after, Text.isBlank character = true)
    (htext : ∀ character ∈ text, Text.isBlank character = false) (hsome : text ≠ []) :
    Text.trim (before ++ text ++ after) = text := by
  have hstart := dropWhile_blanks after hbefore htext hsome
  have hend : (after.reverse ++ (text.reverse ++ [])).dropWhile Text.isBlank =
      text.reverse ++ [] :=
    dropWhile_blanks [] (by simpa using hafter) (by simpa using htext) (by simpa using hsome)
  rw [Text.trim, Text.trimStart, List.append_assoc, hstart, Text.trimEnd, List.reverse_append]
  rw [List.append_nil] at hend
  rw [hend, List.reverse_reverse]

/-- What is trimmed away is blank. -/
theorem exists_blanks_trim (written : List Char) :
    ∃ before after, written = before ++ Text.trim written ++ after ∧
      (∀ character ∈ before, Text.isBlank character = true) ∧
      (∀ character ∈ after, Text.isBlank character = true) := by
  refine ⟨written.takeWhile Text.isBlank,
    ((Text.trimStart written).reverse.takeWhile Text.isBlank).reverse, ?_, ?_, ?_⟩
  · have hend : Text.trim written ++
        ((Text.trimStart written).reverse.takeWhile Text.isBlank).reverse =
          Text.trimStart written := by
      rw [Text.trim, Text.trimEnd, ← List.reverse_append, List.takeWhile_append_dropWhile,
        List.reverse_reverse]
    rw [List.append_assoc, hend, Text.trimStart, List.takeWhile_append_dropWhile]
  · exact List.all_eq_true.mp List.all_takeWhile
  · intro character hcharacter
    exact List.all_eq_true.mp List.all_takeWhile character (List.mem_reverse.mp hcharacter)

end Blanks

theorem isMarker_iff {character : Char} :
    Literal.isMarker character = true ↔ character = 'x' ∨ character = 'X' := by
  simp [Literal.isMarker]

theorem nonzero_iff {character : Char} :
    ('1' ≤ character ∧ character ≤ '9') ↔ ∃ digit, DigitOf 10 character digit ∧ digit ≠ 0 := by
  constructor
  · intro hrange
    obtain ⟨code, hlow, hhigh, rfl⟩ := exists_code_of_between hrange
    change 49 ≤ code at hlow
    change code ≤ 57 at hhigh
    refine ⟨code - 48, ?_, by omega⟩
    interval_cases code <;> exact ⟨by decide, .inl rfl⟩
  · rintro ⟨digit, ⟨hlt, hwritten⟩, hnonzero⟩
    have hpos : 1 ≤ digit := Nat.one_le_iff_ne_zero.mpr hnonzero
    cases hwritten with
    | inl hsmall => interval_cases digit <;> cases hsmall <;> decide
    | inr hcapital => interval_cases digit <;> cases hcapital <;> decide

/-- The test accepts exactly the literals. -/
theorem isInteger_iff {text : List Char} :
    Literal.isInteger text = true ↔ ∃ value, Spells text value := by
  simp only [Literal.isInteger, Bool.or_eq_true]
  constructor
  · rintro ((hhexadecimal | hoctal) | hdecimal)
    · unfold Literal.isHexadecimal at hhexadecimal
      split at hhexadecimal
      · simp only [Bool.and_eq_true, Bool.not_eq_true', List.isEmpty_eq_false_iff] at hhexadecimal
        obtain ⟨⟨hmarker, hsome⟩, hall⟩ := hhexadecimal
        obtain ⟨digits, hdigits⟩ := all_isDigit_iff.mp hall
        exact ⟨_, .hexadecimal (isMarker_iff.mp hmarker) hsome hdigits⟩
      · exact nomatch hhexadecimal
    · unfold Literal.isOctal at hoctal
      split at hoctal
      · obtain ⟨digits, hdigits⟩ := all_isDigit_iff.mp hoctal
        exact ⟨_, .octal hdigits⟩
      · exact nomatch hoctal
    · unfold Literal.isDecimal at hdecimal
      split at hdecimal
      · simp only [Bool.and_eq_true, decide_eq_true_eq] at hdecimal
        obtain ⟨leading, hfirst, hnonzero⟩ := nonzero_iff.mp hdecimal.1
        obtain ⟨digits, hdigits⟩ := all_isDigit_iff.mp hdecimal.2
        exact ⟨_, .decimal hfirst hnonzero hdigits⟩
      · exact nomatch hdecimal
  · rintro ⟨value, hspells⟩
    cases hspells with
    | @hexadecimal _ rest digits hmarker hsome hdigits =>
        have hall : rest.all Radix.hexadecimal.isDigit = true :=
          all_isDigit_iff.mpr ⟨digits, hdigits⟩
        simp [Literal.isHexadecimal, isMarker_iff.mpr hmarker, hsome, hall]
    | octal hdigits => exact .inl (.inr (all_isDigit_iff.mpr ⟨_, hdigits⟩))
    | @decimal first rest leading digits hfirst hnonzero hdigits =>
        have hrange := nonzero_iff.mpr ⟨leading, hfirst, hnonzero⟩
        have hall : rest.all Radix.decimal.isDigit = true :=
          all_isDigit_iff.mpr ⟨digits, hdigits⟩
        simp [Literal.isDecimal, hrange, hall]

theorem zero_digitOf (radix : Radix) : DigitOf radix.base '0' 0 :=
  ⟨by cases radix <;> decide, .inl rfl⟩

/-- A text of digits is read to its end. -/
theorem parseIn_of_digits {radix : Radix} {first : Char} {rest digitsText : List Char}
    {leading : Nat} {digits : List Nat} (hfirst : DigitOf 16 first leading)
    (hunmarked : Literal.withoutMarker radix (first :: rest) = digitsText)
    (hdigits : List.Forall₂ (DigitOf radix.base) digitsText digits) (hsome : digitsText ≠ []) :
    Literal.parseIn radix (first :: rest) =
      .ofInteger false (Nat.ofDigits radix.base digits.reverse) := by
  obtain ⟨hblank, hminus, hplus, -⟩ := hfirst.plain (Nat.le_refl 16)
  have hstart : Text.trimStart (first :: rest) = first :: rest :=
    List.dropWhile_cons_of_neg (by simp [hblank])
  have hsign : Literal.sign (first :: rest) = (false, first :: rest) := by
    unfold Literal.sign
    split
    · next heq => exact absurd (List.cons.inj heq).1 hminus
    · next heq => exact absurd (List.cons.inj heq).1 hplus
    · rfl
  rw [← valueOf_eq]
  simp only [Literal.parseIn, hstart, hsign, hunmarked, leading_of_digits hdigits]
  cases hdigits with
  | nil => exact absurd rfl hsome
  | cons _ _ => rfl

/-- The reader takes a literal for the integer that it denotes, whatever blanks surround it. -/
theorem parse_of_spells {written : List Char} {value : Nat}
    (hspells : Spells (Text.trim written) value) :
    Literal.parse written = .ofInteger false value := by
  unfold Literal.parse
  generalize Text.trim written = text at hspells
  cases hspells with
  | @hexadecimal marker rest digits hmarker hsome hdigits =>
      have hunmarked : Literal.withoutMarker .hexadecimal ('0' :: marker :: rest) = rest :=
        if_pos (isMarker_iff.mpr hmarker)
      simp only [isMarker_iff.mpr hmarker, if_true]
      exact parseIn_of_digits (zero_digitOf .hexadecimal) hunmarked hdigits hsome
  | @octal rest digits hdigits =>
      cases hdigits with
      | nil => rfl
      | @cons second digit rest digits hsecond hdigits =>
          have hmarker := (hsecond.plain (by decide)).2.2.2
          have hall : List.Forall₂ (DigitOf Radix.octal.base) ('0' :: second :: rest)
              (0 :: digit :: digits) := .cons (zero_digitOf .octal) (.cons hsecond hdigits)
          simp only [hmarker, Bool.false_eq_true, if_false]
          rw [parseIn_of_digits (zero_digitOf .hexadecimal) rfl hall (List.cons_ne_nil _ _),
            List.reverse_cons, Nat.ofDigits_append]
          simp [Radix.base]
  | @decimal first rest leading digits hfirst hnonzero hdigits =>
      have hzero : first ≠ '0' := by
        rintro rfl
        have hdigit : Radix.decimal.digit? '0' = some leading := Radix.digit?_eq_some.mpr hfirst
        exact hnonzero (Option.some.inj hdigit).symm
      have hall : List.Forall₂ (DigitOf Radix.decimal.base) (first :: rest) (leading :: digits) :=
        .cons hfirst hdigits
      have hfirst' : DigitOf 16 first leading := ⟨Nat.lt_trans hfirst.1 (by decide), hfirst.2⟩
      have hparse := parseIn_of_digits hfirst' rfl hall (List.cons_ne_nil _ _)
      split
      · next heq => exact nomatch heq
      · next heq => exact absurd (List.cons.inj heq).1 hzero
      · exact hparse

/-! ## The bound of rounding -/

namespace Binary64

theorem unit_eq (value : Nat) : unit value = 2 ^ (value.log2 - 52) :=
  Nat.one_shiftLeft _

theorem unit_pos (value : Nat) : 0 < unit value := by
  rw [unit_eq]
  exact Nat.two_pow_pos _

theorem divideToEven_bounds (value step : Nat) :
    value / step ≤ divideToEven value step ∧ divideToEven value step ≤ value / step + 1 := by
  simp only [divideToEven]
  split <;> omega

/-- A quotient is rounded to an even bound as soon as it is no farther from it than from what is
below. -/
theorem divideToEven_lt_iff {value step bound : Nat} (hstep : 0 < step) (heven : bound % 2 = 0) :
    divideToEven value step < bound ↔ 2 * value + step < 2 * (step * bound) := by
  have hvalue := Nat.div_add_mod value step
  have hremainder := Nat.mod_lt value hstep
  have hbounds := divideToEven_bounds value step
  rcases Nat.lt_trichotomy (value / step + 1) bound with hbelow | hlast | habove
  · have hmul : step * (value / step + 2) ≤ step * bound := Nat.mul_le_mul_left step hbelow
    rw [Nat.mul_add] at hmul
    omega
  · have hmul : step * bound = step * (value / step) + step := by rw [← hlast, Nat.mul_succ]
    simp only [divideToEven]
    split <;> omega
  · have hmul : step * bound ≤ step * (value / step) := Nat.mul_le_mul_left step (by omega)
    omega

theorem round_le (value : Nat) : round value ≤ value + unit value := by
  have hbounds := (divideToEven_bounds value (unit value)).2
  calc round value ≤ (value / unit value + 1) * unit value := Nat.mul_le_mul_right _ hbounds
    _ = value / unit value * unit value + unit value := Nat.succ_mul _ _
    _ ≤ value + unit value := Nat.add_le_add_right (Nat.div_mul_le_self _ _) _

/-- Rounding does not go below a power of two. -/
theorem le_round {value : Nat} (hpos : value ≠ 0) : 2 ^ value.log2 ≤ round value := by
  have hself := Nat.log2_self_le hpos
  have hsplit : 2 ^ value.log2 = 2 ^ (value.log2 - (value.log2 - 52)) * unit value := by
    rw [unit_eq, ← Nat.pow_add, Nat.sub_add_cancel (Nat.sub_le _ _)]
  have hquotient : 2 ^ (value.log2 - (value.log2 - 52)) ≤ value / unit value := by
    rw [Nat.le_div_iff_mul_le (unit_pos value), ← hsplit]
    exact hself
  rw [hsplit]
  exact Nat.mul_le_mul_right _ (hquotient.trans (divideToEven_bounds value _).1)

theorem round_eq_zero_iff (value : Nat) : round value = 0 ↔ value = 0 := by
  constructor
  · intro hzero
    by_contra hpos
    have hle := le_round hpos
    rw [hzero] at hle
    exact absurd (Nat.two_pow_pos value.log2) (by omega)
  · rintro rfl
    rfl

/-- Halfway between the largest double below a power of two and the power, the power is the even
one. -/
theorem round_lt_iff {value bits gap : Nat} (hpos : value ≠ 0) (hgap : gap + 54 = bits) :
    round value < 2 ^ bits ↔ value < 2 ^ bits - 2 ^ gap := by
  obtain ⟨exponent, rfl⟩ : ∃ exponent, bits = exponent + 1 := ⟨gap + 53, hgap.symm⟩
  have hdouble : 2 ^ (exponent + 1) = 2 * 2 ^ exponent := Nat.pow_succ'
  have hhalf : 2 ^ gap ≤ 2 ^ exponent := Nat.pow_le_pow_right (by decide) (by omega)
  rcases Nat.lt_trichotomy value.log2 exponent with hsmall | hlast | hlarge
  · have hvalue : value < 2 ^ exponent := (Nat.log2_lt hpos).mp hsmall
    have hunit : unit value ≤ 2 ^ gap := by
      rw [unit_eq]
      exact Nat.pow_le_pow_right (by decide) (by omega)
    have hround := round_le value
    constructor <;> intro _ <;> omega
  · have hunit : unit value = 2 * 2 ^ gap := by
      rw [unit_eq, hlast, ← Nat.pow_succ']
      congr 1
      omega
    have hpower : unit value * 2 ^ 53 = 2 ^ (exponent + 1) := by
      rw [hunit, ← Nat.pow_succ', ← Nat.pow_add]
      exact congrArg (2 ^ ·) hgap
    have hlt : round value < 2 ^ (exponent + 1) ↔ divideToEven value (unit value) < 2 ^ 53 := by
      rw [← hpower, round, Nat.mul_comm, Nat.mul_lt_mul_left (unit_pos value)]
    rw [hlt, divideToEven_lt_iff (unit_pos value) (by decide), hpower, hunit]
    omega
  · have hpower : 2 ^ (exponent + 1) ≤ 2 ^ value.log2 := Nat.pow_le_pow_right (by decide) hlarge
    have hround := le_round hpos
    have hvalue := Nat.log2_self_le hpos
    exact iff_of_false (Nat.not_lt.mpr (hpower.trans hround))
      (Nat.not_lt.mpr ((Nat.sub_le _ _).trans (hpower.trans hvalue)))

theorem infinity_eq : infinity = 2 ^ 1024 := by
  generalize hbits : 1024 = bits
  rw [infinity, hbits, Nat.one_shiftLeft]

end Binary64

/-- The nearest double of the integer is positive and finite. -/
def Sizable (value : Nat) : Prop :=
  1 ≤ value ∧ value < 2 ^ 1024 - 2 ^ 970

theorem whole_of_sizable {value : Nat} (hsizable : Sizable value) :
    ∃ size, Binary64.round value = size + 1 ∧
      (Number.ofInteger false value).whole? = some (.ofNat (size + 1)) := by
  have hpos : value ≠ 0 := Nat.one_le_iff_ne_zero.mp hsizable.1
  have hfinite : Binary64.round value < Binary64.infinity := by
    rw [Binary64.infinity_eq]
    exact (Binary64.round_lt_iff hpos (by decide)).mpr hsizable.2
  obtain ⟨size, hsize⟩ : ∃ size, Binary64.round value = size + 1 :=
    Nat.exists_eq_succ_of_ne_zero (mt (Binary64.round_eq_zero_iff value).mp hpos)
  refine ⟨size, hsize, ?_⟩
  unfold Number.ofInteger Binary64.nearest?
  rw [if_pos hfinite, hsize]
  rfl

theorem whole_of_not_sizable {value : Nat} (hsizable : ¬ Sizable value) :
    (Number.ofInteger false value).whole? = some (.ofNat 0) ∨
      (Number.ofInteger false value).whole? = none := by
  unfold Number.ofInteger Binary64.nearest?
  by_cases hfinite : Binary64.round value < Binary64.infinity
  · have hzero : value = 0 := by
      by_contra hpos
      rw [Binary64.infinity_eq] at hfinite
      have hlt := (Binary64.round_lt_iff hpos (by decide : 970 + 54 = 1024)).mp hfinite
      exact hsizable ⟨Nat.one_le_iff_ne_zero.mpr hpos, hlt⟩
    rw [if_pos hfinite, (Binary64.round_eq_zero_iff value).mpr hzero]
    exact .inl rfl
  · rw [if_neg hfinite]
    exact .inr rfl

theorem read_of_spells {written : String} {value : Nat}
    (hspells : Spells (Text.trim written.toList) value) :
    (Sizable value → ChunkSize.read written = .ok (Binary64.round value)) ∧
      (¬ Sizable value → ChunkSize.read written = .error (.badChunkSize written)) := by
  rw [ChunkSize.read, if_pos (isInteger_iff.mpr ⟨value, hspells⟩), parse_of_spells hspells]
  constructor
  · intro hsizable
    obtain ⟨size, hsize, hwhole⟩ := whole_of_sizable hsizable
    rw [hwhole, hsize]
  · intro hsizable
    cases whole_of_not_sizable hsizable with
    | inl hzero => rw [hzero]
    | inr hinfinite => rw [hinfinite]

theorem read_of_not_spells {written : String}
    (hspells : ¬ ∃ value, Spells (Text.trim written.toList) value) :
    ChunkSize.read written = .error (.badChunkSize written) := by
  rw [ChunkSize.read, if_neg (mt isInteger_iff.mp hspells)]

theorem Spells.not_blank {text : List Char} {value : Nat} (hspells : Spells text value) :
    text ≠ [] ∧ ∀ character ∈ text, Text.isBlank character = false := by
  have hrest {base : Nat} (hbase : base ≤ 16) {rest : List Char} {digits : List Nat}
      (hdigits : List.Forall₂ (DigitOf base) rest digits) :
      ∀ character ∈ rest, Text.isBlank character = false := by
    induction hdigits with
    | nil => exact fun _ hcharacter => nomatch hcharacter
    | cons hdigit _ ih => exact List.forall_mem_cons.mpr ⟨(hdigit.plain hbase).1, ih⟩
  cases hspells with
  | hexadecimal hmarker hsome hdigits =>
      refine ⟨List.cons_ne_nil _ _, List.forall_mem_cons.mpr ⟨by decide, ?_⟩⟩
      refine List.forall_mem_cons.mpr ⟨?_, hrest (Nat.le_refl 16) hdigits⟩
      obtain rfl | rfl := hmarker <;> decide
  | octal hdigits =>
      exact ⟨List.cons_ne_nil _ _,
        List.forall_mem_cons.mpr ⟨by decide, hrest (by decide) hdigits⟩⟩
  | decimal hfirst hnonzero hdigits =>
      exact ⟨List.cons_ne_nil _ _,
        List.forall_mem_cons.mpr ⟨(hfirst.plain (by decide)).1, hrest (by decide) hdigits⟩⟩

theorem denotes_iff {written : String} {value : Nat} :
    Denotes written value ↔ Spells (Text.trim written.toList) value := by
  simp only [Denotes, ← isBlank_iff]
  constructor
  · rintro ⟨before, text, after, hwritten, hbefore, hafter, hspells⟩
    obtain ⟨hsome, hplain⟩ := hspells.not_blank
    rwa [hwritten, trim_of_blanks hbefore hafter hplain hsome]
  · intro hspells
    obtain ⟨before, after, hwritten, hbefore, hafter⟩ := exists_blanks_trim written.toList
    exact ⟨before, _, after, hwritten, hbefore, hafter, hspells⟩

/-- A single entry has nothing to be put in order with. -/
theorem ofPairs_single (name value : String) :
    Entries.ofPairs [(name, value)] = [(name, value)] := by
  cases hindex : Entries.index? name <;>
    simp [Entries.ofPairs, Entries.put, Entries.indexed, Entries.named, Entries.insertIndexed, hindex]

theorem configure_chunkSize (written : String) (base : ChunkSize) (tracing : Bool) :
    Options.configure [("chunksize", written)] base tracing =
      ((ChunkSize.read written).map fun size => .number (.integer size), tracing) := by
  simp only [Options.configure, Options.read, List.foldlM_cons, List.foldlM_nil, Options.apply]
  cases ChunkSize.read written <;> rfl

/-- **A chunk size is a positive integer literal between blanks.** It is read from exactly the texts
that denote an integer whose nearest double is positive and finite, and is that double. Any other
text is refused, with a message that shows it as it stands. -/
theorem chunk_size_accepted_iff (written : String) (base : ChunkSize) (tracing : Bool) :
    let outcome := (Options.configure (Entries.ofPairs [("chunksize", written)]) base tracing).1
    (∀ size, outcome = .ok size ↔ ∃ value, Denotes written value ∧ 1 ≤ value ∧
      value < 2 ^ 1024 - 2 ^ 970 ∧ size = .number (.integer (Binary64.round value))) ∧
    ((∃ size, outcome = .ok size) ∨ outcome = .error (.badChunkSize written) ∧
      (OptionError.badChunkSize written).report =
        .error "ParseError" ("Bad chunk size: " ++ written)) := by
  rw [ofPairs_single, configure_chunkSize]
  simp only [denotes_iff]
  by_cases hsizable : ∃ value, Spells (Text.trim written.toList) value ∧ Sizable value
  · obtain ⟨value, hspells, hsizable⟩ := hsizable
    rw [(read_of_spells hspells).1 hsizable]
    refine ⟨fun size => ⟨?_, ?_⟩, .inl ⟨_, rfl⟩⟩
    · rintro ⟨⟩
      exact ⟨value, hspells, hsizable.1, hsizable.2, rfl⟩
    · rintro ⟨other, hother, hpos, hlt, rfl⟩
      have hread := (read_of_spells hother).1 ⟨hpos, hlt⟩
      rw [(read_of_spells hspells).1 hsizable] at hread
      rw [hread]
      rfl
  · have hread : ChunkSize.read written = .error (.badChunkSize written) := by
      by_cases hspells : ∃ value, Spells (Text.trim written.toList) value
      · obtain ⟨value, hspells⟩ := hspells
        exact (read_of_spells hspells).2 fun hfits => hsizable ⟨value, hspells, hfits⟩
      · exact read_of_not_spells hspells
    rw [hread]
    refine ⟨fun size => ⟨nofun, ?_⟩, .inr ⟨rfl, rfl⟩⟩
    rintro ⟨value, hspells, hpos, hlt, -⟩
    exact absurd ⟨value, hspells, hpos, hlt⟩ hsizable

end PullRange
