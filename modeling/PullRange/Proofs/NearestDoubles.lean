import Mathlib.Algebra.Order.Field.Power
import Mathlib.Data.List.Forall2
import Mathlib.Data.Rat.Cast.Order
import Mathlib.Tactic.Linarith
import Mathlib.Tactic.Ring
import PullRange.Proofs.Literals

/-!
# The nearest double of an integer

Finite doubles are said here to be the rational numbers of a canonical form, apart from any way to
round, and `IsNearest` is what rounding to the nearest double means: no double is nearer, and of two
that are equally near the significand decides. `Binary64.round` finds this double for every integer
whose nearest double is finite. Around an integer of more than 53 bits the doubles are the multiples
of its unit, so that only the two multiples next to it have to be compared.
-/

namespace PullRange

namespace Binary64

/-- A finite double has 53 significant bits. The first of them is set, unless the exponent is the
least one. -/
structure Canonical (significand exponent : Int) (double : Rat) : Prop where
  bits : |significand| < 2 ^ 53
  leading : 2 ^ 52 ≤ |significand| ∨ exponent = -1074
  least : -1074 ≤ exponent
  greatest : exponent ≤ 971
  value : double = significand * 2 ^ exponent

def IsDouble (double : Rat) : Prop :=
  ∃ significand exponent, Canonical significand exponent double

def HasEvenSignificand (double : Rat) : Prop :=
  ∃ significand exponent, Canonical significand exponent double ∧ Even significand

structure IsNearest (exact double : Rat) : Prop where
  isDouble : IsDouble double
  nearest : ∀ other, IsDouble other → |double - exact| ≤ |other - exact|
  even : ∀ other, IsDouble other → other ≠ double → |other - exact| = |double - exact| →
    HasEvenSignificand double

/-- The larger of two numbers has no smaller nearest double. -/
theorem IsNearest.mono {exact larger double largerDouble : Rat} (hnearest : IsNearest exact double)
    (hlarger : IsNearest larger largerDouble) (hlt : exact < larger) : double ≤ largerDouble := by
  by_contra hcrossed
  rw [not_le] at hcrossed
  have hbelow := sq_le_sq.mpr (hnearest.nearest largerDouble hlarger.isDouble)
  have habove := sq_le_sq.mpr (hlarger.nearest double hnearest.isDouble)
  -- Both doubles would have to lie on the wrong side of their midpoint.
  have hgap : 0 < double - largerDouble := sub_pos.mpr hcrossed
  have hexact : (double - largerDouble) * (double + largerDouble - 2 * exact) ≤ 0 := by linarith
  have hlarger : 0 ≤ (double - largerDouble) * (double + largerDouble - 2 * larger) := by linarith
  have hmiddle : double + largerDouble - 2 * exact ≤ 0 := nonpos_of_mul_nonpos_right hexact hgap
  have hmiddle' : 0 ≤ double + largerDouble - 2 * larger := nonneg_of_mul_nonneg_right hlarger hgap
  linarith

section Between

variable {exact below step : Rat}
  (hbetween : ∀ other, IsDouble other → other ≤ below ∨ below + step ≤ other)

include hbetween

theorem isNearest_below (hdouble : IsDouble below) (hlow : below ≤ exact)
    (hhalf : 2 * (exact - below) ≤ step)
    (htie : 2 * (exact - below) = step → HasEvenSignificand below) : IsNearest exact below where
  isDouble := hdouble
  nearest other hother := by
    rw [abs_sub_comm, abs_of_nonneg (sub_nonneg.mpr hlow)]
    rcases hbetween other hother with hother | hother
    · rw [abs_sub_comm]
      exact (sub_le_sub_left hother exact).trans (le_abs_self _)
    · exact le_trans (by linarith) (le_abs_self _)
  even other hother hne hequal := by
    rw [abs_sub_comm below, abs_of_nonneg (sub_nonneg.mpr hlow)] at hequal
    rcases hbetween other hother with hother | hother
    · rw [abs_sub_comm, abs_of_nonneg (by linarith)] at hequal
      exact absurd (by linarith) hne
    · have hdistance := le_abs_self (other - exact)
      exact htie (by linarith)

theorem isNearest_above (hdouble : IsDouble (below + step)) (hhigh : exact ≤ below + step)
    (hhalf : step ≤ 2 * (exact - below))
    (htie : 2 * (exact - below) = step → HasEvenSignificand (below + step)) :
    IsNearest exact (below + step) where
  isDouble := hdouble
  nearest other hother := by
    rw [abs_of_nonneg (sub_nonneg.mpr hhigh)]
    rcases hbetween other hother with hother | hother
    · rw [abs_sub_comm]
      exact le_trans (by linarith) (le_abs_self _)
    · exact (sub_le_sub_right hother exact).trans (le_abs_self _)
  even other hother hne hequal := by
    rw [abs_of_nonneg (sub_nonneg.mpr hhigh)] at hequal
    rcases hbetween other hother with hother | hother
    · have hdistance := neg_le_abs (other - exact)
      exact htie (by linarith)
    · rw [abs_of_nonneg (by linarith)] at hequal
      exact absurd (by linarith) hne

end Between

/-- Between two multiples of a power of two that have 53 bits there is no double. -/
theorem IsDouble.between {quotient places : Nat} (hbits : 2 ^ 52 ≤ quotient) {double : Rat}
    (hdouble : IsDouble double) :
    double ≤ quotient * 2 ^ places ∨ (quotient * 2 ^ places + 2 ^ places : Rat) ≤ double := by
  obtain ⟨significand, exponent, hcanonical⟩ := hdouble
  have hstep : (0 : Rat) < 2 ^ places := by positivity
  by_cases hcoarse : (places : Int) ≤ exponent
  · -- Such a double is a multiple itself.
    obtain ⟨shift, hshift⟩ := Int.le.dest hcoarse
    have hmultiple : double = ((significand * 2 ^ shift : Int) : Rat) * 2 ^ places := by
      rw [hcanonical.value, ← hshift, zpow_add₀ two_ne_zero, zpow_natCast, zpow_natCast]
      push_cast
      ring
    generalize significand * 2 ^ shift = multiple at hmultiple
    rcases le_or_gt multiple (quotient : Int) with hle | hlt
    · left
      rw [hmultiple]
      exact mul_le_mul_of_nonneg_right (by exact_mod_cast hle) hstep.le
    · right
      calc (quotient * 2 ^ places + 2 ^ places : Rat) = (quotient + 1) * 2 ^ places := by ring
        _ ≤ multiple * 2 ^ places := mul_le_mul_of_nonneg_right (by exact_mod_cast hlt) hstep.le
        _ = double := hmultiple.symm
  · left
    have hfine : exponent + 1 ≤ (places : Int) := by omega
    have hsignificand : (significand : Rat) ≤ 2 ^ 53 := by
      exact_mod_cast (le_abs_self significand).trans hcanonical.bits.le
    calc double = significand * 2 ^ exponent := hcanonical.value
      _ ≤ 2 ^ 53 * 2 ^ exponent := mul_le_mul_of_nonneg_right hsignificand (by positivity)
      _ = 2 ^ 52 * 2 ^ (exponent + 1) := by rw [zpow_add_one₀ two_ne_zero]; ring
      _ ≤ 2 ^ 52 * 2 ^ (places : Int) := by gcongr; norm_num
      _ ≤ quotient * 2 ^ places := by
        rw [zpow_natCast]
        exact mul_le_mul_of_nonneg_right (by exact_mod_cast hbits) hstep.le

theorem canonical_multiple {quotient places : Nat} (hlow : 2 ^ 52 ≤ quotient)
    (hhigh : quotient < 2 ^ 53) (hfinite : quotient * 2 ^ places < 2 ^ 1024) :
    Canonical quotient places ((quotient * 2 ^ places : Nat) : Rat) where
  bits := by rw [Nat.abs_cast]; exact_mod_cast hhigh
  leading := .inl (by rw [Nat.abs_cast]; exact_mod_cast hlow)
  least := by omega
  greatest := by
    have hpower : 2 ^ (52 + places) < 2 ^ 1024 := by
      rw [Nat.pow_add]
      exact (Nat.mul_le_mul_right _ hlow).trans_lt hfinite
    have hplaces := (Nat.pow_lt_pow_iff_right (by decide : 1 < 2)).mp hpower
    omega
  value := by push_cast; rw [zpow_natCast]

/-- A multiple of 53 bits and the one after it are doubles. The latter may carry into one more bit,
and then is a power of two. -/
theorem isDouble_multiple {quotient places : Nat} (hlow : 2 ^ 52 ≤ quotient)
    (hhigh : quotient ≤ 2 ^ 53) (hfinite : quotient * 2 ^ places < 2 ^ 1024) :
    IsDouble ((quotient * 2 ^ places : Nat) : Rat) ∧
      (Even quotient → HasEvenSignificand ((quotient * 2 ^ places : Nat) : Rat)) := by
  rcases hhigh.lt_or_eq with hbits | rfl
  · have hcanonical := canonical_multiple hlow hbits hfinite
    exact ⟨⟨_, _, hcanonical⟩, fun heven => ⟨_, _, hcanonical, by exact_mod_cast heven⟩⟩
  · have hcarry : 2 ^ 53 * 2 ^ places = 2 ^ 52 * 2 ^ (places + 1) := by ring
    rw [hcarry] at hfinite ⊢
    have hcanonical := canonical_multiple le_rfl (by decide : 2 ^ 52 < 2 ^ 53) hfinite
    exact ⟨⟨_, _, hcanonical⟩, fun _ => ⟨_, _, hcanonical, by decide⟩⟩

/-- Integers of at most 53 bits are doubles. -/
theorem isDouble_small {value : Nat} (hpos : value ≠ 0) (hsmall : value < 2 ^ 53) :
    IsDouble value := by
  have hlog : value.log2 ≤ 52 := Nat.le_of_lt_succ ((Nat.log2_lt hpos).mpr hsmall)
  obtain ⟨places, hplaces⟩ := Nat.exists_eq_add_of_le hlog
  have hlow := Nat.log2_self_le hpos
  have hhigh := (Nat.log2_lt hpos).mp (Nat.lt_succ_self value.log2)
  refine ⟨(value * 2 ^ places : Nat), -places, ?_, .inl ?_, by omega, by omega, ?_⟩
  · have hbits : value * 2 ^ places < 2 ^ (value.log2 + 1) * 2 ^ places := by gcongr
    rw [← Nat.pow_add, Nat.add_right_comm, ← hplaces] at hbits
    rw [Nat.abs_cast]
    exact_mod_cast hbits
  · have hbits : 2 ^ value.log2 * 2 ^ places ≤ value * 2 ^ places := by gcongr
    rw [← Nat.pow_add, ← hplaces] at hbits
    rw [Nat.abs_cast]
    exact_mod_cast hbits
  · push_cast
    rw [zpow_neg, zpow_natCast, mul_assoc, mul_inv_cancel₀ (by positivity), mul_one]

/-! ## Rounding -/

theorem quotient_bits {value places : Nat} (hpos : value ≠ 0) (hplaces : value.log2 = 52 + places) :
    2 ^ 52 ≤ value / 2 ^ places ∧ value / 2 ^ places < 2 ^ 53 := by
  have hlow := Nat.log2_self_le hpos
  have hhigh := (Nat.log2_lt hpos).mp (Nat.lt_succ_self value.log2)
  rw [hplaces] at hlow hhigh
  rw [Nat.le_div_iff_mul_le (Nat.two_pow_pos places), Nat.div_lt_iff_lt_mul (Nat.two_pow_pos places),
    ← Nat.pow_add, ← Nat.pow_add]
  exact ⟨hlow, by rwa [Nat.succ_eq_add_one, Nat.add_right_comm] at hhigh⟩

/-- Of the two multiples around an integer the nearer one is found, and the even one if both are
equally near. -/
theorem divideToEven_isNearest {value places : Nat} (hlow : 2 ^ 52 ≤ value / 2 ^ places)
    (hhigh : value / 2 ^ places < 2 ^ 53)
    (hfinite : divideToEven value (2 ^ places) * 2 ^ places < 2 ^ 1024) :
    IsNearest value (divideToEven value (2 ^ places) * 2 ^ places : Nat) := by
  have hbetween (other : Rat) (hother : IsDouble other) :
      other ≤ (value / 2 ^ places : Nat) * 2 ^ places ∨
        ((value / 2 ^ places : Nat) * 2 ^ places + 2 ^ places : Rat) ≤ other := hother.between hlow
  have hrest : (value : Rat) - (value / 2 ^ places : Nat) * 2 ^ places =
      (value % 2 ^ places : Nat) := by
    rw [sub_eq_iff_eq_add']
    exact_mod_cast (Nat.div_add_mod' value (2 ^ places)).symm
  have hremainder := Nat.mod_lt value (Nat.two_pow_pos places)
  simp only [divideToEven] at hfinite ⊢
  generalize value / 2 ^ places = quotient at *
  generalize value % 2 ^ places = remainder at *
  split
  · next hup =>
      rw [if_pos hup] at hfinite
      obtain ⟨hdouble, heven⟩ := isDouble_multiple (hlow.trans (Nat.le_succ quotient)) hhigh hfinite
      have hnext : (((quotient + 1) * 2 ^ places : Nat) : Rat) =
          quotient * 2 ^ places + 2 ^ places := by
        push_cast
        ring
      rw [hnext] at hdouble heven ⊢
      have hhalf : 2 ^ places ≤ 2 * remainder := by omega
      refine isNearest_above hbetween hdouble ?_ ?_ ?_
      · rw [← sub_le_iff_le_add', hrest]
        exact_mod_cast hremainder.le
      · rw [hrest]
        exact_mod_cast hhalf
      · intro htie
        rw [hrest] at htie
        have htie : 2 * remainder = 2 ^ places := by exact_mod_cast htie
        have hodd : quotient % 2 = 1 := by omega
        exact heven (Nat.even_add_one.mpr (Nat.not_even_iff.mpr hodd))
  · next hdown =>
      rw [if_neg hdown] at hfinite
      obtain ⟨hdouble, heven⟩ := isDouble_multiple hlow hhigh.le hfinite
      push_cast at hdouble heven ⊢
      have hhalf : 2 * remainder ≤ 2 ^ places := by omega
      refine isNearest_below hbetween hdouble ?_ ?_ ?_
      · rw [← sub_nonneg, hrest]
        exact Nat.cast_nonneg remainder
      · rw [hrest]
        exact_mod_cast hhalf
      · intro htie
        rw [hrest] at htie
        have htie : 2 * remainder = 2 ^ places := by exact_mod_cast htie
        exact heven (Nat.even_iff.mpr (by omega))

/-- Rounding finds the nearest double, if it is finite. -/
theorem round_isNearest {value : Nat} (hpos : value ≠ 0) (hfinite : round value < 2 ^ 1024) :
    IsNearest value (round value) := by
  by_cases hsmall : value < 2 ^ 53
  · rw [round_of_lt hsmall]
    refine ⟨isDouble_small hpos hsmall, fun other _ => by simp, fun other _ hne hequal => ?_⟩
    rw [sub_self, abs_zero, abs_eq_zero, sub_eq_zero] at hequal
    exact absurd hequal hne
  · obtain ⟨places, hplaces⟩ : ∃ places, value.log2 = 52 + places :=
      Nat.exists_eq_add_of_le
        (Nat.le_of_succ_le ((Nat.le_log2 hpos).mpr (Nat.not_lt.mp hsmall)))
    obtain ⟨hlow, hhigh⟩ := quotient_bits hpos hplaces
    have hunit : unit value = 2 ^ places := by rw [unit_eq, hplaces, Nat.add_sub_cancel_left]
    unfold round at hfinite ⊢
    rw [hunit] at hfinite ⊢
    exact divideToEven_isNearest hlow hhigh hfinite

theorem round_mono {value larger : Nat} (hpos : value ≠ 0) (hle : value ≤ larger)
    (hfinite : round value < 2 ^ 1024) (hlarger : round larger < 2 ^ 1024) :
    round value ≤ round larger := by
  rcases hle.eq_or_lt with rfl | hlt
  · exact le_rfl
  · have hmono :=
      (round_isNearest hpos hfinite).mono (round_isNearest (Nat.ne_zero_of_lt hlt) hlarger)
        (by exact_mod_cast hlt)
    exact_mod_cast hmono

end Binary64

theorem digitOf_digitChar {base digit : Nat} (hbase : base ≤ 16) (hdigit : digit < base) :
    DigitOf base (Nat.digitChar digit) digit := by
  have hlt : digit < 16 := by omega
  refine ⟨hdigit, .inl ?_⟩
  interval_cases digit <;> rfl

/-- Nonzero integers are written without a zero in front. -/
theorem toDigits_digits {base : Nat} (hmany : 1 < base) (hbase : base ≤ 16) {value : Nat}
    (hpos : value ≠ 0) :
    ∃ leading digits, leading ≠ 0 ∧
      List.Forall₂ (DigitOf base) (Nat.toDigits base value) (leading :: digits) ∧
      Nat.ofDigits base (leading :: digits).reverse = value := by
  induction value using Nat.strong_induction_on with
  | _ value ih =>
      rcases Nat.lt_or_ge value base with hlast | hmore
      · rw [Nat.toDigits_of_lt_base hlast]
        exact ⟨value, [], hpos, .cons (digitOf_digitChar hbase hlast) .nil, Nat.ofDigits_singleton⟩
      · have hquotient : value / base ≠ 0 := (Nat.div_pos hmore (by omega)).ne'
        obtain ⟨leading, digits, hleading, hdigits, hvalue⟩ :=
          ih (value / base) (Nat.div_lt_self (by omega) hmany) hquotient
        have hlast := digitOf_digitChar hbase (Nat.mod_lt value (by omega))
        refine ⟨leading, digits ++ [value % base], hleading, ?_, ?_⟩
        · rw [Nat.toDigits_of_base_le hmany hmore]
          exact List.rel_append hdigits (.cons hlast .nil)
        · rw [← List.cons_append, List.reverse_append, List.reverse_singleton, List.singleton_append,
            Nat.ofDigits_cons, hvalue]
          exact Nat.mod_add_div value base

/-- An integer written in a radix. Zeros after the mark of the radix do not count; decimal integers
have no mark. -/
def Radix.numeral (zeros value : Nat) : Radix → List Char
  | .hexadecimal => '0' :: 'x' :: (List.replicate zeros '0' ++ Nat.toDigits 16 value)
  | .octal => '0' :: (List.replicate zeros '0' ++ Nat.toDigits 8 value)
  | .decimal => Nat.toDigits 10 value

theorem padded_digits {base : Nat} (hmany : 1 < base) (hbase : base ≤ 16) (zeros : Nat)
    {value : Nat} (hpos : value ≠ 0) :
    ∃ digits, List.Forall₂ (DigitOf base) (List.replicate zeros '0' ++ Nat.toDigits base value)
        digits ∧ Nat.ofDigits base digits.reverse = value := by
  obtain ⟨leading, digits, -, hdigits, hvalue⟩ := toDigits_digits hmany hbase hpos
  have hzero : DigitOf base '0' 0 := digitOf_digitChar hbase (by omega)
  have hzeros : List.Forall₂ (DigitOf base) (List.replicate zeros '0') (List.replicate zeros 0) :=
    List.forall₂_iff_get.mpr ⟨by simp, by simp [hzero]⟩
  refine ⟨_, List.rel_append hzeros hdigits, ?_⟩
  rw [List.reverse_append, List.reverse_replicate, Nat.ofDigits_append_replicate_zero, hvalue]

theorem spells_numeral (radix : Radix) (zeros : Nat) {value : Nat} (hpos : value ≠ 0) :
    Spells (radix.numeral zeros value) value := by
  cases radix with
  | hexadecimal =>
      obtain ⟨digits, hdigits, hvalue⟩ := padded_digits (by decide) le_rfl zeros hpos
      have hsome : List.replicate zeros '0' ++ Nat.toDigits 16 value ≠ [] := by simp
      have hspells := Spells.hexadecimal (.inl rfl) hsome hdigits
      rwa [hvalue] at hspells
  | octal =>
      obtain ⟨digits, hdigits, hvalue⟩ :=
        padded_digits (show 1 < 8 by decide) (by decide) zeros hpos
      have hspells := Spells.octal hdigits
      rwa [hvalue] at hspells
  | decimal =>
      obtain ⟨leading, digits, hleading, hdigits, hvalue⟩ :=
        toDigits_digits (show 1 < 10 by decide) (by decide) hpos
      unfold Radix.numeral
      generalize Nat.toDigits 10 value = text at hdigits
      cases hdigits with
      | cons hfirst hdigits =>
          have hspells := Spells.decimal hfirst hleading hdigits
          rwa [hvalue] at hspells

theorem Sizable.finite {value : Nat} (hsizable : Sizable value) :
    Binary64.round value < 2 ^ 1024 :=
  (Binary64.round_lt_iff (Nat.one_le_iff_ne_zero.mp hsizable.1) (by decide)).mpr hsizable.2

theorem sizable_of_finite {value : Nat} (hpos : 1 ≤ value)
    (hfinite : Binary64.round value < 2 ^ 1024) : Sizable value :=
  ⟨hpos, (Binary64.round_lt_iff (Nat.one_le_iff_ne_zero.mp hpos) (by decide)).mp hfinite⟩

theorem read_ok_iff {written : String} {value : Nat} (hdenotes : Denotes written value)
    (size : Nat) :
    ChunkSize.read written = .ok size ↔ Sizable value ∧ size = Binary64.round value := by
  obtain ⟨haccepted, hrefused⟩ := read_of_spells (denotes_iff.mp hdenotes)
  by_cases hsizable : Sizable value
  · rw [haccepted hsizable]
    exact ⟨fun hsize => ⟨hsizable, (Except.ok.inj hsize).symm⟩, fun hsize => by rw [hsize.2]⟩
  · rw [hrefused hsizable]
    exact ⟨nofun, fun hsize => absurd hsize.1 hsizable⟩

theorem denotes_of_read {written : String} {size : Nat}
    (hread : ChunkSize.read written = .ok size) : ∃ value, Denotes written value := by
  by_contra hnone
  have hspells : ¬ ∃ value, Spells (Text.trim written.toList) value :=
    fun ⟨value, hspells⟩ => hnone ⟨value, denotes_iff.mpr hspells⟩
  rw [read_of_not_spells hspells] at hread
  exact nomatch hread

theorem denotes_numeral (radix : Radix) (zeros : Nat) {value : Nat} (hpos : value ≠ 0) :
    Denotes (String.ofList (radix.numeral zeros value)) value :=
  ⟨[], radix.numeral zeros value, [], by simp, nofun, nofun, spells_numeral radix zeros hpos⟩

/-- **A chunk size is the nearest double of its literal**, in whatever radix the literal is written
and whatever surrounds it, and a tie goes to the even significand. So all literals of one integer are
the same chunk size, integers of 53 bits are recovered exactly, and larger literals are no smaller
chunk sizes. -/
theorem chunk_size_isNearest :
    (∀ written size, ChunkSize.read written = .ok size →
      (∃ value, Denotes written value) ∧
        ∀ value, Denotes written value → Binary64.IsNearest value size) ∧
    (∀ written other value, Denotes written value → Denotes other value →
      ∀ size, ChunkSize.read written = .ok size ↔ ChunkSize.read other = .ok size) ∧
    (∀ written value, Denotes written value → 1 ≤ value → value < 2 ^ 53 →
      ChunkSize.read written = .ok value) ∧
    (∀ (radix : Radix) zeros value, 1 ≤ value →
      Denotes (String.ofList (radix.numeral zeros value)) value) ∧
    (∀ written other value larger size largerSize, Denotes written value → Denotes other larger →
      value ≤ larger → ChunkSize.read written = .ok size →
        ChunkSize.read other = .ok largerSize → size ≤ largerSize) := by
  refine ⟨?_, ?_, ?_, ?_, ?_⟩
  · intro written size hread
    refine ⟨denotes_of_read hread, fun value hdenotes => ?_⟩
    obtain ⟨hsizable, rfl⟩ := (read_ok_iff hdenotes size).mp hread
    exact Binary64.round_isNearest (Nat.one_le_iff_ne_zero.mp hsizable.1) hsizable.finite
  · intro written other value hwritten hother size
    rw [read_ok_iff hwritten, read_ok_iff hother]
  · intro written value hdenotes hpos hsmall
    have hround := Binary64.round_of_lt hsmall
    have hfinite : Binary64.round value < 2 ^ 1024 := by
      rw [hround]
      exact hsmall.trans_le (pow_le_pow_right₀ one_le_two (by decide))
    exact (read_ok_iff hdenotes value).mpr ⟨sizable_of_finite hpos hfinite, hround.symm⟩
  · intro radix zeros value hpos
    exact denotes_numeral radix zeros (Nat.one_le_iff_ne_zero.mp hpos)
  · intro written other value larger size largerSize hwritten hother hle hread hreadOther
    obtain ⟨hsizable, rfl⟩ := (read_ok_iff hwritten size).mp hread
    obtain ⟨hlarger, rfl⟩ := (read_ok_iff hother largerSize).mp hreadOther
    exact Binary64.round_mono (Nat.one_le_iff_ne_zero.mp hsizable.1) hle hsizable.finite
      hlarger.finite

theorem chunk_size_isNearest_at_tie :
    let written := String.ofList (Radix.hexadecimal.numeral 2 (2 ^ 53 + 1))
    ChunkSize.read written = .ok (2 ^ 53) ∧
      Binary64.IsNearest (2 ^ 53 + 1 : Nat) (2 ^ 53 : Nat) := by
  intro written
  obtain ⟨hnearest, -, -, hnumeral, -⟩ := chunk_size_isNearest
  have hread : ChunkSize.read written = .ok (2 ^ 53) := by decide +kernel
  exact ⟨hread, (hnearest written _ hread).2 _ (hnumeral .hexadecimal 2 (2 ^ 53 + 1) (by decide))⟩

end PullRange
