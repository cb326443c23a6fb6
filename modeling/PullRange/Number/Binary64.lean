/-!
# Rounding to double precision

A double keeps 53 significant bits, so an integer of more bits is rounded to a multiple of its
*unit*, the weight of the last bit that is kept. `round` goes to the nearer multiple and a tie to
the even one; `nearest?` also refuses what lies beyond the largest finite double.

What holds of integers holds of all doubles once they are counted in *grains*: a grain is the least
positive double, every finite double is a whole number of grains, and the doubles are again the
numbers with 53 significant bits. `roundQuotient` rounds a number of grains that is given as a
quotient. All of it is exact arithmetic on natural numbers.
-/

namespace PullRange.Binary64

/-- The weight of the last significant bit of the doubles around `value`. -/
def unit (value : Nat) : Nat :=
  1 <<< (value.log2 - 52)

def divideToEven (value step : Nat) : Nat :=
  let quotient := value / step
  let remainder := value % step
  if step < 2 * remainder ∨ (2 * remainder = step ∧ quotient % 2 = 1) then quotient + 1
  else quotient

/-- The nearest integer with at most 53 significant bits. Rounding up may carry into one more bit,
which still is a power of two and needs no second rounding. -/
def round (value : Nat) : Nat :=
  divideToEven value (unit value) * unit value

/-- The integer with at most 53 significant bits that is nearest to a quotient. The part after the
point has no share in the unit. -/
def roundQuotient (numerator denominator : Nat) : Nat :=
  let step := unit (numerator / denominator)
  divideToEven numerator (denominator * step) * step

theorem unit_of_lt {value : Nat} (hsmall : value < 1 <<< 53) : unit value = 1 := by
  have hlog : value.log2 ≤ 52 := by
    by_cases hzero : value = 0
    · simp [hzero]
    · exact Nat.le_of_lt_succ ((Nat.log2_lt hzero).2 hsmall)
  have hshift : value.log2 - 52 = 0 := by omega
  simp [unit, hshift]

theorem divideToEven_one (value : Nat) : divideToEven value 1 = value := by
  simp [divideToEven, Nat.mod_one]

theorem divideToEven_mul_left {factor : Nat} (hfactor : 0 < factor) (value step : Nat) :
    divideToEven (factor * value) (factor * step) = divideToEven value step := by
  have hdouble : 2 * (factor * (value % step)) = factor * (2 * (value % step)) := by
    rw [Nat.mul_left_comm]
  simp only [divideToEven, Nat.mul_div_mul_left _ _ hfactor, Nat.mul_mod_mul_left, hdouble,
    Nat.mul_lt_mul_left hfactor, Nat.mul_right_inj (Nat.ne_of_gt hfactor)]

/-- Integers that fit into 53 bits are doubles. -/
theorem round_of_lt {value : Nat} (hsmall : value < 1 <<< 53) : round value = value := by
  simp [round, unit_of_lt hsmall, divideToEven_one]

/-- A quotient without remainder is rounded like the integer that it is. -/
theorem roundQuotient_mul_left {denominator : Nat} (hpositive : 0 < denominator) (value : Nat) :
    roundQuotient (denominator * value) denominator = round value := by
  simp only [roundQuotient, round, Nat.mul_div_cancel_left _ hpositive,
    divideToEven_mul_left hpositive]

/-- Up to here all integers are doubles, and the next one is not. -/
def consecutive : Nat :=
  1 <<< 53

/-- The least power of two that is no finite double. -/
def infinity : Nat :=
  1 <<< 1024

def nearest? (value : Nat) : Option Nat :=
  if round value < infinity then some (round value) else none

def one : Nat :=
  1 <<< 1074

end PullRange.Binary64
