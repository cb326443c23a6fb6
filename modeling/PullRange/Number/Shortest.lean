import PullRange.Number.Binary64

/-!
# The shortest decimal of a double

A double need not be written with all of its decimal digits, since other decimals around it round to
it as well. `shortest` is the one among them with the fewest significant digits, and
`roundQuotient_shortest` says that it still denotes the same double.

A grain fills 1074 decimal places, so doubles and the decimals around them can be counted in units of
the last of these places. A decimal of few digits is then a multiple of a high power of ten.
-/

namespace PullRange.Binary64

def places : Nat :=
  1074

def powerOfFive : Nat → Nat
  | 0 => 1
  | exponent + 1 => 5 * powerOfFive exponent

theorem powerOfFive_pos (exponent : Nat) : 0 < powerOfFive exponent := by
  induction exponent with
  | zero => exact Nat.one_pos
  | succ exponent ih => exact Nat.mul_pos (by decide) ih

/-- A grain in units of its last decimal place: a negative power of two is the same power of five,
moved behind the point. -/
@[irreducible]
def grain : Nat :=
  powerOfFive places

theorem grain_pos : 0 < grain := by
  unfold grain
  apply powerOfFive_pos

/-- The multiple of `step` that stands for a double: of the two multiples around it one that rounds
to it, the nearer one if both do. -/
def multiple? (grains step : Nat) : Option Nat :=
  let value := grain * grains
  let below := value / step * step
  let above := below + step
  let inOrder := if divideToEven value step = value / step then [below, above] else [above, below]
  inOrder.find? fun candidate => roundQuotient candidate grain == grains

def shortestFrom (grains : Nat) : Nat → Nat
  | 0 => grain * grains
  | exponent + 1 =>
      match multiple? grains (Nat.pow 10 (exponent + 1)) with
      | some found => found
      | none => shortestFrom grains exponent

def shortest (grains : Nat) : Nat :=
  shortestFrom grains (Nat.toDigits 10 (grain * grains)).length

theorem roundQuotient_shortestFrom {grains : Nat} (hdouble : round grains = grains)
    (exponent : Nat) : roundQuotient (shortestFrom grains exponent) grain = grains := by
  induction exponent with
  | zero => exact (roundQuotient_mul_left grain_pos grains).trans hdouble
  | succ exponent ih =>
      rw [shortestFrom]
      split
      · rename_i found hfound
        simpa using List.find?_some hfound
      · exact ih

/-- The shortest decimal of a double denotes this double. -/
theorem roundQuotient_shortest {grains : Nat} (hdouble : round grains = grains) :
    roundQuotient (shortest grains) grain = grains :=
  roundQuotient_shortestFrom hdouble _

end PullRange.Binary64
