import PullRange.Number.Binary64

/-!
# Numbers

The numbers that pass through a range are doubles. An integer is kept as such, whatever its size;
zero has a second, negative form. A number that is no integer is kept as a count of grains. Two
infinities and one value that is no number complete them. A sum or a product is the double nearest
to the exact one.
-/

namespace PullRange

inductive Number where
  | integer (value : Int)
  | negativeZero
  | fraction (negative : Bool) (grains : Nat)
  | infinite (negative : Bool)
  | notANumber
  deriving DecidableEq, Repr

namespace Number

/-- The integer that the number is, exactly. Negative zero is not taken for an integer, since it is
not written like one. -/
def whole? : Number → Option Int
  | .integer value => some value
  | _ => none

def isNegative : Number → Bool
  | .integer value => value < 0
  | .negativeZero => true
  | .fraction negative _ => negative
  | .infinite negative => negative
  | .notANumber => false

def grains? : Number → Option Nat
  | .integer value => some (value.natAbs * Binary64.one)
  | .negativeZero => some 0
  | .fraction _ grains => some grains
  | .infinite _ => none
  | .notANumber => none

def signed (negative : Bool) (magnitude : Nat) : Int :=
  if negative then -(magnitude : Int) else magnitude

def ofGrains (negative : Bool) (grains : Nat) : Number :=
  if grains = 0 then
    if negative then .negativeZero else .integer 0
  else if Binary64.infinity * Binary64.one ≤ grains then .infinite negative
  else if grains % Binary64.one = 0 then .integer (signed negative (grains / Binary64.one))
  else .fraction negative grains

def ofQuotient (negative : Bool) (numerator denominator : Nat) : Number :=
  ofGrains negative (Binary64.roundQuotient numerator denominator)

/-- The double nearest to an integer. -/
def ofInteger (negative : Bool) (magnitude : Nat) : Number :=
  match Binary64.nearest? magnitude with
  | none => .infinite negative
  | some 0 => if negative then .negativeZero else .integer 0
  | some value => .integer (signed negative value)

/-- Counts up from an integer. Where the next integer is no double any more, counting stands still. -/
def counted (first : Int) (steps : Nat) : Number :=
  .integer (min (first + steps) Binary64.consecutive)

/-- A product is negative if one factor is negative and the other is not, even if it is zero.
Infinity outgrows every factor but zero. -/
def times (left right : Number) : Number :=
  let negative := left.isNegative != right.isNegative
  match left.grains?, right.grains? with
  | some first, some second => ofQuotient negative (first * second) Binary64.one
  | first, second =>
      if left = .notANumber ∨ right = .notANumber ∨ first = some 0 ∨ second = some 0 then
        .notANumber
      else
        .infinite negative

/-- A sum that is zero is negative only if both summands are. Infinity outgrows every summand but
the other infinity. -/
def plus (left right : Number) : Number :=
  match left.grains?, right.grains? with
  | some first, some second =>
      let sum := signed left.isNegative first + signed right.isNegative second
      let negative := if sum = 0 then left.isNegative && right.isNegative else decide (sum < 0)
      ofQuotient negative sum.natAbs 1
  | some _, none => right
  | none, some _ => left
  | none, none => if left = right then left else .notANumber

end Number

end PullRange
