import PullRange.Number
import PullRange.Number.Shortest

/-!
# The text of a number

A number is written with the fewest digits that denote it: without an exponent if there are at most
21 digits before the point, or none but at most five zeros behind it, and with an exponent otherwise.
Any decimal text can be read, and denotes the double nearest to it.
-/

namespace PullRange.Number

/-! ## Writing -/

def zeros (count : Nat) : List Char :=
  List.replicate count '0'

/-- Significant digits with the decimal point behind `point` of them, which may be none at all or
more than there are. -/
def layout (digits : List Char) (point : Int) : List Char :=
  if digits.length ≤ point ∧ point ≤ 21 then digits ++ zeros (point.toNat - digits.length)
  else if 0 < point ∧ point ≤ 21 then
    digits.take point.toNat ++ '.' :: digits.drop point.toNat
  else if -6 < point ∧ point ≤ 0 then
    '0' :: '.' :: zeros (-point).toNat ++ digits
  else
    let exponent := point - 1
    let fraction := if digits.length ≤ 1 then [] else '.' :: digits.drop 1
    let sign := if exponent < 0 then '-' else '+'
    digits.take 1 ++ fraction ++ 'e' :: sign :: Nat.toDigits 10 exponent.natAbs

def magnitudeText (grains : Nat) : String :=
  let expansion := Nat.toDigits 10 (Binary64.shortest grains)
  let digits := (expansion.reverse.dropWhile (· == '0')).reverse
  String.ofList (layout digits ((expansion.length : Int) - Binary64.places))

def signText (negative : Bool) : String :=
  if negative then "-" else ""

/-- Negative zero is shown without its sign. Integers up to 53 bits show all of their digits. -/
def text : Number → String
  | .integer value =>
      if value.natAbs < Binary64.consecutive then toString value
      else signText (value < 0) ++ magnitudeText (value.natAbs * Binary64.one)
  | .negativeZero => "0"
  | .fraction negative grains => signText negative ++ magnitudeText grains
  | .infinite negative => signText negative ++ "Infinity"
  | .notANumber => "NaN"

/-! ## Reading -/

def digits? (characters : List Char) : Option Nat :=
  if characters.isEmpty then none
  else characters.foldlM
    (fun total character =>
      if '0' ≤ character ∧ character ≤ '9' then some (total * 10 + (character.toNat - 48))
      else none) 0

def exponent? : List Char → Option Int
  | [] => some 0
  | 'e' :: '-' :: digits => (digits? digits).map fun value => -(value : Int)
  | 'e' :: '+' :: digits => (digits? digits).map Int.ofNat
  | 'e' :: digits => (digits? digits).map Int.ofNat
  | _ => none

def decimal? (characters : List Char) : Option (Nat × Int) := do
  let mantissa := characters.takeWhile (· != 'e')
  let leading := mantissa.takeWhile (· != '.')
  let fraction := (mantissa.dropWhile (· != '.')).drop 1
  let digits ← digits? (leading ++ fraction)
  let exponent ← exponent? (characters.dropWhile (· != 'e'))
  return (digits, exponent - fraction.length)

/-- The number nearest to a decimal. One that is far out of the range of doubles is not written out:
it is zero or infinite by the place of its leading digit. -/
def ofDecimal (negative : Bool) (digits : Nat) (exponent : Int) : Number :=
  let leading := (Nat.toDigits 10 digits).length + exponent
  if digits = 0 ∨ leading < -330 then ofGrains negative 0
  else if 330 < leading then .infinite negative
  else match exponent with
    | .ofNat up => ofQuotient negative (digits * Nat.pow 10 up * Binary64.one) 1
    | .negSucc down => ofQuotient negative (digits * Binary64.one) (Nat.pow 10 (down + 1))

/-- Reads an unsigned text. A text that is no decimal denotes no number. -/
def readMagnitude (negative : Bool) (characters : List Char) : Number :=
  if String.ofList characters = "Infinity" then .infinite negative
  else match decimal? characters with
    | some (digits, exponent) => ofDecimal negative digits exponent
    | none => .notANumber

def read (text : String) : Number :=
  match text.toList with
  | '-' :: characters => readMagnitude true characters
  | characters => readMagnitude false characters

end PullRange.Number
