import PullRange.Number
import PullRange.Text.Blank

/-!
# Integers in three radixes

An integer literal is `0x` or `0X` and hexadecimal digits, or a `0` and octal digits, or a nonzero
decimal digit and decimal digits. Texts are looked at twice: `Literal.isInteger` tests whether a text
is such a literal, and `Literal.parse` reads an integer off the front of a text, whose radix it tells
from the first characters. The reader is lenient. It skips blanks, takes a sign and as many digits as
there are, and does not look at what follows them.
-/

namespace PullRange

inductive Radix where
  | hexadecimal
  | octal
  | decimal
  deriving DecidableEq, Repr

namespace Radix

def base : Radix → Nat
  | .hexadecimal => 16
  | .octal => 8
  | .decimal => 10

/-- A digit counts for a radix if its value is below the base. Both letter cases are the same digit. -/
def digit? (radix : Radix) (character : Char) : Option Nat :=
  let code := character.toNat
  let value? :=
    if '0' ≤ character ∧ character ≤ '9' then some (code - 48)
    else if 'a' ≤ character ∧ character ≤ 'f' then some (code - 87)
    else if 'A' ≤ character ∧ character ≤ 'F' then some (code - 55)
    else none
  value?.filter (· < radix.base)

def isDigit (radix : Radix) (character : Char) : Bool :=
  (radix.digit? character).isSome

/-- The digits up to the first character that is none. -/
def leading (radix : Radix) : List Char → List Nat
  | [] => []
  | character :: rest =>
      match radix.digit? character with
      | some digit => digit :: leading radix rest
      | none => []

def valueOf (radix : Radix) (digits : List Nat) : Nat :=
  digits.foldl (fun total digit => total * radix.base + digit) 0

end Radix

namespace Literal

def isMarker (character : Char) : Bool :=
  character == 'x' || character == 'X'

/-! ## The test -/

def isHexadecimal : List Char → Bool
  | '0' :: marker :: digits =>
      isMarker marker && !digits.isEmpty && digits.all Radix.hexadecimal.isDigit
  | _ => false

def isOctal : List Char → Bool
  | '0' :: digits => digits.all Radix.octal.isDigit
  | _ => false

def isDecimal : List Char → Bool
  | first :: digits => decide ('1' ≤ first ∧ first ≤ '9') && digits.all Radix.decimal.isDigit
  | [] => false

def isInteger (text : List Char) : Bool :=
  isHexadecimal text || isOctal text || isDecimal text

/-! ## The reader -/

def sign : List Char → Bool × List Char
  | '-' :: rest => (true, rest)
  | '+' :: rest => (false, rest)
  | text => (false, text)

/-- Only a hexadecimal integer may bring its marker along. -/
def withoutMarker (radix : Radix) (text : List Char) : List Char :=
  match radix, text with
  | .hexadecimal, '0' :: marker :: rest => if isMarker marker then rest else text
  | _, _ => text

/-- Reads an integer in a given radix. There is none if the text does not begin with a digit. -/
def parseIn (radix : Radix) (text : List Char) : Number :=
  let (negative, unsigned) := sign (Text.trimStart text)
  match radix.leading (withoutMarker radix unsigned) with
  | [] => .notANumber
  | digits => .ofInteger negative (radix.valueOf digits)

def parse (text : List Char) : Number :=
  match Text.trim text with
  | [] => .notANumber
  | '0' :: second :: rest =>
      if isMarker second then parseIn .hexadecimal ('0' :: second :: rest)
      else parseIn .octal ('0' :: second :: rest)
  | trimmed => parseIn .decimal trimmed

end Literal

end PullRange
