import PullRange.Number.Text
import PullRange.Reply

/-!
# Values

The results and inputs of a session. A range never looks into them, but they can be turned into
text: a list joins the texts of its elements, a record has none of its own, and three kinds of object
bring their conversion with them, which is missing, noticed, or noticed and failing.
-/

namespace PullRange

inductive Value where
  | undefined
  | null
  | boolean (value : Bool)
  | number (value : Number)
  | bigInteger (digits : String)
  | symbol (description : String)
  | string (text : String)
  | list (elements : List Value)
  | record (fields : List (String × Value))
  | bare
  | shown (text : String)
  | touchy (text : String)
  deriving Repr, Inhabited

/-- What a collaborator of a session fails with: an error of some class, or any value at all. -/
inductive Thrown where
  | error (name message : String)
  | value (value : Value)
  deriving Repr

namespace Value

def ofNat (value : Nat) : Value :=
  .number (.integer value)

mutual

/-- Whether two values are written alike. The fields of a record are written in their own order, so
that the same fields in another order make another record. -/
def same : Value → Value → Bool
  | .undefined, .undefined => true
  | .null, .null => true
  | .boolean left, .boolean right => left == right
  | .number left, .number right => left == right
  | .bigInteger left, .bigInteger right => left == right
  | .symbol left, .symbol right => left == right
  | .string left, .string right => left == right
  | .list left, .list right => sameElements left right
  | .record left, .record right => sameFields left right
  | .bare, .bare => true
  | .shown left, .shown right => left == right
  | .touchy left, .touchy right => left == right
  | _, _ => false

def sameElements : List Value → List Value → Bool
  | [], [] => true
  | left :: lefts, right :: rights => same left right && sameElements lefts rights
  | _, _ => false

def sameFields : List (String × Value) → List (String × Value) → Bool
  | [], [] => true
  | (leftName, left) :: lefts, (rightName, right) :: rights =>
      leftName == rightName && same left right && sameFields lefts rights
  | _, _ => false

end

/-- The element of a list that has no text of its own counts as the empty text. -/
def isVoid : Value → Bool
  | .undefined => true
  | .null => true
  | _ => false

def isSymbol : Value → Bool
  | .symbol _ => true
  | _ => false

def symbolFailure : Thrown :=
  .error "TypeError" "Cannot convert a Symbol value to a string"

def bareFailure : Thrown :=
  .error "TypeError" "Cannot convert object to primitive value"

mutual

/-- The text of a value. A symbol describes itself, but refuses to be joined into the text of a
list. -/
def toText : Value → Reply Thrown String
  | .undefined => return "undefined"
  | .null => return "null"
  | .boolean value => return toString value
  | .number value => return value.text
  | .bigInteger digits => return digits
  | .symbol description => return "Symbol(" ++ description ++ ")"
  | .string text => return text
  | .list elements => do
      let texts ← elementTexts elements
      return ",".intercalate texts
  | .record _ => return "[object Object]"
  | .bare => .fail bareFailure
  | .shown text => .noting text (return text)
  | .touchy text => .noting text (.fail (.error "Error" text))

def elementTexts : List Value → Reply Thrown (List String)
  | [] => return []
  | element :: rest => do
      let text ←
        if element.isVoid then pure ""
        else if element.isSymbol then .fail symbolFailure
        else toText element
      let texts ← elementTexts rest
      return text :: texts

end

instance : Textual Value Thrown where
  toText := toText

end Value

end PullRange
