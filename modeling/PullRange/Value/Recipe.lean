import PullRange.Text.Units
import PullRange.Value

/-!
# Computations and formats as data

A session describes the computation of a buffer and the format of a printer by small recipes. Each
recipe may fail at chosen places before it does its work.
-/

namespace PullRange

inductive Task where
  | identity
  | times (factor : Int)
  | plus (term : Int)
  | square
  | length
  | indexed
  | pair
  | record
  | constant (value : Value)

inductive Trigger where
  | index (index : Int)
  | input (input : Value)

structure Computation where
  task : Task
  failures : List (Trigger × Thrown)

def Trigger.matches (trigger : Trigger) (input : Value) (index : Nat) : Bool :=
  match trigger with
  | .index wanted => wanted == index
  | .input wanted => wanted.same input

def Value.length : Value → Value
  | .string text => .ofNat (Text.units text)
  | _ => .undefined

def Value.onNumber (change : Number → Number) : Value → Value
  | .number value => .number (change value)
  | _ => .number .notANumber

def Task.apply (task : Task) (input : Value) (index : Nat) : Reply Thrown Value :=
  match task with
  | .identity => return input
  | .times factor => return input.onNumber fun value => value.times (.integer factor)
  | .plus term => return input.onNumber fun value => value.plus (.integer term)
  | .square => return input.onNumber fun value => value.times value
  | .length => return input.length
  | .indexed => do
      let text ← input.toText
      return .string (toString index ++ ":" ++ text)
  | .pair => return .list [.ofNat index, input]
  | .record => return .record [("text", input), ("len", input.length)]
  | .constant value => return value

/-- The first trigger that matches decides. -/
def Computation.apply (computation : Computation) (input : Value) (index : Nat) :
    Reply Thrown Value :=
  match computation.failures.find? fun failure => failure.1.matches input index with
  | some failure => .fail failure.2
  | none => computation.task.apply input index

inductive Style where
  | text
  | indexed
  | record
  | constant (line : String)

structure Format where
  style : Style
  failure : Option (Int × Thrown)

/-- A field that is left out counts as undefined. -/
def Value.field (value : Value) (name : String) : Value :=
  match value with
  | .record fields => (fields.lookup name).getD .undefined
  | _ => .undefined

def Style.apply (style : Style) (value : Value) (index : Nat) : Reply Thrown String :=
  match style with
  | .text => value.toText
  | .indexed => do
      let text ← value.toText
      return toString index ++ ": " ++ text
  | .record => do
      let text ← (value.field "text").toText
      let length ← (value.field "len").toText
      return text ++ "=" ++ length
  | .constant line => return line

def Format.apply (format : Format) (value : Value) (index : Nat) : Reply Thrown String :=
  match format.failure with
  | some (place, error) =>
      if place == index then .fail error else format.style.apply value index
  | none => format.style.apply value index

end PullRange
