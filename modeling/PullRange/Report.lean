import PullRange.Fault
import PullRange.Options
import PullRange.Value

/-!
# Reports

A report is how a failure is told: the name of its class and its message, or the bare value that was
thrown. Three classes belong to the library. A range that has no executor raises a kind of low-level
error, and low-level errors carry their message a second time as an explanation.
-/

namespace PullRange

inductive ErrorClass where
  | parse
  | lowlevel
  | unavailable
  deriving DecidableEq, Repr

namespace ErrorClass

def all : List ErrorClass :=
  [.parse, .lowlevel, .unavailable]

def name : ErrorClass → String
  | .parse => "ParseError"
  | .lowlevel => "LowlevelError"
  | .unavailable => "ExecutorUnavailableError"

def ofName? (name : String) : Option ErrorClass :=
  all.find? fun errorClass => errorClass.name == name

def isKindOf : ErrorClass → ErrorClass → Bool
  | .parse, .parse => true
  | .lowlevel, .lowlevel => true
  | .unavailable, .lowlevel => true
  | .unavailable, .unavailable => true
  | _, _ => false

def defaultMessage : ErrorClass → String
  | .unavailable => "No result executor available."
  | _ => ""

end ErrorClass

inductive Report where
  | error (name message : String)
  | thrown (value : Value)
  deriving Repr

namespace Report

def ofClass (errorClass : ErrorClass) (message : String) : Report :=
  .error errorClass.name message

def badInput (message : String) : Report :=
  .error "BadInput" message

def explanation? : Report → Option String
  | .thrown _ => none
  | .error name message => do
      let errorClass ← ErrorClass.ofName? name
      if errorClass.isKindOf .lowlevel then some message else none

/-- The class and the message on one line; an empty message leaves the class alone. -/
def line : Report → String
  | .thrown _ => ""
  | .error name message => if message = "" then name else name ++ ": " ++ message

end Report

def Thrown.report : Thrown → Report
  | .error name message => .error name message
  | .value itself => .thrown itself

def Fault.report (fault : Fault Thrown) : Report :=
  let message := fault.message?.getD ""
  match fault with
  | .noExecutor => .ofClass .unavailable message
  | .nothingFetched => .ofClass .lowlevel message
  | .badCapacity _ => .error "RangeError" message
  | .noCursor _ => .error "TypeError" message
  | .missing => .badInput message
  | .unfinished => .badInput message
  | .raised error => error.report

def OptionError.report (error : OptionError) : Report :=
  .ofClass .parse error.message

end PullRange
