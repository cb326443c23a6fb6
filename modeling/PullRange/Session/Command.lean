import PullRange.Cursor
import PullRange.Report
import PullRange.Script
import PullRange.Value.Recipe
import PullRange.Writer

/-!
# Commands and answers

The steps of a session and what they come to. Objects are called by the names that the session has
given them, each kind of object having names of its own.
-/

namespace PullRange

inductive Supply where
  | script (script : Script Value Thrown)
  | range (range : String)

inductive SizeChoice where
  | given (size : ChunkSize)
  | kept (options : String)

inductive SideName where
  | cursor (cursor : String)
  | sentinel (sentinel : Sentinel)

inductive Command where
  | makeExecutor (name : String) (supply : Supply)
  /-- A resource may fail when it is opened. -/
  | makeBuffered (name : String) (supply : Supply) (opening : Option Thrown)
      (computation : Computation) (size : SizeChoice)
  | ask (executor : String)
  | release (executor : String)
  | inspect (executor : String)
  | makeRange (name : String) (executor : Option String)
  | start (range name : String)
  | advance (cursor : String) (times : Nat)
  | look (cursor : String)
  | get (cursor : String)
  | compare (cursor : String) (sentinel : Sentinel)
  | decide (comparison : Comparison) (left right : SideName)
  | sentinel (range : String)
  | cached (range : String)
  | move (range name : String)
  | close (range : String)
  | collect (range : String)
  | take (range : String) (wanted : Nat)
  | makeWalk (range name : String)
  | walkOn (walk : String)
  | stopWalk (walk : String)
  | makeWriter (name : String) (writer : Writer Thrown)
  | write (writer text : String)
  | text (writer : String)
  | clear (writer : String)
  | print (range writer : String) (format : Option Format)
  /-- No name stands for the writer that traces go to in the beginning. -/
  | traceTo (writer : Option String)
  | setTracing (tracing : Bool)
  | tracing
  | traceLine (tag message : String) (failure : Option Thrown)
  | configure (name : Option String) (pairs : List (String × String)) (base : ChunkSize)
  | configureFromEnvironment (name : Option String) (environment : List (String × String))
  | defaults
  | makeError (errorClass : ErrorClass) (message : Option String)

inductive Result where
  | nothing
  | step (step : Step Value)
  | progress (isEof : Bool) (consumed : Nat)
  /-- Where a cursor stands; a range without a cached result shows none. -/
  | position (atEnd : Bool) (value : Option Value)
  | advanced (atEnd : Bool) (value : Option Value)
  | value (value : Value)
  | flag (flag : Bool)
  | flags (flags : List Bool)
  | sentinel (shared : Bool) (text : String)
  | cached (value : Option Value)
  | values (values : List Value)
  | taken (got : List Value) (failure : Option Report)
  | count (count : Nat)
  | text (text : String)
  /-- The writer that traces went to before; none for the one in the beginning. -/
  | tracedTo (writer : Option String)
  | size (size : ChunkSize)
  | defaults (size : ChunkSize)
  | error (report : Report) (kinds : List Bool)

structure Answer where
  result : Except Report Result
  log : List (Event String Value)

end PullRange
