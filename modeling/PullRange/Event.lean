/-!
# Events

Collaborators leave events, in the order in which they are called. Events refer to executors and
writers by a name of type `ν`: a number while objects are at work, and whatever an observer calls
them afterwards.
-/

namespace PullRange

/-- Whether a producer serves as an executor itself or as the resource of a buffer. -/
inductive Role where
  | executor
  | resource
  deriving DecidableEq, Repr

inductive Stream (ν : Type) where
  | output
  | error
  | recorder (writer : ν)
  deriving DecidableEq, Repr

inductive Event (ν V : Type) where
  | opened (executor : ν)
  | asked (role : Role) (executor : ν)
  | released (role : Role) (executor : ν)
  | computing (executor : ν) (input : V) (index : Nat)
  | formatting (value : V) (index : Nat)
  | converted (text : String)
  | built (tag : String)
  | wrote (writer : ν) (text : String)
  /-- The event knows which writer has passed the text on, although a stream does not show it. -/
  | streamed {writer : ν} (stream : Stream ν) (text : String)
  deriving DecidableEq, Repr

/-- A call of an executor's own method. -/
inductive Call where
  | ask (executor : Nat)
  | release (executor : Nat)
  deriving DecidableEq, Repr

def Call.executor : Call → Nat
  | .ask executor => executor
  | .release executor => executor

def Stream.rename {ν μ : Type} (writerName : ν → μ) : Stream ν → Stream μ
  | .output => .output
  | .error => .error
  | .recorder writer => .recorder (writerName writer)

def Event.rename {ν μ V : Type} (executorName writerName : ν → μ) : Event ν V → Event μ V
  | .opened executor => .opened (executorName executor)
  | .asked role executor => .asked role (executorName executor)
  | .released role executor => .released role (executorName executor)
  | .computing executor input index => .computing (executorName executor) input index
  | .formatting value index => .formatting value index
  | .converted text => .converted text
  | .built tag => .built tag
  | .wrote writer text => .wrote (writerName writer) text
  | @streamed _ _ writer stream text =>
      @streamed _ _ (writerName writer) (stream.rename writerName) text

end PullRange
