import PullRange.Proofs.Answers
import PullRange.Store.Operations

/-!
# Requests

What the owner of a store may ask of it, as one language: `Request.perform` says which operation of
the store a request stands for. Between two requests tracing may be switched on and off and sent
elsewhere, so an `Entry` of a run is a request or a switch; only requests are answered.
-/

namespace PullRange.Store

variable {V ε : Type}

inductive Party where
  | cursor (cursor : Nat)
  | sentinel (sentinel : Sentinel)
  deriving DecidableEq, Repr

/-- How a result is made into a line. -/
structure LineFormat (V ε : Type) where
  render : V → Nat → Reply ε String
  /-- Whether formatting a result leaves an event of its own. -/
  noted : Bool

inductive Request (V ε : Type) where
  | makeExecutor (source : Source V ε)
  | makeBuffered (source : Source V ε) (opening : Option ε) (compute : V → Nat → Reply ε V)
      (size : ChunkSize)
  | ask (executor : Nat)
  | release (executor : Nat)
  | inspect (executor : Nat)
  | makeRange (executor : Option Nat)
  | cached (range : Nat)
  | sentinel (range : Nat)
  | move (range : Nat)
  | close (range : Nat)
  | start (range : Nat)
  | advance (cursor : Nat)
  | atEnd (cursor : Nat)
  | value (cursor : Nat)
  | get (cursor : Nat)
  | compare (cursor : Nat) (sentinel : Sentinel)
  | decide (comparison : Comparison) (left right : Party)
  | makeWalk (range : Nat)
  | walkOn (walk : Nat)
  | stopWalk (walk : Nat)
  | collect (fuel range : Nat)
  | take (range wanted : Nat)
  | print (fuel range : Nat) (format : LineFormat V ε) (writer : Nat)

inductive Response (V ε : Type) where
  | nothing
  /-- The number of a new object. -/
  | made (number : Nat)
  | step (step : Step V)
  | progress (isEof : Bool) (consumed : Nat)
  | cached (value : Option V)
  | sentinel (sentinel : Sentinel)
  | flag (flag : Bool)
  | flags (flags : List Bool)
  | value (value : V)
  | values (values : Array V)
  | taken (taken : Taken V ε)
  | count (count : Nat)

def LineFormat.line (format : LineFormat V ε) (value : V) (index : Nat) : Act V ε String := do
  if format.noted then
    emit (.formatting value index)
  carryOut (format.render value index)

def sideOf : Party → Act V ε Side
  | .cursor cursor => do
      let own ← (cursorAt cursor).read
      return .cursor own
  | .sentinel sentinel => return .sentinel sentinel

def concluding {α : Type} (answer : Except (Fault ε) α) : Act V ε α := fun store =>
  settle answer store

section Perform

variable [Textual V ε]

def Request.perform : Request V ε → Act V ε (Response V ε)
  | .makeExecutor source => Response.made <$> addExecutor source
  | .makeBuffered source opening compute size =>
      Response.made <$> addBuffered source opening compute size
  | .ask executor => Response.step <$> Store.ask executor
  | .release executor => (fun _ => Response.nothing) <$> Store.release executor
  | .inspect executor =>
      (fun buffer => Response.progress buffer.isEof buffer.consumed) <$> (bufferOf executor).read
  | .makeRange executor => Response.made <$> addRange (.holding executor)
  | .cached range => (fun own => Response.cached own.cache) <$> (rangeAt range).read
  | .sentinel range => (fun own => Response.sentinel own.sentinel) <$> (rangeAt range).read
  | .move range => Response.made <$> Store.move range
  | .close range => (fun _ => Response.nothing) <$> Store.close range
  | .start range => Response.made <$> Store.start range
  | .advance cursor => (fun _ => Response.nothing) <$> Store.advance cursor
  | .atEnd cursor => (fun own => Response.flag own.atEnd) <$> (cursorAt cursor).read
  | .value cursor => Response.cached <$> valueAt? cursor
  | .get cursor => Response.value <$> valueAt cursor
  | .compare cursor against => do
      let own ← (cursorAt cursor).read
      Response.flags <$> concluding (own.comparisons against)
  | .decide comparison left right => do
      let left ← sideOf left
      let right ← sideOf right
      Response.flag <$> concluding (comparison.decide left right)
  | .makeWalk range => Response.made <$> addWalk range
  | .walkOn walk => Response.step <$> Store.walkOn walk
  | .stopWalk walk => (fun _ => Response.nothing) <$> Store.stopWalk walk
  | .collect fuel range => Response.values <$> Store.collect fuel range
  | .take range wanted => Response.taken <$> Store.take range wanted
  | .print fuel range format writer => Response.count <$> Store.print fuel range format.line writer

end Perform

inductive Entry (V ε : Type) where
  | perform (request : Request V ε)
  | setTracing (tracing : Bool)
  | traceTo (writer : Nat)

section Runs

variable [Textual V ε]

def Entry.after (store : Store V ε) : Entry V ε → Store V ε
  | .perform request => request.perform.after store
  | .setTracing tracing => (Store.setTracing tracing).after store
  | .traceTo writer => (Store.traceTo writer).after store

def Entry.run (entries : List (Entry V ε)) (store : Store V ε) : Store V ε :=
  entries.foldl Entry.after store

def Entry.answers : List (Entry V ε) → Store V ε → List (Except (Fault ε) (Response V ε))
  | [], _ => []
  | .perform request :: entries, store =>
      request.perform.answer store :: Entry.answers entries (request.perform.after store)
  | .setTracing tracing :: entries, store =>
      Entry.answers entries ((Store.setTracing tracing).after store)
  | .traceTo writer :: entries, store => Entry.answers entries ((Store.traceTo writer).after store)

theorem Entry.run_append (first second : List (Entry V ε)) (store : Store V ε) :
    Entry.run (first ++ second) store = Entry.run second (Entry.run first store) :=
  List.foldl_append

theorem Entry.answers_append (first second : List (Entry V ε)) (store : Store V ε) :
    Entry.answers (first ++ second) store =
      Entry.answers first store ++ Entry.answers second (Entry.run first store) := by
  induction first generalizing store with
  | nil => rfl
  | cons entry first ih =>
      cases entry with
      | perform request => exact congrArg (_ :: ·) (ih _)
      | setTracing tracing => exact ih _
      | traceTo writer => exact ih _

end Runs

end PullRange.Store
