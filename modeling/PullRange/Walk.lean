import PullRange.Cursor

/-!
# Walks

A walk hands out the results of a range one at a time, for loops and for whoever wants the range as
a producer. It does nothing until it is asked for the first time; then it makes a cursor, and from
then on it is suspended at that cursor between two results. After the end, a failure or a `stop` it
is finished for good and leaves the range alone. A stopped walk closes nothing.
-/

namespace PullRange

inductive Walk where
  | unstarted
  | suspended (cursor : Cursor)
  | finished
  deriving DecidableEq, Repr

variable {H V ε ω : Type}

/-- One turn of a loop over a range, from the cursor that the loop has come to, if it has one
already, to the next cursor and its result. There is none at the end. -/
abbrev Turn (V ε ω : Type) := Option Cursor → Action ε ω (Option (Cursor × V))

/-- A turn advances once, compares, and reads the result back from the cache. -/
def Range.turn (services : Services H V ε ω) : Turn V ε (Range H V × ω) := fun cursor? => do
  let cursor ← match cursor? with
    | none => Cursor.start services
    | some cursor => cursor.next services
  if cursor.notEquals .shared then
    let value ← Range.get
    return some (cursor, value)
  else
    return none

namespace Walk

/-- A walk counts as finished while it takes a turn, and is suspended again only if the turn brought
a result. -/
def resume (turn : Turn V ε ω) (cursor? : Option Cursor) : Action ε (Walk × ω) (Step V) := do
  setOwn .finished
  match ← onRest (turn cursor?) with
  | none => return .done none
  | some (cursor, value) =>
      setOwn (.suspended cursor)
      return .yield value

def next (turn : Turn V ε ω) : Action ε (Walk × ω) (Step V) := do
  match ← getOwn with
  | .unstarted => resume turn none
  | .suspended cursor => resume turn (some cursor)
  | .finished => return .done none

theorem next_of_finished (turn : Turn V ε ω) (rest : ω) :
    next turn (.finished, rest) = .ok (.done none) (.finished, rest) := rfl

def stop : Walk → Walk := fun _ => .finished

end Walk

end PullRange
