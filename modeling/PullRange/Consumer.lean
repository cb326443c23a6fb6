import PullRange.Walk

/-!
# Consumers

`Walk.collect` drains a walk into an array, `Walk.take` is a loop that is left after so many
results, and `Range.print` writes one line per result. A range may go on without end, so the two
that run to the end take an amount of fuel and fail as unfinished when it does not suffice.
-/

namespace PullRange

variable {H V ε ω : Type}

/-- A failure loses what was collected before it. -/
def Walk.collect (turn : Turn V ε ω) :
    (fuel : Nat) → (collected : Array V) → Action ε (Walk × ω) (Array V)
  | 0, _ => throw .unfinished
  | fuel + 1, collected => do
      match ← Walk.next turn with
      | .done _ => return collected
      | .yield value => Walk.collect turn fuel (collected.push value)

structure Taken (V ε : Type) where
  got : Array V
  failure : Option (Fault ε)

/-- Leaves the loop right after the last result that was wanted, without asking for another. -/
def Walk.take (turn : Turn V ε ω) :
    (wanted : Nat) → (got : Array V) → Walk × ω → Taken V ε × (Walk × ω)
  | 0, got, (walk, rest) => ({ got, failure := none }, (walk.stop, rest))
  | wanted + 1, got, state =>
      match Walk.next turn state with
      | .error fault state => ({ got, failure := some fault }, state)
      | .ok (.done _) state => ({ got, failure := none }, state)
      | .ok (.yield value) state => Walk.take turn wanted (got.push value) state

structure Printer (V ε ω : Type) where
  format : V → Nat → Action ε ω String
  write : String → Action ε ω Unit

/-- Prints from a cursor on. The text and the end of each line are written separately. -/
def Cursor.printLines (services : Services H V ε ω) (printer : Printer V ε ω) :
    (fuel count : Nat) → Cursor → Action ε (Range H V × ω) Nat
  | 0, _, _ => throw .unfinished
  | fuel + 1, count, cursor => do
      if cursor.notEquals .shared then
        let value ← Range.get
        let line ← onRest (printer.format value count)
        onRest (printer.write line)
        onRest (printer.write "\n")
        let cursor ← cursor.next services
        printLines services printer fuel (count + 1) cursor
      else
        return count

def Range.print (services : Services H V ε ω) (printer : Printer V ε ω) (fuel : Nat) :
    Action ε (Range H V × ω) Nat := do
  let cursor ← Cursor.start services
  cursor.printLines services printer fuel 0

end PullRange
