import PullRange.Number.Literal
import PullRange.Number.Text

/-!
# Options

Two settings can be read from text: how many results a buffer computes at a time, and whether
tracing is on. `Options.read` goes through the entries in their order and stops at the first one
that it cannot accept; `Options.configure` also says what becomes of the tracing switch, which
changes only if every entry was accepted.
-/

namespace PullRange

inductive OptionError where
  | unknown (name : String)
  | badChunkSize (written : String)
  | badToggle
  deriving DecidableEq, Repr

def OptionError.message : OptionError → String
  | .unknown name => "Unknown option: " ++ name
  | .badChunkSize written => "Bad chunk size: " ++ written
  | .badToggle => "Must specify toggle value, on/off"

/-- A chunk size as it may be asked for: left out, null, or some number, which need not be one that a
buffer can work with. -/
inductive ChunkSize where
  | unset
  | null
  | number (value : Number)
  deriving DecidableEq, Repr

namespace ChunkSize

def default : ChunkSize :=
  .number (.integer 1)

def capacity : ChunkSize → Except String { size : Nat // 0 < size }
  | .unset => .ok ⟨1, Nat.one_pos⟩
  | .null => .ok ⟨1, Nat.one_pos⟩
  | .number value =>
      match value.whole? with
      | some (.ofNat (size + 1)) => .ok ⟨size + 1, size.succ_pos⟩
      | _ => .error value.text

/-- Reads a positive integer literal between blanks. The size is the nearest double of the integer,
and the message of a refusal shows the text with its blanks. -/
def read (written : String) : Except OptionError Nat :=
  if Literal.isInteger (Text.trim written.toList) then
    match (Literal.parse written.toList).whole? with
    | some (.ofNat (size + 1)) => .ok (size + 1)
    | _ => .error (.badChunkSize written)
  else
    .error (.badChunkSize written)

end ChunkSize

/-- An empty text switches on. -/
def readToggle (written : String) : Except OptionError Bool :=
  if written = "" then .ok true
  else if written = "on" then .ok true
  else if written = "off" then .ok false
  else .error .badToggle

structure Options where
  chunkSize : ChunkSize
  tracing : Option Bool
  deriving DecidableEq, Repr

namespace Options

def apply (options : Options) (name value : String) : Except OptionError Options :=
  if name = "chunksize" then do
    let size ← ChunkSize.read value
    return { options with chunkSize := .number (.integer size) }
  else if name = "debug" then do
    let tracing ← readToggle value
    return { options with tracing := some tracing }
  else
    .error (.unknown name)

def read (entries : List (String × String)) (base : ChunkSize) : Except OptionError Options :=
  entries.foldlM (fun options entry => options.apply entry.1 entry.2)
    { chunkSize := base, tracing := none }

def configure (entries : List (String × String)) (base : ChunkSize) (tracing : Bool) :
    Except OptionError ChunkSize × Bool :=
  match read entries base with
  | .ok options => (.ok options.chunkSize, options.tracing.getD tracing)
  | .error error => (.error error, tracing)

end Options

end PullRange
