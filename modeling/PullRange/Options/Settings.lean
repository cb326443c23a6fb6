import PullRange.Options.Environment

/-!
# Settings

Chunk sizes are kept in option records, which are objects: what is written to a record is seen by
everyone who has it. `Settings` keeps the records by number, the record of the defaults first, with
the tracing switch. `Settings.parse` starts from a copy of another record and writes to the copy
entry by entry, while the switch is left alone until every entry has been accepted.
-/

namespace PullRange

structure Settings where
  records : Array ChunkSize
  tracing : Bool

namespace Settings

abbrev Act (α : Type) := EStateM OptionError Settings α

def initialRecords : Array ChunkSize :=
  #[.default]

/-- The record of the defaults. -/
def defaults : Nat := 0

def make (size : ChunkSize) : Act Nat := do
  let settings ← get
  set { settings with records := settings.records.push size }
  return settings.records.size

def sizeOf (record : Nat) : Act ChunkSize := do
  return (← get).records[record]?.getD .unset

def write (record : Nat) (size : ChunkSize) : Act Unit :=
  modify fun settings => { settings with records := settings.records.setIfInBounds record size }

def setTracing (tracing : Bool) : Act Unit :=
  modify fun settings => { settings with tracing }

/-- A chunk size is written to the record at once. What the switch is to be is only remembered, and
the last toggle counts. -/
def accept (record : Nat) (toggle : Option Bool) (entry : String × String) : Act (Option Bool) :=
  if entry.1 = "chunksize" then do
    let size ← MonadExcept.ofExcept (ChunkSize.read entry.2)
    write record (.number (.integer size))
    return toggle
  else if entry.1 = "debug" then do
    let tracing ← MonadExcept.ofExcept (readToggle entry.2)
    return some tracing
  else
    throw (.unknown entry.1)

def parse (entries : List (String × String)) (base : Nat) : Act Nat := do
  let record ← make (← sizeOf base)
  match ← entries.foldlM (accept record) none with
  | none => return record
  | some tracing =>
      setTracing tracing
      return record

def parseEnvironment (environment : List (String × String)) : Act Nat :=
  parse (Options.entriesOfEnvironment environment) defaults

end Settings

end PullRange
