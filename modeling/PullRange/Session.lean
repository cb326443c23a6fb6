import PullRange.Options.Entries
import PullRange.Options.Settings
import PullRange.Session.Command
import PullRange.Store.Operations

/-!
# Sessions

A session performs commands one after another on one store and gives names to the objects that they
make. A command that fails names nothing, and does not end the session.
-/

namespace PullRange

/-- The names of one kind of object, the latest first: a name that is given again stands for the new
object. -/
abbrev Names (α : Type) := List (String × α)

structure Session where
  store : Store Value Thrown
  /-- What observers call the executors, by number. The next executor to be made has its name here
  before it exists, since its resource may already leave events. -/
  executorNames : Array String
  writerNames : Array String
  executors : Names Nat
  ranges : Names Nat
  cursors : Names Nat
  walks : Names Nat
  writers : Names Nat
  optionRecords : Names Nat
  /-- The option records, by number. -/
  records : Array ChunkSize

namespace Session

abbrev Act (α : Type) := EStateM Report Session α

/-- How long consumers go on before they give up; no session lasts so long. -/
def patience : Nat :=
  1000000000000000000

/-- The writer that traces go to in the beginning has no name. -/
def initial : Session :=
  { store := .initial, executorNames := #[], writerNames := #[""],
    executors := [], ranges := [], cursors := [], walks := [], writers := [], optionRecords := [],
    records := Settings.initialRecords }

/-! ## Names and numbers -/

def lookUp {α : Type} (names : Session → Names α) (name : String) : Act α := do
  match (names (← get)).lookup name with
  | some object => return object
  | none => throw (.badInput ("unknown name " ++ name))

def executor (name : String) : Act Nat :=
  lookUp Session.executors name

def range (name : String) : Act Nat :=
  lookUp Session.ranges name

def cursor (name : String) : Act Nat :=
  lookUp Session.cursors name

def walk (name : String) : Act Nat :=
  lookUp Session.walks name

def writer (name : String) : Act Nat :=
  lookUp Session.writers name

def optionRecord (name : String) : Act Nat :=
  lookUp Session.optionRecords name

def nameExecutor (name : String) (number : Nat) : Act Unit :=
  modify fun session => { session with executors := (name, number) :: session.executors }

def nameRange (name : String) (number : Nat) : Act Unit :=
  modify fun session => { session with ranges := (name, number) :: session.ranges }

def nameCursor (name : String) (number : Nat) : Act Unit :=
  modify fun session => { session with cursors := (name, number) :: session.cursors }

def nameWalk (name : String) (number : Nat) : Act Unit :=
  modify fun session => { session with walks := (name, number) :: session.walks }

def nameWriter (name : String) (number : Nat) : Act Unit :=
  modify fun session =>
    { session with
      writers := (name, number) :: session.writers
      writerNames := session.writerNames.push name }

def nameOptionRecord (name : String) (number : Nat) : Act Unit :=
  modify fun session => { session with optionRecords := (name, number) :: session.optionRecords }

def announceExecutor (name : String) : Act Unit :=
  modify fun session =>
    { session with
      executorNames := (session.executorNames.take session.store.executors.size).push name }

def inStore {α : Type} (act : Store.Act Value Thrown α) : Act α := fun session =>
  match act session.store with
  | .ok answer store => .ok answer { session with store }
  | .error fault store => .error fault.report { session with store }

/-- The tracing switch is the one of the store. -/
def inSettings {α : Type} (act : Settings.Act α) : Act α := fun session =>
  let back (settings : Settings) : Session :=
    { session with
      records := settings.records
      store := { session.store with tracing := settings.tracing } }
  match act { records := session.records, tracing := session.store.tracing } with
  | .ok answer settings => .ok answer (back settings)
  | .error error settings => .error error.report (back settings)

def answerOf {α : Type} (answer : Except (Fault Thrown) α) : Act α :=
  match answer with
  | .ok answer => return answer
  | .error fault => throw fault.report

/-! ## Making objects -/

def sourceOf : Supply → Act (Source Value Thrown)
  | .script script => return .script script
  | .range name => return .walk (← range name) .unstarted

def makeExecutor (name : String) (supply : Supply) : Act Result := do
  let source ← sourceOf supply
  announceExecutor name
  nameExecutor name (← inStore (Store.addExecutor source))
  return .nothing

def chosenSize : SizeChoice → Act ChunkSize
  | .given size => return size
  | .kept name => do inSettings (Settings.sizeOf (← optionRecord name))

def makeBuffered (name : String) (supply : Supply) (opening : Option Thrown)
    (computation : Computation) (choice : SizeChoice) : Act Result := do
  let source ← sourceOf supply
  let size ← chosenSize choice
  announceExecutor name
  nameExecutor name (← inStore (Store.addBuffered source opening computation.apply size))
  return .nothing

def makeRange (name : String) (held : Option String) : Act Result := do
  let executor? ← held.mapM executor
  nameRange name (← inStore (Store.addRange (.holding executor?)))
  return .nothing

/-! ## Cursors -/

def position (number : Nat) : Act (Cursor × Option Value) := do
  let cursor ← inStore (Store.cursorAt number).read
  let value ← inStore (Store.valueAt? number)
  return (cursor, value)

def start (source name : String) : Act Result := do
  let number ← inStore (Store.start (← range source))
  nameCursor name number
  let (cursor, value) ← position number
  return .position cursor.atEnd value

def advance (name : String) (times : Nat) : Act Result := do
  let number ← cursor name
  inStore (Store.advanceTimes number times)
  let (cursor, value) ← position number
  return .advanced cursor.atEnd value

def look (name : String) : Act Result := do
  let (cursor, value) ← position (← cursor name)
  return .position cursor.atEnd value

def side : SideName → Act Side
  | .sentinel sentinel => return .sentinel sentinel
  | .cursor name => do
      let number ← cursor name
      return .cursor (← inStore (Store.cursorAt number).read)

def compare (name : String) (sentinel : Sentinel) : Act Result := do
  let number ← cursor name
  let cursor ← inStore (Store.cursorAt number).read
  return .flags (← answerOf (cursor.comparisons sentinel))

def decide (comparison : Comparison) (left right : SideName) : Act Result := do
  let left ← side left
  let right ← side right
  return .flag (← answerOf (comparison.decide left right))

/-! ## Consumers -/

def take (source : String) (wanted : Nat) : Act Result := do
  let taken ← inStore (Store.take (← range source) wanted)
  return .taken taken.got.toList (taken.failure.map Fault.report)

def lineFormat (format : Option Format) (value : Value) (index : Nat) :
    Store.Act Value Thrown String :=
  match format with
  | none => Store.text value
  | some format => do
      Store.emit (.formatting value index)
      Store.carryOut (format.apply value index)

def print (source target : String) (format : Option Format) : Act Result := do
  let rangeNumber ← range source
  let writerNumber ← writer target
  let count ← inStore (Store.print patience rangeNumber (lineFormat format) writerNumber)
  return .count count

/-! ## Tracing and options -/

def traceTo (target : Option String) : Act Result := do
  let number ← match target with
    | none => pure 0
    | some name => writer name
  let before ← inStore (Store.traceTo number)
  let names := (← get).writerNames
  return .tracedTo (if before = 0 then none else names[before]?)

/-- Answers how often the message was built. -/
def traceLine (tag message : String) (failure : Option Thrown) : Act Result := do
  inStore <| Store.trace tag do
    Store.emit (.built tag)
    match failure with
    | none => return message
    | some error => throw (.raised error)
  let built := (← get).store.log.filter fun event =>
    match event with
    | .built _ => true
    | _ => false
  return .count built.size

def configure (name : Option String) (parse : Settings.Act Nat) : Act Result := do
  let record ← inSettings parse
  if let some name := name then
    nameOptionRecord name record
  return .size (← inSettings (Settings.sizeOf record))

def makeError (errorClass : ErrorClass) (message : Option String) : Result :=
  .error (.ofClass errorClass (message.getD errorClass.defaultMessage))
    (true :: ErrorClass.all.map errorClass.isKindOf)

/-! ## Performing commands -/

def perform : Command → Act Result
  | .makeExecutor name supply => makeExecutor name supply
  | .makeBuffered name supply opening computation size =>
      makeBuffered name supply opening computation size
  | .ask name => do
      return .step (← inStore (Store.ask (← executor name)))
  | .release name => do
      inStore (Store.release (← executor name))
      return .step (.done none)
  | .inspect name => do
      let buffer ← inStore (Store.bufferOf (← executor name)).read
      return .progress buffer.isEof buffer.consumed
  | .makeRange name held => makeRange name held
  | .start source name => start source name
  | .advance name times => advance name times
  | .look name => look name
  | .get name => do
      return .value (← inStore (Store.valueAt (← cursor name)))
  | .compare name sentinel => compare name sentinel
  | .decide comparison left right => decide comparison left right
  | .sentinel name => do
      let found ← inStore (Store.rangeAt (← range name)).read
      return .sentinel (found.sentinel == .shared) found.sentinel.text
  | .cached name => do
      let found ← inStore (Store.rangeAt (← range name)).read
      return .cached found.cache
  | .move source name => do
      nameRange name (← inStore (Store.move (← range source)))
      return .nothing
  | .close name => do
      inStore (Store.close (← range name))
      return .nothing
  | .collect name => do
      let collected ← inStore (Store.collect patience (← range name))
      return .values collected.toList
  | .take source wanted => take source wanted
  | .makeWalk source name => do
      nameWalk name (← inStore (Store.addWalk (← range source)))
      return .nothing
  | .walkOn name => do
      return .step (← inStore (Store.walkOn (← walk name)))
  | .stopWalk name => do
      inStore (Store.stopWalk (← walk name))
      return .step (.done none)
  | .makeWriter name made => do
      nameWriter name (← inStore (Store.addWriter made))
      return .nothing
  | .write name text => do
      inStore (Store.write (← writer name) text)
      return .nothing
  | .text name => do
      let found ← inStore (Store.writerAt (← writer name)).read
      match found.text? with
      | some text => return .text text
      | none => throw (.badInput ("no text in " ++ name))
  | .clear name => do
      let number ← writer name
      let found ← inStore (Store.writerAt number).read
      inStore (modify ((Store.writerAt number).put found.clear))
      return .nothing
  | .print source target format => print source target format
  | .traceTo target => traceTo target
  | .setTracing tracing => do
      inStore (Store.setTracing tracing)
      return .flag tracing
  | .tracing => return .flag (← get).store.tracing
  | .traceLine tag message failure => traceLine tag message failure
  | .configure name pairs base =>
      configure name do Settings.parse (Entries.ofPairs pairs) (← Settings.make base)
  | .configureFromEnvironment name environment =>
      configure name (Settings.parseEnvironment environment)
  | .defaults => return .defaults (← inSettings (Settings.sizeOf Settings.defaults))
  | .makeError errorClass message => return makeError errorClass message

def renamedLog (session : Session) : List (Event String Value) :=
  let nameIn (names : Array String) (number : Nat) := names[number]?.getD ""
  session.store.log.toList.map
    (Event.rename (nameIn session.executorNames) (nameIn session.writerNames))

def step (session : Session) (command : Command) : Answer × Session :=
  match perform command { session with store := { session.store with log := #[] } } with
  | .ok result session => ({ result := .ok result, log := session.renamedLog }, session)
  | .error report session => ({ result := .error report, log := session.renamedLog }, session)

end Session

end PullRange
