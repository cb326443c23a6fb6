import PullRange.Proofs.StoredScripts

/-!
# Pulling from a script

What an advance does to a store in which a range reads a script: `Store.advanced` moves the script
on by one outcome and keeps a yielded value in the cache. A cursor that is made or moved on and a
turn of a loop all come to this, and differ only in what they answer.
-/

namespace PullRange

variable {V ε : Type}

namespace Outcome

def pulled : Outcome V ε → Except (Fault ε) Bool
  | .yield _ => .ok true
  | .done _ => .ok false
  | .fail error => .error (.raised error)

def cursor : Outcome V ε → Except (Fault ε) Cursor
  | .yield _ => .ok { atEnd := false }
  | .done _ => .ok { atEnd := true }
  | .fail error => .error (.raised error)

def turned : Outcome V ε → Except (Fault ε) (Option (Cursor × V))
  | .yield value => .ok (some ({ atEnd := false }, value))
  | .done _ => .ok none
  | .fail error => .error (.raised error)

/-- What a walk answers. A parting value is not passed on. -/
def delivered : Outcome V ε → Except (Fault ε) (Step V)
  | .yield value => .ok (.yield value)
  | .done _ => .ok (.done none)
  | .fail error => .error (.raised error)

def walk : Outcome V ε → Walk
  | .yield _ => .suspended { atEnd := false }
  | .done _ => .finished
  | .fail _ => .finished

theorem delivered_of_cursor {outcome : Outcome V ε} {cursor : Cursor}
    (hcursor : outcome.cursor = .ok cursor) : ∃ step, outcome.delivered = .ok step := by
  cases outcome with
  | yield value => exact ⟨.yield value, rfl⟩
  | done parting => exact ⟨.done none, rfl⟩
  | fail error => exact nomatch hcursor

theorem delivered_of_fault {outcome : Outcome V ε} {fault : Fault ε}
    (hfault : outcome.cursor = .error fault) : outcome.delivered = .error fault := by
  cases outcome with
  | yield value => exact nomatch hfault
  | done parting => exact nomatch hfault
  | fail error => cases hfault; rfl

end Outcome

section Answered

variable {H ω : Type} {services : Services H V ε ω} {handle : H} {outcome : Outcome V ε}
  {cache : Option V} {state state' : ω}

/-- A pull asks once, and traces in the state that asking has left. -/
theorem pull_of_executor (services : Services H V ε ω) {own : Range H V}
    (hexecutor : own.executor = some handle) (state : ω) :
    Range.pull services (own, state) =
      let asked := (services.ask handle).after state
      match (services.ask handle).answer state with
      | .error fault => settle (.error fault) (own, asked)
      | .ok (.done _) =>
          let traced := services.trace "pull" (pure "exhausted")
          settle ((traced.answer asked).map fun _ => false) (own, traced.after asked)
      | .ok (.yield value) =>
          let traced := services.trace "pull" (services.text value)
          settle ((traced.answer asked).map fun _ => true)
            ({ own with cache := some value }, traced.after asked) := by
  unfold Range.pull
  rw [Action.bind_of_ok (getOwn_apply _ _)]
  simp only [hexecutor]
  rw [Action.bind_of_settle _ (onRest_apply _ _ _)]
  cases (services.ask handle).answer state with
  | error fault => rfl
  | ok step =>
      cases step with
      | done parting =>
          simp only
          rw [Action.bind_of_settle _ (onRest_apply _ _ _)]
          cases (services.trace "pull" (pure "exhausted")).answer _ <;> rfl
      | yield value =>
          simp only
          rw [Action.bind_of_ok (setOwn_apply _ _ _), Action.bind_of_settle _ (onRest_apply _ _ _)]
          cases (services.trace "pull" (services.text value)).answer _ <;> rfl

theorem pull_of_ask (hask : services.ask handle state = settle outcome.answer state')
    (htrace : ∀ tag message, services.trace tag message state' = .ok () state') :
    Range.pull services ({ executor := some handle, cache }, state) =
      settle outcome.pulled
        ({ executor := some handle, cache := outcome.value?.or cache }, state') := by
  have htraced (message : Action ε ω String) :
      services.trace "pull" message state' = settle (.ok ()) state' := htrace _ _
  rw [pull_of_executor services rfl, Action.answer_of_settle hask, Action.after_of_settle hask]
  cases outcome with
  | yield value =>
      simp only [Outcome.answer]
      rw [Action.answer_of_settle (htraced _), Action.after_of_settle (htraced _)]
      rfl
  | done parting =>
      simp only [Outcome.answer]
      rw [Action.answer_of_settle (htraced _), Action.after_of_settle (htraced _)]
      rfl
  | fail error => rfl

section Pulled

variable {own own' : Range H V}

theorem cursor_next_of_pull
    (hpull : Range.pull services (own, state) = settle outcome.pulled (own', state'))
    (cursor : Cursor) :
    cursor.next services (own, state) = settle outcome.cursor (own', state') := by
  rw [Cursor.next, Action.bind_of_settle _ hpull]
  cases outcome <;> rfl

/-- The first turn of a loop and every later one pull once and read back what the pull has left. -/
theorem turn_of_pull
    (hpull : Range.pull services (own, state) = settle outcome.pulled (own', state'))
    (hcache : ∀ value, outcome = .yield value → own'.cache = some value)
    (cursor? : Option Cursor) :
    Range.turn services cursor? (own, state) = settle outcome.turned (own', state') := by
  have hread (advance : Action ε (Range H V × ω) Cursor)
      (hadvance : advance (own, state) = settle outcome.cursor (own', state')) :
      (do
        let cursor ← advance
        if cursor.notEquals .shared then
          let value ← Range.get
          return some (cursor, value)
        else
          return none : Action ε (Range H V × ω) (Option (Cursor × V))) (own, state) =
      settle outcome.turned (own', state') := by
    rw [Action.bind_of_settle _ hadvance]
    cases outcome with
    | yield value =>
        have hget : (Range.get : Action ε (Range H V × ω) V) (own', state') =
            .ok value (own', state') := by
          rw [Range.get, Action.bind_of_ok (getOwn_apply _ _)]
          simp only [hcache value rfl]
          rfl
        exact Action.bind_of_ok hget _
    | done parting => rfl
    | fail error => rfl
  cases cursor? with
  | none => exact hread _ (cursor_next_of_pull hpull _)
  | some cursor => exact hread _ (cursor_next_of_pull hpull cursor)

end Pulled

theorem cursor_next_of_ask (hask : services.ask handle state = settle outcome.answer state')
    (htrace : ∀ tag message, services.trace tag message state' = .ok () state')
    (cursor : Cursor) :
    cursor.next services ({ executor := some handle, cache }, state) =
      settle outcome.cursor
        ({ executor := some handle, cache := outcome.value?.or cache }, state') :=
  cursor_next_of_pull (pull_of_ask hask htrace) cursor

theorem turn_of_ask (hask : services.ask handle state = settle outcome.answer state')
    (htrace : ∀ tag message, services.trace tag message state' = .ok () state')
    (cursor? : Option Cursor) :
    Range.turn services cursor? ({ executor := some handle, cache }, state) =
      settle outcome.turned
        ({ executor := some handle, cache := outcome.value?.or cache }, state') := by
  refine turn_of_pull (pull_of_ask hask htrace) ?_ cursor?
  rintro value rfl
  rfl

theorem walk_next_of_turn {turn : Turn V ε ω}
    (hturn : ∀ cursor?, turn cursor? state = settle outcome.turned state') {walk : Walk}
    (hwalk : walk ≠ .finished) :
    Walk.next turn (walk, state) = settle outcome.delivered (outcome.walk, state') := by
  have hresume (cursor? : Option Cursor) :
      Walk.resume turn cursor? (walk, state) =
        settle outcome.delivered (outcome.walk, state') := by
    rw [Walk.resume, Action.bind_of_ok (setOwn_apply _ _ _),
      Action.bind_of_settle _ (onRest_of_settle (hturn cursor?) _)]
    cases outcome <;> rfl
  cases walk with
  | unstarted => exact hresume none
  | suspended cursor => exact hresume (some cursor)
  | finished => exact absurd rfl hwalk

end Answered

namespace Store

structure Plays (number : Nat) (script : Script V ε) (store : Store V ε) : Prop where
  executor : store.executors[number]? = some { source := .script script }
  untraced : store.tracing = false

/-- Range `range` holds executor `number`, which is a script, and nothing is traced. -/
structure Reads (range number : Nat) (script : Script V ε) (cache : Option V)
    (store : Store V ε) : Prop extends store.Plays number script where
  range : store.ranges[range]? = some { executor := some number, cache }

def rangeAfter (number : Nat) (script : Script V ε) (cache : Option V) : Range Nat V :=
  { executor := some number, cache := script.upcoming.value?.or cache }

@[simps]
def advanced (range number : Nat) (script : Script V ε) (cache : Option V) (store : Store V ε) :
    Store V ε :=
  { store.pulled number script with
    ranges := store.ranges.setIfInBounds range (rangeAfter number script cache) }

section Pull

variable {range number bound : Nat} {script : Script V ε} {cache : Option V} {store : Store V ε}

theorem Plays.pull (hplays : store.Plays number script) :
    (store.pulled number script).Plays number (script.later 1) where
  executor := asking_executor hplays.executor
  untraced := hplays.untraced

theorem Reads.lt_size (hreads : store.Reads range number script cache) :
    range < store.ranges.size :=
  lt_size_of_range hreads.range

theorem Reads.advance (hreads : store.Reads range number script cache) :
    (store.advanced range number script cache).Reads range number (script.later 1)
      (script.upcoming.value?.or cache) where
  executor := hreads.toPlays.pull.executor
  untraced := hreads.toPlays.pull.untraced
  range := by simp [rangeAfter, hreads.lt_size]

variable [Textual V ε]

omit [Textual V ε] in
theorem Plays.untraced_after (hplays : store.Plays number script) (tag : String)
    (message : Act V ε String) :
    trace tag message (store.pulled number script) = .ok () (store.pulled number script) :=
  trace_of_untraced hplays.pull.untraced tag message

theorem cursor_next_apply (hplays : store.Plays number script) (hlt : number < bound)
    (cursor : Cursor) :
    cursor.next (servicesBelow bound) ({ executor := some number, cache }, store) =
      settle script.upcoming.cursor
        (rangeAfter number script cache, store.pulled number script) := by
  refine cursor_next_of_ask (ask_of_script hplays.executor hlt) ?_ cursor
  rw [servicesBelow_trace]
  exact hplays.untraced_after

theorem turn_apply (hplays : store.Plays number script) (hlt : number < bound)
    (cursor? : Option Cursor) :
    Range.turn (servicesBelow bound) cursor? ({ executor := some number, cache }, store) =
      settle script.upcoming.turned
        (rangeAfter number script cache, store.pulled number script) := by
  refine turn_of_ask (ask_of_script hplays.executor hlt) ?_ cursor?
  rw [servicesBelow_trace]
  exact hplays.untraced_after

omit [Textual V ε] in
theorem Reads.focus {α : Type} {action : Action ε (Range Nat V × Store V ε) α}
    {answer : Except (Fault ε) α} (hreads : store.Reads range number script cache)
    (haction : action ({ executor := some number, cache }, store) =
      settle answer (rangeAfter number script cache, store.pulled number script)) :
    (rangeAt range).focus action store =
      settle answer (store.advanced range number script cache) :=
  Place.focus_of_settle hreads.range haction

theorem turnOn_apply (hreads : store.Reads range number script cache) (hlt : number < bound)
    (cursor? : Option Cursor) :
    turnOn (servicesBelow bound) range cursor? store =
      settle script.upcoming.turned (store.advanced range number script cache) :=
  hreads.focus (turn_apply hreads.toPlays hlt cursor?)

theorem walk_next_apply (hreads : store.Reads range number script cache) (hlt : number < bound)
    {walk : Walk} (hwalk : walk ≠ .finished) :
    Walk.next (turnOn (servicesBelow bound) range) (walk, store) =
      settle script.upcoming.delivered
        (script.upcoming.walk, store.advanced range number script cache) :=
  walk_next_of_turn (turnOn_apply hreads hlt) hwalk

@[simps]
def binding (range : Nat) (cursor : Cursor) (store : Store V ε) : Store V ε :=
  { store with cursors := store.cursors.push (range, cursor) }

omit [Textual V ε] in
theorem Reads.binding (hreads : store.Reads range number script cache) (cursor : Cursor) :
    (store.binding range cursor).Reads range number script cache where
  executor := hreads.executor
  untraced := hreads.untraced
  range := hreads.range

omit [Textual V ε] in
theorem binding_entry (range : Nat) (cursor : Cursor) (store : Store V ε) :
    (store.binding range cursor).cursors[store.cursors.size]? = some (range, cursor) := by
  simp

theorem start_focus (hreads : store.Reads range number script cache) :
    (rangeAt range).focus (Cursor.start store.services) store =
      settle script.upcoming.cursor (store.advanced range number script cache) :=
  hreads.focus (cursor_next_apply hreads.toPlays (lt_size_of_executor hreads.executor) _)

theorem start_eq_focus (range : Nat) (store : Store V ε) :
    start range store =
      match (rangeAt range).focus (Cursor.start store.services) store with
      | .ok cursor store' => .ok store'.cursors.size (store'.binding range cursor)
      | .error fault store' => .error fault store' := by
  rw [start, Action.bind_of_ok (Action.get_apply store), Action.bind_apply]
  cases (rangeAt range).focus (Cursor.start store.services) store <;> rfl

theorem start_of_cursor {cursor : Cursor} (hreads : store.Reads range number script cache)
    (hcursor : script.upcoming.cursor = .ok cursor) :
    start range store =
      .ok store.cursors.size ((store.advanced range number script cache).binding range cursor) := by
  rw [start_eq_focus, start_focus hreads, hcursor]
  rfl

theorem start_of_failure {fault : Fault ε} (hreads : store.Reads range number script cache)
    (hfault : script.upcoming.cursor = .error fault) :
    start range store = .error fault (store.advanced range number script cache) := by
  rw [start_eq_focus, start_focus hreads, hfault]
  rfl

variable {place : Nat} {current : Cursor}

omit [Textual V ε] in
theorem Reads.putCursor (hreads : store.Reads range number script cache) (cursor : Cursor) :
    ((cursorAt place).put cursor store).Reads range number script cache where
  executor := hreads.executor
  untraced := hreads.untraced
  range := hreads.range

theorem advance_eq_focus (hentry : store.cursors[place]? = some (range, current)) :
    advance place store =
      match (rangeAt range).focus (current.next store.services) store with
      | .ok cursor store' => .ok () ((cursorAt place).put cursor store')
      | .error fault store' => .error fault store' := by
  rw [advance, Action.bind_of_ok (rangeOfCursor_of_entry hentry),
    Action.bind_of_ok (Place.read_of_find (cursorAt_find hentry)),
    Action.bind_of_ok (Action.get_apply store), Action.bind_apply]
  cases (rangeAt range).focus (current.next store.services) store <;> rfl

theorem advance_apply (hreads : store.Reads range number script cache)
    (hentry : store.cursors[place]? = some (range, current)) :
    advance place store =
      match script.upcoming.cursor with
      | .ok cursor =>
          .ok () ((cursorAt place).put cursor (store.advanced range number script cache))
      | .error fault => .error fault (store.advanced range number script cache) := by
  have hfocus : (rangeAt range).focus (current.next store.services) store =
      settle script.upcoming.cursor (store.advanced range number script cache) :=
    hreads.focus (cursor_next_apply hreads.toPlays (lt_size_of_executor hreads.executor) current)
  rw [advance_eq_focus hentry, hfocus]
  cases script.upcoming <;> rfl

omit [Textual V ε] in
theorem valueAt_of_entry {value : V} (hreads : store.Reads range number script (some value))
    (hentry : store.cursors[place]? = some (range, current)) :
    valueAt place store = .ok value store := by
  have hget : (Range.get : Action ε (Range Nat V × Store V ε) V)
      ({ executor := some number, cache := some value }, store) =
        settle (.ok value) ({ executor := some number, cache := some value }, store) := rfl
  rw [valueAt, Action.bind_of_ok (rangeOfCursor_of_entry hentry)]
  exact focus_range_of_same hreads.range hget

end Pull

end Store

end PullRange
