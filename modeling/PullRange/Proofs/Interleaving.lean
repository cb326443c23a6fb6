import PullRange.Proofs.Pulling
import PullRange.Value

/-!
# Interleaved drivers

One range is driven by any number of cursors and walks, which are made and moved on in any order.
Drivers are numbered from the first one that is made in the run, so that the store may hold others,
of this or of other ranges, which then stand still. `Drivers` is what their owner knows from the
answers alone; it decides which drives count as advances.
-/

namespace PullRange.Store

variable {V ε : Type}

inductive Drive where
  | start
  | advance (cursor : Nat)
  | makeWalk
  | walkOn (walk : Nat)
  | stopWalk (walk : Nat)
  deriving DecidableEq, Repr

/-- How many cursors and walks were made, and which walks have come to their end, failed or been
stopped. -/
structure Drivers where
  cursors : Nat
  walks : Nat
  ended : List Nat

namespace Drivers

def none : Drivers :=
  { cursors := 0, walks := 0, ended := [] }

/-- Only a drive of a cursor that exists, or of a walk that exists and has not ended, advances. -/
def advances (drivers : Drivers) : Drive → Bool
  | .start => true
  | .advance cursor => cursor < drivers.cursors
  | .makeWalk => false
  | .walkOn walk => walk < drivers.walks && !drivers.ended.contains walk
  | .stopWalk _ => false

def endWalk (drivers : Drivers) (walk : Nat) : Drivers :=
  if walk < drivers.walks then { drivers with ended := walk :: drivers.ended } else drivers

def after (drivers : Drivers) :
    Drive → Except (Fault ε) (Option (Step V)) → Drivers
  | .start, .ok _ => { drivers with cursors := drivers.cursors + 1 }
  | .start, .error _ => drivers
  | .advance _, _ => drivers
  | .makeWalk, _ => { drivers with walks := drivers.walks + 1 }
  | .walkOn _, .ok (some (.yield _)) => drivers
  | .walkOn walk, _ => drivers.endWalk walk
  | .stopWalk walk, _ => drivers.endWalk walk

end Drivers

/-- What a cursor has come to: the end, or the value that it stands on. -/
def standing (cursor : Nat) : Act V ε (Step V) := do
  let current ← (cursorAt cursor).read
  if current.atEnd then
    return .done none
  else
    let value ← valueAt cursor
    return .yield value

def perform [Textual V ε] (origin : Store V ε) (range : Nat) :
    Drive → Act V ε (Option (Step V))
  | .start => do
      let cursor ← start range
      let step ← standing cursor
      return some step
  | .advance cursor => do
      advance (origin.cursors.size + cursor)
      let step ← standing (origin.cursors.size + cursor)
      return some step
  | .makeWalk => do
      let _ ← addWalk range
      return none
  | .walkOn walk => do
      let step ← walkOn (origin.walks.size + walk)
      return some step
  | .stopWalk walk => do
      stopWalk (origin.walks.size + walk)
      return none

/-! ## What drivers look like in the store -/

/-- The store holds the range, which reads the script, and the drivers that were made since
`origin`. The walks that have ended are those that are finished. -/
structure Driven (origin : Store V ε) (range number : Nat) (script : Script V ε)
    (cache : Option V) (drivers : Drivers) (store : Store V ε) : Prop where
  reads : store.Reads range number script cache
  cursors : store.cursors.size = origin.cursors.size + drivers.cursors
  cursor : ∀ cursor entry, store.cursors[origin.cursors.size + cursor]? = some entry →
    entry.1 = range
  walks : store.walks.size = origin.walks.size + drivers.walks
  walk : ∀ walk entry, store.walks[origin.walks.size + walk]? = some entry →
    entry.1 = range ∧ (entry.2 = .finished ↔ walk ∈ drivers.ended)
  ended : ∀ walk ∈ drivers.ended, walk < drivers.walks

section Walks

variable {range number walk : Nat} {script : Script V ε} {cache : Option V} {store : Store V ε}
  {own : Walk}

variable [Textual V ε]

theorem walkOn_of_entry (hreads : store.Reads range number script cache)
    (hentry : store.walks[walk]? = some (range, own)) (hown : own ≠ .finished) :
    walkOn walk store = settle script.upcoming.delivered
      ((walkAt walk).put script.upcoming.walk (store.advanced range number script cache)) := by
  have hnext := walk_next_apply hreads (lt_size_of_executor hreads.executor) hown
  rw [walkOn_eq_focus hentry]
  exact Place.focus_of_settle (walkAt_find hentry) hnext

theorem walkOn_of_finished (hentry : store.walks[walk]? = some (range, .finished)) :
    walkOn walk store = .ok (.done none) store := by
  have hnext : Walk.next (turnOn store.services range) (.finished, store) =
      settle (.ok (.done none)) (.finished, store) := Walk.next_of_finished _ _
  have hfocus := Place.focus_of_settle (walkAt_find hentry) hnext
  rw [putWalk_self hentry] at hfocus
  rw [walkOn_eq_focus hentry]
  exact hfocus

theorem walkOn_of_missing (hentry : store.walks[walk]? = none) :
    walkOn walk store = .error .missing store := by
  rw [walkOn, Action.bind_of_ok (Action.get_apply store)]
  simp only [hentry]
  rfl

omit [Textual V ε] in
theorem stopWalk_of_entry (hentry : store.walks[walk]? = some (range, own)) :
    stopWalk walk store = .ok ⟨⟩ ((walkAt walk).put .finished store) := by
  rw [stopWalk, Action.bind_of_ok (Place.read_of_find (walkAt_find hentry))]
  rfl

omit [Textual V ε] in
theorem stopWalk_of_missing (hentry : store.walks[walk]? = none) :
    stopWalk walk store = .error .missing store := by
  have hfind : (walkAt walk).find store = none := by simp [walkAt, hentry]
  rw [stopWalk]
  exact Action.bind_of_error (Place.read_of_missing hfind) _

end Walks

section Driven

variable {origin store : Store V ε} {range number : Nat} {script : Script V ε} {cache : Option V}
  {drivers : Drivers}

theorem Driven.advanced (hdriven : Driven origin range number script cache drivers store) :
    Driven origin range number (script.later 1) (script.upcoming.value?.or cache) drivers
      (store.advanced range number script cache) where
  reads := hdriven.reads.advance
  cursors := hdriven.cursors
  cursor := hdriven.cursor
  walks := hdriven.walks
  walk := hdriven.walk
  ended := hdriven.ended

theorem Driven.binding (hdriven : Driven origin range number script cache drivers store)
    (current : Cursor) :
    Driven origin range number script cache { drivers with cursors := drivers.cursors + 1 }
      (store.binding range current) where
  reads := hdriven.reads.binding current
  cursors := by
    have hsize := hdriven.cursors
    simp only [binding_cursors, Array.size_push]
    omega
  cursor := by
    intro cursor entry hentry
    rw [binding_cursors, Array.getElem?_push] at hentry
    split at hentry
    · cases hentry
      rfl
    · exact hdriven.cursor cursor entry hentry
  walks := hdriven.walks
  walk := hdriven.walk
  ended := hdriven.ended

theorem Driven.putCursor (hdriven : Driven origin range number script cache drivers store)
    (place : Nat) (current : Cursor) :
    Driven origin range number script cache drivers ((cursorAt place).put current store) where
  reads := hdriven.reads.putCursor current
  cursors := by
    have hsize := hdriven.cursors
    simpa [cursorAt] using hsize
  cursor := by
    intro cursor entry hentry
    simp only [cursorAt, Array.getElem?_modify] at hentry
    split at hentry
    · obtain ⟨former, hformer, rfl⟩ := Option.map_eq_some_iff.mp hentry
      exact hdriven.cursor cursor former hformer
    · exact hdriven.cursor cursor entry hentry
  walks := hdriven.walks
  walk := hdriven.walk
  ended := hdriven.ended

theorem Driven.addWalk (hdriven : Driven origin range number script cache drivers store) :
    Driven origin range number script cache { drivers with walks := drivers.walks + 1 }
      { store with walks := store.walks.push (range, .unstarted) } where
  reads := ⟨⟨hdriven.reads.executor, hdriven.reads.untraced⟩, hdriven.reads.range⟩
  cursors := hdriven.cursors
  cursor := hdriven.cursor
  walks := by
    have hsize := hdriven.walks
    simp only [Array.size_push]
    omega
  walk := by
    intro walk entry hentry
    rw [Array.getElem?_push] at hentry
    split at hentry
    · cases hentry
      rename_i hlast
      rw [hdriven.walks] at hlast
      refine ⟨rfl, nofun, fun hended => ?_⟩
      have hlt := hdriven.ended walk hended
      omega
    · exact hdriven.walk walk entry hentry
  ended := fun walk hended => Nat.lt_succ_of_lt (hdriven.ended walk hended)

theorem Driven.putWalk (hdriven : Driven origin range number script cache drivers store)
    (walk : Nat) (own : Walk) {ended : List Nat}
    (hended : own = .finished ↔ walk ∈ ended)
    (hothers : ∀ other, other ≠ walk → (other ∈ ended ↔ other ∈ drivers.ended))
    (hlt : walk < drivers.walks) :
    Driven origin range number script cache { drivers with ended }
      ((walkAt (origin.walks.size + walk)).put own store) where
  reads := ⟨⟨hdriven.reads.executor, hdriven.reads.untraced⟩, hdriven.reads.range⟩
  cursors := hdriven.cursors
  cursor := hdriven.cursor
  walks := by
    have hsize := hdriven.walks
    simpa [walkAt] using hsize
  walk := by
    intro other entry hentry
    simp only [walkAt, Array.getElem?_modify] at hentry
    split at hentry
    · obtain ⟨former, hformer, rfl⟩ := Option.map_eq_some_iff.mp hentry
      have hsame : walk = other := by omega
      subst hsame
      exact ⟨(hdriven.walk walk former hformer).1, hended⟩
    · have hother : other ≠ walk := by omega
      have hwalk := hdriven.walk other entry hentry
      exact ⟨hwalk.1, hwalk.2.trans (hothers other hother).symm⟩
  ended := by
    intro other hother
    by_cases hsame : other = walk
    · exact hsame ▸ hlt
    · exact hdriven.ended other ((hothers other hsame).mp hother)

theorem Driven.endWalk (hdriven : Driven origin range number script cache drivers store)
    {walk : Nat} (hlt : walk < drivers.walks) :
    Driven origin range number script cache (drivers.endWalk walk)
      ((walkAt (origin.walks.size + walk)).put .finished store) := by
  unfold Drivers.endWalk
  rw [if_pos hlt]
  refine hdriven.putWalk walk .finished ?_ ?_ hlt
  · simp
  · intro other hother
    simp [hother]

theorem Driven.suspend (hdriven : Driven origin range number script cache drivers store)
    {walk : Nat} (hlt : walk < drivers.walks) (hgoing : walk ∉ drivers.ended) (cursor : Cursor) :
    Driven origin range number script cache drivers
      ((walkAt (origin.walks.size + walk)).put (.suspended cursor) store) :=
  hdriven.putWalk walk (.suspended cursor) ⟨nofun, fun hended => absurd hended hgoing⟩
    (fun _ _ => Iff.rfl) hlt

theorem Driven.cursor_entry (hdriven : Driven origin range number script cache drivers store)
    {cursor : Nat} (hlt : cursor < drivers.cursors) :
    ∃ current, store.cursors[origin.cursors.size + cursor]? = some (range, current) := by
  have hplace : origin.cursors.size + cursor < store.cursors.size := by
    rw [hdriven.cursors]
    omega
  have hentry := Array.getElem?_eq_getElem hplace
  have howner := hdriven.cursor cursor _ hentry
  refine ⟨store.cursors[origin.cursors.size + cursor].2, ?_⟩
  rw [hentry, ← howner]

theorem Driven.walk_entry (hdriven : Driven origin range number script cache drivers store)
    {walk : Nat} (hlt : walk < drivers.walks) :
    ∃ own, store.walks[origin.walks.size + walk]? = some (range, own) ∧
      (own = .finished ↔ walk ∈ drivers.ended) := by
  have hplace : origin.walks.size + walk < store.walks.size := by
    rw [hdriven.walks]
    omega
  have hentry := Array.getElem?_eq_getElem hplace
  obtain ⟨howner, hfinished⟩ := hdriven.walk walk _ hentry
  refine ⟨store.walks[origin.walks.size + walk].2, ?_, hfinished⟩
  rw [hentry, ← howner]

end Driven

section Perform

variable [Textual V ε] {origin store : Store V ε} {range number place : Nat} {script : Script V ε}
  {cache : Option V} {drivers : Drivers} {drive : Drive}

omit [Textual V ε] in
theorem standing_of_cursor {current : Cursor} {later : Script V ε}
    (hcursor : script.upcoming.cursor = .ok current)
    (hreads : store.Reads range number later (script.upcoming.value?.or cache))
    (hentry : store.cursors[place]? = some (range, current)) :
    standing place store = settle script.upcoming.delivered store := by
  rw [standing, Action.bind_of_ok (Place.read_of_find (cursorAt_find hentry))]
  cases houtcome : script.upcoming with
  | yield value =>
      rw [houtcome] at hcursor hreads
      cases hcursor
      simp only [Bool.false_eq_true, ↓reduceIte]
      rw [Action.bind_of_ok (valueAt_of_entry hreads hentry)]
      rfl
  | done parting =>
      rw [houtcome] at hcursor
      cases hcursor
      rfl
  | fail error =>
      rw [houtcome] at hcursor
      exact nomatch hcursor

/-- The drive asks the script once and hands the outcome on. -/
def Receives (origin : Store V ε) (range number : Nat) (script : Script V ε) (cache : Option V)
    (drivers : Drivers) (drive : Drive) (store : Store V ε) : Prop :=
  ∃ after, perform origin range drive store =
      settle (script.upcoming.delivered.map some) after ∧
    after.calls = store.calls.push (.ask number) ∧
    Driven origin range number (script.later 1) (script.upcoming.value?.or cache)
      (drivers.after drive (script.upcoming.delivered.map some)) after

theorem start_receives (hdriven : Driven origin range number script cache drivers store) :
    Receives origin range number script cache drivers .start store := by
  have hadvanced := hdriven.advanced
  cases hcursor : script.upcoming.cursor with
  | ok cursor =>
      have hbound := hadvanced.binding cursor
      have hentry := binding_entry range cursor (store.advanced range number script cache)
      have hstanding := standing_of_cursor hcursor hbound.reads hentry
      obtain ⟨step, hstep⟩ := Outcome.delivered_of_cursor hcursor
      unfold Receives
      rw [hstep] at hstanding ⊢
      refine ⟨(store.advanced range number script cache).binding range cursor, ?_, ?_, hbound⟩
      · rw [perform, Action.bind_of_ok (start_of_cursor hdriven.reads hcursor)]
        exact Action.bind_of_ok hstanding _
      · simp
  | error fault =>
      have hfault := Outcome.delivered_of_fault hcursor
      unfold Receives
      rw [hfault]
      refine ⟨store.advanced range number script cache, ?_, by simp, hadvanced⟩
      rw [perform]
      exact Action.bind_of_error (start_of_failure hdriven.reads hcursor) _

theorem advance_receives (hdriven : Driven origin range number script cache drivers store)
    {cursor : Nat} (hlt : cursor < drivers.cursors) :
    Receives origin range number script cache drivers (.advance cursor) store := by
  obtain ⟨current, hentry⟩ := hdriven.cursor_entry hlt
  have hadvanced := hdriven.advanced
  have hadvance := advance_apply hdriven.reads hentry
  cases hcursor : script.upcoming.cursor with
  | ok next =>
      rw [hcursor] at hadvance
      have hput := hadvanced.putCursor (origin.cursors.size + cursor) next
      have hold : (store.advanced range number script cache).cursors[origin.cursors.size + cursor]? =
          some (range, current) := hentry
      have hstanding := standing_of_cursor hcursor hput.reads (putCursor_entry hold next)
      obtain ⟨step, hstep⟩ := Outcome.delivered_of_cursor hcursor
      unfold Receives
      rw [hstep] at hstanding ⊢
      refine ⟨(cursorAt (origin.cursors.size + cursor)).put next
        (store.advanced range number script cache), ?_, ?_, hput⟩
      · rw [perform, Action.bind_of_ok hadvance]
        exact Action.bind_of_ok hstanding _
      · simp [cursorAt]
  | error fault =>
      rw [hcursor] at hadvance
      have hfault := Outcome.delivered_of_fault hcursor
      unfold Receives
      rw [hfault]
      refine ⟨store.advanced range number script cache, ?_, by simp, hadvanced⟩
      rw [perform]
      exact Action.bind_of_error hadvance _

theorem walkOn_receives (hdriven : Driven origin range number script cache drivers store)
    {walk : Nat} (hlt : walk < drivers.walks) (hgoing : walk ∉ drivers.ended) :
    Receives origin range number script cache drivers (.walkOn walk) store := by
  obtain ⟨own, hentry, hfinished⟩ := hdriven.walk_entry hlt
  have hadvanced := hdriven.advanced
  have hwalkOn := walkOn_of_entry hdriven.reads hentry fun hown => hgoing (hfinished.mp hown)
  unfold Receives
  refine ⟨(walkAt (origin.walks.size + walk)).put script.upcoming.walk
    (store.advanced range number script cache), ?_, by simp [walkAt], ?_⟩
  · rw [perform, Action.bind_of_settle _ hwalkOn]
    cases script.upcoming <;> rfl
  · cases houtcome : script.upcoming with
    | yield value =>
        rw [houtcome] at hadvanced
        exact hadvanced.suspend hlt hgoing _
    | done parting =>
        rw [houtcome] at hadvanced
        exact hadvanced.endWalk hlt
    | fail error =>
        rw [houtcome] at hadvanced
        exact hadvanced.endWalk hlt

theorem receives_of_advances (hdriven : Driven origin range number script cache drivers store)
    (hadvances : drivers.advances drive = true) :
    Receives origin range number script cache drivers drive store := by
  cases drive with
  | start => exact start_receives hdriven
  | advance cursor => exact advance_receives hdriven (of_decide_eq_true hadvances)
  | makeWalk => exact nomatch hadvances
  | walkOn walk =>
      simp only [Drivers.advances, Bool.and_eq_true, decide_eq_true_eq, Bool.not_eq_true',
        List.contains_eq_mem, decide_eq_false_iff_not] at hadvances
      exact walkOn_receives hdriven hadvances.1 hadvances.2
  | stopWalk walk => exact nomatch hadvances

def brought? : Except (Fault ε) (Option (Step V)) → Option V
  | .ok (some (.yield value)) => some value
  | _ => none

/-- The drive brings nothing, and touches neither the range nor any executor. -/
def Idles (origin : Store V ε) (range number : Nat) (script : Script V ε) (cache : Option V)
    (drivers : Drivers) (drive : Drive) (store : Store V ε) : Prop :=
  ∃ answer after, perform origin range drive store = settle answer after ∧
    brought? answer = none ∧
    after.ranges = store.ranges ∧ after.executors = store.executors ∧ after.calls = store.calls ∧
    Driven origin range number script cache (drivers.after drive answer) after

omit [Textual V ε] in
theorem walk_finished_of_ended (hdriven : Driven origin range number script cache drivers store)
    {walk : Nat} (hended : walk ∈ drivers.ended) :
    store.walks[origin.walks.size + walk]? = some (range, .finished) := by
  obtain ⟨own, hentry, hfinished⟩ := hdriven.walk_entry (hdriven.ended walk hended)
  rw [hentry, hfinished.mpr hended]

theorem advance_idles (hdriven : Driven origin range number script cache drivers store)
    {cursor : Nat} (hmissing : ¬cursor < drivers.cursors) :
    Idles origin range number script cache drivers (.advance cursor) store := by
  have hentry : store.cursors[origin.cursors.size + cursor]? = none := by
    rw [Array.getElem?_eq_none_iff, hdriven.cursors]
    omega
  have hadvance : advance (origin.cursors.size + cursor) store = .error .missing store := by
    rw [advance]
    exact Action.bind_of_error (rangeOfCursor_of_missing hentry) _
  refine ⟨.error .missing, store, ?_, rfl, rfl, rfl, rfl, hdriven⟩
  rw [perform]
  exact Action.bind_of_error hadvance _

theorem walkOn_idles (hdriven : Driven origin range number script cache drivers store)
    {walk : Nat} (hwalk : walk < drivers.walks → walk ∈ drivers.ended) :
    Idles origin range number script cache drivers (.walkOn walk) store := by
  by_cases hlt : walk < drivers.walks
  · have hentry := walk_finished_of_ended hdriven (hwalk hlt)
    have hended := hdriven.endWalk hlt
    rw [putWalk_self hentry] at hended
    refine ⟨.ok (some (.done none)), store, ?_, rfl, rfl, rfl, rfl, hended⟩
    rw [perform]
    exact Action.bind_of_ok (walkOn_of_finished hentry) _
  · have hentry : store.walks[origin.walks.size + walk]? = none := by
      rw [Array.getElem?_eq_none_iff, hdriven.walks]
      omega
    have hsame : drivers.endWalk walk = drivers := if_neg hlt
    have hkept : Driven origin range number script cache (drivers.endWalk walk) store := by
      rw [hsame]
      exact hdriven
    refine ⟨.error .missing, store, ?_, rfl, rfl, rfl, rfl, hkept⟩
    rw [perform]
    exact Action.bind_of_error (walkOn_of_missing hentry) _

theorem stopWalk_idles (hdriven : Driven origin range number script cache drivers store)
    (walk : Nat) : Idles origin range number script cache drivers (.stopWalk walk) store := by
  cases hentry : store.walks[origin.walks.size + walk]? with
  | none =>
      have hlt : ¬walk < drivers.walks := by
        rw [Array.getElem?_eq_none_iff, hdriven.walks] at hentry
        omega
      have hsame : drivers.endWalk walk = drivers := if_neg hlt
      have hkept : Driven origin range number script cache (drivers.endWalk walk) store := by
        rw [hsame]
        exact hdriven
      refine ⟨.error .missing, store, ?_, rfl, rfl, rfl, rfl, hkept⟩
      rw [perform]
      exact Action.bind_of_error (stopWalk_of_missing hentry) _
  | some entry =>
      have hlt : walk < drivers.walks := by
        have hsize := (Array.getElem?_eq_some_iff.mp hentry).1
        rw [hdriven.walks] at hsize
        omega
      refine ⟨.ok none, (walkAt (origin.walks.size + walk)).put .finished store, ?_, rfl, rfl,
        rfl, rfl, hdriven.endWalk hlt⟩
      rw [perform]
      exact Action.bind_of_ok (stopWalk_of_entry hentry) _

theorem idles_of_not_advances
    (hdriven : Driven origin range number script cache drivers store)
    (hidle : drivers.advances drive = false) :
    Idles origin range number script cache drivers drive store := by
  cases drive with
  | start => exact nomatch hidle
  | advance cursor => exact advance_idles hdriven (of_decide_eq_false hidle)
  | makeWalk => exact ⟨.ok none, _, rfl, rfl, rfl, rfl, rfl, hdriven.addWalk⟩
  | walkOn walk =>
      refine walkOn_idles hdriven fun hlt => ?_
      simpa [Drivers.advances, hlt] using hidle
  | stopWalk walk => exact stopWalk_idles hdriven walk

end Perform

structure Record (V ε : Type) where
  drive : Drive
  advanced : Bool
  answer : Except (Fault ε) (Option (Step V))

def Record.value? (record : Record V ε) : Option V :=
  brought? record.answer

structure History (V ε : Type) where
  drivers : Drivers
  records : List (Record V ε)
  store : Store V ε

namespace History

def advances (history : History V ε) : List (Record V ε) :=
  history.records.filter (·.advanced)

def values (history : History V ε) : List V :=
  history.records.filterMap Record.value?

variable [Textual V ε]

def extend (origin : Store V ε) (range : Nat) (history : History V ε) (drive : Drive) :
    History V ε :=
  let answer := (perform origin range drive).answer history.store
  { drivers := history.drivers.after drive answer
    records := history.records ++
      [{ drive, advanced := history.drivers.advances drive, answer }]
    store := (perform origin range drive).after history.store }

def settled (history : History V ε) (drive : Drive)
    (answer : Except (Fault ε) (Option (Step V))) (after : Store V ε) : History V ε :=
  { drivers := history.drivers.after drive answer
    records := history.records ++
      [{ drive, advanced := history.drivers.advances drive, answer }]
    store := after }

theorem extend_of_settle {origin after : Store V ε} {range : Nat} {history : History V ε}
    {drive : Drive} {answer : Except (Fault ε) (Option (Step V))}
    (hperform : perform origin range drive history.store = settle answer after) :
    history.extend origin range drive = history.settled drive answer after := by
  unfold extend settled
  simp only
  rw [Action.answer_of_settle hperform, Action.after_of_settle hperform]

def run (origin : Store V ε) (range : Nat) (drives : List Drive) : History V ε :=
  drives.foldl (extend origin range) { drivers := .none, records := [], store := origin }

end History

/-- The advances of the history account for every outcome that was played, in order. -/
structure Accounts (origin : Store V ε) (range number : Nat) (script : Script V ε)
    (cache : Option V) (history : History V ε) : Prop where
  driven : Driven origin range number (script.later history.advances.length)
    (history.values.getLast?.or cache) history.drivers history.store
  answers : history.advances.map Record.answer =
    (List.range history.advances.length).map fun call => (script.coming call).delivered.map some
  values : history.values =
    (List.range history.advances.length).filterMap fun call => (script.coming call).value?
  calls : history.store.calls =
    origin.calls ++ Array.replicate history.advances.length (.ask number)

section Runs

variable {origin : Store V ε} {range number : Nat} {script : Script V ε} {cache : Option V}
  {history : History V ε}

theorem driven_origin (hreads : origin.Reads range number script cache) :
    Driven origin range number script cache .none origin where
  reads := hreads
  cursors := rfl
  cursor := by
    intro cursor entry hentry
    have hlt := (Array.getElem?_eq_some_iff.mp hentry).1
    omega
  walks := rfl
  walk := by
    intro walk entry hentry
    have hlt := (Array.getElem?_eq_some_iff.mp hentry).1
    omega
  ended := nofun

theorem accounts_origin (hreads : origin.Reads range number script cache) :
    Accounts origin range number script cache
      { drivers := .none, records := [], store := origin } where
  driven := driven_origin hreads
  answers := rfl
  values := rfl
  calls := by simp [History.advances]

variable [Textual V ε]

theorem accounts_of_receives (haccounts : Accounts origin range number script cache history)
    {drive : Drive} (hadvances : history.drivers.advances drive = true) :
    Accounts origin range number script cache (history.extend origin range drive) := by
  obtain ⟨after, hperform, hcalls, hdriven⟩ :=
    receives_of_advances haccounts.driven hadvances
  -- The advances so far have used up as many outcomes, so the next one is known by their number.
  have hupcoming : (script.later history.advances.length).upcoming =
      script.coming history.advances.length := rfl
  rw [hupcoming] at hperform hdriven
  rw [History.extend_of_settle hperform]
  generalize houtcome : script.coming history.advances.length = outcome at hdriven
  let answer := outcome.delivered.map some
  have hadvanced : (history.settled drive answer after).advances =
      history.advances ++ [{ drive, advanced := true, answer }] := by
    simp [History.settled, History.advances, hadvances]
  have hlength : (history.settled drive answer after).advances.length =
      history.advances.length + 1 := by
    rw [hadvanced, List.length_append, List.length_singleton]
  have hvalues : (history.settled drive answer after).values =
      history.values ++ outcome.value?.toList := by
    cases outcome <;>
      simp [answer, History.settled, History.values, Record.value?, brought?, Outcome.delivered,
        Outcome.value?, Except.map]
  constructor
  · rw [hlength, hvalues, ← Script.later_later]
    have hcache : (history.values ++ outcome.value?.toList).getLast?.or cache =
        outcome.value?.or (history.values.getLast?.or cache) := by
      cases outcome.value? <;> simp
    rw [hcache]
    exact hdriven
  · rw [hlength, hadvanced, List.range_succ, List.map_append, List.map_append, haccounts.answers,
      List.map_singleton, List.map_singleton, houtcome]
  · rw [hlength, hvalues, List.range_succ, List.filterMap_append, haccounts.values]
    cases houtcome' : outcome.value? <;> simp [houtcome, houtcome']
  · calc
      after.calls = history.store.calls.push (.ask number) := hcalls
      _ = origin.calls ++ (Array.replicate history.advances.length (.ask number)).push
          (.ask number) := by
        rw [haccounts.calls, Array.push_append]
      _ = origin.calls ++ Array.replicate (history.advances.length + 1) (.ask number) := by
        rw [Array.replicate_succ]
      _ = _ := by rw [hlength]

theorem accounts_of_idles (haccounts : Accounts origin range number script cache history)
    {drive : Drive} (hidle : history.drivers.advances drive = false) :
    Accounts origin range number script cache (history.extend origin range drive) := by
  obtain ⟨answer, after, hperform, hbarren, _, _, hcalls, hdriven⟩ :=
    idles_of_not_advances haccounts.driven hidle
  rw [History.extend_of_settle hperform]
  have hadvances : (history.settled drive answer after).advances = history.advances := by
    simp [History.settled, History.advances, hidle]
  have hvalues : (history.settled drive answer after).values = history.values := by
    have hnone : Record.value? { drive, advanced := history.drivers.advances drive, answer } =
        none := hbarren
    simp [History.settled, History.values, hnone]
  constructor
  · rw [hadvances, hvalues]
    exact hdriven
  · rw [hadvances]
    exact haccounts.answers
  · rw [hadvances, hvalues]
    exact haccounts.values
  · rw [hadvances]
    exact hcalls.trans haccounts.calls

theorem accounts_run (hreads : origin.Reads range number script cache) (drives : List Drive) :
    Accounts origin range number script cache (History.run origin range drives) := by
  have hextends (history : History V ε) (drives : List Drive)
      (haccounts : Accounts origin range number script cache history) :
      Accounts origin range number script cache
        (drives.foldl (History.extend origin range) history) := by
    induction drives generalizing history with
    | nil => exact haccounts
    | cons drive drives ih =>
        refine ih _ ?_
        cases hadvances : history.drivers.advances drive with
        | true => exact accounts_of_receives haccounts hadvances
        | false => exact accounts_of_idles haccounts hadvances
  exact hextends _ drives (accounts_origin hreads)

omit [Textual V ε] in
theorem Drivers.mem_ended_after (drivers : Drivers) (drive : Drive)
    (answer : Except (Fault ε) (Option (Step V))) {walk : Nat} (hended : walk ∈ drivers.ended) :
    walk ∈ (drivers.after drive answer).ended := by
  have hendWalk (other : Nat) : walk ∈ (drivers.endWalk other).ended := by
    unfold endWalk
    split
    · exact List.mem_cons_of_mem other hended
    · exact hended
  unfold after
  split <;> first | exact hended | exact hendWalk _

theorem mem_ended_run (drives later : List Drive) {walk : Nat}
    (hended : walk ∈ (History.run origin range drives).drivers.ended) :
    walk ∈ (History.run origin range (drives ++ later)).drivers.ended := by
  unfold History.run at hended ⊢
  rw [List.foldl_append]
  generalize drives.foldl _ _ = history at hended ⊢
  induction later generalizing history with
  | nil => exact hended
  | cons drive later ih => exact ih _ (history.drivers.mem_ended_after drive _ hended)

omit [Textual V ε] in
theorem cached_of_driven {drivers : Drivers} {store : Store V ε}
    (hdriven : Driven origin range number script cache drivers store) {cursor : Nat}
    (hlt : cursor < drivers.cursors) :
    valueAt? (origin.cursors.size + cursor) store = .ok cache store := by
  obtain ⟨current, hentry⟩ := hdriven.cursor_entry hlt
  have hfind : (rangeAt range).find store = some { executor := some number, cache } :=
    hdriven.reads.range
  rw [valueAt?, Action.bind_of_ok (rangeOfCursor_of_entry hentry),
    Action.bind_of_ok (Place.read_of_find hfind)]
  rfl

/-- **Interleaved drivers lose and duplicate nothing.** However cursors and walks of one range take
turns, each advance receives the next outcome of the script, and nothing else calls its executor or
touches the range. What the drives bring is what the script yields, one driver for each value, and
the last of it is in the cache. A walk that has ended answers done from then on. -/
theorem interleaved_drives (hreads : origin.Reads range number script cache)
    (drives : List Drive) :
    let history := History.run origin range drives
    let asked := history.advances.length
    history.advances.map Record.answer =
      (List.range asked).map (fun call => (script.coming call).delivered.map some) ∧
    history.values = (List.range asked).filterMap (fun call => (script.coming call).value?) ∧
    history.store.calls = origin.calls ++ Array.replicate asked (.ask number) ∧
    history.store.Reads range number (script.later asked) (history.values.getLast?.or cache) ∧
    (∀ cursor < history.drivers.cursors,
      valueAt? (origin.cursors.size + cursor) history.store =
        .ok (history.values.getLast?.or cache) history.store) ∧
    (∀ drive, history.drivers.advances drive = false →
      (history.extend origin range drive).store.ranges = history.store.ranges ∧
      (history.extend origin range drive).store.executors = history.store.executors ∧
      (history.extend origin range drive).store.calls = history.store.calls) ∧
    (∀ walk ∈ history.drivers.ended, ∀ later,
      walkOn (origin.walks.size + walk) (History.run origin range (drives ++ later)).store =
        .ok (.done none) (History.run origin range (drives ++ later)).store) := by
  intro history asked
  have haccounts : Accounts origin range number script cache history := accounts_run hreads drives
  refine ⟨haccounts.answers, haccounts.values, haccounts.calls, haccounts.driven.reads,
    fun cursor hlt => cached_of_driven haccounts.driven hlt, ?_, ?_⟩
  · intro drive hidle
    obtain ⟨answer, after, hperform, _, hranges, hexecutors, hcalls, _⟩ :=
      idles_of_not_advances haccounts.driven hidle
    rw [History.extend_of_settle hperform]
    exact ⟨hranges, hexecutors, hcalls⟩
  · intro walk hended later
    have hlater := accounts_run hreads (drives ++ later)
    exact walkOn_of_finished
      (walk_finished_of_ended hlater.driven (mem_ended_run drives later hended))

end Runs

def pausing : Script Value Thrown :=
  .ofOutcomes [.yield (.boolean true), .done none, .yield .null] none

def shared : Store Value Thrown :=
  { (initial : Store Value Thrown) with
    executors := #[{ source := .script pausing }],
    ranges := #[.holding (some 0)] }

/-- The end that the walk receives is not the end for the cursor, and ends the walk for good. -/
theorem interleaved_drives_around_end :
    (History.run shared 0 [.makeWalk, .start, .walkOn 0, .advance 0, .walkOn 0]).values =
      [.boolean true, .null] ∧
    (History.run shared 0 [.makeWalk, .start, .walkOn 0, .advance 0, .walkOn 0]).store.calls =
      #[.ask 0, .ask 0, .ask 0] := by
  have hreads : shared.Reads 0 0 pausing none := ⟨⟨rfl, rfl⟩, rfl⟩
  obtain ⟨_, hvalues, hcalls, _⟩ :=
    interleaved_drives hreads [.makeWalk, .start, .walkOn 0, .advance 0, .walkOn 0]
  have hasked : (History.run shared 0
      [.makeWalk, .start, .walkOn 0, .advance 0, .walkOn 0]).advances.length = 3 := rfl
  rw [hasked] at hvalues hcalls
  exact ⟨hvalues, hcalls⟩

end PullRange.Store
