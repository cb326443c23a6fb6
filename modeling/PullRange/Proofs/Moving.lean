import PullRange.Proofs.Relocation
import PullRange.Proofs.StaleDrivers

/-!
# Moving a range between traversals

A range is traversed time and again, and may be moved before the next traversal, which then goes on
with the target. What can be seen along such a journey is the same as if the range had stayed where it
was: both journeys are run side by side, and a leg of them keeps the two `Abreast`. Whoever still
drives a range that was left behind has no part in it.
-/

namespace PullRange.Store

variable {V ε : Type}

/-- What is done with a range in a traversal. Cursors and walks are numbered from the first one that
the traversal makes. -/
inductive Visit (V ε : Type) where
  | cursor (use : Use)
  | makeWalk
  | walkOn (walk : Nat)
  | stopWalk (walk : Nat)
  | collect (fuel : Nat)
  | take (wanted : Nat)
  | print (fuel : Nat) (format : LineFormat V ε) (writer : Nat)

def Visit.request (range cursors walks : Nat) : Visit V ε → Request V ε
  | .cursor use => use.request range cursors
  | .makeWalk => .makeWalk range
  | .walkOn walk => .walkOn (walks + walk)
  | .stopWalk walk => .stopWalk (walks + walk)
  | .collect fuel => .collect fuel range
  | .take wanted => .take range wanted
  | .print fuel format writer => .print fuel range format writer

inductive Leg (V ε : Type) where
  | traverse (visits : List (Visit V ε))
  | move

def Leg.stays : Leg V ε → Bool
  | .traverse _ => true
  | .move => false

/-- Where a journey has come to: the store, and the range in it that is traversed next. -/
structure Station (V ε : Type) where
  range : Nat
  store : Store V ε

/-- What can be seen after a request: its answer, the cache of the range, and all calls, events and
texts so far. -/
structure Sight (V ε : Type) where
  answer : Except (Fault ε) (Response V ε)
  cache : Option V
  calls : Array Call
  log : Array (Event Nat V)
  writers : Array (Writer ε)

section Journeys

variable [Textual V ε]

def sightsOf (range : Nat) : List (Request V ε) → Store V ε → List (Sight V ε)
  | [], _ => []
  | request :: requests, store =>
      let after := request.perform.after store
      let sight :=
        { answer := request.perform.answer store
          cache := after.ranges[range]?.bind Range.cache
          calls := after.calls, log := after.log, writers := after.writers }
      sight :: sightsOf range requests after

def runOf (requests : List (Request V ε)) (store : Store V ε) : Store V ε :=
  requests.foldl (fun store request => request.perform.after store) store

namespace Station

def requests (station : Station V ε) (visits : List (Visit V ε)) : List (Request V ε) :=
  visits.map (Visit.request station.range station.store.cursors.size station.store.walks.size)

def after (station : Station V ε) : Leg V ε → Station V ε
  | .traverse visits => { station with store := runOf (station.requests visits) station.store }
  | .move =>
      match move station.range station.store with
      | .ok target store => { range := target, store }
      | .error _ store => { station with store }

def travel (station : Station V ε) (legs : List (Leg V ε)) : Station V ε :=
  legs.foldl after station

/-- What can be seen on the way. A move shows nothing. -/
def sights (station : Station V ε) : List (Leg V ε) → List (Sight V ε)
  | [] => []
  | .traverse visits :: legs =>
      sightsOf station.range (station.requests visits) station.store ++
        sights (station.after (.traverse visits)) legs
  | .move :: legs => sights (station.after .move) legs

end Station

end Journeys

section Abreast

variable {number source target cursors walks : Nat} {left right : Store V ε} [Textual V ε]

omit [Textual V ε] in
theorem sideOf_relocated (party : Party) :
    (sideOf (party.shift cursors) : Act V ε Side).InStep
      (relocation number source target cursors walks) (sideOf (party.shift cursors)) := by
  cases party with
  | cursor cursor =>
      exact (shares_cursorAt (Nat.le_add_right _ _)).read.bind fun _ => Action.inStep_pure _
  | sentinel sentinel => exact Action.inStep_pure _

theorem use_relocated (use : Use) :
    (use.request source cursors : Request V ε).perform.InStep
      (relocation number source target cursors walks) (use.request target cursors).perform := by
  have hle (cursor : Nat) : cursors ≤ cursors + cursor := Nat.le_add_right _ _
  have hconcluding {α : Type} (answer : Except (Fault ε) α) :
      (concluding answer : Act V ε α).InStep (relocation number source target cursors walks)
        (concluding answer) := by
    cases answer with
    | ok answer => exact Action.inStep_pure _
    | error fault => exact Action.inStep_throw _
  cases use with
  | start => exact start_relocated.map _
  | advance cursor => exact (advance_relocated (hle cursor)).map _
  | atEnd cursor => exact (shares_cursorAt (hle cursor)).read.map _
  | value cursor =>
      refine (onRange_relocated (hle cursor) ?_).map _
      exact read_relocated.bind fun _ => Action.inStep_pure _
  | get cursor =>
      exact (onRange_relocated (hle cursor) (focus_relocated fun _ _ => get_attending)).map _
  | sentinel => exact read_relocated.map _
  | compare cursor against =>
      exact (shares_cursorAt (hle cursor)).read.bind fun _ => (hconcluding _).map _
  | decide comparison first second =>
      refine (sideOf_relocated first).bind fun first => ?_
      exact (sideOf_relocated second).bind fun second => (hconcluding _).map _

theorem visit_relocated (visit : Visit V ε) :
    (visit.request source cursors walks).perform.InStep
      (relocation number source target cursors walks)
      (visit.request target cursors walks).perform := by
  have hle (walk : Nat) : walks ≤ walks + walk := Nat.le_add_right _ _
  cases visit with
  | cursor use => exact use_relocated use
  | makeWalk => exact makeWalk_relocated.map _
  | walkOn walk => exact (walkOn_relocated (hle walk)).map _
  | stopWalk walk =>
      exact ((shares_walkAt (hle walk)).read.bind fun current =>
        (shares_walkAt (hle walk)).putting current.stop).map _
  | collect fuel => exact (collect_relocated fuel).map _
  | take wanted => exact (take_relocated wanted).map _
  | print fuel format writer => exact (print_relocated fuel format writer).map _

omit [Textual V ε] in
theorem Relocated.seen (hrelocated : Relocated number source target cursors walks left right) :
    left.ranges[source]?.bind Range.cache = right.ranges[target]?.bind Range.cache ∧
      left.calls = right.calls ∧ left.log = right.log ∧ left.writers = right.writers := by
  obtain ⟨cache, hleft, hright⟩ := hrelocated.range
  refine ⟨by rw [hleft, hright], ?_⟩
  rw [hrelocated.twins.away]
  exact ⟨rfl, rfl, rfl⟩

theorem sights_relocated (hrelocated : Relocated number source target cursors walks left right)
    (visits : List (Visit V ε)) :
    let requests := visits.map (Visit.request source cursors walks)
    let requests' := visits.map (Visit.request target cursors walks)
    sightsOf source requests left = sightsOf target requests' right ∧
      Relocated number source target cursors walks (runOf requests left)
        (runOf requests' right) := by
  induction visits generalizing left right with
  | nil => exact ⟨rfl, hrelocated⟩
  | cons visit visits ih =>
      obtain hspoiled | ⟨hanswer, hafter⟩ := (visit_relocated visit).keeps left right hrelocated
      · exact hspoiled.elim
      · obtain ⟨hcache, hcalls, hlog, hwriters⟩ := Relocated.seen hafter
        obtain ⟨hsights, hrun⟩ := ih hafter
        refine ⟨?_, hrun⟩
        simp only [List.map_cons, sightsOf]
        rw [hanswer, hcache, hcalls, hlog, hwriters, hsights]

/-- Two journeys have come to the same range in different places. The drivers that are made from now
on are those of the next traversal. -/
def Abreast (number : Nat) (left right : Station V ε) : Prop :=
  Relocated number left.range right.range left.store.cursors.size left.store.walks.size
    left.store right.store

omit [Textual V ε] in
theorem Relocated.abreast (hrelocated : Relocated number source target cursors walks left right) :
    Abreast number { range := source, store := left } { range := target, store := right } :=
  ⟨hrelocated.twins, hrelocated.range, renamed_of_size source target hrelocated.cursors.size,
    renamed_of_size source target hrelocated.walks.size⟩

theorem Abreast.traverse {left right : Station V ε} (habreast : Abreast number left right)
    (visits : List (Visit V ε)) :
    sightsOf left.range (left.requests visits) left.store =
        sightsOf right.range (right.requests visits) right.store ∧
      Abreast number (left.after (.traverse visits)) (right.after (.traverse visits)) := by
  obtain ⟨hsights, hrun⟩ := sights_relocated habreast visits
  have hrequests : right.requests visits = visits.map (Visit.request right.range
      left.store.cursors.size left.store.walks.size) := by
    rw [Station.requests, habreast.cursors.size, habreast.walks.size]
  rw [← hrequests] at hsights hrun
  exact ⟨hsights, hrun.abreast⟩

theorem Station.after_move {station : Station V ε} {own : Range Nat V}
    (hown : station.store.ranges[station.range]? = some own) :
    station.after .move =
      { range := station.store.ranges.size
        store := (Store.move station.range).after station.store } := by
  rw [Station.after, move_of_range hown, move_after hown]

/-- The target takes the place of the range that was moved. -/
theorem Abreast.move {left right : Station V ε} (habreast : Abreast number left right) :
    Abreast number left (right.after .move) := by
  obtain ⟨cache, hleft, hright⟩ := habreast.range
  obtain ⟨script, hplays⟩ := habreast.twins.plays
  have haway := congrArg (withRangesOf ((Store.move right.range).after right.store))
    habreast.twins.away
  rw [Station.after_move hright]
  rw [move_after hright] at haway ⊢
  refine ⟨⟨⟨script, hplays⟩, rfl, haway⟩, ⟨cache, hleft, ?_⟩,
    renamed_of_size _ _ habreast.cursors.size, renamed_of_size _ _ habreast.walks.size⟩
  have hsize : (right.store.ranges.setIfInBounds right.range (.holding none)).size =
      right.store.ranges.size := Array.size_setIfInBounds
  rw [← hsize]
  exact Array.getElem?_push_size

/-- Only one of the two journeys moves the range. -/
theorem Abreast.sights {left right : Station V ε} (habreast : Abreast number left right)
    (legs : List (Leg V ε)) :
    left.sights (legs.filter Leg.stays) = right.sights legs ∧
      Abreast number (left.travel (legs.filter Leg.stays)) (right.travel legs) := by
  -- The two stations drift apart at each move, so both are general in the induction.
  induction legs generalizing left right with
  | nil => exact ⟨rfl, habreast⟩
  | cons leg legs ih =>
      cases leg with
      | traverse visits =>
          obtain ⟨hsights, hafter⟩ := habreast.traverse visits
          obtain ⟨hlater, htravel⟩ := ih hafter
          exact ⟨congrArg₂ (· ++ ·) hsights hlater, htravel⟩
      | move => exact ih habreast.move

omit [Textual V ε] in
theorem abreast_of_reads {range : Nat} {script : Script V ε} {cache : Option V} {store : Store V ε}
    (hreads : store.Reads range number script cache) :
    Abreast number { range, store } { range, store } :=
  ⟨⟨⟨script, hreads.toPlays⟩, rfl, rfl⟩, ⟨cache, hreads.range, hreads.range⟩,
    renamed_of_size range range rfl, renamed_of_size range range rfl⟩

/-- **Moving is transparent.** Wherever on its way a range is moved between traversals, and however
often, every answer, the cache after every step and all calls of the executors are the same as if it
had stayed. From each move on the range that was moved is left behind: in whatever is done afterwards,
its cursors stay as they are, and so does a walk of it that nobody drives, and whoever drives one of
them comes to nothing and leaves the store alone. -/
theorem moving_is_transparent {range : Nat} {script : Script V ε} {cache : Option V}
    {store : Store V ε} (hreads : store.Reads range number script cache) (legs : List (Leg V ε)) :
    let origin : Station V ε := { range, store }
    origin.sights legs = origin.sights (legs.filter Leg.stays) ∧
    ∀ first later, legs = first ++ .move :: later →
      let here := origin.travel first
      ∀ entries : List (Entry V ε),
        let after := Entry.run entries (here.after .move).store
        Shuns here.range (DrivenBy entries) here.store after ∧ after.Stale here.range := by
  intro origin
  have habreast : Abreast number origin origin := abreast_of_reads hreads
  refine ⟨(habreast.sights legs).1.symm, ?_⟩
  intro first later _ here entries after
  obtain ⟨cache', -, hown⟩ := (habreast.sights first).2.range
  have hmove : Shuns here.range (DrivenBy entries) here.store (here.after .move).store := by
    rw [Station.after_move hown]
    exact shuns_of_move hown
  have hshuns : Shuns here.range (DrivenBy entries) here.store after :=
    hmove.trans (hmove.vacated.run fun _ => id)
  exact ⟨hshuns, stale_of_vacated hshuns.vacated⟩

end Abreast

def wandering : Station Value Thrown :=
  { range := 0, store := shared }

def startingOut : Leg Value Thrown :=
  .traverse [.makeWalk, .walkOn 0, .cursor .start]

/-- The first traversal leaves a cursor at its end and a walk that is suspended. -/
theorem moving_past_suspended_walk :
    wandering.sights [startingOut, .move, .traverse [.take 2], .move, .traverse [.collect 1]] =
      wandering.sights [startingOut, .traverse [.take 2], .traverse [.collect 1]] ∧
    let after := Entry.run [.perform (.take 1 2), .perform (.advance 0)]
      (wandering.travel [startingOut, .move]).store
    let ended := (walkAt 0).put .finished after
    (Request.atEnd 0).perform after = .ok (.flag true) after ∧
      (Request.walkOn 0).perform after = .error .noExecutor ended ∧
      (Request.walkOn 0).perform ended = .ok (.step (.done none)) ended := by
  have hreads : shared.Reads 0 0 pausing none := ⟨⟨rfl, rfl⟩, rfl⟩
  obtain ⟨hsights, hstale⟩ := moving_is_transparent hreads
    [startingOut, .move, .traverse [.take 2], .move, .traverse [.collect 1]]
  obtain ⟨-, hstale⟩ := hstale [startingOut]
    [.traverse [.take 2], .move, .traverse [.collect 1]] rfl
    [.perform (.take 1 2), .perform (.advance 0)]
  obtain ⟨hfails, hdone⟩ := hstale.walk 0 (.suspended { atEnd := false }) rfl nofun
  exact ⟨hsights, (hstale.cursor 0 { atEnd := true } rfl).1, hfails, hdone []⟩

end PullRange.Store
