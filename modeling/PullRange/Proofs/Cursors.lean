import PullRange.Proofs.Pulling
import PullRange.Proofs.Requests
import PullRange.Value

/-!
# Cursors of one range

Any number of cursors are made, advanced, read and compared on one range that reads a script. An
`Account` keeps nothing but which outcomes of the script each cursor has asked for; what the uses of
the cursors answer, the cache and every cursor's end follow from it. Cursors are numbered from the
first one that is made in the run, so that the store may hold others, which then stand still.
-/

namespace PullRange

variable {V ε : Type}

namespace Outcome

def error? : Outcome V ε → Option ε
  | .fail error => some error
  | _ => none

/-- Whether a cursor that receives the outcome is at the end. A failure leaves that open. -/
def ends? : Outcome V ε → Option Bool
  | .yield _ => some false
  | .done _ => some true
  | .fail _ => none

theorem cursor_cases (outcome : Outcome V ε) :
    (∃ atEnd, outcome.error? = none ∧ outcome.ends? = some atEnd ∧
      outcome.cursor = .ok { atEnd }) ∨
    (∃ error, outcome.error? = some error ∧ outcome.ends? = none ∧ outcome.value? = none ∧
      outcome.cursor = .error (.raised error)) := by
  cases outcome with
  | yield value => exact .inl ⟨false, rfl, rfl, rfl⟩
  | done parting => exact .inl ⟨true, rfl, rfl, rfl⟩
  | fail error => exact .inr ⟨error, rfl, rfl, rfl, rfl⟩

end Outcome

namespace Store

inductive Use where
  | start
  | advance (cursor : Nat)
  | atEnd (cursor : Nat)
  | value (cursor : Nat)
  | get (cursor : Nat)
  | sentinel
  | compare (cursor : Nat) (sentinel : Sentinel)
  | decide (comparison : Comparison) (left right : Party)
  deriving DecidableEq, Repr

def Party.shift (first : Nat) : Party → Party
  | .cursor number => .cursor (first + number)
  | .sentinel any => .sentinel any

/-- The request that a use of cursors of the range stands for. -/
def Use.request (range first : Nat) : Use → Request V ε
  | .start => .start range
  | .advance cursor => .advance (first + cursor)
  | .atEnd cursor => .atEnd (first + cursor)
  | .value cursor => .value (first + cursor)
  | .get cursor => .get (first + cursor)
  | .sentinel => .sentinel range
  | .compare cursor against => .compare (first + cursor) against
  | .decide comparison left right => .decide comparison (left.shift first) (right.shift first)

/-- How many outcomes were asked for, and which of them by each cursor, from the one it was made
with on. -/
structure Account where
  asked : Nat
  cursors : List (List Nat)
  deriving DecidableEq, Repr

namespace Account

def fresh : Account :=
  { asked := 0, cursors := [] }

/-- Making a cursor and advancing one that exists ask for an outcome. -/
def advances (account : Account) : Use → Bool
  | .start => true
  | .advance cursor => cursor < account.cursors.length
  | _ => false

variable (script : Script V ε)

/-- An advance that fails makes no cursor, but is an advance of the cursor that there was. -/
def after (account : Account) : Use → Account
  | .start =>
      { asked := account.asked + 1
        cursors :=
          match (script.coming account.asked).error? with
          | some _ => account.cursors
          | none => account.cursors ++ [[account.asked]] }
  | .advance cursor =>
      if cursor < account.cursors.length then
        { asked := account.asked + 1
          cursors := account.cursors.modify cursor (· ++ [account.asked]) }
      else account
  | _ => account

/-- The last value that the first outcomes brought. -/
def lastYield (asked : Nat) : Option V :=
  ((List.range asked).filterMap fun call => (script.coming call).value?).getLast?

/-- Whether the last of the calls that did not fail found the script done. -/
def foundEnd (calls : List Nat) : Bool :=
  (calls.filterMap fun call => (script.coming call).ends?).getLast?.getD true

def onCursor {α : Type} (account : Account) (cursor : Nat) (answer : List Nat → α) :
    Except (Fault ε) α :=
  match account.cursors[cursor]? with
  | none => .error .missing
  | some calls => .ok (answer calls)

/-- The answer of an advance, which fails if the outcome that it receives is a failure. -/
def received (account : Account) (response : Response V ε) : Except (Fault ε) (Response V ε) :=
  match (script.coming account.asked).error? with
  | some error => .error (.raised error)
  | none => .ok response

def side (account : Account) : Party → Except (Fault ε) Side
  | .cursor cursor => account.onCursor cursor fun calls =>
      .cursor { atEnd := foundEnd script calls }
  | .sentinel sentinel => .ok (.sentinel sentinel)

def expected (first : Nat) (account : Account) : Use → Except (Fault ε) (Response V ε)
  | .start => account.received script (.made (first + account.cursors.length))
  | .advance cursor =>
      if cursor < account.cursors.length then account.received script .nothing
      else .error .missing
  | .atEnd cursor => account.onCursor cursor fun calls => .flag (foundEnd script calls)
  | .value cursor => account.onCursor cursor fun _ => .cached (lastYield script account.asked)
  | .get cursor => do
      let last ← account.onCursor cursor fun _ => lastYield script account.asked
      match last with
      | some value => .ok (.value value)
      | none => .error .nothingFetched
  | .sentinel => .ok (.sentinel .shared)
  | .compare cursor _ => account.onCursor cursor fun calls =>
      let atEnd := foundEnd script calls
      .flags [atEnd, !atEnd, atEnd, !atEnd, atEnd, atEnd, !atEnd, !atEnd]
  | .decide comparison left right => do
      let left ← account.side script left
      let right ← account.side script right
      match left.atEnd? right with
      | none => .error (.noCursor comparison)
      | some atEnd => .ok (.flag (if comparison = .equal then atEnd else !atEnd))

def run (uses : List Use) : Account :=
  uses.foldl (after script) fresh

/-- What is expected of a whole run. -/
def answers (first : Nat) : List Use → Account → List (Except (Fault ε) (Response V ε))
  | [], _ => []
  | use :: uses, account =>
      account.expected script first use :: answers first uses (account.after script use)

end Account

/-! ## What the account looks like in the store -/

/-- The range has played as many outcomes as the account says, and the cursors made since `origin`
stand where the account says. -/
structure Tallies (origin : Store V ε) (range number : Nat) (script : Script V ε)
    (account : Account) (store : Store V ε) : Prop where
  reads : store.Reads range number (script.later account.asked)
    (Account.lastYield script account.asked)
  size : store.cursors.size = origin.cursors.size + account.cursors.length
  cursor : ∀ cursor calls, account.cursors[cursor]? = some calls →
    store.cursors[origin.cursors.size + cursor]? =
      some (range, { atEnd := Account.foundEnd script calls })
  calls : store.calls = origin.calls ++ Array.replicate account.asked (.ask number)

theorem getLast?_filterMap_append {α β : Type} (read : α → Option β) (items : List α) (item : α) :
    ((items ++ [item]).filterMap read).getLast? =
      (read item).or (items.filterMap read).getLast? := by
  rw [List.filterMap_append]
  cases hread : read item <;> simp [hread]

namespace Account

theorem after_of_idle (script : Script V ε) {account : Account} {use : Use}
    (hidle : account.advances use = false) : account.after script use = account := by
  cases use with
  | start => exact nomatch hidle
  | advance cursor => exact if_neg (of_decide_eq_false hidle)
  | _ => rfl

theorem lastYield_succ (script : Script V ε) (asked : Nat) :
    lastYield script (asked + 1) =
      (script.later asked).upcoming.value?.or (lastYield script asked) := by
  rw [lastYield, List.range_succ, getLast?_filterMap_append]
  rfl

theorem foundEnd_append (script : Script V ε) (calls : List Nat) (call : Nat) :
    foundEnd script (calls ++ [call]) =
      (script.coming call).ends?.getD (foundEnd script calls) := by
  rw [foundEnd, getLast?_filterMap_append, foundEnd]
  cases (script.coming call).ends? <;> rfl

theorem modify_cases {cursors : List (List Nat)} {cursor other call : Nat} {own calls : List Nat}
    (hown : cursors[cursor]? = some own)
    (hcalls : (cursors.modify cursor (· ++ [call]))[other]? = some calls) :
    (other = cursor ∧ calls = own ++ [call]) ∨ (other ≠ cursor ∧ cursors[other]? = some calls) := by
  rw [List.getElem?_modify] at hcalls
  by_cases hsame : cursor = other
  · subst hsame
    rw [hown] at hcalls
    simp only [if_true, Option.map_eq_map, Option.map_some, Option.some.injEq] at hcalls
    exact .inl ⟨rfl, hcalls.symm⟩
  · simp only [if_neg hsame, Option.map_eq_map, Option.map_id'] at hcalls
    exact .inr ⟨Ne.symm hsame, hcalls⟩

end Account

section Uses

variable {origin store : Store V ε} {range number : Nat} {script : Script V ε} {account : Account}
  (htallies : Tallies origin range number script account store)

include htallies

/-- What is found at a cursor of the run. -/
theorem Tallies.find (cursor : Nat) :
    (cursorAt (origin.cursors.size + cursor)).find store =
      account.cursors[cursor]?.map fun calls => { atEnd := Account.foundEnd script calls } := by
  cases hcalls : account.cursors[cursor]? with
  | some calls => exact cursorAt_find (htallies.cursor cursor calls hcalls)
  | none =>
      have hge := List.getElem?_eq_none_iff.mp hcalls
      have hsize : store.cursors.size ≤ origin.cursors.size + cursor := by
        rw [htallies.size]
        exact Nat.add_le_add_left hge _
      simp [cursorAt, Array.getElem?_eq_none hsize]

theorem Tallies.rangeOfCursor (cursor : Nat) :
    rangeOfCursor (origin.cursors.size + cursor) store =
      settle (account.onCursor cursor fun _ => range) store := by
  unfold Account.onCursor
  cases hcalls : account.cursors[cursor]? with
  | some calls => exact rangeOfCursor_of_entry (htallies.cursor cursor calls hcalls)
  | none =>
      have hfind := htallies.find cursor
      rw [hcalls] at hfind
      exact rangeOfCursor_of_missing (Option.map_eq_none_iff.mp hfind)

theorem Tallies.read (cursor : Nat) :
    ((cursorAt (origin.cursors.size + cursor)).read : Act V ε Cursor) store =
      settle (account.onCursor cursor fun calls => { atEnd := Account.foundEnd script calls })
        store := by
  have hfind := htallies.find cursor
  unfold Account.onCursor
  cases hcalls : account.cursors[cursor]? with
  | some calls =>
      rw [hcalls] at hfind
      exact Place.read_of_find hfind
  | none =>
      rw [hcalls] at hfind
      exact Place.read_of_missing hfind

theorem Tallies.valueAt? (cursor : Nat) :
    valueAt? (origin.cursors.size + cursor) store =
      settle (account.onCursor cursor fun _ => Account.lastYield script account.asked) store := by
  have hrange : ((rangeAt range).read : Act V ε (Range Nat V)) store = .ok _ store :=
    Place.read_of_find htallies.reads.range
  rw [Store.valueAt?, Action.bind_of_settle _ (htallies.rangeOfCursor cursor)]
  unfold Account.onCursor
  cases account.cursors[cursor]? with
  | none => rfl
  | some calls => exact Action.bind_of_ok hrange _

theorem Tallies.valueAt (cursor : Nat) :
    valueAt (origin.cursors.size + cursor) store =
      settle (do
        let last ← account.onCursor cursor fun _ => Account.lastYield script account.asked
        match last with
        | some value => .ok value
        | none => .error .nothingFetched) store := by
  rw [Store.valueAt, Action.bind_of_settle _ (htallies.rangeOfCursor cursor)]
  unfold Account.onCursor
  cases account.cursors[cursor]? with
  | none => rfl
  | some calls =>
      refine focus_range_of_same htallies.reads.range ?_
      unfold Range.get
      rw [Action.bind_of_ok (getOwn_apply _ _)]
      cases Account.lastYield script account.asked <;> rfl

theorem Tallies.sideOf (party : Party) :
    sideOf (party.shift origin.cursors.size) store =
      settle (account.side script party) store := by
  cases party with
  | sentinel sentinel => rfl
  | cursor cursor =>
      simp only [Party.shift, Store.sideOf]
      rw [Action.bind_of_settle _ (htallies.read cursor)]
      simp only [Account.side, Account.onCursor]
      cases account.cursors[cursor]? <;> rfl

variable [Textual V ε]

/-- A use that does not advance answers what is expected and leaves the store as it is. -/
theorem Tallies.perform_of_idle {use : Use} (hidle : account.advances use = false) :
    (use.request range origin.cursors.size).perform store =
      settle (account.expected script origin.cursors.size use) store := by
  cases use with
  | start => exact nomatch hidle
  | advance cursor =>
      have hge : ¬ cursor < account.cursors.length := of_decide_eq_false hidle
      have hmissing : store.cursors[origin.cursors.size + cursor]? = none := by
        refine Array.getElem?_eq_none ?_
        rw [htallies.size]
        omega
      have hadvance : Store.advance (origin.cursors.size + cursor) store =
          settle (.error .missing) store :=
        Action.bind_of_error (rangeOfCursor_of_missing hmissing) _
      simp only [Account.expected, if_neg hge]
      exact Action.map_of_settle _ hadvance
  | atEnd cursor =>
      refine (Action.map_of_settle _ (htallies.read cursor)).trans ?_
      simp only [Account.expected, Account.onCursor]
      cases account.cursors[cursor]? <;> rfl
  | value cursor =>
      refine (Action.map_of_settle _ (htallies.valueAt? cursor)).trans ?_
      simp only [Account.expected, Account.onCursor]
      cases account.cursors[cursor]? <;> rfl
  | get cursor =>
      refine (Action.map_of_settle _ (htallies.valueAt cursor)).trans ?_
      simp only [Account.expected, Account.onCursor]
      cases account.cursors[cursor]? with
      | none => rfl
      | some calls => cases Account.lastYield script account.asked <;> rfl
  | sentinel =>
      have hrange : ((rangeAt range).read : Act V ε (Range Nat V)) store = settle (.ok _) store :=
        Place.read_of_find htallies.reads.range
      exact Action.map_of_settle _ hrange
  | compare cursor sentinel =>
      simp only [Use.request, Request.perform]
      rw [Action.bind_of_settle _ (htallies.read cursor)]
      simp only [Account.expected, Account.onCursor]
      cases account.cursors[cursor]? <;> rfl
  | decide comparison left right =>
      simp only [Use.request, Request.perform]
      rw [Action.bind_of_settle _ (htallies.sideOf left)]
      simp only [Account.expected]
      cases account.side script left with
      | error fault => rfl
      | ok left =>
          simp only
          rw [Action.bind_of_settle _ (htallies.sideOf right)]
          cases account.side script right with
          | error fault => rfl
          | ok right =>
              have hconcluding : concluding (comparison.decide left right) store =
                  settle (comparison.decide left right) store := rfl
              refine (Action.map_of_settle _ hconcluding).trans ?_
              cases hends : left.atEnd? right with
              | none => simp only [Comparison.decide, bind, Except.bind, hends, Except.map]
              | some atEnd =>
                  cases comparison <;>
                    simp [Comparison.decide, bind, Except.bind, hends, Except.map]

omit [Textual V ε] in
theorem Tallies.reads_after :
    (store.advanced range number (script.later account.asked)
      (Account.lastYield script account.asked)).Reads range number
        (script.later (account.asked + 1)) (Account.lastYield script (account.asked + 1)) := by
  have hreads := htallies.reads.advance
  rw [Script.later_later, ← Account.lastYield_succ] at hreads
  exact hreads

omit [Textual V ε] in
theorem Tallies.calls_after :
    (store.advanced range number (script.later account.asked)
      (Account.lastYield script account.asked)).calls =
        origin.calls ++ Array.replicate (account.asked + 1) (.ask number) := by
  rw [advanced_calls, pulled_calls, htallies.calls, Array.replicate_succ, Array.push_append]

omit [Textual V ε] in
/-- An outcome without a value leaves the cache as it was. -/
theorem Tallies.ranges_of_barren (hbarren : (script.coming account.asked).value? = none) :
    (store.advanced range number (script.later account.asked)
      (Account.lastYield script account.asked)).ranges = store.ranges := by
  have hsame : rangeAfter number (script.later account.asked)
      (Account.lastYield script account.asked) =
        { executor := some number, cache := Account.lastYield script account.asked } := by
    unfold rangeAfter
    rw [← Script.coming, hbarren, Option.none_or]
  have hput := congrArg Store.ranges (putRange_self htallies.reads.range)
  rw [advanced_ranges, hsame]
  exact hput

theorem Tallies.start :
    ∃ store', Store.start range store =
        settle ((script.coming account.asked).cursor.map fun _ =>
          origin.cursors.size + account.cursors.length) store' ∧
      Tallies origin range number script (account.after script .start) store' ∧
      (∀ error, (script.coming account.asked).error? = some error →
        store'.ranges = store.ranges ∧ store'.cursors = store.cursors) := by
  cases (script.coming account.asked).cursor_cases with
  | inl hreceives =>
      obtain ⟨atEnd, herror, hends, hcursor⟩ := hreceives
      have hstart := start_of_cursor htallies.reads hcursor
      rw [htallies.size] at hstart
      refine ⟨_, by rw [hcursor]; exact hstart, ?_, fun error herror' => ?_⟩
      · simp only [Account.after, herror]
        refine ⟨htallies.reads_after.binding _, ?_, ?_, htallies.calls_after⟩
        · simp [htallies.size, Nat.add_assoc]
        · intro cursor calls hcalls
          by_cases hnew : cursor = account.cursors.length
          · subst hnew
            rw [List.getElem?_concat_length] at hcalls
            cases hcalls
            have hfound : Account.foundEnd script [account.asked] = atEnd := by
              rw [← List.nil_append [account.asked], Account.foundEnd_append, hends]
              rfl
            rw [hfound, ← htallies.size]
            exact binding_entry _ _ _
          · have hold : account.cursors[cursor]? = some calls := by
              have hlt := (List.getElem?_eq_some_iff.mp hcalls).1
              rw [List.length_append, List.length_singleton] at hlt
              rwa [List.getElem?_append_left (by omega)] at hcalls
            have hentry := htallies.cursor cursor calls hold
            simp only [binding_cursors, advanced_cursors, pulled_cursors]
            exact getElem?_push_of_some hentry _
      · rw [herror] at herror'
        exact nomatch herror'
  | inr hfails =>
      obtain ⟨error, herror, -, hbarren, hcursor⟩ := hfails
      refine ⟨_, by rw [hcursor]; exact start_of_failure htallies.reads hcursor, ?_, ?_⟩
      · simp only [Account.after, herror]
        exact ⟨htallies.reads_after, htallies.size, htallies.cursor, htallies.calls_after⟩
      · exact fun _ _ => ⟨htallies.ranges_of_barren hbarren, rfl⟩

theorem Tallies.advance {cursor : Nat} (hlt : cursor < account.cursors.length) :
    ∃ store', Store.advance (origin.cursors.size + cursor) store =
        settle ((script.coming account.asked).cursor.map fun _ => ()) store' ∧
      Tallies origin range number script (account.after script (.advance cursor)) store' ∧
      (∀ error, (script.coming account.asked).error? = some error →
        store'.ranges = store.ranges ∧ store'.cursors = store.cursors) := by
  have hcalls := List.getElem?_eq_getElem hlt
  have hentry := htallies.cursor cursor _ hcalls
  have hadvance := advance_apply htallies.reads hentry
  have hcoming : (script.later account.asked).upcoming = script.coming account.asked := rfl
  rw [hcoming] at hadvance
  simp only [Account.after, if_pos hlt]
  cases (script.coming account.asked).cursor_cases with
  | inl hreceives =>
      obtain ⟨atEnd, herror, hends, hcursor⟩ := hreceives
      rw [hcursor] at hadvance
      refine ⟨_, by rw [hcursor]; exact hadvance, ?_, fun error herror' => ?_⟩
      · refine ⟨htallies.reads_after.putCursor _, ?_, ?_, htallies.calls_after⟩
        · simp [cursorAt, htallies.size]
        · intro other calls hother
          cases Account.modify_cases hcalls hother with
          | inl hown =>
              obtain ⟨rfl, rfl⟩ := hown
              rw [Account.foundEnd_append, hends]
              exact putCursor_entry hentry _
          | inr hrest =>
              obtain ⟨hother, hcalls⟩ := hrest
              have hdistinct : origin.cursors.size + cursor ≠ origin.cursors.size + other := by omega
              simp only [cursorAt, Array.getElem?_modify, advanced_cursors, pulled_cursors]
              rw [if_neg hdistinct]
              exact htallies.cursor other calls hcalls
      · rw [herror] at herror'
        cases herror'
  | inr hfails =>
      obtain ⟨error, herror, hends, hbarren, hcursor⟩ := hfails
      rw [hcursor] at hadvance
      refine ⟨_, by rw [hcursor]; exact hadvance, ?_, ?_⟩
      · refine ⟨htallies.reads_after, ?_, ?_, htallies.calls_after⟩
        · rw [List.length_modify]
          exact htallies.size
        · intro other calls hother
          cases Account.modify_cases hcalls hother with
          | inl hown =>
              obtain ⟨rfl, rfl⟩ := hown
              rw [Account.foundEnd_append, hends]
              exact hentry
          | inr hrest => exact htallies.cursor other calls hrest.2
      · exact fun _ _ => ⟨htallies.ranges_of_barren hbarren, rfl⟩

/-- A use answers what is expected. A failing outcome leaves the ranges and the cursors as they
were. -/
theorem Tallies.perform (use : Use) :
    ∃ store', (use.request range origin.cursors.size).perform store =
        settle (account.expected script origin.cursors.size use) store' ∧
      Tallies origin range number script (account.after script use) store' ∧
      (∀ error, (script.coming account.asked).error? = some error →
        store'.ranges = store.ranges ∧ store'.cursors = store.cursors) ∧
      (account.advances use = false → store' = store) := by
  have hreceived {α : Type} (made : α) (response : α → Response V ε) :
      ((script.coming account.asked).cursor.map fun _ => made).map response =
        account.received script (response made) := by
    unfold Account.received
    cases script.coming account.asked <;> rfl
  cases hadvances : account.advances use with
  | false =>
      refine ⟨store, htallies.perform_of_idle hadvances, ?_, fun _ _ => ⟨rfl, rfl⟩, fun _ => rfl⟩
      rw [Account.after_of_idle script hadvances]
      exact htallies
  | true =>
      cases use with
      | start =>
          obtain ⟨store', hstart, htallies', hfails⟩ := htallies.start
          refine ⟨store', ?_, htallies', hfails, nofun⟩
          refine (Action.map_of_settle _ hstart).trans ?_
          rw [hreceived]
          rfl
      | advance cursor =>
          have hlt := of_decide_eq_true hadvances
          obtain ⟨store', hadvance, htallies', hfails⟩ := htallies.advance hlt
          refine ⟨store', ?_, htallies', hfails, nofun⟩
          refine (Action.map_of_settle _ hadvance).trans ?_
          rw [hreceived, Account.expected, if_pos hlt]
      | _ => exact nomatch hadvances

theorem Tallies.run (uses : List Use) :
    Entry.answers (uses.map fun use => .perform (use.request range origin.cursors.size)) store =
      Account.answers script origin.cursors.size uses account ∧
    Tallies origin range number script (uses.foldl (Account.after script) account)
      (Entry.run (uses.map fun use => .perform (use.request range origin.cursors.size)) store) := by
  induction uses generalizing store account with
  | nil => exact ⟨rfl, htallies⟩
  | cons use uses ih =>
      obtain ⟨store', hperform, htallies', -, -⟩ := htallies.perform use
      have hafter := Action.after_of_settle hperform
      obtain ⟨hanswers, hrun⟩ := ih htallies'
      rw [← hafter] at hanswers hrun
      refine ⟨?_, hrun⟩
      rw [List.map_cons, Entry.answers, Account.answers, hanswers,
        Action.answer_of_settle hperform]

end Uses

theorem tallies_fresh {origin : Store V ε} {range number : Nat} {script : Script V ε}
    (hreads : origin.Reads range number script none) :
    Tallies origin range number script .fresh origin where
  reads := hreads
  size := rfl
  cursor := nofun
  calls := by simp [Account.fresh]

variable [Textual V ε]

/-- **Cursors and the cache follow the executor.** However cursors of a range are made, advanced,
read and compared, they answer what follows from the outcomes of the script alone; the executor is
asked once by each advance and by nothing else; the cache is the last value that was yielded; and a
cursor is at the end exactly if its own last advance that did not fail found the script done. An
advance that fails passes the failure on and leaves the range and every cursor as they were. -/
theorem cursors_follow {origin : Store V ε} {range number : Nat} {script : Script V ε}
    (hreads : origin.Reads range number script none) (uses : List Use) :
    let first := origin.cursors.size
    let entries := uses.map fun use => Entry.perform (use.request range first)
    let account := Account.run script uses
    let store := Entry.run entries origin
    Entry.answers entries origin = Account.answers script first uses .fresh ∧
    store.calls = origin.calls ++ Array.replicate account.asked (.ask number) ∧
    store.ranges[range]? =
      some { executor := some number, cache := Account.lastYield script account.asked } ∧
    (∀ cursor calls, account.cursors[cursor]? = some calls →
      store.cursors[first + cursor]? =
        some (range, { atEnd := Account.foundEnd script calls })) ∧
    (∀ use, account.advances use = false →
      (use.request range first).perform.after store = store) ∧
    (∀ use error, account.advances use = true →
      (script.coming account.asked).error? = some error →
      (use.request range first).perform.answer store = .error (.raised error) ∧
      ((use.request range first).perform.after store).ranges = store.ranges ∧
      ((use.request range first).perform.after store).cursors = store.cursors) := by
  intro first entries account store
  obtain ⟨hanswers, htallies⟩ := (tallies_fresh hreads).run uses
  refine ⟨hanswers, htallies.calls, htallies.reads.range, htallies.cursor, ?_, ?_⟩
  · intro use hidle
    obtain ⟨store', hperform, -, -, hsame⟩ := htallies.perform use
    exact (Action.after_of_settle hperform).trans (hsame hidle)
  · intro use error hadvances herror
    obtain ⟨store', hperform, -, hfails, -⟩ := htallies.perform use
    have hafter : (use.request range first).perform.after store = store' :=
      Action.after_of_settle hperform
    rw [hafter]
    refine ⟨(Action.answer_of_settle hperform).trans ?_, hfails error herror⟩
    have hreceived (response : Response V ε) :
        account.received script response = .error (.raised error) := by
      rw [Account.received, herror]
    cases use with
    | start => exact hreceived _
    | advance cursor => exact (if_pos (of_decide_eq_true hadvances)).trans (hreceived _)
    | _ => exact nomatch hadvances

def wavering : Script Value Thrown :=
  .ofOutcomes [.done none, .fail (.value .null), .yield .undefined, .fail (.value .null)] none

def watched : Store Value Thrown :=
  { (initial : Store Value Thrown) with
    executors := #[{ source := .script wavering }],
    ranges := #[.holding (some 0)] }

def waveringUses : List Use :=
  [.start, .get 0, .advance 0, .atEnd 0, .start, .get 0, .advance 1, .compare 1 .shared]

/-- A fetched undefined value is not the absence of a value, and a failing advance keeps the end
that its cursor has found. -/
theorem cursors_follow_wavering :
    Entry.answers (waveringUses.map fun use => Entry.perform (use.request 0 0)) watched =
      [.ok (.made 0), .error .nothingFetched, .error (.raised (.value .null)), .ok (.flag true),
        .ok (.made 1), .ok (.value .undefined), .error (.raised (.value .null)),
        .ok (.flags [false, true, false, true, false, false, true, true])] := by
  have hreads : watched.Reads 0 0 wavering none := ⟨⟨rfl, rfl⟩, rfl⟩
  exact (cursors_follow hreads waveringUses).1

end Store

end PullRange
