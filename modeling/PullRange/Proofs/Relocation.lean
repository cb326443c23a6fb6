import PullRange.Proofs.Cursors
import PullRange.Proofs.Interleaving
import PullRange.Proofs.StoreLockstep

/-!
# A range in another place

Two stores may keep the same range in different places, with cursors and walks of their own, and agree
on everything else. As long as the range reads a script, whatever is done with it in one store is in
step with the same in the other: the executor is asked for the same, and the same is answered, logged
and written.
-/

namespace PullRange.Store

variable {V ε α : Type}

/-- The store with the ranges of another one, and with whatever drives those. -/
def withRangesOf (other store : Store V ε) : Store V ε :=
  { store with ranges := other.ranges, cursors := other.cursors, walks := other.walks }

/-- One store has the ranges of `home` and the other one those of `away`, and all else is the same.
The executor is a script, and nothing is traced. -/
structure Twins (number : Nat) (home away left right : Store V ε) : Prop where
  plays : ∃ script, left.Plays number script
  home : left = withRangesOf home left
  away : right = withRangesOf away left

def twinning (number : Nat) (home away : Store V ε) : Coupling (Store V ε) (Store V ε) where
  alike := Twins number home away
  spoiled _ := False

/-- Beside twins, both runs have the same range in hand, which holds the executor. -/
def attending (number : Nat) (home away : Store V ε) :
    Coupling (Range Nat V × Store V ε) (Range Nat V × Store V ε) where
  alike state state' := state.1 = state'.1 ∧ state.1.executor = some number ∧
    Twins number home away state.2 state'.2
  spoiled _ := False

section Twins

variable {number : Nat} {home away left right : Store V ε}

theorem Twins.home_drivers (htwins : Twins number home away left right) :
    left.ranges = home.ranges ∧ left.cursors = home.cursors ∧ left.walks = home.walks := by
  rw [htwins.home]
  exact ⟨rfl, rfl, rfl⟩

theorem Twins.away_drivers (htwins : Twins number home away left right) :
    right.ranges = away.ranges ∧ right.cursors = away.cursors ∧ right.walks = away.walks := by
  rw [htwins.away]
  exact ⟨rfl, rfl, rfl⟩

theorem Twins.change (htwins : Twins number home away left right) (change : Store V ε → Store V ε)
    (hplays : ∃ script, (change left).Plays number script)
    (hcommutes : ∀ other store : Store V ε,
      change (withRangesOf other store) = withRangesOf other (change store)) :
    Twins number home away (change left) (change right) where
  plays := hplays
  home := (congrArg change htwins.home).trans (hcommutes home left)
  away := (congrArg change htwins.away).trans (hcommutes away left)

theorem twinning_chronicles : Chronicles [] (twinning number home away) where
  writers left right htwins writer _ := by
    rw [htwins.away]
    rfl
  logs left right htwins events := by
    obtain ⟨script, hplays⟩ := htwins.plays
    exact htwins.change (logging events) ⟨script, hplays.executor, hplays.untraced⟩
      fun _ _ => rfl
  puts left right htwins writer own _ _ := by
    obtain ⟨script, hplays⟩ := htwins.plays
    exact htwins.change ((writerAt writer).put own) ⟨script, hplays.executor, hplays.untraced⟩
      fun _ _ => rfl
  logs_spoiled _ := nofun
  puts_spoiled _ := nofun

theorem onRest_attending {action action' : Act V ε α}
    (haction : action.InStep (twinning number home away) action') :
    (onRest action).InStep (attending number home away) (onRest action') where
  spoils _ := nofun
  keeps state state' halike := by
    obtain ⟨hown, hholds, htwins⟩ := halike
    have hkept := haction.keeps state.2 state'.2 htwins
    rw [Action.after_of_settle (onRest_apply action' state'.1 state'.2),
      Action.answer_of_settle (onRest_apply action' state'.1 state'.2),
      Action.answer_of_settle (onRest_apply action state.1 state.2),
      Action.after_of_settle (onRest_apply action state.1 state.2)]
    exact hkept.imp_right fun hkept => ⟨hkept.1, hown, hholds, hkept.2⟩

theorem get_attending :
    (Range.get : Action ε (Range Nat V × Store V ε) V).InStep (attending number home away)
      Range.get where
  spoils _ := nofun
  keeps := by
    rintro ⟨⟨executor, cache⟩, left⟩ ⟨own, right⟩ ⟨rfl, hholds, htwins⟩
    cases cache with
    | none => exact .inr ⟨rfl, rfl, hholds, htwins⟩
    | some value => exact .inr ⟨rfl, rfl, hholds, htwins⟩

variable [Textual V ε] {bound : Nat} (hlt : number < bound)

include hlt

theorem next_attending (cursor : Cursor) :
    (cursor.next (servicesBelow bound)).InStep (attending number home away)
      (cursor.next (servicesBelow bound)) where
  spoils _ := nofun
  keeps := by
    rintro ⟨⟨executor, cache⟩, left⟩ ⟨own, right⟩ ⟨rfl, hholds, htwins⟩
    cases hholds
    change Twins number home away left right at htwins
    obtain ⟨script, hplays⟩ := htwins.plays
    have hplays' : right.Plays number script := by
      rw [htwins.away]
      exact ⟨hplays.executor, hplays.untraced⟩
    have hleft : cursor.next (servicesBelow bound) ({ executor := some number, cache }, left) =
        settle script.upcoming.cursor (rangeAfter number script cache, left.pulled number script) :=
      cursor_next_apply hplays hlt cursor
    have hright : cursor.next (servicesBelow bound) ({ executor := some number, cache }, right) =
        settle script.upcoming.cursor (rangeAfter number script cache, right.pulled number script) :=
      cursor_next_apply hplays' hlt cursor
    rw [Action.answer_of_settle hleft, Action.answer_of_settle hright,
      Action.after_of_settle hleft, Action.after_of_settle hright]
    exact .inr ⟨rfl, rfl, rfl, htwins.change (pulled number script) ⟨_, hplays.pull⟩ fun _ _ => rfl⟩

theorem turn_attending (cursor? : Option Cursor) :
    (Range.turn (servicesBelow bound) cursor?).InStep (attending number home away)
      (Range.turn (servicesBelow bound) cursor?) :=
  turn_inStep_of_next (next_attending hlt) get_attending cursor?

theorem print_attending (fuel : Nat) (format : LineFormat V ε) (writer : Nat) :
    let printer : Printer V ε (Store V ε) := { format := format.line, write := write writer }
    (Range.print (servicesBelow bound) printer fuel).InStep (attending number home away)
      (Range.print (servicesBelow bound) printer fuel) :=
  range_print_inStep_of_next (next_attending hlt) get_attending
    (fun value index => onRest_attending (line_inStep twinning_chronicles format value index))
    (fun text => onRest_attending (write_inStep twinning_chronicles List.not_mem_nil text)) fuel

end Twins

/-- From place `first` on, all entries are of range `source` on one side and of range `target` on the
other, and the same apart from that. -/
structure Renamed (first source target : Nat) (entries entries' : Array (Nat × α)) : Prop where
  size : entries'.size = entries.size
  entry : ∀ (place : Nat) entry, first ≤ place → entries[place]? = some entry →
    entry.1 = source ∧ entries'[place]? = some (target, entry.2)

section Renamed

variable {first source target : Nat} {entries entries' : Array (Nat × α)}
  (hrenamed : Renamed first source target entries entries')

theorem renamed_of_size (source target : Nat) (hsize : entries'.size = entries.size) :
    Renamed entries.size source target entries entries' where
  size := hsize
  entry _ _ hle hentry :=
    absurd (Array.getElem?_eq_some_iff.mp hentry).1 (Nat.not_lt.mpr hle)

include hrenamed

theorem Renamed.missing {place : Nat} (hmissing : entries[place]? = none) :
    entries'[place]? = none := by
  rw [Array.getElem?_eq_none_iff] at hmissing ⊢
  rw [hrenamed.size]
  exact hmissing

theorem Renamed.find {place : Nat} (hle : first ≤ place) :
    entries[place]?.map Prod.snd = entries'[place]?.map Prod.snd := by
  cases hentry : entries[place]? with
  | none => rw [hrenamed.missing hentry]
  | some entry =>
      rw [(hrenamed.entry place entry hle hentry).2]
      rfl

theorem Renamed.push (own : α) :
    Renamed first source target (entries.push (source, own)) (entries'.push (target, own)) where
  size := by rw [Array.size_push, Array.size_push, hrenamed.size]
  entry place entry hle hentry := by
    rw [Array.getElem?_push] at hentry ⊢
    rw [hrenamed.size]
    by_cases hlast : place = entries.size
    · rw [if_pos hlast] at hentry ⊢
      cases hentry
      exact ⟨rfl, rfl⟩
    · rw [if_neg hlast] at hentry ⊢
      exact hrenamed.entry place entry hle hentry

theorem Renamed.modify (place : Nat) (own : α) :
    Renamed first source target (entries.modify place fun entry => (entry.1, own))
      (entries'.modify place fun entry => (entry.1, own)) where
  size := by rw [Array.size_modify, Array.size_modify, hrenamed.size]
  entry place' entry hle hentry := by
    rw [Array.getElem?_modify] at hentry ⊢
    by_cases hsame : place = place'
    · rw [if_pos hsame] at hentry ⊢
      obtain ⟨former, hformer, rfl⟩ := Option.map_eq_some_iff.mp hentry
      obtain ⟨howner, hfound⟩ := hrenamed.entry place' former hle hformer
      rw [hfound]
      exact ⟨howner, rfl⟩
    · rw [if_neg hsame] at hentry ⊢
      exact hrenamed.entry place' entry hle hentry

end Renamed

/-! ## One range in two places -/

/-- The stores are twins, and range `source` of one is the same as range `target` of the other. From
places `cursors` and `walks` on, their drivers are those of the two ranges. -/
structure Relocated (number source target cursors walks : Nat) (left right : Store V ε) : Prop where
  twins : Twins number left right left right
  range : ∃ cache, left.ranges[source]? = some { executor := some number, cache } ∧
    right.ranges[target]? = some { executor := some number, cache }
  cursors : Renamed cursors source target left.cursors right.cursors
  walks : Renamed walks source target left.walks right.walks

def relocation (number source target cursors walks : Nat) :
    Coupling (Store V ε) (Store V ε) where
  alike := Relocated number source target cursors walks
  spoiled _ := False

section Relocated

variable {number source target cursors walks : Nat} {left right : Store V ε}

theorem Relocated.executors
    (hrelocated : Relocated number source target cursors walks left right) :
    number < left.executors.size ∧ right.executors.size = left.executors.size := by
  obtain ⟨script, hplays⟩ := hrelocated.twins.plays
  refine ⟨lt_size_of_executor hplays.executor, ?_⟩
  rw [hrelocated.twins.away]
  rfl

/-- The ranges are put back after their executor was asked. -/
theorem Relocated.putRange {left' right' : Store V ε}
    (hrelocated : Relocated number source target cursors walks left right)
    (htwins : Twins number left right left' right') {own : Range Nat V}
    (hholds : own.executor = some number) :
    Relocated number source target cursors walks ((rangeAt source).put own left')
      ((rangeAt target).put own right') := by
  obtain ⟨cache, hleft, hright⟩ := hrelocated.range
  obtain ⟨script, hplays⟩ := htwins.plays
  obtain ⟨hranges, hcursors, hwalks⟩ := htwins.home_drivers
  obtain ⟨hranges', hcursors', hwalks'⟩ := htwins.away_drivers
  have hown : own = { executor := some number, cache := own.cache } := by rw [← hholds]
  refine ⟨⟨⟨script, hplays.executor, hplays.untraced⟩, rfl, ?_⟩, ⟨own.cache, ?_, ?_⟩, ?_, ?_⟩
  · have haway := congrArg (withRangesOf ((rangeAt target).put own right')) htwins.away
    exact haway
  · simp only [rangeAt, hranges]
    rw [Array.getElem?_setIfInBounds_self_of_lt (lt_size_of_range hleft), ← hown]
  · simp only [rangeAt, hranges']
    rw [Array.getElem?_setIfInBounds_self_of_lt (lt_size_of_range hright), ← hown]
  · simpa only [rangeAt, hcursors, hcursors'] using hrelocated.cursors
  · simpa only [rangeAt, hwalks, hwalks'] using hrelocated.walks

theorem Relocated.drive (hrelocated : Relocated number source target cursors walks left right)
    {cursors' cursors'' : Array (Nat × Cursor)} {walks' walks'' : Array (Nat × Walk)}
    (hcursors : Renamed cursors source target cursors' cursors'')
    (hwalks : Renamed walks source target walks' walks'') :
    Relocated number source target cursors walks
      { left with cursors := cursors', walks := walks' }
      { right with cursors := cursors'', walks := walks'' } := by
  obtain ⟨script, hplays⟩ := hrelocated.twins.plays
  have haway := congrArg (withRangesOf { right with cursors := cursors'', walks := walks'' })
    hrelocated.twins.away
  exact ⟨⟨⟨script, hplays.executor, hplays.untraced⟩, rfl, haway⟩, hrelocated.range, hcursors,
    hwalks⟩

theorem shares_cursorAt {place : Nat} (hle : cursors ≤ place) :
    (relocation number source target cursors walks).Shares
      (cursorAt place : Place (Store V ε) Cursor) (cursorAt place) where
  find _ _ hrelocated := hrelocated.cursors.find hle
  put own _ _ hrelocated := hrelocated.drive (hrelocated.cursors.modify place own) hrelocated.walks
  spoils _ _ := nofun

theorem shares_walkAt {place : Nat} (hle : walks ≤ place) :
    (relocation number source target cursors walks).Shares
      (walkAt place : Place (Store V ε) Walk) (walkAt place) where
  find _ _ hrelocated := hrelocated.walks.find hle
  put own _ _ hrelocated := hrelocated.drive hrelocated.cursors (hrelocated.walks.modify place own)
  spoils _ _ := nofun

theorem read_relocated :
    ((rangeAt source).read : Act V ε (Range Nat V)).InStep
      (relocation number source target cursors walks) ((rangeAt target).read) where
  spoils _ := nofun
  keeps left right hrelocated := by
    obtain ⟨cache, hleft, hright⟩ := hrelocated.range
    have hread : ((rangeAt source).read : Act V ε (Range Nat V)) left =
        settle (.ok { executor := some number, cache }) left := Place.read_of_find hleft
    have hread' : ((rangeAt target).read : Act V ε (Range Nat V)) right =
        settle (.ok { executor := some number, cache }) right := Place.read_of_find hright
    rw [Action.answer_of_settle hread, Action.answer_of_settle hread',
      Action.after_of_settle hread, Action.after_of_settle hread']
    exact .inr ⟨rfl, hrelocated⟩

theorem focus_relocated {action action' : Action ε (Range Nat V × Store V ε) α}
    (haction : ∀ home away, action.InStep (attending number home away) action') :
    ((rangeAt source).focus action).InStep (relocation number source target cursors walks)
      ((rangeAt target).focus action') where
  spoils _ := nofun
  keeps left right hrelocated := by
    obtain ⟨cache, hleft, hright⟩ := hrelocated.range
    have hfind : (rangeAt source).find left = some { executor := some number, cache } := hleft
    have hfind' : (rangeAt target).find right = some { executor := some number, cache } := hright
    have hfocus := Place.focus_apply hfind action
    have hfocus' := Place.focus_apply hfind' action'
    obtain hspoiled | ⟨hanswer, hown, hholds, htwins⟩ := (haction left right).keeps
      ({ executor := some number, cache }, left) ({ executor := some number, cache }, right)
      ⟨rfl, rfl, hrelocated.twins⟩
    · exact hspoiled.elim
    · rw [Action.answer_of_settle hfocus, Action.answer_of_settle hfocus',
        Action.after_of_settle hfocus, Action.after_of_settle hfocus', ← hown]
      exact .inr ⟨hanswer, hrelocated.putRange htwins hholds⟩

variable [Textual V ε]

/-- What follows a look at the store is in step if it is so with the same services. -/
theorem get_relocated {next next' : Store V ε → Act V ε α}
    (hnext : ∀ left right, number < left.executors.size → right.services = left.services →
      (next left).InStep (relocation number source target cursors walks) (next' right)) :
    (get >>= next).InStep (relocation number source target cursors walks) (get >>= next') where
  spoils _ := nofun
  keeps left right hrelocated := by
    obtain ⟨hlt, hsize⟩ := hrelocated.executors
    have hservices : right.services = left.services := congrArg servicesBelow hsize
    exact (hnext left right hlt hservices).keeps left right hrelocated

theorem start_relocated :
    (start source : Act V ε Nat).InStep (relocation number source target cursors walks)
      (start target) := by
  have hbind (cursor : Cursor) :
      (do
        let store ← get
        set { store with cursors := store.cursors.push (source, cursor) }
        return store.cursors.size : Act V ε Nat).InStep
        (relocation number source target cursors walks)
        (do
        let store ← get
        set { store with cursors := store.cursors.push (target, cursor) }
        return store.cursors.size) := by
    refine ⟨fun _ => nofun, fun left right hrelocated => .inr ⟨?_, ?_⟩⟩
    · exact congrArg Except.ok hrelocated.cursors.size.symm
    · exact hrelocated.drive (hrelocated.cursors.push cursor) hrelocated.walks
  refine get_relocated fun left right hlt hservices => ?_
  rw [hservices]
  exact (focus_relocated fun _ _ => next_attending hlt _).bind hbind

omit [Textual V ε] in
/-- What is done with a cursor once its range is known. -/
theorem onRange_relocated {place : Nat} (hle : cursors ≤ place)
    {next next' : Nat → Act V ε α}
    (hnext : (next source).InStep (relocation number source target cursors walks) (next' target)) :
    (rangeOfCursor place >>= next).InStep (relocation number source target cursors walks)
      (rangeOfCursor place >>= next') where
  spoils _ := nofun
  keeps left right hrelocated := by
    cases hentry : left.cursors[place]? with
    | none =>
        have hmissing := hrelocated.cursors.missing hentry
        exact (Action.inStep_throw .missing).keeps_of_eq hrelocated
          (Action.bind_of_error (rangeOfCursor_of_missing hentry) next)
          (Action.bind_of_error (rangeOfCursor_of_missing hmissing) next')
    | some entry =>
        obtain ⟨rfl, hfound⟩ := hrelocated.cursors.entry place entry hle hentry
        exact hnext.keeps_of_eq hrelocated
          (Action.bind_of_ok (rangeOfCursor_of_entry hentry) next)
          (Action.bind_of_ok (rangeOfCursor_of_entry hfound) next')

theorem advance_relocated {place : Nat} (hle : cursors ≤ place) :
    (advance place : Act V ε Unit).InStep (relocation number source target cursors walks)
      (advance place) := by
  refine onRange_relocated hle ((shares_cursorAt hle).read.bind fun current => ?_)
  refine get_relocated fun left right hlt hservices => ?_
  rw [hservices]
  exact (focus_relocated fun _ _ => next_attending hlt current).bind
    (shares_cursorAt hle).putting

theorem turnOn_relocated {bound : Nat} (hlt : number < bound) (cursor? : Option Cursor) :
    (turnOn (servicesBelow bound : StoreServices V ε) source cursor?).InStep
      (relocation number source target cursors walks)
      (turnOn (servicesBelow bound) target cursor?) :=
  focus_relocated fun _ _ => turn_attending hlt cursor?

omit [Textual V ε] in
theorem makeWalk_relocated :
    (addWalk source : Act V ε Nat).InStep (relocation number source target cursors walks)
      (addWalk target) := by
  refine ⟨fun _ => nofun, fun left right hrelocated => .inr ⟨?_, ?_⟩⟩
  · exact congrArg Except.ok hrelocated.walks.size.symm
  · exact hrelocated.drive hrelocated.cursors (hrelocated.walks.push .unstarted)

theorem walkOn_relocated {place : Nat} (hle : walks ≤ place) :
    (walkOn place : Act V ε (Step V)).InStep (relocation number source target cursors walks)
      (walkOn place) where
  spoils _ := nofun
  keeps left right hrelocated := by
    obtain ⟨hlt, hsize⟩ := hrelocated.executors
    have hservices : right.services = left.services := congrArg servicesBelow hsize
    cases hentry : left.walks[place]? with
    | none =>
        have hmissing := hrelocated.walks.missing hentry
        exact (Action.inStep_throw .missing).keeps_of_eq hrelocated
          (walkOn_of_missing hentry) (walkOn_of_missing hmissing)
    | some entry =>
        obtain ⟨rfl, hfound⟩ := hrelocated.walks.entry place entry hle hentry
        have hwalk := walkOn_eq_focus hfound
        rw [hservices] at hwalk
        exact ((shares_walkAt hle).focus (walk_next_inStep (turnOn_relocated hlt))).keeps_of_eq
          hrelocated (walkOn_eq_focus hentry) hwalk

theorem collect_relocated (fuel : Nat) :
    (collect fuel source : Act V ε (Array V)).InStep
      (relocation number source target cursors walks) (collect fuel target) := by
  refine get_relocated fun left right hlt hservices => ?_
  rw [hservices]
  exact onFreshWalk_inStep (collect_inStep (turnOn_relocated hlt) fuel #[])

theorem take_relocated (wanted : Nat) :
    (take source wanted : Act V ε (Taken V ε)).InStep
      (relocation number source target cursors walks) (take target wanted) := by
  refine get_relocated fun left right hlt hservices => ?_
  rw [hservices]
  exact onFreshWalk_inStep (take_inStep (turnOn_relocated hlt) wanted #[])

theorem print_relocated (fuel : Nat) (format : LineFormat V ε) (writer : Nat) :
    (print fuel source format.line writer : Act V ε Nat).InStep
      (relocation number source target cursors walks) (print fuel target format.line writer) := by
  refine get_relocated fun left right hlt hservices => ?_
  rw [hservices]
  exact focus_relocated fun _ _ => print_attending hlt fuel format writer

end Relocated

end PullRange.Store
