import PullRange.Proofs.Answers
import PullRange.Store.Operations

/-!
# Finding and putting back

What is found at the places of a store, and what becomes of the entries when a component is put
back. Putting back what was found changes nothing.
-/

namespace PullRange.Store

variable {V ε : Type} {store : Store V ε}

theorem getElem?_push_of_some {α : Type} {entries : Array α} {place : Nat} {entry : α}
    (hentry : entries[place]? = some entry) (own : α) :
    (entries.push own)[place]? = some entry := by
  have hlt := (Array.getElem?_eq_some_iff.mp hentry).1
  rw [Array.getElem?_push_lt hlt, ← hentry, Array.getElem?_eq_getElem hlt]

section Executors

variable {number : Nat} {executor : Executor V ε}

theorem lt_size_of_executor (hexecutor : store.executors[number]? = some executor) :
    number < store.executors.size :=
  (Array.getElem?_eq_some_iff.mp hexecutor).1

theorem executorAt_read (hexecutor : store.executors[number]? = some executor) :
    ((executorAt number).read : Act V ε (Executor V ε)) store = .ok executor store :=
  Place.read_of_find hexecutor

theorem scriptOf_find {script : Script V ε} {stage : Option (Stage V ε)}
    (hexecutor : store.executors[number]? = some { source := .script script, stage }) :
    (scriptOf number).find store = some script := by
  simp only [scriptOf, hexecutor]

theorem bufferOf_find {source : Source V ε} {stage : Stage V ε}
    (hexecutor : store.executors[number]? = some { source, stage := some stage }) :
    (bufferOf number).find store = some stage.buffer := by
  simp [bufferOf, hexecutor]

theorem bufferOf_put_executor {source : Source V ε} {compute : V → Nat → Reply ε V}
    {buffer buffer' : Buffer V ε}
    (hexecutor : store.executors[number]? = some { source, stage := some { compute, buffer } }) :
    ((bufferOf number).put buffer' store).executors[number]? =
      some { source, stage := some { compute, buffer := buffer' } } := by
  simp [bufferOf, Array.getElem?_modify, hexecutor]

theorem stage_of_bufferOf_find (hexecutor : store.executors[number]? = some executor)
    {buffer : Buffer V ε} (hfind : (bufferOf number).find store = some buffer) :
    ∃ stage, executor.stage = some stage ∧ stage.buffer = buffer := by
  simpa [bufferOf, hexecutor, Option.bind_eq_some_iff] using hfind

theorem stage_of_bufferOf_put {buffer : Buffer V ε}
    (hexecutor : ((bufferOf number).put buffer store).executors[number]? = some executor)
    (hbuffered : executor.stage.isSome) :
    ∃ stage, executor.stage = some stage ∧ stage.buffer = buffer := by
  simp only [bufferOf, Array.getElem?_modify, ↓reduceIte] at hexecutor
  obtain ⟨old, -, rfl⟩ := Option.map_eq_some_iff.mp hexecutor
  simp only [Option.isSome_map] at hbuffered
  obtain ⟨stage, hstage⟩ := Option.isSome_iff_exists.mp hbuffered
  exact ⟨{ stage with buffer }, by simp [hstage], rfl⟩

theorem bufferOf_find_of_stage (hexecutor : store.executors[number]? = some executor)
    {stage : Stage V ε} (hstage : executor.stage = some stage) :
    (bufferOf number).find store = some stage.buffer := by
  simp [bufferOf, hexecutor, hstage]

theorem executor_of_bufferOf_find {buffer : Buffer V ε}
    (hfind : (bufferOf number).find store = some buffer) :
    ∃ source stage, store.executors[number]? = some { source, stage := some stage } ∧
      stage.buffer = buffer := by
  obtain ⟨⟨source, stage?⟩, hexecutor, hstage⟩ := Option.bind_eq_some_iff.mp hfind
  obtain ⟨stage, rfl, hbuffer⟩ := Option.bind_eq_some_iff.mp hstage
  exact ⟨source, stage, hexecutor, Option.some.inj hbuffer⟩

theorem walkOf_find {range : Nat} {walk : Walk} {stage : Option (Stage V ε)}
    (hexecutor : store.executors[number]? = some { source := .walk range walk, stage }) :
    (walkOf number).find store = some walk := by
  simp only [walkOf, hexecutor]

theorem walkOf_put_executor {range : Nat} {walk walk' : Walk} {stage : Option (Stage V ε)}
    (hexecutor : store.executors[number]? = some { source := .walk range walk, stage }) :
    ((walkOf number).put walk' store).executors[number]? =
      some { source := .walk range walk', stage } := by
  simp [walkOf, Array.getElem?_modify, hexecutor]

end Executors

section Ranges

variable {range : Nat} {own : Range Nat V}

theorem lt_size_of_range (hown : store.ranges[range]? = some own) : range < store.ranges.size :=
  (Array.getElem?_eq_some_iff.mp hown).1

theorem putRange_self (hown : store.ranges[range]? = some own) :
    (rangeAt range).put own store = store := by
  have hranges : store.ranges.setIfInBounds range own = store.ranges := by
    apply Array.ext_getElem?
    intro other
    rw [Array.getElem?_setIfInBounds]
    split
    · subst other
      rw [if_pos (lt_size_of_range hown), hown]
    · rfl
  change { store with ranges := store.ranges.setIfInBounds range own } = store
  rw [hranges]

theorem focus_range_of_same {α : Type} {action : Action ε (Range Nat V × Store V ε) α}
    {answer : Except (Fault ε) α} (hown : store.ranges[range]? = some own)
    (haction : action (own, store) = settle answer (own, store)) :
    (rangeAt range).focus action store = settle answer store := by
  have hfind : (rangeAt range).find store = some own := hown
  have hfocus := Place.focus_of_settle hfind haction
  rw [putRange_self hown] at hfocus
  exact hfocus

theorem lt_size_of_focus {α : Type} {action : Action ε (Range Nat V × Store V ε) α} {answer : α}
    {store' : Store V ε} (hfocus : (rangeAt range).focus action store = .ok answer store') :
    range < store.ranges.size := by
  cases hfind : store.ranges[range]? with
  | none => exact nomatch (Place.focus_of_missing hfind action).symm.trans hfocus
  | some own => exact lt_size_of_range hfind

end Ranges

theorem putWriter_self {writer : Nat} {own : Writer ε} (hwriter : store.writers[writer]? = some own)
    (own' : Writer ε) : ((writerAt writer).put own' store).writers[writer]? = some own' :=
  Array.getElem?_setIfInBounds_self_of_lt (Array.getElem?_eq_some_iff.mp hwriter).1

theorem putWriter_of_ne {writer other : Nat} (hne : writer ≠ other) (own : Writer ε)
    (store : Store V ε) :
    ((writerAt writer).put own store).writers[other]? = store.writers[other]? :=
  Array.getElem?_setIfInBounds_ne hne

section Drivers

variable {range place : Nat} {cursor : Cursor} {walk : Walk}

theorem rangeOfCursor_of_entry (hentry : store.cursors[place]? = some (range, cursor)) :
    rangeOfCursor place store = .ok range store := by
  rw [rangeOfCursor, Action.bind_of_ok (Action.get_apply store)]
  simp only [hentry]
  rfl

theorem rangeOfCursor_of_missing (hentry : store.cursors[place]? = none) :
    rangeOfCursor place store = .error .missing store := by
  rw [rangeOfCursor, Action.bind_of_ok (Action.get_apply store)]
  simp only [hentry]
  rfl

theorem cursorAt_find (hentry : store.cursors[place]? = some (range, cursor)) :
    (cursorAt place).find store = some cursor := by
  simp [cursorAt, hentry]

theorem putCursor_entry (hentry : store.cursors[place]? = some (range, cursor))
    (cursor' : Cursor) :
    ((cursorAt place).put cursor' store).cursors[place]? = some (range, cursor') := by
  simp [cursorAt, Array.getElem?_modify, hentry]

theorem walkAt_find (hentry : store.walks[place]? = some (range, walk)) :
    (walkAt place).find store = some walk := by
  simp [walkAt, hentry]

theorem putWalk_entry (hentry : store.walks[place]? = some (range, walk)) (walk' : Walk) :
    ((walkAt place).put walk' store).walks[place]? = some (range, walk') := by
  simp [walkAt, Array.getElem?_modify, hentry]

theorem putWalk_self (hentry : store.walks[place]? = some (range, walk)) :
    (walkAt place).put walk store = store := by
  have hwalks : store.walks.modify place (fun entry => (entry.1, walk)) = store.walks := by
    apply Array.ext_getElem?
    intro other
    rw [Array.getElem?_modify]
    split
    · subst other
      rw [hentry]
      rfl
    · rfl
  change { store with walks := store.walks.modify place _ } = store
  rw [hwalks]

theorem walkOn_eq_focus [Textual V ε] (hentry : store.walks[place]? = some (range, walk)) :
    walkOn place store = (walkAt place).focus (Walk.next (turnOn store.services range)) store := by
  rw [walkOn, Action.bind_of_ok (Action.get_apply store)]
  simp only [hentry]

end Drivers

theorem onFreshWalk_of_settle {α : Type} {action : Action ε (Walk × Store V ε) α}
    {after : Store V ε} {walk : Walk} {answer : Except (Fault ε) α}
    (haction : action (.unstarted, store) = settle answer (walk, after)) :
    onFreshWalk action store = settle answer after := by
  unfold onFreshWalk
  rw [haction]
  cases answer <;> rfl

theorem onFreshWalk_apply {α : Type} (action : Action ε (Walk × Store V ε) α) (store : Store V ε) :
    onFreshWalk action store =
      settle (action.answer (.unstarted, store)) (action.after (.unstarted, store)).2 :=
  onFreshWalk_of_settle (action.apply_eq_settle (.unstarted, store))

end PullRange.Store
