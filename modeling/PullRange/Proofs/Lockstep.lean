import PullRange.Buffer
import PullRange.Consumer
import PullRange.Proofs.Answers

/-!
# Two runs in lockstep

A `Coupling` relates the states of two runs. Two actions are in step if from alike states they
answer the same and lead to alike states again. The right-hand run may keep a record on the way;
once the record spoils it, nothing more is claimed, and it stays spoiled. Actions are in step as
soon as their parts are, so every component is in step with itself above whatever it calls on.
-/

namespace PullRange

variable {ε σ ω ω' α β : Type}

structure Coupling (ω ω' : Type) where
  alike : ω → ω' → Prop
  spoiled : ω' → Prop

namespace Coupling

variable (coupling : Coupling ω ω')

/-- Beside the rest, both runs have the same component. -/
def beside (σ : Type) : Coupling (σ × ω) (σ × ω') where
  alike state state' := state.1 = state'.1 ∧ coupling.alike state.2 state'.2
  spoiled state' := coupling.spoiled state'.2

/-- Both runs keep the same component at these places. -/
structure Shares (place : Place ω σ) (place' : Place ω' σ) : Prop where
  find : ∀ state state', coupling.alike state state' → place.find state = place'.find state'
  put : ∀ own state state', coupling.alike state state' →
    coupling.alike (place.put own state) (place'.put own state')
  spoils : ∀ own state', coupling.spoiled state' → coupling.spoiled (place'.put own state')

/-- The right-hand run keeps something beside the same state. -/
def annotating (ω ρ : Type) : Coupling ω (ω × ρ) where
  alike state state' := state = state'.1
  spoiled _ := False

end Coupling

structure Action.InStep (coupling : Coupling ω ω') (left : Action ε ω α) (right : Action ε ω' α) :
    Prop where
  spoils : ∀ state', coupling.spoiled state' → coupling.spoiled (right.after state')
  keeps : ∀ state state', coupling.alike state state' →
    coupling.spoiled (right.after state') ∨
      (left.answer state = right.answer state' ∧
        coupling.alike (left.after state) (right.after state'))

namespace Action

/-- Performs the action and goes on from what it came to, be it a failure. -/
def attempt (action : Action ε ω α) : Action ε ω (Except (Fault ε) α) := fun state =>
  .ok (action.answer state) (action.after state)

variable {coupling : Coupling ω ω'}

theorem inStep_pure (value : α) :
    (pure value : Action ε ω α).InStep coupling (pure value : Action ε ω' α) where
  spoils _ hspoiled := hspoiled
  keeps _ _ halike := .inr ⟨rfl, halike⟩

theorem inStep_throw (fault : Fault ε) :
    (throw fault : Action ε ω α).InStep coupling (throw fault : Action ε ω' α) where
  spoils _ hspoiled := hspoiled
  keeps _ _ halike := .inr ⟨rfl, halike⟩

theorem inStep_modify {change : ω → ω} {change' : ω' → ω'}
    (hspoils : ∀ state', coupling.spoiled state' → coupling.spoiled (change' state'))
    (hkeeps : ∀ state state', coupling.alike state state' →
      coupling.alike (change state) (change' state')) :
    (modify change : Action ε ω Unit).InStep coupling (modify change') where
  spoils := hspoils
  keeps state state' halike := .inr ⟨rfl, hkeeps state state' halike⟩

theorem InStep.bind {left : Action ε ω α} {right : Action ε ω' α} {next : α → Action ε ω β}
    {next' : α → Action ε ω' β} (hfirst : left.InStep coupling right)
    (hnext : ∀ value, (next value).InStep coupling (next' value)) :
    (left >>= next).InStep coupling (right >>= next') where
  spoils state' hspoiled := by
    have hspoiled' := hfirst.spoils state' hspoiled
    rw [after_bind]
    cases right.answer state' with
    | ok value => exact (hnext value).spoils _ hspoiled'
    | error fault => exact hspoiled'
  keeps state state' halike := by
    rw [after_bind right, answer_bind right]
    cases hfirst.keeps state state' halike with
    | inl hspoiled =>
        refine .inl ?_
        cases right.answer state' with
        | ok value => exact (hnext value).spoils _ hspoiled
        | error fault => exact hspoiled
    | inr hkept =>
        obtain ⟨hanswer, halike'⟩ := hkept
        rw [answer_bind left, after_bind left, hanswer]
        cases right.answer state' with
        | ok value => exact (hnext value).keeps _ _ halike'
        | error fault => exact .inr ⟨rfl, halike'⟩

theorem InStep.map {left : Action ε ω α} {right : Action ε ω' α} (change : α → β)
    (haction : left.InStep coupling right) :
    (change <$> left).InStep coupling (change <$> right) := by
  rw [map_eq_pure_bind, map_eq_pure_bind]
  exact haction.bind fun value => inStep_pure (change value)

theorem InStep.attempt {left : Action ε ω α} {right : Action ε ω' α}
    (haction : left.InStep coupling right) :
    left.attempt.InStep coupling right.attempt where
  spoils := haction.spoils
  keeps state state' halike :=
    (haction.keeps state state' halike).imp_right fun hkept =>
      ⟨congrArg Except.ok hkept.1, hkept.2⟩

theorem inStep_annotating {ρ : Type} {left : Action ε ω α} {right : Action ε (ω × ρ) α}
    {change : ω × ρ → ρ}
    (hright : ∀ state,
      right state = settle (left.answer state.1) (left.after state.1, change state)) :
    left.InStep (.annotating ω ρ) right where
  spoils _ hspoiled := hspoiled.elim
  keeps state state' halike := by
    rw [answer_of_settle (hright state'), after_of_settle (hright state'), halike]
    exact .inr ⟨rfl, rfl⟩

/-- In one pair of states it is enough that the actions are there the same as two that are in
step. -/
theorem InStep.keeps_of_eq {left left' : Action ε ω α} {right right' : Action ε ω' α}
    (hstep : left'.InStep coupling right') {state : ω} {state' : ω'}
    (halike : coupling.alike state state') (hleft : left state = left' state)
    (hright : right state' = right' state') :
    coupling.spoiled (right.after state') ∨
      (left.answer state = right.answer state' ∧
        coupling.alike (left.after state) (right.after state')) := by
  have hkept := hstep.keeps state state' halike
  unfold answer after at *
  rwa [hleft, hright]

end Action

/-! ## Parts of a state -/

section Parts

variable {coupling : Coupling ω ω'}

theorem inStep_getOwn :
    (getOwn : Action ε (σ × ω) σ).InStep (coupling.beside σ)
      (getOwn : Action ε (σ × ω') σ) where
  spoils _ hspoiled := hspoiled
  keeps _ _ halike := .inr ⟨congrArg Except.ok halike.1, halike⟩

theorem inStep_setOwn (own : σ) :
    (setOwn own : Action ε (σ × ω) Unit).InStep (coupling.beside σ)
      (setOwn own : Action ε (σ × ω') Unit) where
  spoils _ hspoiled := hspoiled
  keeps _ _ halike := .inr ⟨rfl, rfl, halike.2⟩

theorem Action.InStep.onRest {left : Action ε ω α} {right : Action ε ω' α}
    (haction : left.InStep coupling right) :
    (onRest left : Action ε (σ × ω) α).InStep (coupling.beside σ) (onRest right) where
  spoils state' hspoiled := by
    rw [after_of_settle (onRest_apply right state'.1 state'.2)]
    exact haction.spoils state'.2 hspoiled
  keeps state state' halike := by
    rw [after_of_settle (onRest_apply right state'.1 state'.2),
      answer_of_settle (onRest_apply right state'.1 state'.2),
      answer_of_settle (onRest_apply left state.1 state.2),
      after_of_settle (onRest_apply left state.1 state.2)]
    exact (haction.keeps state.2 state'.2 halike.2).imp_right fun hkept =>
      ⟨hkept.1, halike.1, hkept.2⟩

theorem inStep_onOwn (action : Action ε σ α) :
    (onOwn action : Action ε (σ × ω) α).InStep (coupling.beside σ)
      (onOwn action : Action ε (σ × ω') α) where
  spoils state' hspoiled := by
    rw [Action.after_of_settle (onOwn_of_settle (action.apply_eq_settle state'.1) state'.2)]
    exact hspoiled
  keeps state state' halike := by
    rw [Action.after_of_settle (onOwn_of_settle (action.apply_eq_settle state'.1) state'.2),
      Action.answer_of_settle (onOwn_of_settle (action.apply_eq_settle state'.1) state'.2),
      Action.after_of_settle (onOwn_of_settle (action.apply_eq_settle state.1) state.2),
      Action.answer_of_settle (onOwn_of_settle (action.apply_eq_settle state.1) state.2),
      halike.1]
    exact .inr ⟨rfl, rfl, halike.2⟩

variable {place : Place ω σ} {place' : Place ω' σ} (hshares : coupling.Shares place place')

include hshares

theorem Coupling.Shares.read :
    (place.read : Action ε ω σ).InStep coupling place'.read where
  spoils state' hspoiled := by
    rw [Action.after_of_settle (place'.read_apply state')]
    exact hspoiled
  keeps state state' halike := by
    rw [Action.after_of_settle (place'.read_apply state'),
      Action.answer_of_settle (place'.read_apply state'),
      Action.after_of_settle (place.read_apply state),
      Action.answer_of_settle (place.read_apply state), hshares.find state state' halike]
    exact .inr ⟨rfl, halike⟩

theorem Coupling.Shares.putting (own : σ) :
    (modify (place.put own) : Action ε ω Unit).InStep coupling (modify (place'.put own)) :=
  Action.inStep_modify (hshares.spoils own) (hshares.put own)

theorem Coupling.Shares.focus {left : Action ε (σ × ω) α} {right : Action ε (σ × ω') α}
    (haction : left.InStep (coupling.beside σ) right) :
    (place.focus left).InStep coupling (place'.focus right) where
  spoils state' hspoiled := by
    cases hfind : place'.find state' with
    | none =>
        rw [Action.after_of_error (Place.focus_of_missing hfind right)]
        exact hspoiled
    | some own =>
        rw [Action.after_of_settle (Place.focus_apply hfind right)]
        exact hshares.spoils _ _ (haction.spoils (own, state') hspoiled)
  keeps state state' halike := by
    have hsame := hshares.find state state' halike
    cases hfind : place'.find state' with
    | none =>
        have hleft := Place.focus_of_missing (hsame.trans hfind) left
        have hright := Place.focus_of_missing hfind right
        rw [Action.after_of_error hright, Action.after_of_error hleft]
        refine .inr ⟨?_, halike⟩
        unfold Action.answer
        rw [hleft, hright]
    | some own =>
        have hleft := Place.focus_apply (hsame.trans hfind) left
        have hright := Place.focus_apply hfind right
        rw [Action.after_of_settle hright, Action.answer_of_settle hright,
          Action.after_of_settle hleft, Action.answer_of_settle hleft]
        cases haction.keeps (own, state) (own, state') ⟨rfl, halike⟩ with
        | inl hspoiled => exact .inl (hshares.spoils _ _ hspoiled)
        | inr hkept =>
            obtain ⟨hanswer, hown, halike'⟩ := hkept
            rw [hanswer, hown]
            exact .inr ⟨rfl, hshares.put _ _ _ halike'⟩

end Parts

section Components

variable {H V I R : Type} {coupling : Coupling ω ω'}

/-! ## Advancing

Whatever is done by advancing and reading is in step as soon as these are, however the two ranges are
coupled with what they call on. -/

section Advancing

variable {pairing : Coupling (Range H V × ω) (Range H V × ω')} {left : Services H V ε ω}
  {right : Services H V ε ω'}
  (hnext : ∀ cursor : Cursor, (cursor.next left).InStep pairing (cursor.next right))
  (hget : (Range.get : Action ε (Range H V × ω) V).InStep pairing
    (Range.get : Action ε (Range H V × ω') V))

include hnext hget

theorem turn_inStep_of_next (cursor? : Option Cursor) :
    (Range.turn left cursor?).InStep pairing (Range.turn right cursor?) := by
  have hread (cursor : Cursor) :
      (do
        if cursor.notEquals .shared then
          let value ← Range.get
          return some (cursor, value)
        else
          return none : Action ε (Range H V × ω) (Option (Cursor × V))).InStep pairing
        (do
        if cursor.notEquals .shared then
          let value ← Range.get
          return some (cursor, value)
        else
          return none : Action ε (Range H V × ω') (Option (Cursor × V))) := by
    split
    · exact hget.bind fun _ => Action.inStep_pure _
    · exact Action.inStep_pure _
  cases cursor? with
  | none => exact (hnext _).bind hread
  | some cursor => exact (hnext cursor).bind hread

variable {printer : Printer V ε ω} {printer' : Printer V ε ω'}
  (hformat : ∀ value index, (onRest (printer.format value index)).InStep pairing
    (onRest (printer'.format value index)))
  (hwrite : ∀ text, (onRest (printer.write text)).InStep pairing (onRest (printer'.write text)))

include hformat hwrite

theorem printLines_inStep_of_next (fuel count : Nat) (cursor : Cursor) :
    (cursor.printLines left printer fuel count).InStep pairing
      (cursor.printLines right printer' fuel count) := by
  induction fuel generalizing count cursor with
  | zero => exact Action.inStep_throw _
  | succ fuel ih =>
      unfold Cursor.printLines
      split
      · refine hget.bind fun value => (hformat value count).bind fun line => ?_
        refine (hwrite line).bind fun _ => (hwrite "\n").bind fun _ => ?_
        exact (hnext cursor).bind fun _ => ih _ _
      · exact Action.inStep_pure _

theorem range_print_inStep_of_next (fuel : Nat) :
    (Range.print left printer fuel).InStep pairing (Range.print right printer' fuel) := by
  unfold Range.print
  exact (hnext _).bind fun _ =>
    printLines_inStep_of_next hnext hget hformat hwrite fuel 0 _

end Advancing

/-- Whatever a range calls on is in step. -/
structure Services.InStep (coupling : Coupling ω ω') (left : Services H V ε ω)
    (right : Services H V ε ω') : Prop where
  ask : ∀ handle, (left.ask handle).InStep coupling (right.ask handle)
  release : ∀ handle, (left.release handle).InStep coupling (right.release handle)
  ended : (left.trace "pull" (pure "exhausted")).InStep coupling
    (right.trace "pull" (pure "exhausted"))
  pulled : ∀ value, (left.trace "pull" (left.text value)).InStep coupling
    (right.trace "pull" (right.text value))

section Ranges

variable {left : Services H V ε ω} {right : Services H V ε ω'}
  (hservices : left.InStep coupling right)

include hservices

theorem pull_inStep :
    (Range.pull left).InStep (coupling.beside (Range H V)) (Range.pull right) := by
  unfold Range.pull
  refine inStep_getOwn.bind fun range => ?_
  cases range.executor with
  | none => exact Action.inStep_throw _
  | some handle =>
      refine (hservices.ask handle).onRest.bind fun step => ?_
      cases step with
      | done parting => exact hservices.ended.onRest.bind fun _ => Action.inStep_pure false
      | yield value =>
          refine (inStep_setOwn _).bind fun _ => ?_
          exact (hservices.pulled value).onRest.bind fun _ => Action.inStep_pure true

theorem cursor_next_inStep (cursor : Cursor) :
    (cursor.next left).InStep (coupling.beside (Range H V)) (cursor.next right) := by
  unfold Cursor.next
  exact (pull_inStep hservices).bind fun _ => Action.inStep_pure _

omit hservices in
theorem get_inStep :
    (Range.get : Action ε (Range H V × ω) V).InStep (coupling.beside (Range H V))
      (Range.get : Action ε (Range H V × ω') V) := by
  unfold Range.get
  refine inStep_getOwn.bind fun range => ?_
  cases range.cache with
  | none => exact Action.inStep_throw _
  | some value => exact Action.inStep_pure value

theorem turn_inStep (cursor? : Option Cursor) :
    (Range.turn left cursor?).InStep (coupling.beside (Range H V))
      (Range.turn right cursor?) :=
  turn_inStep_of_next (cursor_next_inStep hservices) get_inStep cursor?

theorem close_inStep :
    (Range.close left).InStep (coupling.beside (Range H V)) (Range.close right) := by
  unfold Range.close
  refine inStep_getOwn.bind fun range => ?_
  cases range.executor with
  | none => exact Action.inStep_pure _
  | some handle => exact (inStep_setOwn _).bind fun _ => (hservices.release handle).onRest

end Ranges

theorem walk_next_inStep {left : Turn V ε ω} {right : Turn V ε ω'}
    (hturn : ∀ cursor?, (left cursor?).InStep coupling (right cursor?)) :
    (Walk.next left).InStep (coupling.beside Walk) (Walk.next right) := by
  have hresume (cursor? : Option Cursor) :
      (Walk.resume left cursor?).InStep (coupling.beside Walk) (Walk.resume right cursor?) := by
    unfold Walk.resume
    refine (inStep_setOwn _).bind fun _ => (hturn cursor?).onRest.bind fun turned => ?_
    cases turned with
    | none => exact Action.inStep_pure _
    | some turned => exact (inStep_setOwn _).bind fun _ => Action.inStep_pure _
  unfold Walk.next
  refine inStep_getOwn.bind fun walk => ?_
  cases walk with
  | unstarted => exact hresume none
  | suspended cursor => exact hresume (some cursor)
  | finished => exact Action.inStep_pure _

section Buffers

theorem fill_succ (feed : Feed I R ε ω) (room consumed : Nat) (chunk : Array R) :
    (.ofTotal (Buffer.fill feed (room + 1) consumed chunk) : Action ε ω (Filled R ε)) =
      feed.ask.attempt >>= fun asked =>
        match asked with
        | .error fault => pure { chunk, consumed, stop := .failed fault }
        | .ok (.done _) => pure { chunk, consumed, stop := .drained }
        | .ok (.yield input) =>
            (feed.compute input consumed).attempt >>= fun computed =>
              match computed with
              | .error fault => pure { chunk, consumed := consumed + 1, stop := .failed fault }
              | .ok result => .ofTotal (Buffer.fill feed room (consumed + 1) (chunk.push result)) := by
  -- A failure stops a fill without making it fail, so its calls are attempted, not just bound.
  funext state
  rw [Action.ofTotal_apply, Action.bind_apply, Buffer.fill]
  simp only [Action.attempt, Action.answer, Action.after]
  cases feed.ask state with
  | error fault state => rfl
  | ok step state =>
      cases step with
      | done parting => rfl
      | yield input =>
          simp only [Action.bind_apply, Action.attempt, Action.answer, Action.after]
          cases feed.compute input consumed state <;> rfl

structure Feed.InStep (coupling : Coupling ω ω') (left : Feed I R ε ω) (right : Feed I R ε ω') :
    Prop where
  ask : left.ask.InStep coupling right.ask
  release : left.release.InStep coupling right.release
  compute : ∀ input index, (left.compute input index).InStep coupling (right.compute input index)
  trace : ∀ message, (left.trace "underflow" (pure message)).InStep coupling
    (right.trace "underflow" (pure message))

variable {left : Feed I R ε ω} {right : Feed I R ε ω'} (hfeed : left.InStep coupling right)

theorem handOut_inStep :
    (Buffer.handOut : Action ε (Buffer R ε × ω) (Step R)).InStep (coupling.beside (Buffer R ε))
      (Buffer.handOut : Action ε (Buffer R ε × ω') (Step R)) := by
  unfold Buffer.handOut
  refine inStep_getOwn.bind fun buffer => ?_
  split
  · exact (inStep_setOwn _).bind fun _ => Action.inStep_pure _
  · exact Action.inStep_pure _

include hfeed

theorem fill_inStep (room consumed : Nat) (chunk : Array R) :
    (.ofTotal (Buffer.fill left room consumed chunk) : Action ε ω (Filled R ε)).InStep coupling
      (.ofTotal (Buffer.fill right room consumed chunk)) := by
  induction room generalizing consumed chunk with
  | zero => exact Action.inStep_pure ({ chunk, consumed, stop := .full } : Filled R ε)
  | succ room ih =>
      rw [fill_succ, fill_succ]
      refine hfeed.ask.attempt.bind fun asked => ?_
      cases asked with
      | error fault => exact Action.inStep_pure _
      | ok step =>
          cases step with
          | done parting => exact Action.inStep_pure _
          | yield input =>
              refine (hfeed.compute input consumed).attempt.bind fun computed => ?_
              cases computed with
              | error fault => exact Action.inStep_pure _
              | ok result => exact ih _ _

theorem refill_inStep :
    (Buffer.refill left).InStep (coupling.beside (Buffer R ε)) (Buffer.refill right) := by
  unfold Buffer.refill
  refine inStep_getOwn.bind fun buffer => ?_
  split
  · refine (fill_inStep hfeed _ _ _).onRest.bind fun filled => ?_
    have htraced : (do
        onRest (left.trace "underflow" (pure (toString filled.chunk.size ++ " results")))
        return !filled.chunk.isEmpty : Action ε (Buffer R ε × ω) Bool).InStep
        (coupling.beside (Buffer R ε)) (do
        onRest (right.trace "underflow" (pure (toString filled.chunk.size ++ " results")))
        return !filled.chunk.isEmpty) :=
      (hfeed.trace _).onRest.bind fun _ => Action.inStep_pure _
    cases filled.stop with
    | full => exact (inStep_setOwn _).bind fun _ => htraced
    | drained => exact (inStep_setOwn _).bind fun _ => htraced
    | failed fault =>
        simp only
        split
        -- What stands behind the failure is never reached.
        · exact (inStep_setOwn _).bind fun _ => (Action.inStep_throw fault).bind fun _ => htraced
        · exact (inStep_setOwn _).bind fun _ => htraced
  · exact (inStep_setOwn _).bind fun _ => Action.inStep_pure false

theorem buffer_next_inStep :
    (Buffer.next left).InStep (coupling.beside (Buffer R ε)) (Buffer.next right) := by
  unfold Buffer.next
  refine inStep_getOwn.bind fun buffer => ?_
  split
  · exact handOut_inStep
  · split
    · exact (inStep_setOwn _).bind fun _ => Action.inStep_throw _
    · refine (refill_inStep hfeed).bind fun refilled => ?_
      split
      · exact handOut_inStep
      · exact Action.inStep_pure _

theorem buffer_release_inStep :
    (Buffer.release left).InStep (coupling.beside (Buffer R ε)) (Buffer.release right) := by
  unfold Buffer.release
  refine inStep_getOwn.bind fun buffer => (inStep_setOwn _).bind fun _ => ?_
  split
  · exact hfeed.release.onRest
  · exact Action.inStep_pure _

end Buffers

theorem take_succ (turn : Turn V ε ω) (wanted : Nat) (got : Array V) :
    (.ofTotal (Walk.take turn (wanted + 1) got) : Action ε (Walk × ω) (Taken V ε)) =
      (Walk.next turn).attempt >>= fun answer =>
        match answer with
        | .error fault => pure { got, failure := some fault }
        | .ok (.done _) => pure { got, failure := none }
        | .ok (.yield value) => .ofTotal (Walk.take turn wanted (got.push value)) := by
  funext state
  rw [Action.ofTotal_apply, Action.bind_apply, Walk.take]
  simp only [Action.attempt, Action.answer, Action.after]
  cases Walk.next turn state with
  | error fault state => rfl
  | ok step state => cases step <;> rfl

section Consumers

variable {left : Turn V ε ω} {right : Turn V ε ω'}
  (hturn : ∀ cursor?, (left cursor?).InStep coupling (right cursor?))

include hturn

theorem collect_inStep (fuel : Nat) (collected : Array V) :
    (Walk.collect left fuel collected).InStep (coupling.beside Walk)
      (Walk.collect right fuel collected) := by
  induction fuel generalizing collected with
  | zero => exact Action.inStep_throw _
  | succ fuel ih =>
      refine (walk_next_inStep hturn).bind fun step => ?_
      cases step with
      | done parting => exact Action.inStep_pure _
      | yield value => exact ih _

theorem take_inStep (wanted : Nat) (got : Array V) :
    (.ofTotal (Walk.take left wanted got) : Action ε (Walk × ω) (Taken V ε)).InStep
      (coupling.beside Walk) (.ofTotal (Walk.take right wanted got)) := by
  induction wanted generalizing got with
  | zero =>
      exact ⟨fun _ hspoiled => hspoiled, fun _ _ halike => .inr ⟨rfl, rfl, halike.2⟩⟩
  | succ wanted ih =>
      rw [take_succ, take_succ]
      refine (walk_next_inStep hturn).attempt.bind fun answer => ?_
      cases answer with
      | error fault => exact Action.inStep_pure _
      | ok step =>
          cases step with
          | done parting => exact Action.inStep_pure _
          | yield value => exact ih _

end Consumers

section Printing

variable {left : Services H V ε ω} {right : Services H V ε ω'}
  {printer : Printer V ε ω} {printer' : Printer V ε ω'}
  (hservices : left.InStep coupling right)
  (hformat : ∀ value index, (printer.format value index).InStep coupling
    (printer'.format value index))
  (hwrite : ∀ text, (printer.write text).InStep coupling (printer'.write text))

include hservices hformat hwrite

theorem range_print_inStep (fuel : Nat) :
    (Range.print left printer fuel).InStep (coupling.beside (Range H V))
      (Range.print right printer' fuel) :=
  range_print_inStep_of_next (cursor_next_inStep hservices) get_inStep
    (fun value index => (hformat value index).onRest) (fun text => (hwrite text).onRest) fuel

end Printing

end Components

end PullRange
