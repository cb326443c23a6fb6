import PullRange.Proofs.ChunkedAnswers
import PullRange.Proofs.Pulling

/-!
# Towers of buffers

A tower puts buffer upon buffer, each fed by a walk over a range that holds the one below. A buffer
goes on after a failure, but the walk that feeds the next one ends at the first: what comes through
a walk is `sealed`. So a tower answers like a single buffer that carries every base outcome through
all computations at once, up to the first outcome that does not reach the top.
-/

namespace PullRange

variable {I R V ε : Type}

/-- Every one of the first outcomes brings a value. -/
def YieldsBefore (outcome : Nat → Outcome V ε) (calls : Nat) : Prop :=
  ∀ earlier < calls, (outcome earlier).value?.isSome

instance (outcome : Nat → Outcome V ε) (calls : Nat) : Decidable (YieldsBefore outcome calls) :=
  inferInstanceAs (Decidable (∀ earlier < calls, (outcome earlier).value?.isSome))

namespace Outcome

/-- The outcome without a parting value. -/
def plain : Outcome V ε → Outcome V ε
  | .yield value => .yield value
  | .done _ => .done none
  | .fail error => .fail error

def andThen (compute : I → Except ε R) : Outcome I ε → Outcome R ε
  | .yield input =>
      match compute input with
      | .ok result => .yield result
      | .error error => .fail error
  | .done _ => .done none
  | .fail error => .fail error

theorem plain_answer (outcome : Outcome V ε) : outcome.plain.answer = outcome.delivered := by
  cases outcome <;> rfl

theorem plain_andThen (compute : I → Except ε R) (outcome : Outcome I ε) :
    (outcome.andThen compute).plain = outcome.andThen compute := by
  cases outcome with
  | yield input =>
      simp only [andThen]
      cases compute input <;> rfl
  | done parting => rfl
  | fail error => rfl

theorem andThen_pure (outcome : Outcome V ε) : outcome.andThen pure = outcome.plain := by
  cases outcome <;> rfl

theorem andThen_andThen {J : Type} (first : I → Except ε J) (second : J → Except ε R)
    (outcome : Outcome I ε) :
    (outcome.andThen first).andThen second =
      outcome.andThen fun input => first input >>= second := by
  cases outcome with
  | yield input =>
      simp only [andThen]
      cases first input <;> rfl
  | done parting => rfl
  | fail error => rfl

theorem yields_of_andThen {compute : I → Except ε R} {outcome : Outcome I ε}
    (hyields : (outcome.andThen compute).value?.isSome) : outcome.value?.isSome := by
  cases outcome with
  | yield input => rfl
  | done parting => exact hyields
  | fail error => exact hyields

end Outcome

/-- What comes through a walk over the outcomes: the first one without a value is the last. -/
def sealed (outcome : Nat → Outcome V ε) (call : Nat) : Outcome V ε :=
  if YieldsBefore outcome call then (outcome call).plain else .done none

section Sealed

variable {outcome other : Nat → Outcome V ε} {call : Nat}

theorem yieldsBefore_zero (outcome : Nat → Outcome V ε) : YieldsBefore outcome 0 :=
  fun earlier hearlier => absurd hearlier (Nat.not_lt_zero earlier)

theorem YieldsBefore.of_le {late : Nat} (hyields : YieldsBefore outcome late) (hle : call ≤ late) :
    YieldsBefore outcome call :=
  fun earlier hearlier => hyields earlier (Nat.lt_of_lt_of_le hearlier hle)

theorem yieldsBefore_succ :
    YieldsBefore outcome (call + 1) ↔
      YieldsBefore outcome call ∧ (outcome call).value?.isSome := by
  constructor
  · intro hyields
    exact ⟨hyields.of_le (Nat.le_succ call), hyields call (Nat.lt_succ_self call)⟩
  · rintro ⟨hbefore, hlast⟩ earlier hearlier
    cases Nat.lt_succ_iff_lt_or_eq.mp hearlier with
    | inl hlt => exact hbefore earlier hlt
    | inr heq => rwa [heq]

theorem sealed_of_yields (hyields : YieldsBefore outcome call) :
    sealed outcome call = (outcome call).plain :=
  if_pos hyields

/-- It is enough that the outcomes agree up to the first one without a value. -/
theorem yieldsBefore_congr
    (hagree : ∀ call, YieldsBefore outcome call → other call = outcome call) (calls : Nat) :
    YieldsBefore other calls ↔ YieldsBefore outcome calls := by
  induction calls with
  | zero => exact ⟨nofun, nofun⟩
  | succ call ih =>
      rw [yieldsBefore_succ, yieldsBefore_succ, ih]
      constructor
      · rintro ⟨hbefore, hlast⟩
        exact ⟨hbefore, by rwa [← hagree call hbefore]⟩
      · rintro ⟨hbefore, hlast⟩
        exact ⟨hbefore, by rwa [hagree call hbefore]⟩

theorem sealed_congr (hagree : ∀ call, YieldsBefore outcome call → other call = outcome call) :
    sealed other = sealed outcome := by
  funext call
  unfold sealed
  simp only [yieldsBefore_congr hagree call]
  split
  · rename_i hyields
    rw [hagree call hyields]
  · rfl

theorem YieldsBefore.of_andThen {compute : Nat → V → Except ε R}
    (hyields : YieldsBefore (fun call => (outcome call).andThen (compute call)) call) :
    YieldsBefore outcome call :=
  fun earlier hearlier => Outcome.yields_of_andThen (hyields earlier hearlier)

theorem endsBefore_of_yields (hyields : YieldsBefore outcome call) :
    endsBefore outcome call = false := by
  induction call with
  | zero => rfl
  | succ call ih =>
      obtain ⟨hbefore, hlast⟩ := yieldsBefore_succ.mp hyields
      rw [endsBefore, ih hbefore]
      cases houtcome : outcome call with
      | yield value => rfl
      | done parting =>
          rw [houtcome] at hlast
          cases hlast
      | fail error => rfl

theorem inputsBefore_of_yields (hyields : YieldsBefore outcome call) :
    inputsBefore outcome call = call := by
  induction call with
  | zero => rfl
  | succ call ih =>
      obtain ⟨hbefore, hlast⟩ := yieldsBefore_succ.mp hyields
      rw [inputsBefore, ih hbefore, if_pos hlast]

theorem produced_of_yields (compute : V → Nat → Except ε R) (hyields : YieldsBefore outcome call) :
    produced outcome compute call = (outcome call).andThen (compute · call) := by
  unfold produced
  rw [endsBefore_of_yields hyields, inputsBefore_of_yields hyields]
  cases outcome call <;> rfl

theorem sealed_produced (compute : V → Nat → Except ε R) (outcome : Nat → Outcome V ε) :
    sealed (produced outcome compute) =
      sealed fun call => (outcome call).andThen (compute · call) :=
  sealed_congr fun _ hyields => produced_of_yields compute hyields.of_andThen

theorem produced_sealed (compute : V → Nat → Except ε R) (outcome : Nat → Outcome V ε)
    (call : Nat) :
    produced (sealed outcome) compute call =
      if YieldsBefore outcome call then (outcome call).andThen (compute · call)
      else .done none := by
  split
  · rename_i hyields
    have hsealed : YieldsBefore (sealed outcome) call := by
      intro earlier hearlier
      rw [sealed_of_yields (hyields.of_le (Nat.le_of_lt hearlier))]
      have hvalue := hyields earlier hearlier
      cases houtcome : outcome earlier with
      | yield value => rfl
      | done parting => rw [houtcome] at hvalue; exact nomatch hvalue
      | fail error => rw [houtcome] at hvalue; exact nomatch hvalue
    rw [produced_of_yields compute hsealed, sealed_of_yields hyields]
    cases outcome call <;> rfl
  · rename_i hstopped
    have hdone : sealed outcome call = .done none := if_neg hstopped
    unfold produced
    rw [hdone]
    split <;> rfl

end Sealed

namespace Store

structure Layer (V ε : Type) where
  compute : V → Nat → Reply ε V
  chunkSize : Int
  chunkSize_pos : 1 ≤ chunkSize

def Layer.result (layer : Layer V ε) : V → Nat → Except ε V :=
  results layer.compute

/-- A base input on its way up through the layers, which all know it by the same index. -/
def through (layers : List (Layer V ε)) (index : Nat) (input : V) : Except ε V :=
  layers.foldlM (fun value layer => layer.result value index) input

/-- What the layers together make of an outcome of the base. -/
def arriving (base : Nat → Outcome V ε) (layers : List (Layer V ε)) (call : Nat) : Outcome V ε :=
  (base call).andThen (through layers call)

/-- What a tower answers. As long as everything before has reached the top layer, its answer is what
it makes of what arrives there: its own failures go by, whatever else fails or ends ends the tower.
-/
def fused (base : Nat → Outcome V ε) (lower : List (Layer V ε)) (top : Layer V ε) (call : Nat) :
    Except (Fault ε) (Step V) :=
  if YieldsBefore (arriving base lower) call then
    ((arriving base lower call).andThen (top.result · call)).answer
  else
    .ok (.done none)

/-- The outcomes of a tower, one layer upon the walk over another. -/
def stacked (outcome : Nat → Outcome V ε) :
    (first : Layer V ε) → (above : List (Layer V ε)) → Nat → Outcome V ε
  | first, [] => produced outcome first.result
  | first, next :: above => stacked (sealed (produced outcome first.result)) next above

theorem stacked_append (outcome : Nat → Outcome V ε) (first : Layer V ε) (middle : List (Layer V ε))
    (top : Layer V ε) :
    stacked outcome first (middle ++ [top]) =
      produced (sealed (stacked outcome first middle)) top.result := by
  induction middle generalizing outcome first with
  | nil => rfl
  | cons next middle ih => exact ih _ next

theorem arriving_cons (base : Nat → Outcome V ε) (first : Layer V ε) (above : List (Layer V ε)) :
    arriving base (first :: above) =
      arriving (fun call => (base call).andThen (first.result · call)) above := by
  funext call
  unfold arriving
  rw [Outcome.andThen_andThen]
  rfl

theorem sealed_stacked (outcome : Nat → Outcome V ε) (first : Layer V ε)
    (above : List (Layer V ε)) :
    sealed (stacked outcome first above) = sealed (arriving outcome (first :: above)) := by
  induction above generalizing outcome first with
  | nil =>
      rw [stacked, sealed_produced, arriving_cons]
      refine sealed_congr fun call _ => ?_
      exact ((Outcome.andThen_pure _).trans (Outcome.plain_andThen _ _)).symm
  | cons next above ih =>
      rw [stacked, ih, arriving_cons outcome first]
      refine sealed_congr fun call hyields => ?_
      have hfirst : YieldsBefore (fun call => (outcome call).andThen (first.result · call)) call :=
        hyields.of_andThen
      unfold arriving
      rw [sealed_produced, sealed_of_yields hfirst, Outcome.plain_andThen]

theorem fused_eq_stacked (base : Nat → Outcome V ε) (first : Layer V ε) (middle : List (Layer V ε))
    (top : Layer V ε) (call : Nat) :
    (stacked base first (middle ++ [top]) call).answer = fused base (first :: middle) top call := by
  rw [stacked_append, sealed_stacked, produced_sealed, fused]
  split <;> rfl

/-- Nothing changes above an executor: neither the other executors nor who holds them. -/
structure Above (lower : Nat) (before after : Store V ε) : Prop where
  executors : ∀ number, lower < number → after.executors[number]? = before.executors[number]?
  executorOf : after.executorOf = before.executorOf
  size : after.ranges.size = before.ranges.size

instance (lower : Nat) : Std.Refl (Above lower : Store V ε → Store V ε → Prop) where
  refl _ := ⟨fun _ _ => rfl, rfl, rfl⟩

instance (lower : Nat) : IsTrans (Store V ε) (Above lower) where
  trans _ _ _ hfirst hsecond :=
    ⟨fun number hlt => (hsecond.executors number hlt).trans (hfirst.executors number hlt),
      hsecond.executorOf.trans hfirst.executorOf, hsecond.size.trans hfirst.size⟩

theorem Above.modify {lower touched : Nat} (htouched : touched ≤ lower) {before after : Store V ε}
    (habove : before.Above lower after) (change : Executor V ε → Executor V ε) :
    before.Above lower { after with executors := after.executors.modify touched change } where
  executors number hlt := by
    rw [← habove.executors number hlt, Array.getElem?_modify,
      if_neg (Nat.ne_of_lt (Nat.lt_of_le_of_lt htouched hlt))]
  executorOf := habove.executorOf
  size := habove.size

theorem above_bound (lower : Nat) :
    Bound (· ≤ lower) (Above lower : Store V ε → Store V ε → Prop) where
  logging _ _ _ := ⟨fun _ _ => rfl, rfl, rfl⟩
  written _ _ _ _ _ := ⟨fun _ _ => rfl, rfl, rfl⟩
  script _ _ _ _ htouched habove := habove.modify htouched _
  walk _ _ _ _ htouched habove := habove.modify htouched _
  executorOf _ _ habove := habove.executorOf
  noting _ _ _ _ := ⟨fun _ _ => rfl, rfl, rfl⟩
  buffer _ _ _ _ _ htouched _ _ habove := habove.modify htouched _
  range _ _ _ _ _ hown hsame habove :=
    ⟨habove.executors, executorOf_put_of_same hown hsame habove.executorOf,
      Array.size_setIfInBounds.trans habove.size⟩

variable [Textual V ε]

theorem askExecutor_above (lower : Nat) (store : Store V ε) :
    (askExecutor (servicesBelow lower) lower).Leads (Above lower) store :=
  askExecutor_leads (above_bound lower)
    (serves_below (above_bound lower) lower fun _ hlt => Nat.le_of_lt hlt) (Nat.le_refl lower)
    fun _ _ => ⟨fun _ _ => rfl, rfl, rfl⟩

/-- The source walks over a range that holds executor `lower`. The walk has come as far as the
executor, unless it has ended. -/
inductive Walking (lower range : Nat) (outcome : Nat → Outcome V ε) (At : Nat → Store V ε → Prop)
    (asked : Nat) (store : Store V ε) : Source V ε → Prop where
  | underway (walk : Walk) (hwalk : walk ≠ .finished)
      (hholds : store.executorOf range = some lower) (hyields : YieldsBefore outcome asked)
      (hat : At asked store) : Walking lower range outcome At asked store (.walk range walk)
  | ended (hended : ¬ YieldsBefore outcome asked) :
      Walking lower range outcome At asked store (.walk range .finished)

section Walking

variable {lower range number : Nat} {outcome : Nat → Outcome V ε} {At : Nat → Store V ε → Prop}

/-- Asking through a range that holds an executor which stands. -/
theorem Standing.turn (hstanding : Standing lower outcome At) (hlt : lower < number)
    {asked : Nat} {store : Store V ε} (hat : At asked store)
    (hholds : store.executorOf range = some lower) :
    ∃ store', At (asked + 1) store' ∧ store.Above lower store' ∧
      ∀ cursor?, turnOn (servicesBelow number) range cursor? store =
        settle (outcome asked).turned store' := by
  obtain ⟨answered, hat', hask⟩ := hstanding.ask asked store hat
  have habove : store.Above lower answered := by
    have hleads := askExecutor_above lower store
    rwa [Action.Leads, Action.after_of_settle hask] at hleads
  obtain ⟨⟨executor, cache⟩, hown, rfl⟩ : ∃ own, store.ranges[range]? = some own ∧
      own.executor = some lower := Option.bind_eq_some_iff.mp hholds
  let own' : Range Nat V := { executor := some lower, cache := (outcome asked).value?.or cache }
  have hput : store.Above lower ((rangeAt range).put own' answered) :=
    (above_bound lower).range range _ own' store answered hown ⟨rfl, nofun⟩ habove
  refine ⟨(rangeAt range).put own' answered, ?_, hput, fun cursor? => ?_⟩
  · exact hstanding.keep _ answered _ hat'
      ⟨fun _ _ => rfl, fun _ _ hheld => by rwa [hput.executorOf, ← habove.executorOf], rfl⟩
  · refine Place.focus_of_settle hown (turn_of_ask ?_ ?_ cursor?)
    · rw [servicesBelow_ask hlt]
      exact hask
    · rw [servicesBelow_trace]
      exact trace_of_untraced (hstanding.untraced _ _ hat')

omit [Textual V ε] in
theorem Walking.after {asked : Nat} {store : Store V ε} (hyields : YieldsBefore outcome asked)
    (hholds : store.executorOf range = some lower) (hat : At (asked + 1) store) :
    Walking lower range outcome At (asked + 1) store (.walk range (outcome asked).walk) := by
  have hended (hbarren : (outcome asked).value? = none) : ¬ YieldsBefore outcome (asked + 1) := by
    intro hsucc
    have hvalue := (yieldsBefore_succ.mp hsucc).2
    rw [hbarren] at hvalue
    exact nomatch hvalue
  cases houtcome : outcome asked with
  | yield value =>
      have hvalue : (outcome asked).value?.isSome := by rw [houtcome]; rfl
      exact .underway _ nofun hholds (yieldsBefore_succ.mpr ⟨hyields, hvalue⟩) hat
  | done parting => exact .ended (hended (by rw [houtcome]; rfl))
  | fail error => exact .ended (hended (by rw [houtcome]; rfl))

theorem Walking.supply (hstanding : Standing lower outcome At) (hlt : lower < number) :
    Supply (servicesBelow number) number (sealed outcome)
      (fun asked source store => Walking lower range outcome At asked store source) where
  ask := by
    intro asked source stage store hwalking huntraced hexecutor
    -- Whatever the walk comes to, it is put back beside what asking has left.
    have hput {walk : Walk} {answer : Except (Fault ε) (Step V)} {walk' : Walk}
        {store' : Store V ε}
        (hexecutor : store.executors[number]? =
          some { source := .walk range walk, stage := some stage })
        (hnext : Walk.next (turnOn (servicesBelow number) range) (walk, store) =
          settle answer (walk', store')) :
        askSource (servicesBelow number) number store =
          settle answer ((walkOf number).put walk' store') := by
      rw [askSource, Action.bind_of_ok (executorAt_read hexecutor)]
      exact Place.focus_of_settle (walkOf_find hexecutor) hnext
    cases hwalking with
    | underway walk hwalk hholds hyields hat =>
        obtain ⟨answered, hat', habove, hturn⟩ := hstanding.turn hlt hat hholds
        have hexecutor' := (habove.executors number hlt).trans hexecutor
        let walk' := (outcome asked).walk
        let store' := (walkOf number).put walk' answered
        have hsame : answered.SameBelow (lower + 1) store' := by
          refine ⟨fun other hother => ?_, fun _ _ hheld => hheld, rfl⟩
          simp only [store', walkOf, Array.getElem?_modify]
          rw [if_neg (Nat.ne_of_gt (Nat.lt_of_lt_of_le hother hlt))]
        refine ⟨.walk range walk', store', ?_, hsame.tracing.trans (hstanding.untraced _ _ hat'),
          walkOf_put_executor hexecutor', ?_⟩
        · exact .after hyields (habove.executorOf ▸ hholds) (hstanding.keep _ _ _ hat' hsame)
        · rw [sealed_of_yields hyields, Outcome.plain_answer]
          exact hput hexecutor (walk_next_of_turn hturn hwalk)
    | ended hended =>
        refine ⟨_, (walkOf number).put .finished store, .ended ?_, huntraced,
          walkOf_put_executor hexecutor, ?_⟩
        · exact fun hsucc => hended (yieldsBefore_succ.mp hsucc).1
        · have hdone : sealed outcome asked = .done none := if_neg hended
          rw [hdone]
          exact hput hexecutor (Walk.next_of_finished _ store)
  keep := by
    intro asked source before after hwalking hsame
    cases hwalking with
    | underway walk hwalk hholds hyields hat =>
        refine .underway walk hwalk (hsame.executorOf _ _ hholds) hyields
          (hstanding.keep asked before after hat ⟨fun other hother => ?_, hsame.executorOf,
            hsame.tracing⟩)
        exact hsame.executors other (Nat.lt_of_lt_of_le hother hlt)
    | ended hended => exact .ended hended

end Walking

/-! ## Towers -/

/-- Puts a buffer on a source, and then every further layer on a walk over a new range that holds
the layer below. -/
def addTower (source : Source V ε) : (first : Layer V ε) → (above : List (Layer V ε)) → Act V ε Nat
  | first, [] => addBuffered source none first.compute (.number (.integer first.chunkSize))
  | first, next :: above => do
      let lower ← addBuffered source none first.compute (.number (.integer first.chunkSize))
      let range ← addRange (.holding (some lower))
      addTower (.walk range .unstarted) next above

theorem addTower_standing (first : Layer V ε) (above : List (Layer V ε))
    {source : Source V ε} {outcome : Nat → Outcome V ε} {At : Nat → Source V ε → Store V ε → Prop}
    {store : Store V ε}
    (hsupply : Supply (servicesBelow store.executors.size) store.executors.size outcome At)
    (hat : At 0 source store) (huntraced : store.tracing = false) :
    ∃ number store' At', addTower source first above store = .ok number store' ∧
      Standing number (stacked outcome first above) At' ∧ At' 0 store' := by
  induction above generalizing source outcome At store first with
  | nil =>
      obtain ⟨store', hanswering, -, hadd⟩ :=
        hsupply.addBuffered hat huntraced first.compute first.chunkSize_pos
      exact ⟨_, store', _, hadd, hsupply.standing first.compute, hanswering⟩
  | cons next above ih =>
      obtain ⟨lowered, hanswering, hsize, hadd⟩ :=
        hsupply.addBuffered hat huntraced first.compute first.chunkSize_pos
      have hstanding := hsupply.standing first.compute
      let held : Range Nat V := .holding (some store.executors.size)
      let ranged : Store V ε := { lowered with ranges := lowered.ranges.push held }
      have hholds : ranged.executorOf lowered.ranges.size = some store.executors.size := by
        simp [executorOf, ranged, held, Range.holding]
      have hgrown : lowered.SameBelow (store.executors.size + 1) ranged := by
        refine ⟨fun _ _ => rfl, fun range executor hheld => ?_, rfl⟩
        obtain ⟨own, hown, hexecutor⟩ := Option.bind_eq_some_iff.mp hheld
        have hrange : ranged.ranges[range]? = some own := by
          simp [ranged, Array.getElem?_push, Nat.ne_of_lt (lt_size_of_range hown), hown]
        rw [executorOf_of_range hrange, hexecutor]
      have hat := hstanding.keep 0 lowered ranged hanswering hgrown
      have hlt : store.executors.size < ranged.executors.size := by
        rw [hsize]
        exact Nat.lt_succ_self _
      obtain ⟨number, store', At', htower, hstands, hat'⟩ :=
        ih next (Walking.supply hstanding hlt) (.underway .unstarted (by decide) hholds
          (yieldsBefore_zero _) hat) hanswering.untraced
      refine ⟨number, store', At', ?_, hstands, hat'⟩
      rw [addTower, Action.bind_of_ok hadd]
      exact htower

omit [Textual V ε] in
theorem fused_congr (base : Nat → Outcome V ε) {lower lower' : List (Layer V ε)}
    {top top' : Layer V ε}
    (hsame : (lower ++ [top]).map Layer.compute = (lower' ++ [top']).map Layer.compute) :
    fused base lower top = fused base lower' top' := by
  rw [List.map_append, List.map_append] at hsame
  obtain ⟨hlower, htop⟩ := List.append_inj' hsame rfl
  have hthrough (layers : List (Layer V ε)) (index : Nat) : through layers index =
      fun input => (layers.map Layer.compute).foldlM
        (fun value compute => results compute value index) input := by
    funext input
    rw [through, List.foldlM_map]
    rfl
  have harriving : arriving base lower = arriving base lower' := by
    funext call
    simp only [arriving, hthrough, hlower]
  have hresult : top.result = top'.result := congrArg results (List.cons.inj htop).1
  funext call
  rw [fused, fused, harriving, hresult]

/-- **Towers of buffers fuse.** A tower of two or more layers over a script answers, one call after
another, as if every outcome of the script went through all layers at once. Towers of the same
computations therefore answer alike, whatever the sizes of their chunks. -/
theorem towers_fuse (script : Script V ε) (first : Layer V ε) (middle : List (Layer V ε))
    (top : Layer V ε) (store : Store V ε) (huntraced : store.tracing = false) :
    (∃ number store',
      addTower (.script script) first (middle ++ [top]) store = .ok number store' ∧
      ∀ calls, (ask number).answers calls store' =
        (List.range calls).map (fused script.coming (first :: middle) top)) ∧
    (∀ first' middle' top',
      (first' :: middle' ++ [top']).map Layer.compute =
        (first :: middle ++ [top]).map Layer.compute →
      ∀ number store' number' store'',
        addTower (.script script) first (middle ++ [top]) store = .ok number store' →
        addTower (.script script) first' (middle' ++ [top']) store = .ok number' store'' →
        ∀ calls, (ask number').answers calls store'' = (ask number).answers calls store') := by
  have hanswers (first : Layer V ε) (middle : List (Layer V ε)) (top : Layer V ε) :
      ∃ number store',
        addTower (.script script) first (middle ++ [top]) store = .ok number store' ∧
        ∀ calls, (ask number).answers calls store' =
          (List.range calls).map (fused script.coming (first :: middle) top) := by
    obtain ⟨number, store', At, hadd, hstands, hat⟩ := addTower_standing first (middle ++ [top])
      (script_supply _ store.executors.size script) rfl huntraced
    refine ⟨number, store', hadd, fun calls => ?_⟩
    rw [answers_of_standing hstands hat]
    exact List.map_congr_left fun call _ => fused_eq_stacked script.coming first middle top call
  refine ⟨hanswers first middle top, ?_⟩
  intro first' middle' top' hsame number store' number' store'' hadd hadd' calls
  obtain ⟨_, _, haddSame, hanswered⟩ := hanswers first middle top
  obtain ⟨_, _, haddSame', hanswered'⟩ := hanswers first' middle' top'
  cases hadd.symm.trans haddSame
  cases hadd'.symm.trans haddSame'
  rw [hanswered, hanswered', fused_congr script.coming hsame]

def mixedScript : Script Value Thrown :=
  .ofOutcomes [.yield (.boolean true), .yield .undefined, .yield .null, .yield (.boolean true)] none

def refusingNull : Layer Value Thrown where
  compute
    | .null, _ => .fail (.value .null)
    | value, _ => pure value
  chunkSize := 2
  chunkSize_pos := by decide

def refusingUndefined : Layer Value Thrown where
  compute
    | .undefined, _ => .fail (.value .undefined)
    | value, _ => pure value
  chunkSize := 3
  chunkSize_pos := by decide

/-- The top layer gets over its own failure, but not over the one from below. -/
theorem tower_around_failures : ∃ number store',
    addTower (.script mixedScript) refusingNull [refusingUndefined] .initial = .ok number store' ∧
    (ask number).answers 5 store' =
      [.ok (.yield (.boolean true)), .error (.raised (.value .undefined)),
        .error (.raised (.value .null)), .ok (.done none), .ok (.done none)] := by
  obtain ⟨number, store', hadd, hanswers⟩ :=
    (towers_fuse mixedScript refusingNull [] refusingUndefined .initial rfl).1
  exact ⟨number, store', hadd, hanswers 5⟩

end Store

end PullRange
