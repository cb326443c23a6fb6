import PullRange.Proofs.Lockstep
import PullRange.Proofs.Requests
import PullRange.Proofs.StoredScripts

/-!
# Two stores in lockstep

Tracing concerns the writers, the tracing switch and the log of a store; whatever else there is are
its objects. A coupling `Follows` if it stays with two runs that change their objects alike, log and
write alike, and trace in step. Then every request is in step with itself, even if the two runs
convert values in different ways.
-/

namespace PullRange.Store

variable {V ε α : Type}

/-- What a store keeps beside the writers, the tracing switch and the log. -/
structure Objects (V ε : Type) where
  executors : Array (Executor V ε)
  ranges : Array (Range Nat V)
  cursors : Array (Nat × Cursor)
  walks : Array (Nat × Walk)
  calls : Array Call

def objects (store : Store V ε) : Objects V ε :=
  { executors := store.executors, ranges := store.ranges, cursors := store.cursors,
    walks := store.walks, calls := store.calls }

def withObjects (store : Store V ε) (objects : Objects V ε) : Store V ε :=
  { store with
    executors := objects.executors, ranges := objects.ranges, cursors := objects.cursors,
    walks := objects.walks, calls := objects.calls }

/-- A store with nothing but the objects. -/
def bare (objects : Objects V ε) : Store V ε :=
  (initial : Store V ε).withObjects objects

/-- The action knows and changes nothing but the objects. -/
def Inward (action : Act V ε α) : Prop :=
  ∀ store : Store V ε, action store =
    settle (action.answer (bare store.objects))
      (store.withObjects (action.after (bare store.objects)).objects)

/-- The place shows and changes nothing but the objects. -/
structure Within {σ : Type} (place : Place (Store V ε) σ) : Prop where
  find : ∀ store : Store V ε, place.find store = place.find (bare store.objects)
  put : ∀ own (store : Store V ε), place.put own store =
    store.withObjects (place.put own (bare store.objects)).objects

theorem within_rangeAt (number : Nat) : Within (rangeAt number : Place (Store V ε) _) :=
  ⟨fun _ => rfl, fun _ _ => rfl⟩

theorem within_cursorAt (number : Nat) : Within (cursorAt number : Place (Store V ε) _) :=
  ⟨fun _ => rfl, fun _ _ => rfl⟩

theorem within_walkAt (number : Nat) : Within (walkAt number : Place (Store V ε) _) :=
  ⟨fun _ => rfl, fun _ _ => rfl⟩

theorem within_executorAt (number : Nat) : Within (executorAt number : Place (Store V ε) _) :=
  ⟨fun _ => rfl, fun _ _ => rfl⟩

theorem within_scriptOf (number : Nat) : Within (scriptOf number : Place (Store V ε) _) :=
  ⟨fun _ => rfl, fun _ _ => rfl⟩

theorem within_walkOf (number : Nat) : Within (walkOf number : Place (Store V ε) _) :=
  ⟨fun _ => rfl, fun _ _ => rfl⟩

theorem within_bufferOf (number : Nat) : Within (bufferOf number : Place (Store V ε) _) :=
  ⟨fun _ => rfl, fun _ _ => rfl⟩

theorem inward_concluding (answer : Except (Fault ε) α) :
    Inward (concluding answer : Act V ε α) := by
  intro store
  cases answer <;> rfl

/-- Alike stores have the same writers apart from the sinks, and stay alike when these and the log
change alike. -/
structure Chronicles (sinks : List Nat) (coupling : Coupling (Store V ε) (Store V ε)) : Prop where
  writers : ∀ store store', coupling.alike store store' → ∀ writer : Nat, writer ∉ sinks →
    store.writers[writer]? = store'.writers[writer]?
  logs : ∀ store store', coupling.alike store store' → ∀ events,
    coupling.alike (store.logging events) (store'.logging events)
  puts : ∀ store store', coupling.alike store store' → ∀ writer own, writer ∉ sinks →
    store'.writers[writer]?.isSome →
    coupling.alike ((writerAt writer).put own store) ((writerAt writer).put own store')
  logs_spoiled : ∀ store', coupling.spoiled store' → ∀ events,
    coupling.spoiled (store'.logging events)
  puts_spoiled : ∀ store', coupling.spoiled store' → ∀ writer own, writer ∉ sinks →
    coupling.spoiled ((writerAt writer).put own store')

/-- Alike stores also have the same objects, and stay alike when these change alike. Both runs trace
in step, though each converts values in its own way. -/
structure Follows (sinks : List Nat) (left right : Textual V ε)
    (coupling : Coupling (Store V ε) (Store V ε)) : Prop extends Chronicles sinks coupling where
  objects : ∀ store store', coupling.alike store store' → store.objects = store'.objects
  keeps : ∀ store store', coupling.alike store store' → ∀ objects,
    coupling.alike (store.withObjects objects) (store'.withObjects objects)
  keeps_spoiled : ∀ store', coupling.spoiled store' → ∀ objects,
    coupling.spoiled (store'.withObjects objects)
  ended : (trace "pull" (pure "exhausted") : Act V ε Unit).InStep coupling
    (trace "pull" (pure "exhausted"))
  pulled : ∀ value, (trace "pull" (@text V ε left value)).InStep coupling
    (trace "pull" (@text V ε right value))
  refilled : ∀ message, (trace "underflow" (pure message) : Act V ε Unit).InStep coupling
    (trace "underflow" (pure message))

section Chronicles

variable {sinks : List Nat} {coupling : Coupling (Store V ε) (Store V ε)}
  (hchronicles : Chronicles sinks coupling)

include hchronicles

theorem logging_inStep {action : Act V ε α} (answer : Except (Fault ε) α)
    (events : List (Event Nat V))
    (haction : ∀ store, action store = settle answer (store.logging events)) :
    action.InStep coupling action where
  spoils store' hspoiled := by
    rw [Action.after_of_settle (haction store')]
    exact hchronicles.logs_spoiled store' hspoiled events
  keeps store store' halike := by
    rw [Action.answer_of_settle (haction store), Action.answer_of_settle (haction store'),
      Action.after_of_settle (haction store), Action.after_of_settle (haction store')]
    exact .inr ⟨rfl, hchronicles.logs store store' halike events⟩

theorem emit_inStep (event : Event Nat V) :
    (emit event : Act V ε Unit).InStep coupling (emit event) :=
  logging_inStep hchronicles (.ok ()) [event] (emit_apply event)

theorem carryOut_inStep (reply : Reply ε α) :
    (carryOut reply : Act V ε α).InStep coupling (carryOut reply) :=
  logging_inStep hchronicles _ _ (carryOut_apply reply)

theorem write_inStep {writer : Nat} (hwriter : writer ∉ sinks) (text : String) :
    (write writer text : Act V ε Unit).InStep coupling (write writer text) where
  spoils store' hspoiled := by
    cases hown : store'.writers[writer]? with
    | none =>
        rw [Action.after_of_error (write_of_missing hown text)]
        exact hspoiled
    | some own =>
        rw [Action.after_of_settle (write_apply hown text)]
        exact hchronicles.logs_spoiled _ (hchronicles.puts_spoiled store' hspoiled writer _ hwriter) _
  keeps store store' halike := by
    have hsame := hchronicles.writers store store' halike writer hwriter
    cases hown : store'.writers[writer]? with
    | none =>
        have hleft : write writer text store = settle (.error .missing) store :=
          write_of_missing (hsame.trans hown) text
        have hright : write writer text store' = settle (.error .missing) store' :=
          write_of_missing hown text
        rw [Action.answer_of_settle hleft, Action.answer_of_settle hright,
          Action.after_of_settle hleft, Action.after_of_settle hright]
        exact .inr ⟨rfl, halike⟩
    | some own =>
        have hleft := write_apply (hsame.trans hown) text
        have hright := write_apply hown text
        have hsome : store'.writers[writer]?.isSome := Option.isSome_of_eq_some hown
        rw [Action.answer_of_settle hleft, Action.answer_of_settle hright,
          Action.after_of_settle hleft, Action.after_of_settle hright]
        exact .inr ⟨rfl, hchronicles.logs _ _
          (hchronicles.puts store store' halike writer _ hwriter hsome) _⟩

theorem line_inStep (format : LineFormat V ε) (value : V) (index : Nat) :
    (format.line value index).InStep coupling (format.line value index) := by
  unfold LineFormat.line
  split
  · exact (emit_inStep hchronicles _).bind fun _ => carryOut_inStep hchronicles _
  · exact carryOut_inStep hchronicles _

end Chronicles

section Follows

variable {sinks : List Nat} {left right : Textual V ε}
  {coupling : Coupling (Store V ε) (Store V ε)} (hfollows : Follows sinks left right coupling)

include hfollows

theorem Inward.inStep {action : Act V ε α} (hinward : Inward action) :
    action.InStep coupling action where
  spoils store' hspoiled := by
    rw [Action.after_of_settle (hinward store')]
    exact hfollows.keeps_spoiled store' hspoiled _
  keeps store store' halike := by
    rw [Action.answer_of_settle (hinward store), Action.answer_of_settle (hinward store'),
      Action.after_of_settle (hinward store), Action.after_of_settle (hinward store'),
      hfollows.objects store store' halike]
    exact .inr ⟨rfl, hfollows.keeps store store' halike _⟩

theorem Within.shares {σ : Type} {place : Place (Store V ε) σ} (hwithin : Within place) :
    coupling.Shares place place where
  find store store' halike := by
    rw [hwithin.find store, hwithin.find store', hfollows.objects store store' halike]
  put own store store' halike := by
    rw [hwithin.put own store, hwithin.put own store', hfollows.objects store store' halike]
    exact hfollows.keeps store store' halike _
  spoils own store' hspoiled := by
    rw [hwithin.put own store']
    exact hfollows.keeps_spoiled store' hspoiled _

/-- What follows a look at the store need only be in step if it looks at the objects alone. -/
theorem inStep_get {next next' : Store V ε → Act V ε α}
    (hinward : ∀ store, next store = next (bare store.objects))
    (hnext : ∀ store, (next store).InStep coupling (next' store)) :
    ((get : Act V ε (Store V ε)) >>= next).InStep coupling (get >>= next') where
  spoils store' hspoiled := (hnext store').spoils store' hspoiled
  keeps store store' halike := by
    -- The runs look at different stores, but what follows cannot tell them apart.
    have hsame : next store = next store' := by
      rw [hinward store, hinward store', hfollows.objects store store' halike]
    change coupling.spoiled ((next' store').after store') ∨
      (next store).answer store = (next' store').answer store' ∧
        coupling.alike ((next store).after store) ((next' store').after store')
    rw [hsame]
    exact (hnext store').keeps store store' halike

theorem turnOn_inStep {services services' : StoreServices V ε}
    (hservices : services.InStep coupling services') (range : Nat) (cursor? : Option Cursor) :
    (turnOn services range cursor?).InStep coupling (turnOn services' range cursor?) :=
  ((within_rangeAt range).shares hfollows).focus (turn_inStep hservices cursor?)

theorem askScript_inStep (number : Nat) (role : Role) :
    (askScript number role : Act V ε (Step V)).InStep coupling (askScript number role) := by
  have hshares := (within_scriptOf number).shares hfollows
  unfold askScript
  refine hshares.read.bind fun script => ?_
  split
  · exact hshares.focus (inStep_onOwn _)
  · exact (emit_inStep hfollows.toChronicles _).bind fun _ => hshares.focus (inStep_onOwn _)

theorem releaseScript_inStep (number : Nat) (role : Role) :
    (releaseScript number role : Act V ε Unit).InStep coupling (releaseScript number role) := by
  have hshares := (within_scriptOf number).shares hfollows
  unfold releaseScript
  refine hshares.read.bind fun script => ?_
  split
  · exact (emit_inStep hfollows.toChronicles _).bind fun _ => hshares.focus (inStep_onOwn _)
  · exact hshares.focus (inStep_onOwn _)

theorem releaseSource_inStep (number : Nat) :
    (releaseSource number : Act V ε Unit).InStep coupling (releaseSource number) := by
  unfold releaseSource
  refine ((within_executorAt number).shares hfollows).read.bind fun executor => ?_
  cases executor.source with
  | script script => exact releaseScript_inStep hfollows number executor.role
  | walk range walk => exact ((within_walkOf number).shares hfollows).putting walk.stop

section Services

variable {services services' : StoreServices V ε} (hservices : services.InStep coupling services')
  (number : Nat)

include hservices

theorem askSource_inStep :
    (askSource services number).InStep coupling (askSource services' number) := by
  unfold askSource
  refine ((within_executorAt number).shares hfollows).read.bind fun executor => ?_
  cases executor.source with
  | script script => exact askScript_inStep hfollows number executor.role
  | walk range walk =>
      exact ((within_walkOf number).shares hfollows).focus
        (walk_next_inStep (turnOn_inStep hfollows hservices range))

theorem feed_inStep (stage : Stage V ε) :
    (feed services number stage).InStep coupling (feed services' number stage) where
  ask := askSource_inStep hfollows hservices number
  release := releaseSource_inStep hfollows number
  compute _ _ := (emit_inStep hfollows.toChronicles _).bind fun _ => carryOut_inStep hfollows.toChronicles _
  trace := hfollows.refilled

theorem askExecutor_inStep :
    (askExecutor services number).InStep coupling (askExecutor services' number) := by
  have hnote : Inward (note (.ask number) : Act V ε Unit) := fun _ => rfl
  unfold askExecutor
  refine ((within_executorAt number).shares hfollows).read.bind fun executor => ?_
  refine (hnote.inStep hfollows).bind fun _ => ?_
  cases executor.stage with
  | none => exact askSource_inStep hfollows hservices number
  | some stage =>
      exact ((within_bufferOf number).shares hfollows).focus
        (buffer_next_inStep (feed_inStep hfollows hservices number stage))

theorem releaseExecutor_inStep :
    (releaseExecutor services number).InStep coupling (releaseExecutor services' number) := by
  have hnote : Inward (note (.release number) : Act V ε Unit) := fun _ => rfl
  have hnoted (executor : Executor V ε) {action action' : Act V ε Unit}
      (haction : action.InStep coupling action') :
      (do
        if executor.canRelease then
          note (.release number)
        action).InStep coupling (do
        if executor.canRelease then
          note (.release number)
        action') := by
    split
    · exact (hnote.inStep hfollows).bind fun _ => haction
    · exact haction
  unfold releaseExecutor
  refine ((within_executorAt number).shares hfollows).read.bind fun executor => ?_
  cases executor.stage with
  | none => exact hnoted executor (releaseSource_inStep hfollows number)
  | some stage =>
      exact hnoted executor (((within_bufferOf number).shares hfollows).focus
        (buffer_release_inStep (feed_inStep hfollows hservices number stage)))

end Services

theorem services_inStep (bound : Nat) :
    (@servicesBelow V ε left bound).InStep coupling (@servicesBelow V ε right bound) := by
  induction bound with
  | zero =>
      exact ⟨fun _ => Action.inStep_throw _, fun _ => Action.inStep_throw _, hfollows.ended,
        hfollows.pulled⟩
  | succ bound ih =>
      refine ⟨fun number => ?_, fun number => ?_, ih.ended, ih.pulled⟩
      · by_cases hlast : number = bound
        · simpa [servicesBelow, hlast] using askExecutor_inStep hfollows ih bound
        · simpa [servicesBelow, hlast] using ih.ask number
      · by_cases hlast : number = bound
        · simpa [servicesBelow, hlast] using releaseExecutor_inStep hfollows ih bound
        · simpa [servicesBelow, hlast] using ih.release number

/-! ## Requests -/

omit hfollows in
theorem onFreshWalk_inStep {action action' : Action ε (Walk × Store V ε) α}
    (haction : action.InStep (coupling.beside Walk) action') :
    (onFreshWalk action).InStep coupling (onFreshWalk action') where
  spoils store' hspoiled := by
    rw [Action.after_of_settle (onFreshWalk_apply action' store')]
    exact haction.spoils (.unstarted, store') hspoiled
  keeps store store' halike := by
    rw [Action.after_of_settle (onFreshWalk_apply action' store'),
      Action.answer_of_settle (onFreshWalk_apply action' store'),
      Action.after_of_settle (onFreshWalk_apply action store),
      Action.answer_of_settle (onFreshWalk_apply action store)]
    have hkept := haction.keeps (.unstarted, store) (.unstarted, store') ⟨rfl, halike⟩
    exact hkept.imp_right fun hkept => ⟨hkept.1, hkept.2.2⟩

theorem addBuffered_inStep (source : Source V ε) (opening : Option ε)
    (compute : V → Nat → Reply ε V) (size : ChunkSize) :
    (addBuffered source opening compute size).InStep coupling
      (addBuffered source opening compute size) := by
  have hopened {next : Act V ε Nat} (hnext : next.InStep coupling next) (script : Script V ε)
      (number : Nat) :
      (do
        unless script.silent do
          emit (.opened number)
        next).InStep coupling (do
        unless script.silent do
          emit (.opened number)
        next) := by
    split
    · exact hnext
    · exact (emit_inStep hfollows.toChronicles _).bind fun _ => hnext
  have hpush (executor : Executor V ε) (number : Nat) : Inward (do
      modify fun store => { store with executors := store.executors.push executor }
      return number : Act V ε Nat) := fun _ => rfl
  unfold addBuffered
  refine inStep_get hfollows (fun _ => rfl) fun store => ?_
  cases opening with
  | some error =>
      cases source with
      | walk range walk => exact Action.inStep_throw _
      | script script => exact hopened (Action.inStep_throw _) script _
  | none =>
      cases size.capacity with
      | error written =>
          cases source with
          | walk range walk => exact Action.inStep_throw _
          | script script => exact hopened (Action.inStep_throw _) script _
      | ok capacity =>
          cases source with
          | walk range walk => exact (hpush _ _).inStep hfollows
          | script script => exact hopened ((hpush _ _).inStep hfollows) script _

theorem rangeOfCursor_inStep (cursor : Nat) :
    (rangeOfCursor cursor : Act V ε Nat).InStep coupling (rangeOfCursor cursor) := by
  refine inStep_get hfollows (fun _ => rfl) fun store => ?_
  cases store.cursors[cursor]? with
  | none => exact Action.inStep_throw _
  | some entry => exact Action.inStep_pure _

theorem move_inStep (range : Nat) : (move range : Act V ε Nat).InStep coupling (move range) := by
  have hshares := (within_rangeAt range).shares hfollows
  have hadd (own : Range Nat V) : Inward (addRange own : Act V ε Nat) := fun _ => rfl
  unfold move
  refine hshares.read.bind fun own => (hshares.putting _).bind fun _ => ?_
  exact (hadd _).inStep hfollows

theorem store_close_inStep (range : Nat) :
    (@close V ε left range).InStep coupling (@close V ε right range) := by
  refine inStep_get hfollows (fun _ => rfl) fun store => ?_
  exact ((within_rangeAt range).shares hfollows).focus
    (close_inStep (services_inStep hfollows store.executors.size))

theorem start_inStep (range : Nat) :
    (@start V ε left range).InStep coupling (@start V ε right range) := by
  have hbind (cursor : Cursor) : Inward (do
      let store ← get
      set { store with cursors := store.cursors.push (range, cursor) }
      return store.cursors.size : Act V ε Nat) := fun _ => rfl
  refine inStep_get hfollows (fun _ => rfl) fun store => ?_
  have hnext := ((within_rangeAt range).shares hfollows).focus
    (cursor_next_inStep (services_inStep hfollows store.executors.size) { atEnd := true })
  exact hnext.bind fun cursor => (hbind cursor).inStep hfollows

theorem advance_inStep (cursor : Nat) :
    (@advance V ε left cursor).InStep coupling (@advance V ε right cursor) := by
  have hcursor := (within_cursorAt cursor).shares hfollows
  unfold advance
  refine (rangeOfCursor_inStep hfollows cursor).bind fun range => ?_
  refine hcursor.read.bind fun current => ?_
  refine inStep_get hfollows (fun _ => rfl) fun store => ?_
  have hnext := ((within_rangeAt range).shares hfollows).focus
    (cursor_next_inStep (services_inStep hfollows store.executors.size) current)
  exact hnext.bind hcursor.putting

theorem walkOn_inStep (walk : Nat) :
    (@walkOn V ε left walk).InStep coupling (@walkOn V ε right walk) := by
  unfold walkOn
  refine inStep_get hfollows (fun _ => rfl) fun store => ?_
  cases store.walks[walk]? with
  | none => exact Action.inStep_throw _
  | some entry =>
      have hservices := services_inStep hfollows store.executors.size
      exact ((within_walkAt walk).shares hfollows).focus
        (walk_next_inStep (turnOn_inStep hfollows hservices entry.1))

theorem store_collect_inStep (fuel range : Nat) :
    (@collect V ε left fuel range).InStep coupling (@collect V ε right fuel range) := by
  refine inStep_get hfollows (fun _ => rfl) fun store => ?_
  have hservices := services_inStep hfollows store.executors.size
  exact onFreshWalk_inStep (collect_inStep (turnOn_inStep hfollows hservices range) fuel #[])

theorem store_take_inStep (range wanted : Nat) :
    (@take V ε left range wanted).InStep coupling (@take V ε right range wanted) := by
  refine inStep_get hfollows (fun _ => rfl) fun store => ?_
  have hservices := services_inStep hfollows store.executors.size
  exact onFreshWalk_inStep (take_inStep (turnOn_inStep hfollows hservices range) wanted #[])

theorem print_inStep (fuel range : Nat) (format : LineFormat V ε) {writer : Nat}
    (hwriter : writer ∉ sinks) :
    (@print V ε left fuel range format.line writer).InStep coupling
      (@print V ε right fuel range format.line writer) := by
  refine inStep_get hfollows (fun _ => rfl) fun store => ?_
  exact ((within_rangeAt range).shares hfollows).focus
    (range_print_inStep (services_inStep hfollows store.executors.size)
      (line_inStep hfollows.toChronicles format) (fun text => write_inStep hfollows.toChronicles hwriter text) fuel)

theorem sideOf_inStep (party : Party) :
    (sideOf party : Act V ε Side).InStep coupling (sideOf party) := by
  cases party with
  | sentinel sentinel => exact Action.inStep_pure _
  | cursor cursor =>
      exact ((within_cursorAt cursor).shares hfollows).read.bind fun _ => Action.inStep_pure _

end Follows

/-- The request does not print to any of the writers. -/
def Request.Spares (sinks : List Nat) : Request V ε → Prop
  | .print _ _ _ writer => writer ∉ sinks
  | _ => True

theorem perform_inStep {sinks : List Nat} {left right : Textual V ε}
    {coupling : Coupling (Store V ε) (Store V ε)} (hfollows : Follows sinks left right coupling)
    {request : Request V ε} (hspares : request.Spares sinks) :
    (@Request.perform V ε left request).InStep coupling (@Request.perform V ε right request) := by
  have hinward {action : Act V ε (Response V ε)} (haction : Inward action) :
      action.InStep coupling action := haction.inStep hfollows
  have hrange (range : Nat) := (within_rangeAt range).shares hfollows
  have hcursor (cursor : Nat) := (within_cursorAt cursor).shares hfollows
  have hwalk (walk : Nat) := (within_walkAt walk).shares hfollows
  cases request with
  | makeExecutor source => exact hinward fun _ => rfl
  | makeBuffered source opening compute size =>
      exact (addBuffered_inStep hfollows source opening compute size).map _
  | ask executor =>
      apply Action.InStep.map
      refine inStep_get hfollows (fun _ => rfl) fun store => ?_
      exact (services_inStep hfollows store.executors.size).ask executor
  | release executor =>
      apply Action.InStep.map
      refine inStep_get hfollows (fun _ => rfl) fun store => ?_
      exact (services_inStep hfollows store.executors.size).release executor
  | inspect executor => exact ((within_bufferOf executor).shares hfollows).read.map _
  | makeRange executor => exact hinward fun _ => rfl
  | cached range => exact (hrange range).read.map _
  | sentinel range => exact (hrange range).read.map _
  | move range => exact (move_inStep hfollows range).map _
  | close range => exact (store_close_inStep hfollows range).map _
  | start range => exact (start_inStep hfollows range).map _
  | advance cursor => exact (advance_inStep hfollows cursor).map _
  | atEnd cursor => exact (hcursor cursor).read.map _
  | value cursor =>
      apply Action.InStep.map
      refine (rangeOfCursor_inStep hfollows cursor).bind fun range => ?_
      exact (hrange range).read.bind fun _ => Action.inStep_pure _
  | get cursor =>
      apply Action.InStep.map
      exact (rangeOfCursor_inStep hfollows cursor).bind fun range => (hrange range).focus get_inStep
  | compare cursor against =>
      exact (hcursor cursor).read.bind fun _ => ((inward_concluding _).inStep hfollows).map _
  | decide comparison first second =>
      refine (sideOf_inStep hfollows first).bind fun first => ?_
      refine (sideOf_inStep hfollows second).bind fun second => ?_
      exact ((inward_concluding _).inStep hfollows).map _
  | makeWalk range => exact hinward fun _ => rfl
  | walkOn walk => exact (walkOn_inStep hfollows walk).map _
  | stopWalk walk =>
      apply Action.InStep.map
      exact (hwalk walk).read.bind fun current => (hwalk walk).putting current.stop
  | collect fuel range => exact (store_collect_inStep hfollows fuel range).map _
  | take range wanted => exact (store_take_inStep hfollows range wanted).map _
  | print fuel range format writer => exact (print_inStep hfollows fuel range format hspares).map _

end PullRange.Store
