import PullRange.Proofs.Interruptions
import PullRange.Proofs.Records

/-!
# Traces that fail

The trace of a refill raises what the writer of the store raises, and leaves the executor that it
tells of alone. A store whose tracing is switched on is therefore compared with the same store whose
tracing is off (`Hushed`), and what the writer interrupts is made up for by the following calls.
-/

namespace PullRange

variable {I R ε ω τ : Type}

namespace Store

variable {V ε : Type}

/-- The executor is a buffer over this script, and this is told of it. -/
def Scripted (script : Script V ε) (stage : Stage V ε) (told : List (Event Nat V)) :
    Knowledge V ε := fun executor events =>
  executor = { source := .script script, stage := some stage } ∧ events = told

/-- Tracing is off in the first store. Of the executor both know the same. -/
def Hushed (number : Nat) (quiet loud : Store V ε) : Prop :=
  quiet.tracing = false ∧ ∃ script stage told,
    quiet.Knows number (Scripted script stage told) ∧ loud.Knows number (Scripted script stage told)

section Hushed

variable {number : Nat} {script : Script V ε} {stage : Stage V ε} {told : List (Event Nat V)}
  {store : Store V ε}

theorem Knows.logging (hknows : store.Knows number (Scripted script stage told))
    (events : List (Event Nat V)) :
    (store.logging events).Knows number (Scripted script stage
      (told ++ events.filter fun event => event.executor? == some number)) := by
  obtain ⟨executor, hexecutor, hsame, rfl⟩ := hknows
  exact ⟨executor, hexecutor, hsame, eventsOf_logging store events⟩

theorem Knows.asking (hknows : store.Knows number (Scripted script stage told)) :
    (store.asking number .resource script).Knows number (Scripted (script.later 1) stage
      (told ++ if script.silent then [] else [.asked .resource number])) := by
  obtain ⟨executor, hexecutor, rfl, rfl⟩ := hknows
  refine ⟨_, asking_executor hexecutor, rfl, ?_⟩
  unfold eventsOf
  rw [asking_log]
  cases script.silent <;> simp [Event.executor?]

theorem Knows.releasing (hknows : store.Knows number (Scripted script stage told)) :
    (store.releasing number .resource script).Knows number (Scripted script.letGo stage
      (told ++ if script.releasing.isSome then [.released .resource number] else [])) := by
  obtain ⟨executor, hexecutor, rfl, rfl⟩ := hknows
  refine ⟨_, releasing_executor hexecutor, rfl, ?_⟩
  unfold eventsOf
  rw [releasing_log]
  cases script.releasing.isSome <;> simp [Event.executor?]

end Hushed

section Feed

variable {number : Nat} {quiet loud : Store V ε} (hhushed : Hushed number quiet loud)

include hhushed

theorem ask_hushed (services : StoreServices V ε) :
    let ask := askSource services number
    ask.answer quiet = ask.answer loud ∧ Hushed number (ask.after quiet) (ask.after loud) := by
  obtain ⟨huntraced, script, stage, told, hquiet, hloud⟩ := hhushed
  obtain ⟨_, hexecutor, rfl, -⟩ := id hquiet
  obtain ⟨_, hexecutor', rfl, -⟩ := id hloud
  have hask := askSource_of_staged hexecutor services
  have hask' := askSource_of_staged hexecutor' services
  intro ask
  rw [Action.answer_of_settle hask, Action.answer_of_settle hask', Action.after_of_settle hask,
    Action.after_of_settle hask']
  exact ⟨rfl, huntraced, _, _, _, hquiet.asking, hloud.asking⟩

theorem release_hushed :
    let release : Act V ε Unit := releaseSource number
    release.answer quiet = release.answer loud ∧
      Hushed number (release.after quiet) (release.after loud) := by
  obtain ⟨huntraced, script, stage, told, hquiet, hloud⟩ := hhushed
  obtain ⟨_, hexecutor, rfl, -⟩ := id hquiet
  obtain ⟨_, hexecutor', rfl, -⟩ := id hloud
  have hrelease := releaseSource_of_staged hexecutor
  have hrelease' := releaseSource_of_staged hexecutor'
  intro release
  rw [Action.answer_of_settle hrelease, Action.answer_of_settle hrelease',
    Action.after_of_settle hrelease, Action.after_of_settle hrelease']
  exact ⟨rfl, huntraced, _, _, _, hquiet.releasing, hloud.releasing⟩

theorem compute_hushed (services : StoreServices V ε) (stage : Stage V ε) (input : V) (index : Nat) :
    let compute := (feed services number stage).compute input index
    compute.answer quiet = compute.answer loud ∧
      Hushed number (compute.after quiet) (compute.after loud) := by
  intro compute
  have hcompute (store : Store V ε) : compute store = _ :=
    (Action.bind_of_ok (emit_apply _ store) _).trans (carryOut_apply _ _)
  obtain ⟨huntraced, script, stage', told, hquiet, hloud⟩ := hhushed
  rw [Action.answer_of_settle (hcompute quiet), Action.answer_of_settle (hcompute loud),
    Action.after_of_settle (hcompute quiet), Action.after_of_settle (hcompute loud)]
  exact ⟨rfl, huntraced, _, _, _, (hquiet.logging _).logging _, (hloud.logging _).logging _⟩

theorem trace_hushed (message : String) :
    Hushed number quiet ((trace "underflow" (pure message)).after loud) := by
  obtain ⟨huntraced, script, stage, told, hquiet, hloud⟩ := hhushed
  have hrespects := trace_leads (respects_bound number (Scripted script stage told)).toAdmits
    (fun _ => Action.leads_pure message) "underflow" loud
  exact ⟨huntraced, script, stage, told, hquiet, hrespects.keeps hloud⟩

end Feed

/-- The trace of a store leaves everything else alone. -/
theorem feed_hushes (services : StoreServices V ε) (number : Nat) (stage : Stage V ε) :
    (feed services number stage).Hushes ⟨Fault.unmarked, Hushed number⟩
      (feed services number stage).marked where
  ask := Action.erases_marked (fun _ _ hhushed => ask_hushed hhushed services) .resource
  release := Action.erases_marked (fun _ _ hhushed => release_hushed hhushed) .resource
  compute input index := Action.erases_marked
    (fun _ _ hhushed => compute_hushed hhushed services stage input index) .computation
  silent message _ _ hhushed := trace_of_untraced hhushed.1 "underflow" (pure message)
  trace message quiet loud hhushed := by
    rw [marked_trace_after]
    exact trace_hushed hhushed message

/-- **A trace that fails loses nothing.** The calls that the writer does not interrupt answer like a
silent run. An interrupted call leaves the whole chunk to the following calls, and no input is asked
for or computed from again. So it is for every feed and every writer that traces it, and for a store
whose tracing is switched on beside the same store whose tracing is off. -/
theorem trace_failures_lose_nothing {capacity : Nat} (hpos : 0 < capacity) (base : Feed I R ε ω)
    (write : String → Action ε τ Unit) (state : ω) (sink : τ) (calls : List BufferCall) :
    BufferCall.LosesNothing (fun state state' => state = state'.1) base.silenced
      (base.tracedBy write) hpos calls state (state, sink) ∧
    ∀ (V ε' : Type) (services : StoreServices V ε') (number : Nat) (script : Script V ε')
      (stage : Stage V ε') (store : Store V ε'),
      store.executors[number]? = some { source := .script script, stage := some stage } →
      BufferCall.LosesNothing (Hushed number) (feed services number stage)
        (feed services number stage) hpos calls { store with tracing := false }
        { store with tracing := true } := by
  refine ⟨BufferCall.losesNothing_of_hushes (base.tracedBy_hushes write) hpos calls rfl, ?_⟩
  intro V ε' services number script stage store hexecutor
  have hhushed : Hushed number { store with tracing := false } { store with tracing := true } :=
    ⟨rfl, script, stage, store.eventsOf number, ⟨_, hexecutor, rfl, rfl⟩, ⟨_, hexecutor, rfl, rfl⟩⟩
  exact BufferCall.losesNothing_of_hushes (feed_hushes services number stage) hpos calls hhushed

def relayed : Feed Nat Nat String (Script Nat String) where
  ask := Script.ask
  release := Script.release
  compute input _ := pure input
  trace _ _ := pure ()

def everyOther (_ : String) : Action String Nat Unit := fun writes =>
  if writes % 2 = 0 then .error (.raised "unwritable") (writes + 1) else .ok () (writes + 1)

def staged : Executor Value Thrown where
  source := .script (.ofList [.null, .null, .null])
  stage := some { compute := fun input _ => .pure input, buffer := .empty 2 Nat.two_pos }

theorem trace_failures_lose_nothing_every_other :
    let traced := (relayed.tracedBy everyOther).marked
    let script : Script Nat String := .ofList [0, 1, 2]
    let calls := List.replicate 5 .next
    let store := { (initial : Store Value Thrown) with executors := #[staged] }
    BufferCall.undisturbed traced calls (.empty 2 (by decide), script, 0) =
        List.replicate 4 .next ∧
      BufferCall.nexts relayed.silenced (List.replicate 4 .next) (.empty 2 (by decide), script) =
        [.ok (.yield 0), .ok (.yield 1), .ok (.yield 2), .ok (.done none)] ∧
      ∀ stage, staged.stage = some stage →
        BufferCall.LosesNothing (Hushed 0) (feed store.services 0 stage)
          (feed store.services 0 stage) (by decide : 0 < 2) calls { store with tracing := false }
          { store with tracing := true } := by
  intro traced script calls store
  obtain ⟨hloses, hstored⟩ := trace_failures_lose_nothing (by decide : 0 < 2) relayed everyOther
    script 0 calls
  refine ⟨rfl, hloses.answers, ?_⟩
  rintro stage ⟨⟩
  exact hstored Value Thrown store.services 0 _ _ store rfl

end Store

end PullRange
