import PullRange.Proofs.Overhearing
import PullRange.Value

/-!
# Tracing does not interfere

Two runs of the same requests are both in step with the overheard run of these requests, and so with
each other. While tracing is off, moreover, nothing depends on how values are converted.
-/

namespace PullRange.Store

variable {V ε : Type}

section Keeping

variable {sinks : List Nat} {left right : Textual V ε} {kept : Store V ε → Prop}

/-- Both runs are in the same state, and something is kept true of it. -/
def keeping (kept : Store V ε → Prop) : Coupling (Store V ε) (Store V ε) where
  alike store store' := store = store' ∧ kept store
  spoiled _ := False

theorem keeping_inStep {α : Type} {action action' : Act V ε α}
    (haction : ∀ store, kept store → ∃ answer store', kept store' ∧
      action store = settle answer store' ∧ action' store = settle answer store') :
    action.InStep (keeping kept) action' where
  spoils _ hspoiled := hspoiled.elim
  keeps store store' halike := by
    obtain ⟨rfl, hkept⟩ := halike
    obtain ⟨answer, after, hkept', hleft, hright⟩ := haction store hkept
    rw [Action.answer_of_settle hleft, Action.answer_of_settle hright,
      Action.after_of_settle hleft, Action.after_of_settle hright]
    exact .inr ⟨rfl, rfl, hkept'⟩

theorem keeping_follows
    (hobjects : ∀ store objects, kept store → kept (store.withObjects objects))
    (hlogs : ∀ store events, kept store → kept (store.logging events))
    (hputs : ∀ store writer own, writer ∉ sinks → kept store →
      kept ((writerAt writer).put own store))
    (ended : (trace "pull" (pure "exhausted") : Act V ε Unit).InStep (keeping kept)
      (trace "pull" (pure "exhausted")))
    (pulled : ∀ value, (trace "pull" (@text V ε left value)).InStep (keeping kept)
      (trace "pull" (@text V ε right value)))
    (refilled : ∀ message, (trace "underflow" (pure message) : Act V ε Unit).InStep (keeping kept)
      (trace "underflow" (pure message))) :
    Follows sinks left right (keeping kept) where
  objects _ _ halike := by rw [halike.1]
  writers _ _ halike _ _ := by rw [halike.1]
  keeps _ _ halike objects := ⟨by rw [halike.1], hobjects _ objects halike.2⟩
  logs _ _ halike events := ⟨by rw [halike.1], hlogs _ events halike.2⟩
  puts _ _ halike writer own hwriter _ :=
    ⟨by rw [halike.1], hputs _ writer own hwriter halike.2⟩
  keeps_spoiled _ hspoiled _ := hspoiled
  logs_spoiled _ hspoiled _ := hspoiled
  puts_spoiled _ hspoiled _ _ _ := hspoiled
  ended := ended
  pulled := pulled
  refilled := refilled

end Keeping

/-! ## Stretches without tracing -/

section Untraced

/-- Tracing may go elsewhere, but is not switched on. -/
def Entry.KeepsQuiet : Entry V ε → Prop
  | .setTracing tracing => tracing = false
  | _ => True

theorem trace_untraced_inStep (tag : String) (message message' : Act V ε String) :
    (trace tag message).InStep (keeping fun store => store.tracing = false)
      (trace tag message') := by
  apply keeping_inStep
  intro store huntraced
  exact ⟨.ok (), store, huntraced, trace_of_untraced huntraced tag message,
    trace_of_untraced huntraced tag message'⟩

theorem untraced_follows (left right : Textual V ε) :
    Follows [] left right (keeping fun store => store.tracing = false) := by
  apply keeping_follows
  case ended => exact trace_untraced_inStep _ _ _
  case pulled => exact fun _ => trace_untraced_inStep _ _ _
  case refilled => exact fun _ => trace_untraced_inStep _ _ _
  all_goals intros; assumption

theorem Request.spares_nil (request : Request V ε) : request.Spares [] := by
  cases request with
  | print => exact List.not_mem_nil
  | _ => trivial

/-- While tracing is off it makes no difference how values are converted. -/
theorem run_of_untraced (left right : Textual V ε) {store : Store V ε}
    (huntraced : store.tracing = false) (entries : List (Entry V ε))
    (hentries : ∀ entry ∈ entries, entry.KeepsQuiet) :
    @Entry.answers V ε left entries store = @Entry.answers V ε right entries store ∧
      @Entry.run V ε left entries store = @Entry.run V ε right entries store := by
  induction entries generalizing store with
  | nil => exact ⟨rfl, rfl⟩
  | cons entry entries ih =>
      obtain ⟨hquiet, hlater⟩ := List.forall_mem_cons.mp hentries
      cases entry with
      | perform request =>
          have hstep := perform_inStep (untraced_follows left right) request.spares_nil
          have hkept := (hstep.keeps store store ⟨rfl, huntraced⟩).resolve_left id
          obtain ⟨hanswer, hafter, huntraced'⟩ := hkept
          obtain ⟨hanswers, hrun⟩ := ih huntraced' hlater
          refine ⟨congrArg₂ _ hanswer ?_, ?_⟩
          · rw [hanswers, hafter]
          · exact hrun.trans (congrArg (@Entry.run V ε right entries) hafter)
      | setTracing tracing =>
          cases hquiet
          exact ih rfl hlater
      | traceTo writer => exact ih huntraced hlater

end Untraced

/-- The stores have the same objects, the same writers apart from the sinks, and the same log apart
from what tracing to the sinks leaves there. -/
structure AgreesBut (sinks : List Nat) (store store' : Store V ε) : Prop where
  objects : store.objects = store'.objects
  writers : ∀ writer : Nat, writer ∉ sinks → store.writers[writer]? = store'.writers[writer]?
  log : store.logBut sinks = store'.logBut sinks

/-- Tracing goes to one of the sinks, and none of them ever fails. -/
structure TracesTo (sinks : List Nat) (store : Store V ε) : Prop where
  sink : store.traceWriter ∈ sinks
  reliable : ∀ sink ∈ sinks, store.Reliable sink

/-- The store as an overheard run starts from it. -/
def overheard (store : Store V ε) : Store V ε :=
  { (writerAt store.traceWriter).put (.accumulator #[]) store with tracing := true }

/-- Whatever value the requests make a range pull, it can be converted. -/
def PullsConvertible [textual : Textual V ε] (requests : List (Request V ε)) (store : Store V ε) :
    Prop :=
  ¬ (@Entry.run V ε (verdict textual) (requests.map .perform) store.overheard).Tells refusal

/-- Tracing goes to an accumulator, and has told of no refusal. -/
structure Unrefused (sinks : List Nat) (heard : Store V ε) : Prop where
  hears : heard.Hears sinks
  silent : ¬ heard.Tells refusal

theorem TracesTo.unrefused {sinks : List Nat} {store : Store V ε}
    (htraces : store.TracesTo sinks) : store.overheard.Unrefused sinks := by
  obtain ⟨writer, hwriter, -⟩ := htraces.reliable _ htraces.sink
  have hpieces := putWriter_self hwriter (.accumulator #[])
  refine ⟨⟨rfl, htraces.sink, #[], hpieces⟩, ?_⟩
  rintro ⟨pieces, hpieces', hmem⟩
  cases hpieces.symm.trans hpieces'
  exact Array.not_mem_empty _ hmem

theorem AgreesBut.overheard {sinks : List Nat} {store origin : Store V ε}
    (hagrees : store.AgreesBut sinks origin) (htraces : store.TracesTo sinks)
    (htraces' : origin.TracesTo sinks) : Overheard sinks store origin.overheard where
  objects := hagrees.objects
  writers := by
    intro writer hwriter
    have hne := ne_of_mem_of_not_mem htraces'.sink hwriter
    exact (hagrees.writers writer hwriter).trans (putWriter_of_ne hne _ origin).symm
  sink := htraces.sink
  reliable := htraces.reliable
  log := hagrees.log
  hears := htraces'.unrefused.hears

theorem AgreesBut.refl (sinks : List Nat) (store : Store V ε) : store.AgreesBut sinks store :=
  ⟨rfl, fun _ _ => rfl, rfl⟩

theorem AgreesBut.symm {sinks : List Nat} {store store' : Store V ε}
    (hagrees : store.AgreesBut sinks store') : store'.AgreesBut sinks store :=
  ⟨hagrees.objects.symm, fun writer hwriter => (hagrees.writers writer hwriter).symm,
    hagrees.log.symm⟩

theorem Overheard.agrees {sinks : List Nat} {store store' heard : Store V ε}
    (hoverheard : Overheard sinks store heard) (hoverheard' : Overheard sinks store' heard) :
    store.AgreesBut sinks store' where
  objects := hoverheard.objects.trans hoverheard'.objects.symm
  writers writer hwriter :=
    (hoverheard.writers writer hwriter).trans (hoverheard'.writers writer hwriter).symm
  log := hoverheard.log.trans hoverheard'.log.symm

/-- Whatever a writer that is no sink has been given stays in the log. -/
theorem filterMap_logBut {sinks : List Nat} {writer : Nat} (hwriter : writer ∉ sinks)
    (own : Writer ε) (store : Store V ε) :
    (store.logBut sinks).filterMap (own.textOf writer) =
      store.log.toList.filterMap (own.textOf writer) := by
  rw [logBut, List.filterMap_filter]
  congr 1
  funext event
  by_cases htrace : event.ofTrace sinks = true
  · have hother : event.writer? ≠ some writer := fun hsame =>
      hwriter ((Event.ofTrace_iff hsame).mp htrace)
    simp [htrace, own.textOf_of_other hother]
  · simp [htrace]

theorem AgreesBut.received {sinks : List Nat} {store store' : Store V ε}
    (hagrees : store.AgreesBut sinks store') {writer : Nat} (hwriter : writer ∉ sinks) :
    store.received writer = store'.received writer := by
  unfold Store.received
  rw [hagrees.writers writer hwriter]
  cases store'.writers[writer]? with
  | none => rfl
  | some own =>
      have hsame := congrArg (List.filterMap (own.textOf writer)) hagrees.log
      rw [filterMap_logBut hwriter, filterMap_logBut hwriter] at hsame
      cases own with
      | accumulator pieces => rfl
      | console stream => exact hsame
      | custom failures writes => exact hsame

section Convertible

variable {sinks : List Nat}

theorem Unrefused.putWriter {heard : Store V ε} (hunrefused : heard.Unrefused sinks) {writer : Nat}
    (hwriter : writer ∉ sinks) (own : Writer ε) :
    ((writerAt writer).put own heard).Unrefused sinks where
  hears := hunrefused.hears.putWriter hwriter own
  silent := by
    rw [tells_putWriter hunrefused.hears.sink hwriter own]
    exact hunrefused.silent

theorem trace_unrefused_inStep {tag text : String} {message : Act V ε String}
    (hmessage : ∀ heard, message heard = .ok text heard)
    (hline : tag ++ ": " ++ text ++ "\n" ≠ refusal) :
    (trace tag message).InStep (keeping (Unrefused sinks)) (trace tag message) := by
  apply keeping_inStep
  intro heard hunrefused
  obtain ⟨hhears, hsilent⟩ := hunrefused
  obtain ⟨pieces, hpieces⟩ := hhears.pieces
  have htraced : trace tag message heard = _ :=
    (trace_of_traced hhears.tracing (hmessage heard)).trans (write_apply hpieces _)
  refine ⟨_, _, ?_, htraced, htraced⟩
  refine ⟨⟨hhears.tracing, hhears.sink, _, putWriter_self hpieces _⟩, ?_⟩
  rintro ⟨pieces', hpieces', hmem⟩
  cases (putWriter_self hpieces _).symm.trans hpieces'
  cases Array.mem_push.mp hmem with
  | inl hbefore => exact hsilent ⟨pieces, hpieces, hbefore⟩
  | inr hsame => exact hline hsame.symm

variable [textual : Textual V ε]

theorem unrefused_follows (hvalues : ∀ value, (textual.toText value).result.isOk) :
    Follows sinks (verdict textual) (verdict textual) (keeping (Unrefused sinks)) := by
  apply keeping_follows
  case hobjects =>
    intro heard objects hunrefused
    exact ⟨⟨hunrefused.hears.tracing, hunrefused.hears.sink, hunrefused.hears.pieces⟩,
      hunrefused.silent⟩
  case hlogs =>
    intro heard events hunrefused
    exact ⟨⟨hunrefused.hears.tracing, hunrefused.hears.sink, hunrefused.hears.pieces⟩,
      hunrefused.silent⟩
  case hputs => exact fun _ _ own hwriter hunrefused => hunrefused.putWriter hwriter own
  case ended => exact trace_unrefused_inStep (fun _ => rfl) (by decide)
  case pulled =>
    intro value
    apply trace_unrefused_inStep (text_verdict textual value)
    rw [hvalues value]
    decide
  case refilled =>
    intro message
    apply trace_unrefused_inStep fun _ => rfl
    intro hline
    -- The two lines begin with different tags.
    have hfirst := congrArg (fun line => line.toList.head?) hline
    simp [refusal] at hfirst

/-- If every value can be converted, so can those that are pulled. -/
theorem pullsConvertible_of_values (hvalues : ∀ value, (textual.toText value).result.isOk)
    {store : Store V ε} (htraces : store.TracesTo sinks) (requests : List (Request V ε))
    (hspares : ∀ request ∈ requests, request.Spares sinks) : store.PullsConvertible requests := by
  suffices hrun : ∀ heard : Store V ε, heard.Unrefused sinks →
      (@Entry.run V ε (verdict textual) (requests.map .perform) heard).Unrefused sinks from
    (hrun store.overheard htraces.unrefused).silent
  induction requests with
  | nil => exact fun _ hunrefused => hunrefused
  | cons request requests ih =>
      obtain ⟨hspare, hspares⟩ := List.forall_mem_cons.mp hspares
      intro heard hunrefused
      have hstep := perform_inStep (unrefused_follows hvalues) hspare
      have hkept := (hstep.keeps heard heard ⟨rfl, hunrefused⟩).resolve_left id
      exact ih hspares _ hkept.2.2

end Convertible

/-! ## Any two runs -/

variable [textual : Textual V ε]

/-- **Tracing does not interfere.** Two runs of the same requests may trace to the sinks whenever
and wherever they like. If the sinks never fail and are not printed to, and every value that is
pulled can be converted, the two runs answer the same and lead to the same objects, the same writers
and the same log, apart from the sinks, what they have been given, and conversions. Every other
writer has been given the same texts, even if it shares its stream with a sink. In a stretch without
tracing, moreover, it makes no difference how values are converted, or whether they can be. -/
theorem tracing_does_not_interfere {sinks : List Nat} {origin origin' : Store V ε}
    {entries entries' : List (Entry V ε)} (hagrees : origin.AgreesBut sinks origin')
    (htraces : origin.TracesTo sinks) (htraces' : origin'.TracesTo sinks)
    (hentries : ∀ entry ∈ entries, entry.KeepsTo sinks)
    (hentries' : ∀ entry ∈ entries', entry.KeepsTo sinks)
    (hrequests : Entry.requests entries = Entry.requests entries')
    (hconvertible : origin.PullsConvertible (Entry.requests entries)) :
    let store := Entry.run entries origin
    let store' := Entry.run entries' origin'
    Entry.answers entries origin = Entry.answers entries' origin' ∧
    store.AgreesBut sinks store' ∧
    (∀ writer, writer ∉ sinks → store.received writer = store'.received writer) ∧
    ∀ (before : Store V ε) (stretch : List (Entry V ε)) (other : Textual V ε),
      before.tracing = false → (∀ entry ∈ stretch, entry.KeepsQuiet) →
      @Entry.answers V ε textual stretch before = @Entry.answers V ε other stretch before ∧
      @Entry.run V ε textual stretch before = @Entry.run V ε other stretch before := by
  intro store store'
  -- Both runs are in step with one overheard run, which starts from the first store.
  have hstart := (AgreesBut.refl sinks origin).overheard htraces htraces
  have hstart' := hagrees.symm.overheard htraces' htraces
  have hrun := (hstart.run textual entries hentries).resolve_left hconvertible
  rw [hrequests] at hconvertible
  have hrun' := (hstart'.run textual entries' hentries').resolve_left hconvertible
  rw [← hrequests] at hrun'
  have hoverheard := hrun.2.agrees hrun'.2
  refine ⟨hrun.1.trans hrun'.1.symm, hoverheard, fun _ => hoverheard.received, ?_⟩
  intro before stretch other huntraced hquiet
  exact run_of_untraced textual other huntraced stretch hquiet

/-- Two results that can be converted, the first of which notices it. Two writers share a stream. -/
def observed : Store Value Thrown :=
  { (initial : Store Value Thrown) with
    executors := #[{ source := .script (.ofOutcomes [.yield (.shown "seen"), .yield .null] none) }],
    ranges := #[.holding (some 0)],
    writers := #[.console .error, .console .error, .custom (fun _ => none) 0] }

def numbered : LineFormat Value Thrown where
  render _ index := .pure (toString index)
  noted := true

theorem tracing_does_not_interfere_around_print :
    let prints : Entry Value Thrown := .perform (.print 3 0 numbered 1)
    let quiet := [.perform (.start 0), prints]
    let loud := [.setTracing true, .perform (.start 0), prints, .traceTo 2, .setTracing false]
    Entry.answers quiet observed = Entry.answers loud observed ∧
      (Entry.run quiet observed).AgreesBut [0, 2] (Entry.run loud observed) ∧
      (Entry.run loud observed).received 1 = (Entry.run quiet observed).received 1 ∧
      (Entry.run quiet observed).received 1 = ["0", "\n"] ∧
      (Entry.run loud observed).log ≠ (Entry.run quiet observed).log := by
  intro prints quiet loud
  have htraces : observed.TracesTo [0, 2] := by
    refine ⟨by decide, ?_⟩
    intro sink hsink
    simp only [List.mem_cons, List.not_mem_nil, or_false] at hsink
    obtain rfl | rfl := hsink
    · exact ⟨_, rfl, trivial⟩
    · exact ⟨_, rfl, fun _ => rfl⟩
  have hconvertible : observed.PullsConvertible (Entry.requests quiet) := by
    rintro ⟨pieces, hpieces, hmem⟩
    have hheard : some (Writer.accumulator #["pull: true\n", "pull: true\n", "pull: exhausted\n"]) =
        some (Writer.accumulator pieces) := hpieces
    cases hheard
    simp [refusal] at hmem
  have hquiet : ∀ entry ∈ quiet, entry.KeepsTo [0, 2] := by
    simp [quiet, prints, Entry.KeepsTo, Request.Spares]
  have hloud : ∀ entry ∈ loud, entry.KeepsTo [0, 2] := by
    simp [loud, prints, Entry.KeepsTo, Request.Spares]
  obtain ⟨hanswers, hagrees, hreceived, -⟩ :=
    tracing_does_not_interfere (AgreesBut.refl [0, 2] observed) htraces htraces hquiet hloud rfl
      hconvertible
  refine ⟨hanswers, hagrees, (hreceived 1 (by decide)).symm, rfl, ?_⟩
  exact fun hlog => absurd (congrArg Array.size hlog) (by decide)

end PullRange.Store
