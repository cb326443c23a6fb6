import PullRange.Proofs.Printing
import PullRange.Proofs.StoreLockstep

/-!
# Overheard runs

A run is compared with one that is overheard: tracing is on all the time and goes to an accumulator,
and of a value that is pulled the trace tells only whether it can be converted. As long as it always
can, the two runs are in step, however the first one traces.
-/

namespace PullRange

variable {V ε : Type}

/-- Tracing to the sinks may leave the event: it is a conversion, or tells of a sink. -/
def Event.ofTrace (sinks : List Nat) (event : Event Nat V) : Bool :=
  match event with
  | .converted _ => true
  | _ => event.writer?.any fun writer => decide (writer ∈ sinks)

theorem Event.ofTrace_iff {sinks : List Nat} {event : Event Nat V} {writer : Nat}
    (hwriter : event.writer? = some writer) : event.ofTrace sinks ↔ writer ∈ sinks := by
  cases event with
  | converted text => exact nomatch hwriter
  | _ => simp [Event.ofTrace, hwriter]

theorem Writer.writer_of_write (writer : Writer ε) (number : Nat) (text : String) :
    ∀ event ∈ (writer.write (V := V) number text).2.1.toList, event.writer? = some number := by
  intro event hevent
  cases writer with
  | accumulator pieces => exact nomatch hevent
  | console stream =>
      cases List.mem_singleton.mp hevent
      rfl
  | custom failures writes =>
      cases List.mem_singleton.mp hevent
      rfl

namespace Store

/-- The log without what tracing to the sinks may have left there. -/
def logBut (sinks : List Nat) (store : Store V ε) : List (Event Nat V) :=
  store.log.toList.filter fun event => !event.ofTrace sinks

section Logs

variable {sinks : List Nat} {store : Store V ε} {events : List (Event Nat V)}

theorem logBut_logging (store : Store V ε) (events : List (Event Nat V)) :
    (store.logging events).logBut sinks =
      store.logBut sinks ++ events.filter fun event => !event.ofTrace sinks := by
  simp [logBut, List.filter_append]

theorem logBut_logging_of_trace (hevents : ∀ event ∈ events, event.ofTrace sinks) :
    (store.logging events).logBut sinks = store.logBut sinks := by
  have hnone : events.filter (fun event => !event.ofTrace sinks) = [] := by
    rw [List.filter_eq_nil_iff]
    intro event hevent
    simp [hevents event hevent]
  rw [logBut_logging, hnone, List.append_nil]

end Logs

/-- Tracing is on and goes to an accumulator among the sinks. -/
structure Hears (sinks : List Nat) (heard : Store V ε) : Prop where
  tracing : heard.tracing = true
  sink : heard.traceWriter ∈ sinks
  pieces : ∃ pieces, heard.writers[heard.traceWriter]? = some (.accumulator pieces)

/-- The line is among those that have been traced. -/
def Tells (line : String) (heard : Store V ε) : Prop :=
  ∃ pieces, heard.writers[heard.traceWriter]? = some (.accumulator pieces) ∧ line ∈ pieces

section Hears

variable {sinks : List Nat} {heard : Store V ε} {writer : Nat}

theorem putWriter_traceWriter (hsink : heard.traceWriter ∈ sinks) (hwriter : writer ∉ sinks)
    (own : Writer ε) :
    ((writerAt writer).put own heard).writers[heard.traceWriter]? =
      heard.writers[heard.traceWriter]? :=
  putWriter_of_ne (ne_of_mem_of_not_mem hsink hwriter).symm own heard

theorem Hears.putWriter (hhears : heard.Hears sinks) (hwriter : writer ∉ sinks) (own : Writer ε) :
    ((writerAt writer).put own heard).Hears sinks where
  tracing := hhears.tracing
  sink := hhears.sink
  pieces := by
    obtain ⟨pieces, hpieces⟩ := hhears.pieces
    exact ⟨pieces, (putWriter_traceWriter hhears.sink hwriter own).trans hpieces⟩

theorem tells_putWriter (hsink : heard.traceWriter ∈ sinks) (hwriter : writer ∉ sinks)
    (own : Writer ε) (line : String) :
    ((writerAt writer).put own heard).Tells line ↔ heard.Tells line := by
  have hsame := putWriter_traceWriter hsink hwriter own
  constructor
  · rintro ⟨pieces, hpieces, hmem⟩
    exact ⟨pieces, hsame.symm.trans hpieces, hmem⟩
  · rintro ⟨pieces, hpieces, hmem⟩
    exact ⟨pieces, hsame.trans hpieces, hmem⟩

end Hears

/-- The stores differ only in what tracing touches: the switch, the sinks, and what they leave in
the log. -/
structure Overheard (sinks : List Nat) (store heard : Store V ε) : Prop where
  objects : store.objects = heard.objects
  writers : ∀ writer : Nat, writer ∉ sinks → store.writers[writer]? = heard.writers[writer]?
  sink : store.traceWriter ∈ sinks
  reliable : ∀ sink ∈ sinks, store.Reliable sink
  log : store.logBut sinks = heard.logBut sinks
  hears : heard.Hears sinks

section Overheard

variable {sinks : List Nat} {store heard : Store V ε}

theorem Overheard.logging (hoverheard : Overheard sinks store heard)
    (events : List (Event Nat V)) :
    Overheard sinks (store.logging events) (heard.logging events) where
  objects := hoverheard.objects
  writers := hoverheard.writers
  sink := hoverheard.sink
  reliable := hoverheard.reliable
  log := by rw [logBut_logging, logBut_logging, hoverheard.log]
  hears := ⟨hoverheard.hears.tracing, hoverheard.hears.sink, hoverheard.hears.pieces⟩

theorem Overheard.logging_of_trace (hoverheard : Overheard sinks store heard)
    {events : List (Event Nat V)} (hevents : ∀ event ∈ events, event.ofTrace sinks) :
    Overheard sinks (store.logging events) heard where
  objects := hoverheard.objects
  writers := hoverheard.writers
  sink := hoverheard.sink
  reliable := hoverheard.reliable
  log := by rw [logBut_logging_of_trace hevents, hoverheard.log]
  hears := hoverheard.hears

theorem Overheard.withObjects (hoverheard : Overheard sinks store heard)
    (objects : Objects V ε) :
    Overheard sinks (store.withObjects objects) (heard.withObjects objects) where
  objects := rfl
  writers := hoverheard.writers
  sink := hoverheard.sink
  reliable := hoverheard.reliable
  log := hoverheard.log
  hears := ⟨hoverheard.hears.tracing, hoverheard.hears.sink, hoverheard.hears.pieces⟩

theorem Overheard.putWriter (hoverheard : Overheard sinks store heard) {writer : Nat}
    (hwriter : writer ∉ sinks) {old : Writer ε} (hold : heard.writers[writer]? = some old)
    (own : Writer ε) :
    Overheard sinks ((writerAt writer).put own store) ((writerAt writer).put own heard) where
  objects := hoverheard.objects
  writers := by
    intro other hother
    have hsame := hoverheard.writers other hother
    by_cases hown : writer = other
    · subst hown
      rw [putWriter_self (hsame.trans hold), putWriter_self hold]
    · rw [putWriter_of_ne hown, putWriter_of_ne hown, hsame]
  sink := hoverheard.sink
  reliable := by
    intro sink hsink
    unfold Reliable
    rw [putWriter_of_ne (ne_of_mem_of_not_mem hsink hwriter).symm]
    exact hoverheard.reliable sink hsink
  log := hoverheard.log
  hears := hoverheard.hears.putWriter hwriter own

theorem Overheard.putSink (hoverheard : Overheard sinks store heard) {sink : Nat}
    (hsink : sink ∈ sinks) {writer : Writer ε} (hreliable : writer.Reliable) :
    Overheard sinks ((writerAt sink).put writer store) heard where
  objects := hoverheard.objects
  writers := by
    intro other hother
    rw [putWriter_of_ne (ne_of_mem_of_not_mem hsink hother)]
    exact hoverheard.writers other hother
  sink := hoverheard.sink
  reliable := by
    intro other hother
    by_cases hsame : sink = other
    · subst hsame
      obtain ⟨own, hown, -⟩ := hoverheard.reliable sink hsink
      exact ⟨writer, putWriter_self hown writer, hreliable⟩
    · unfold Reliable
      rw [putWriter_of_ne hsame]
      exact hoverheard.reliable other hother
  log := hoverheard.log
  hears := hoverheard.hears

/-- A write to a sink goes unnoticed. -/
theorem Overheard.write_sink (hoverheard : Overheard sinks store heard) {sink : Nat}
    (hsink : sink ∈ sinks) (text : String) :
    ∃ store', write sink text store = .ok () store' ∧ Overheard sinks store' heard := by
  obtain ⟨writer, hwriter, hreliable⟩ := hoverheard.reliable sink hsink
  obtain ⟨writer', event, hwritten, hreliable', -⟩ :=
    Writer.write_of_reliable hreliable sink text store.log
  have hevents := writer.writer_of_write (V := V) sink text
  have hwrite := write_apply hwriter text
  rw [hwritten] at hevents hwrite
  refine ⟨_, hwrite, (hoverheard.putSink hsink hreliable').logging_of_trace ?_⟩
  intro left hleft
  exact (Event.ofTrace_iff (hevents left hleft)).mpr hsink

/-- The overheard run keeps its own trace, which goes unnoticed as well. -/
theorem Overheard.hear (hoverheard : Overheard sinks store heard) (line : String) :
    ∃ heard', write heard.traceWriter line heard = .ok () heard' ∧
      Overheard sinks store heard' ∧ heard'.Tells line := by
  obtain ⟨pieces, hpieces⟩ := hoverheard.hears.pieces
  refine ⟨_, write_apply hpieces line, ?_, pieces.push line, putWriter_self hpieces _,
    Array.mem_push_self⟩
  exact {
    objects := hoverheard.objects
    writers := by
      intro other hother
      rw [logging_writers, putWriter_of_ne (ne_of_mem_of_not_mem hoverheard.hears.sink hother)]
      exact hoverheard.writers other hother
    sink := hoverheard.sink
    reliable := hoverheard.reliable
    log := by
      rw [logBut_logging]
      exact hoverheard.log.trans (List.append_nil _).symm
    hears := {
      tracing := hoverheard.hears.tracing
      sink := hoverheard.hears.sink
      pieces := ⟨_, putWriter_self hpieces _⟩ } }

end Overheard

/-! ## The two runs are in step -/

/-- Tells of a value only whether it can be converted. -/
@[reducible]
def verdict (textual : Textual V ε) : Textual V ε where
  toText value := .pure (toString (textual.toText value).result.isOk)

/-- The line that is traced when a value was pulled that cannot be converted. -/
def refusal : String := "pull: false\n"

/-- The overheard run has pulled a value that cannot be converted. -/
structure Refused (sinks : List Nat) (heard : Store V ε) : Prop where
  sink : heard.traceWriter ∈ sinks
  tells : heard.Tells refusal

/-- Once a value was pulled that cannot be converted, nothing is claimed. -/
def overhearing (sinks : List Nat) : Coupling (Store V ε) (Store V ε) where
  alike := Overheard sinks
  spoiled := Refused sinks

section Refused

variable {sinks : List Nat} {heard : Store V ε} (hrefused : heard.Refused sinks)

include hrefused

theorem Refused.putWriter {writer : Nat} (hwriter : writer ∉ sinks) (own : Writer ε) :
    ((writerAt writer).put own heard).Refused sinks where
  sink := hrefused.sink
  tells := (tells_putWriter hrefused.sink hwriter own refusal).mpr hrefused.tells

theorem Refused.trace {tag text : String} {message : Act V ε String}
    (hmessage : ∀ heard, message heard = .ok text heard) :
    ((trace tag message).after heard).Refused sinks := by
  cases htracing : heard.tracing with
  | false =>
      rw [Action.after_of_ok (trace_of_untraced htracing tag message)]
      exact hrefused
  | true =>
      obtain ⟨pieces, hpieces, hmem⟩ := hrefused.tells
      have htraced : Store.trace tag message heard =
          write heard.traceWriter (tag ++ ": " ++ text ++ "\n") heard :=
        trace_of_traced htracing (hmessage heard)
      rw [Action.after_of_settle (htraced.trans (write_apply hpieces _))]
      exact ⟨hrefused.sink, _, putWriter_self hpieces _, Array.mem_push_of_mem _ hmem⟩

end Refused

section Follows

variable {sinks : List Nat}

/-- A line with a message that does not fail goes unnoticed. -/
theorem trace_inStep {tag text heardText : String} {message message' : Act V ε String}
    (hmessage : ∀ store, ∃ events, message store = .ok text (store.logging events) ∧
      ∀ event ∈ events, event.ofTrace sinks)
    (hmessage' : ∀ heard, message' heard = .ok heardText heard) :
    (trace tag message).InStep (overhearing sinks) (trace tag message') where
  spoils _ hrefused := hrefused.trace hmessage'
  keeps store heard hoverheard := by
    obtain ⟨heard', hheard, hoverheard', -⟩ := hoverheard.hear (tag ++ ": " ++ heardText ++ "\n")
    have hright : trace tag message' heard = .ok () heard' := by
      rw [trace_of_traced hoverheard.hears.tracing (hmessage' heard), hheard]
    obtain ⟨store', hleft, halike⟩ : ∃ store', trace tag message store = .ok () store' ∧
        Overheard sinks store' heard' := by
      cases htracing : store.tracing with
      | false => exact ⟨store, trace_of_untraced htracing tag message, hoverheard'⟩
      | true =>
          obtain ⟨events, hevents, htraced⟩ := hmessage store
          rw [trace_of_traced htracing hevents]
          exact (hoverheard'.logging_of_trace htraced).write_sink hoverheard'.sink _
    unfold Action.answer Action.after
    rw [hleft, hright]
    exact .inr ⟨rfl, halike⟩

theorem pure_logging (text : String) (store : Store V ε) :
    ∃ events, (pure text : Act V ε String) store = .ok text (store.logging events) ∧
      ∀ event ∈ events, event.ofTrace sinks :=
  ⟨[], by simp [logging], nofun⟩

variable (textual : Textual V ε)

theorem text_verdict (value : V) (heard : Store V ε) :
    @text V ε (verdict textual) value heard =
      .ok (toString (textual.toText value).result.isOk) heard := by
  change carryOut (Reply.pure (toString (textual.toText value).result.isOk)) heard = _
  rw [carryOut_apply]
  simp [Reply.pure, logging, Except.mapError]

theorem pulled_inStep (value : V) :
    (trace "pull" (@text V ε textual value)).InStep (overhearing sinks)
      (trace "pull" (@text V ε (verdict textual) value)) := by
  cases hresult : (textual.toText value).result with
  | ok converted =>
      have hmessage (store : Store V ε) : ∃ events,
          @text V ε textual value store = .ok converted (store.logging events) ∧
            ∀ event ∈ events, event.ofTrace sinks := by
        refine ⟨(textual.toText value).converted.map .converted, ?_, ?_⟩
        · unfold text
          rw [carryOut_apply, hresult]
          rfl
        · intro event hevent
          obtain ⟨text, _, rfl⟩ := List.mem_map.mp hevent
          rfl
      exact trace_inStep hmessage (text_verdict textual value)
  | error error =>
      -- The first run fails here if it traces at all; the overheard run has told of it in any case.
      refine ⟨fun _ hrefused => hrefused.trace (text_verdict textual value), ?_⟩
      intro store heard hoverheard
      obtain ⟨heard', hheard, hoverheard', htells⟩ := hoverheard.hear refusal
      have hline : "pull" ++ ": " ++ toString (textual.toText value).result.isOk ++ "\n" =
          refusal := by
        rw [hresult]
        rfl
      have hright : trace "pull" (@text V ε (verdict textual) value) heard = .ok () heard' := by
        rw [trace_of_traced hoverheard.hears.tracing (text_verdict textual value heard), hline,
          hheard]
      refine .inl ?_
      rw [Action.after_of_ok hright]
      exact ⟨hoverheard'.hears.sink, htells⟩

theorem overhearing_follows :
    Follows sinks textual (verdict textual) (overhearing sinks) where
  objects _ _ hoverheard := hoverheard.objects
  writers _ _ hoverheard := hoverheard.writers
  keeps _ _ hoverheard := hoverheard.withObjects
  logs _ _ hoverheard := hoverheard.logging
  puts _ _ hoverheard _ own hwriter hsome := by
    obtain ⟨old, hold⟩ := Option.isSome_iff_exists.mp hsome
    exact hoverheard.putWriter hwriter hold own
  keeps_spoiled _ hrefused _ := ⟨hrefused.sink, hrefused.tells⟩
  logs_spoiled _ hrefused _ := ⟨hrefused.sink, hrefused.tells⟩
  puts_spoiled _ hrefused _ own hwriter := hrefused.putWriter hwriter own
  ended := trace_inStep (pure_logging "exhausted") fun _ => rfl
  pulled := pulled_inStep textual
  refilled message := trace_inStep (pure_logging message) fun _ => rfl

end Follows

namespace Entry

def request? : Entry V ε → Option (Request V ε)
  | .perform request => some request
  | _ => none

def requests (entries : List (Entry V ε)) : List (Request V ε) :=
  entries.filterMap request?

/-- The entry traces to one of the sinks if it says where, and does not print to any. -/
def KeepsTo (sinks : List Nat) : Entry V ε → Prop
  | .perform request => request.Spares sinks
  | .setTracing _ => True
  | .traceTo writer => writer ∈ sinks

end Entry

section Runs

variable {sinks : List Nat} (textual : Textual V ε)

theorem Entry.spares_of_keepsTo {entries : List (Entry V ε)}
    (hentries : ∀ entry ∈ entries, entry.KeepsTo sinks) :
    ∀ request ∈ Entry.requests entries, request.Spares sinks := by
  intro request hrequest
  obtain ⟨entry, hentry, hperform⟩ := List.mem_filterMap.mp hrequest
  cases entry with
  | perform performed =>
      cases hperform
      exact hentries _ hentry
  | setTracing tracing => exact nomatch hperform
  | traceTo writer => exact nomatch hperform

theorem Refused.run {heard : Store V ε} (hrefused : heard.Refused sinks)
    (requests : List (Request V ε)) (hspares : ∀ request ∈ requests, request.Spares sinks) :
    (@Entry.run V ε (verdict textual) (requests.map .perform) heard).Refused sinks := by
  induction requests generalizing heard with
  | nil => exact hrefused
  | cons request requests ih =>
      obtain ⟨hspare, hspares⟩ := List.forall_mem_cons.mp hspares
      have hstep := perform_inStep (overhearing_follows textual) hspare
      exact ih (hstep.spoils heard hrefused) hspares

/-- A run is in step with the overheard run of its requests, however it traces. -/
theorem Overheard.run {store heard : Store V ε}
    (hoverheard : Overheard sinks store heard)
    (entries : List (Entry V ε)) (hentries : ∀ entry ∈ entries, entry.KeepsTo sinks) :
    let performed := (Entry.requests entries).map Entry.perform
    (@Entry.run V ε (verdict textual) performed heard).Tells refusal ∨
      (@Entry.answers V ε textual entries store =
          @Entry.answers V ε (verdict textual) performed heard ∧
        Overheard sinks (@Entry.run V ε textual entries store)
          (@Entry.run V ε (verdict textual) performed heard)) := by
  induction entries generalizing store heard with
  | nil => exact .inr ⟨rfl, hoverheard⟩
  | cons entry entries ih =>
      obtain ⟨hentry, hlater⟩ := List.forall_mem_cons.mp hentries
      cases entry with
      | perform request =>
          have hstep := perform_inStep (overhearing_follows textual) hentry
          cases hstep.keeps store heard hoverheard with
          | inl hrefused =>
              exact .inl (hrefused.run textual (Entry.requests entries)
                (Entry.spares_of_keepsTo hlater)).tells
          | inr hkept =>
              refine (ih hkept.2 hlater).imp_right ?_
              rintro ⟨hanswers, hrun⟩
              exact ⟨congrArg₂ _ hkept.1 hanswers, hrun⟩
      -- A switch is no request: the overheard run stays where it is.
      | setTracing tracing =>
          have htold : Overheard sinks ((setTracing tracing).after store) heard :=
            { hoverheard with }
          exact ih htold hlater
      | traceTo writer =>
          have htold : Overheard sinks ((traceTo writer).after store) heard :=
            { hoverheard with sink := hentry }
          exact ih htold hlater

end Runs

end Store

end PullRange
