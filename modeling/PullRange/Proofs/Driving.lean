import PullRange.Proofs.Advances

/-!
# How a buffer drives its resource

A buffer asks its resource for inputs, and may let it go before it is done. `Orderly` says when it
may do so: once the resource has reported done or was let go, it is not called any more. What has
been called can be told from the state of whatever the buffer calls on, in a way that `Feed.Reveals`
leaves open: from the record of a watched feed, or from the log of a store.
-/

namespace PullRange

variable {I R ε ω : Type}

inductive ResourceCall where
  | ask (reportsDone : Bool)
  | release
  deriving DecidableEq, Repr

/-- The resource has neither reported done nor been let go. -/
def Open (calls : List ResourceCall) : Prop :=
  ∀ call ∈ calls, call = .ask false

/-- Every call but the last asks the resource, and is not told that it is done. -/
def Orderly (calls : List ResourceCall) : Prop :=
  calls.Pairwise fun earlier _ => earlier = .ask false

section Calls

variable {calls : List ResourceCall}

theorem Open.append (hopen : Open calls) : Open (calls ++ [.ask false]) := by
  intro call hcall
  cases List.mem_append.mp hcall with
  | inl hbefore => exact hopen call hbefore
  | inr hlast => exact List.mem_singleton.mp hlast

theorem Open.orderly (hopen : Open calls) : Orderly calls :=
  List.pairwise_of_forall_mem_list fun earlier hearlier _ _ => hopen earlier hearlier

theorem Open.orderly_append (hopen : Open calls) (last : ResourceCall) :
    Orderly (calls ++ [last]) := by
  refine List.pairwise_append.mpr ⟨hopen.orderly, List.pairwise_singleton _ last, ?_⟩
  intro earlier hearlier _ _
  exact hopen earlier hearlier

theorem orderly_iff :
    Orderly calls ↔ ∃ (asked : Nat) (last : Option ResourceCall),
      calls = List.replicate asked (.ask false) ++ last.toList := by
  constructor
  · intro horderly
    induction calls with
    | nil => exact ⟨0, none, rfl⟩
    | cons call calls ih =>
        obtain ⟨hcall, hcalls⟩ := List.pairwise_cons.mp horderly
        cases calls with
        | nil => exact ⟨0, some call, rfl⟩
        | cons later calls =>
            obtain ⟨asked, last, hlater⟩ := ih hcalls
            refine ⟨asked + 1, last, ?_⟩
            rw [hlater, hcall later List.mem_cons_self, List.replicate_succ, List.cons_append]
  · rintro ⟨asked, last, rfl⟩
    have hopen : Open (List.replicate asked (.ask false)) := fun call hcall =>
      List.eq_of_mem_replicate hcall
    cases last with
    | none => simpa using hopen.orderly
    | some last => exact hopen.orderly_append last

end Calls

/-- `At` tells the states in which these calls of the resource have been made. Nothing need be told
of calls that come after the resource is done or let go. -/
structure Feed.Reveals (feed : Feed I R ε ω) (At : List ResourceCall → ω → Prop) : Prop where
  ask : ∀ calls state, Open calls → At calls state →
    At (calls ++ [.ask (reportsDone (feed.ask.answer state))]) (feed.ask.after state)
  release : ∀ calls state, Open calls → At calls state →
    At (calls ++ [.release]) (feed.release.after state)
  compute : ∀ calls state input index, At calls state →
    At calls ((feed.compute input index).after state)
  trace : ∀ calls state message, At calls state →
    At calls ((feed.trace "underflow" (pure message)).after state)

def Contact.call? : Contact → Option ResourceCall
  | .asked reportedDone => some (.ask reportedDone)
  | .released => some .release
  | .computed => none
  | .traced => none

theorem watched_reveals (feed : Feed I R ε ω) :
    feed.watched.Reveals fun calls state => state.2.filterMap Contact.call? = calls where
  ask calls state _ hcalls := by
    have hask := watched_ask feed state
    rw [Action.answer_of_settle hask, Action.after_of_settle hask]
    simp [hcalls, Contact.call?]
  release calls state _ hcalls := by
    have hrelease := feed.release.recorded_apply (fun _ => .released) state
    change ((feed.release.recorded fun _ => .released).after state).2.filterMap _ = _
    rw [Action.after_of_settle hrelease]
    simp [hcalls, Contact.call?]
  compute calls state input index hcalls := by
    rw [Action.after_of_settle (watched_compute feed state input index)]
    simp [hcalls, Contact.call?]
  trace calls state message hcalls := by
    have htrace : feed.watched.trace "underflow" (pure message) state = settle _ _ :=
      Action.recorded_apply (fun _ => .traced) _ state
    rw [Action.after_of_settle htrace]
    simp [hcalls, Contact.call?]

namespace Buffer

/-- As long as the buffer holds its resource, the resource may still be called. -/
structure Abides (buffer : Buffer R ε) (calls : List ResourceCall) : Prop where
  orderly : Orderly calls
  holds : buffer.held = true → Open calls

theorem Abides.of_held {buffer buffer' : Buffer R ε} {calls : List ResourceCall}
    (habides : buffer.Abides calls) (hheld : buffer'.held = buffer.held) :
    buffer'.Abides calls :=
  ⟨habides.orderly, fun hholds => habides.holds (hheld.symm.trans hholds)⟩

section Reveals

variable {feed : Feed I R ε ω} {At : List ResourceCall → ω → Prop} (hreveals : feed.Reveals At)

include hreveals

/-- While a chunk is filled, only the resource that reports done puts an end to being called. -/
theorem fill_reveals (room consumed : Nat) (chunk : Array R) {calls : List ResourceCall}
    {state : ω} (hopen : Open calls) (hat : At calls state) :
    ∃ calls', At calls' (fill feed room consumed chunk state).2 ∧ Orderly calls' ∧
      ((fill feed room consumed chunk state).1.stop.isDrained = false → Open calls') := by
  induction room generalizing consumed chunk calls state with
  | zero => exact ⟨calls, hat, hopen.orderly, fun _ => hopen⟩
  | succ room ih =>
      have hasked := hreveals.ask calls state hopen hat
      unfold Action.answer Action.after at hasked
      cases hask : feed.ask state with
      | error fault state' =>
          rw [hask] at hasked
          rw [fill_of_fail hask]
          exact ⟨_, hasked, hopen.orderly_append _, fun _ => hopen.append⟩
      | ok step state' =>
          rw [hask] at hasked
          cases step with
          | done parting =>
              rw [fill_of_done hask]
              exact ⟨_, hasked, hopen.orderly_append _, nofun⟩
          | yield input =>
              have hcomputed := hreveals.compute _ state' input consumed hasked
              unfold Action.after at hcomputed
              cases hcompute : feed.compute input consumed state' with
              | error fault state'' =>
                  rw [hcompute] at hcomputed
                  rw [fill_of_error hask hcompute]
                  exact ⟨_, hcomputed, hopen.orderly_append _, fun _ => hopen.append⟩
              | ok result state'' =>
                  rw [hcompute] at hcomputed
                  rw [fill_of_result hask hcompute]
                  exact ih (consumed + 1) (chunk.push result) hopen.append hcomputed

theorem fills_abides {buffer : Buffer R ε} {calls : List ResourceCall} {state state' : ω}
    {filled : Filled R ε} (hdry : buffer.Dry) (hfills : buffer.Fills feed state filled state')
    (hat : At calls state) (habides : buffer.Abides calls) :
    ∃ calls', At calls' state' ∧ (buffer.settled filled).Abides calls' := by
  obtain ⟨calls', hat', horderly, hopen⟩ := fill_reveals hreveals buffer.capacity buffer.consumed
    #[] (habides.holds hdry.held) hat
  rw [hfills] at hat' hopen
  refine ⟨calls', hat', horderly, ?_⟩
  rw [settled_held hdry.held, Bool.not_eq_true']
  exact hopen

theorem next_abides {buffer : Buffer R ε} {calls : List ResourceCall} {state : ω}
    (hat : At calls state) (habides : buffer.Abides calls) :
    ∃ calls', At calls' ((next feed).after (buffer, state)).2 ∧
      ((next feed).after (buffer, state)).1.Abides calls' := by
  obtain ⟨answer, buffer', state', hnext, hadvance⟩ := next_advances feed buffer state
  rw [Action.after_of_settle hnext]
  have htraced {calls : List ResourceCall} {filled : Filled R ε} {state state' : ω}
      (answer : Except (Fault ε) Unit) (hat : At calls state)
      (htrace : traceChunk feed filled state = settle answer state') : At calls state' := by
    have htold : At calls ((traceChunk feed filled).after state) :=
      hreveals.trace calls state _ hat
    rwa [Action.after_of_settle htrace] at htold
  cases hadvance with
  | waiting hwaits => exact ⟨calls, hat, habides.of_held rfl⟩
  | deferred hdrained hdeferred => exact ⟨calls, hat, habides.of_held rfl⟩
  | ended hdrained hclear hheld => exact ⟨calls, hat, habides.of_held rfl⟩
  | failed hdry hfills hstop hempty => exact fills_abides hreveals hdry hfills hat habides
  | interrupted hdry hfills hgoing htrace =>
      obtain ⟨calls', hat', habides'⟩ := fills_abides hreveals hdry hfills hat habides
      exact ⟨calls', htraced (.error _) hat' htrace, habides'⟩
  | refilled hdry hfills htrace hpos =>
      obtain ⟨calls', hat', habides'⟩ := fills_abides hreveals hdry hfills hat habides
      exact ⟨calls', htraced (.ok ()) hat' htrace, habides'.of_held rfl⟩
  | exhausted hdry hfills hstop hempty htrace =>
      obtain ⟨calls', hat', habides'⟩ := fills_abides hreveals hdry hfills hat habides
      exact ⟨calls', htraced (.ok ()) hat' htrace, habides'⟩

theorem release_abides {buffer : Buffer R ε} {calls : List ResourceCall} {state : ω}
    (hat : At calls state) (habides : buffer.Abides calls) :
    ∃ calls', At calls' ((release feed).after (buffer, state)).2 ∧
      ((release feed).after (buffer, state)).1.Abides calls' := by
  cases hheld : buffer.held with
  | false =>
      rw [Action.after_of_ok (release_of_not_held feed hheld)]
      exact ⟨calls, hat, habides.orderly, nofun⟩
  | true =>
      have hopen := habides.holds hheld
      rw [Action.after_of_settle (release_of_held feed hheld)]
      exact ⟨_, hreveals.release calls state hopen hat, hopen.orderly_append _, nofun⟩

end Reveals

end Buffer

namespace BufferCall

variable {feed : Feed I R ε ω}

theorem after_perform (call : BufferCall) (state : Buffer R ε × ω) :
    (call.perform feed).after state =
      match call with
      | .next => (Buffer.next feed).after state
      | .release => (Buffer.release feed).after state := by
  cases call with
  | next => exact Action.after_of_settle (perform_next feed state)
  | release => exact Action.after_of_settle (perform_release feed state)

theorem abides_run {At : List ResourceCall → ω → Prop} (hreveals : feed.Reveals At)
    (bufferCalls : List BufferCall) {buffer : Buffer R ε} {calls : List ResourceCall} {state : ω}
    (hat : At calls state) (habides : buffer.Abides calls) :
    ∃ calls', At calls' (run feed bufferCalls (buffer, state)).2 ∧
      (run feed bufferCalls (buffer, state)).1.Abides calls' := by
  induction bufferCalls generalizing buffer calls state with
  | nil => exact ⟨calls, hat, habides⟩
  | cons call bufferCalls ih =>
      have hstep : ∃ calls', At calls' ((call.perform feed).after (buffer, state)).2 ∧
          ((call.perform feed).after (buffer, state)).1.Abides calls' := by
        rw [after_perform]
        cases call with
        | next => exact Buffer.next_abides hreveals hat habides
        | release => exact Buffer.release_abides hreveals hat habides
      obtain ⟨calls', hat', habides'⟩ := hstep
      exact ih hat' habides'

/-- Nothing is consumed at the end. -/
theorem consumed_run_of_isEof (feed : Feed I R ε ω) {buffer : Buffer R ε} (heof : buffer.isEof)
    (calls : List BufferCall) (state : ω) :
    (run feed calls (buffer, state)).1.consumed = buffer.consumed := by
  induction calls generalizing buffer with
  | nil => rfl
  | cons call calls ih =>
      have hstep : ∃ buffer' : Buffer R ε, buffer'.isEof ∧ buffer'.consumed = buffer.consumed ∧
          (call.perform feed).after (buffer, state) = (buffer', state) := by
        obtain ⟨hheld, hdrained, hclear⟩ := (Buffer.isEof_iff buffer).mp heof
        rw [after_perform]
        cases call with
        | next =>
            have hnext := buffer_next_of_isEof heof feed state
            have hstays := buffer_next_stays feed (buffer, state) heof
            rw [Action.after_of_ok hnext] at hstays ⊢
            exact ⟨_, hstays, rfl, rfl⟩
        | release =>
            rw [Action.after_of_ok (Buffer.release_of_not_held feed hheld)]
            exact ⟨_, buffer.dropped_isEof, rfl, rfl⟩
      obtain ⟨buffer', heof', hconsumed, hafter⟩ := hstep
      change (run feed calls ((call.perform feed).after (buffer, state))).1.consumed = _
      rw [hafter, ih heof', hconsumed]

end BufferCall

end PullRange
