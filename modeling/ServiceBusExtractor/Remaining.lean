import ServiceBusExtractor.Frame
import ServiceBusExtractor.Script

/-!
# What a session run leaves behind is reported

A session entity is read one session after the other, as the broker hands them
out. A run that stops before everything was read asks the management plane how
many messages are left and warns.

## The model

* `HonestCount held e` — a reading of the counts answers, and counts every active
  message of the entity's content `held`.
* `EntityMoves` — the entity while the loop runs: anyone may take from it and add
  to it, but nothing is added while the loop closes its connection.
* `CanLeave reason` — the stops after which the run counts what is left.

## What is proved

A loop to which no session is handed out twice ends only at such a stop
(`returns_consumeAll`), and then it warns of every receivable message that is left
(`warned_of_remaining`). A session handed out twice ends it without a warning
(`silent_after_revisit`).
-/

namespace ServiceBusExtractor

open Interaction

/-- Counted as active by the management plane. -/
def isActive (message : Message) : Bool := message.state != .deferred && !isPendingActivation message

/-- The counts can be read, and they count every active message. -/
def HonestCount (held : List Message) : Event sdk → Prop
  | .call (.loadMetadata _) (.ok metadata) => (held.filter isActive).length ≤ metadata.counts.active
  | .call (.loadMetadata _) (.error _) => False
  | _ => True

instance (held : List Message) : DecidablePred (HonestCount held) := by
  refine decidableEvents (fun c => ?_) fun _ => .isTrue trivial
  induction c using Call.casesOn with
  | loadMetadata entity =>
    rintro (fault | metadata)
    · exact .isFalse id
    · exact inferInstanceAs (Decidable ((held.filter isActive).length ≤ metadata.counts.active))
  | _ => exact fun _ => .isTrue trivial

/-- The event closes a receiver or a client. -/
def Closing : Event sdk → Prop
  | .call (.closeReceiver _) _ | .call (.closeClient _) _ => True
  | _ => False

/-- The entity's content around an event: nothing is added while the loop closes its connection. -/
def EntityMoves (e : Event sdk) (held held' : List Message) : Prop :=
  HonestCount held' e ∧ (Closing e → held' ⊆ held)

/-- No session is handed out that was handed out before and not interrupted since. -/
def FreshSession : Event sdk → Prop
  | .note (.sessionOpened id seen) => id ∉ seen
  | _ => True

instance : DecidablePred FreshSession := by
  refine decidableEvents (fun _ _ => .isTrue trivial) fun n => ?_
  induction n using Note.casesOn with
  | sessionOpened id seen => exact inferInstanceAs (Decidable (id ∉ seen))
  | _ => exact .isTrue trivial

/-- The stops after which the run counts what is left. -/
def CanLeave (reason : StopReason) : Prop := reason.isPartial = true ∨ reason = .noMoreSessions

/-- A value that is no stop, or a stop after which the run counts what is left. -/
abbrev StopsCounted (stop : Option StopReason) : Prop := ∀ reason, stop = some reason → CanLeave reason

theorem stopsCounted_none : StopsCounted none := by
  rintro _ ⟨⟩

theorem stopsCounted_some {reason : StopReason} (h : CanLeave reason) : StopsCounted (some reason) := by
  rintro _ ⟨⟩
  exact h

/-! ### The stops of a session loop -/

section Stops

variable {B : Type} {R : Event sdk → B → B → Prop} {row : Row}

theorem returns_overBudget (hmode : row.mode ≠ .deferCommit) :
    Returns R (fun exceeded => exceeded = false) (overBudget row) := by
  unfold overBudget
  rw [if_neg hmode]
  exact returns_pure rfl

theorem returns_stopCheck (hmode : row.mode ≠ .deferCommit) (hsessions : row.sessions = true)
    (catchUpUntil : Option Time) : Returns R StopsCounted (stopCheck row catchUpUntil) := by
  refine returns_bind fun l => returns_ite (fun _ => ?_) fun _ => returns_bind fun now => ?_
  · exact returns_pure (stopsCounted_some (.inl rfl))
  · refine returns_ite (fun _ => returns_pure (stopsCounted_some (.inl rfl))) fun _ w b => ?_
    refine wp_bind.mpr ((returns_overBudget hmode w b).mono fun r w' b' hr => ?_)
    rcases r with e | exceeded
    · rintro _ ⟨⟩
    · rw [onOk_ok, hr exceeded rfl]
      cases catchUpUntil with
      | none => exact returns_pure stopsCounted_none w' b'
      | some limit =>
        refine returns_ite (fun _ => returns_pure ?_) (fun _ => returns_pure stopsCounted_none) w' b'
        rw [if_pos hsessions]
        exact stopsCounted_some (.inr rfl)

/-- Without a session handed out twice, opening one stops the loop only where there is none. -/
theorem returns_openNext (hsessions : row.sessions = true) (hfresh : ∀ e b b', R e b b' → FreshSession e)
    (catchUpUntil : Option Time) : Returns R StopsCounted (openNext row catchUpUntil) := by
  refine returns_bind fun client => ?_
  refine returns_ite (fun _ => returns_bind fun opened => ?_) fun h => absurd hsessions h
  cases opened with
  | none =>
    refine returns_ite (fun _ => returns_pure (stopsCounted_some (.inr rfl))) fun _ => ?_
    exact returns_bind fun _ => returns_pure stopsCounted_none
  | some receiver =>
    refine returns_bind fun _ => returns_bind fun id => ?_
    intro l b
    rw [wp_bind, wp_get, onOk_ok, wp_bind, wp_note]
    intro b' hR
    have hid : id ∉ l.loop.seenSessions := hfresh _ _ _ hR
    rw [onOk_ok, if_neg hid]
    exact returns_bind (fun _ => returns_pure stopsCounted_none) l b'

/-- Inside a session the loop never stops: it goes on to the next one. -/
theorem returns_receiveTurn (hsessions : row.sessions = true) (receiver : Handle) (catchUpUntil : Option Time) :
    Returns R StopsCounted (receiveTurn row receiver catchUpUntil) := by
  have hempty : Returns R StopsCounted (onEmpty row catchUpUntil) := by
    unfold onEmpty
    rw [if_pos hsessions]
    exact returns_bind fun _ => returns_pure stopsCounted_none
  have hwatermark : Returns R StopsCounted (onWatermark row receiver) := by
    refine returns_bind fun l => ?_
    refine returns_bind fun _ => ?_
    refine returns_bind fun _ => ?_
    rw [if_pos hsessions]
    exact returns_bind fun _ => returns_pure stopsCounted_none
  refine returns_bind fun _ => ?_
  refine returns_bind fun l => ?_
  refine returns_bind fun batch => ?_
  refine returns_ite (fun _ => hempty) fun _ => ?_
  refine returns_bind fun _ => ?_
  refine returns_bind fun result => ?_
  refine returns_ite (fun _ => hwatermark) fun _ => ?_
  exact returns_bind fun _ => returns_pure stopsCounted_none

theorem returns_step (hmode : row.mode ≠ .deferCommit) (hsessions : row.sessions = true)
    (hfresh : ∀ e b b', R e b b' → FreshSession e) (catchUpUntil : Option Time) :
    Returns R StopsCounted (step row catchUpUntil) := by
  intro w b
  rw [step, wp_bind, wp_get, onOk_ok, wp_bind]
  refine (returns_stopCheck hmode hsessions catchUpUntil w b).mono fun r l b' hr => ?_
  rcases r with e | _ | stop
  · rintro _ ⟨⟩
  · rw [onOk_ok]
    cases w.loop.receiver with
    | none => exact returns_openNext hsessions hfresh catchUpUntil l b'
    | some receiver => exact returns_receiveTurn hsessions receiver catchUpUntil l b'
  · exact returns_bind (fun _ => returns_pure (hr _ rfl)) l b'

theorem returns_consume (hmode : row.mode ≠ .deferCommit) (hsessions : row.sessions = true)
    (hfresh : ∀ e b b', R e b b' → FreshSession e) (catchUpUntil : Option Time) (turns : ℕ) :
    Returns R StopsCounted (consume row catchUpUntil turns) := by
  refine returns_iterate (returns_tryCatch (returns_step hmode hsessions hfresh catchUpUntil) fun error => ?_)
    stopsCounted_none turns
  refine returns_ite (fun _ => returns_throw) fun _ => ?_
  exact returns_bind fun _ => returns_pure stopsCounted_none

/-- The loop of a session run, its catch-up phase included, ends at a stop that counts what is left. -/
theorem returns_consumeAll (hmode : row.mode ≠ .deferCommit) (hsessions : row.sessions = true)
    (hfresh : ∀ e b b', R e b b' → FreshSession e) (turns : ℕ) : Returns R StopsCounted (consumeAll row turns) := by
  intro w b
  refine wp_bind.mpr ((returns_consume hmode hsessions hfresh none turns w b).mono fun r l b' hr => ?_)
  rcases r with e | _ | reason
  · rintro _ ⟨⟩
  · exact returns_pure stopsCounted_none l b'
  · refine returns_bind (fun l => returns_ite (fun _ => ?_) fun _ => returns_pure (hr _ rfl)) l b'
    refine returns_bind fun now => ?_
    refine returns_bind fun l => ?_
    exact returns_bind fun _ => returns_consume hmode hsessions hfresh _ turns

end Stops

/-! ### The warning -/

/-- The run has recorded that messages remain. -/
def Warned (stats : RunStats) : Prop := WarningKey.messagesRemaining ∈ stats.warnings.map Prod.fst

instance (stats : RunStats) : Decidable (Warned stats) :=
  inferInstanceAs (Decidable (_ ∈ stats.warnings.map Prod.fst))

/-- Every active message that is left has been warned of. -/
def Reported (s : RunState) (held : List Message) : Prop := (∃ m ∈ held, isActive m = true) → Warned s.stats

section Warning

variable {A : Event sdk → Prop} {row : Row}

/-- The surroundings of the loop: the entity, and a limit on the events. -/
abbrev Around (A : Event sdk → Prop) (e : Event sdk) (held held' : List Message) : Prop :=
  EntityMoves e held held' ∧ A e

/-- Warning records the warning. -/
theorem wp_warn_messagesRemaining (text : String) (s : RunState) (held : List Message) :
    Wp (Around A) (warn .messagesRemaining text) (fun _ s _ => Warned s.stats) s held := by
  rw [warn, wp_bind, wp_get, onOk_ok, wp_when]
  constructor
  · intro _
    rw [wp_bind, tally, wp_modify, onOk_ok, wp_note]
    intro _ _
    simp [Warned]
  · intro h
    exact not_not.mp h

/-- After a stop that counts, what is left is reported. -/
theorem wp_warnIfMessagesRemain (hmode : row.mode ≠ .deferCommit) (hsessions : row.sessions = true)
    {reason : StopReason} (hreason : CanLeave reason)
    (hscope : ¬ (reason = .noMoreSessions ∧ row.config.limits.stopAtJobStart = true)) (l : LoopState)
    (held : List Message) : Wp (Around A) (warnIfMessagesRemain row reason)
    (fun _ l held => Reported l.run held) l held := by
  have hcan : ¬ (reason.isPartial = false ∧ reason ≠ .noMoreSessions) := by
    rintro ⟨h₁, h₂⟩
    rcases hreason with h | h
    · rw [h] at h₁
      exact Bool.noConfusion h₁
    · exact h₂ h
  rw [warnIfMessagesRemain, wp_bind, wp_tryCatch, remainingText, if_pos hsessions, remainingByCount, if_neg hmode,
    if_neg hscope, if_neg hcan, wp_bind, loadEntityInfo, wp_request]
  rintro reply held' ⟨⟨hcount, -⟩, -⟩
  rcases reply with fault | metadata
  · exact absurd hcount id
  · have hle : (held'.filter isActive).length ≤ metadata.counts.active := hcount
    rw [onOk_ok]
    dsimp only
    by_cases hzero : metadata.counts.active = 0
    · rw [if_pos hzero, wp_pure, onError_ok, onOk_ok, wp_pure]
      rintro ⟨m, hm, hactive⟩
      have hnil : held'.filter isActive = [] := List.length_eq_zero_iff.mp (by omega)
      exact absurd hactive (List.filter_eq_nil_iff.mp hnil m hm)
    · rw [if_neg hzero, wp_pure, onError_ok, onOk_ok]
      exact wp_embed.mpr ((wp_warn_messagesRemaining _ _ _).mono fun _ _ _ h _ => h)

/-- Closing the connection leaves what was reported reported. -/
theorem keeps_close_reported (c : Prop) (interrupted : Bool) :
    Keeps (Around A) (fun l held => c → Reported l.run held) (close interrupted) := by
  have hclosing : ∀ {call : Call} {result : Reply call → Except Exn Unit}, (∀ r, Closing (.call call r)) →
      Keeps (Around A) (fun l held => c → Reported l.run held)
        (tryCatch (Prog.request (S := sdk) call result) fun _ => pure () : Loop Unit) := by
    intro call result hcall
    refine keeps_tryCatch (keeps_request ?_) fun _ => keeps_pure
    rintro r l held held' ⟨⟨-, hsub⟩, -⟩ hI hc ⟨m, hm, hactive⟩
    exact hI hc ⟨m, hsub (hcall r) hm, hactive⟩
  refine keeps_bind keeps_get fun l => ?_
  refine keeps_bind (keeps_modify fun _ _ h => h) fun _ => ?_
  refine keeps_bind ?_ fun _ => ?_
  · exact keeps_whenOpen fun h => hclosing fun _ => trivial
  · exact keeps_whenOpen fun h => hclosing fun _ => trivial

end Warning

/-- The loop returned a stop after which everything left has to be reported. -/
def Counts (row : Row) (r : Except Exn (Option StopReason)) : Prop :=
  ∃ reason, r = .ok (some reason) ∧ ¬ (reason = .noMoreSessions ∧ row.config.limits.stopAtJobStart = true)

theorem not_counts_error {row : Row} {e : Exn} : ¬ Counts row (.error e) := by
  rintro ⟨_, ⟨⟩, _⟩

theorem not_counts_none {row : Row} : ¬ Counts row (.ok none) := by
  rintro ⟨_, ⟨⟩, _⟩

section Run

variable {row : Row}

theorem wp_runUntilStop_reported (hmode : row.mode ≠ .deferCommit) (hsessions : row.sessions = true) (turns : ℕ)
    (l : LoopState) (held : List Message) :
    Wp (Around FreshSession) (runUntilStop row turns) (fun r l held => Counts row r → Reported l.run held) l held := by
  have hfresh : ∀ e held held', Around FreshSession e held held' → FreshSession e := fun _ _ _ h => h.2
  rw [runUntilStop, wp_bind]
  refine (returns_consumeAll hmode hsessions hfresh turns l held).mono fun r l' held' hr => ?_
  rcases r with e | _ | reason
  · exact fun h => absurd h not_counts_error
  · exact wp_pure.mpr fun h => absurd h not_counts_none
  · by_cases hscope : reason = .noMoreSessions ∧ row.config.limits.stopAtJobStart = true
    · refine wp_bind.mpr (Wp.of_exec fun es r l'' held'' _ _ => ?_)
      rcases r with e | _
      · exact fun h => absurd h not_counts_error
      · refine wp_pure.mpr ?_
        rintro ⟨_, ⟨⟩, hnot⟩
        exact absurd hscope hnot
    · refine wp_bind.mpr ((wp_warnIfMessagesRemain hmode hsessions (hr _ rfl reason rfl) hscope l' held').mono ?_)
      intro r l'' held'' hreported
      rcases r with e | _
      · exact fun h => absurd h not_counts_error
      · exact wp_pure.mpr fun _ => hreported

/-- A normal end of the loop reports what is left. -/
theorem wp_loop_reported (hmode : row.mode ≠ .deferCommit) (hsessions : row.sessions = true) (turns : ℕ) (l : LoopState)
    (held : List Message) :
    Wp (Around FreshSession) (ReceiveLoop.run row turns)
      (fun r l held => Counts row r → Reported l.run held) l held := by
  rw [ReceiveLoop.run, wp_bind, monotonic, wp_perform]
  intro now held₁ _
  rw [onOk_ok, wp_bind, updateLoop, wp_modify, onOk_ok, wp_bind]
  refine (wp_runUntilStop_reported hmode hsessions turns _ _).finishing ?_ ?_
  · intro l₂ held₂ _
    exact wp_pure.mpr fun h => absurd h not_counts_none
  · intro r l₂ held₂ hI
    refine (keeps_close_reported (Counts row r) false).wp hI ?_
    intro r' l₃ held₃ hI'
    rcases r' with e | _
    · exact fun h => absurd h not_counts_error
    · rcases r with e | _ | reason
      · exact fun h => absurd h not_counts_error
      · exact wp_pure.mpr fun h => absurd h not_counts_none
      · exact wp_bind.mpr (wp_embed.mpr (wp_modify.mpr (wp_pure.mpr hI')))

/-- Where no session is handed out twice, a complete or receive_and_delete run of a session entity that
ends normally has warned of every receivable message it left, but for the messages of the next run at the
end of the sessions. -/
theorem warned_of_remaining (row : Row) (hmode : row.mode = .complete ∨ row.mode = .receiveAndDelete)
    (hsessions : row.sessions = true) (s : RunState) (turns : ℕ) (es : Trace sdk) (reason : StopReason) (s' : RunState)
    (hrun : Prog.Exec (runReceiveLoop row turns) s es (.ok (some reason)) s') (held held' : List Message)
    (hentity : Path EntityMoves es held held') (hfresh : ∀ e ∈ es, FreshSession e)
    (hscope : ¬ (reason = .noMoreSessions ∧ row.config.limits.stopAtJobStart = true)) (now : Time) (m : Message)
    (hm : m ∈ held') (hreceivable : isReceivable row s.t0 now m = true) : Warned s'.stats := by
  have hnd : row.mode ≠ .deferCommit := by
    rcases hmode with h | h <;> simp [h]
  have hloop : Wp (Around FreshSession) (runReceiveLoop row turns)
      (fun r s held => Counts row r → Reported s held) s held :=
    wp_embed.mpr (wp_loop_reported hnd hsessions turns ⟨s, .start row⟩ held)
  refine hloop es _ s' held' hrun (hentity.and hfresh) ⟨reason, rfl, hscope⟩ ⟨m, hm, ?_⟩
  simp only [isReceivable, Bool.and_eq_true] at hreceivable
  rw [isActive, Bool.and_eq_true]
  exact hreceivable.1.1

end Run

/-- One message is taken and one is left: the run says so. -/
theorem warned_of_remaining_one :
    Warned (scriptedState (runReceiveLoop (sessionRow 1) 8) (openedState (sessionRow 1) 10)
    { sessionIds := ["A"], receives := [.ok [{ sequenceNumber := 1 }]],
      metadata := [.ok { counts := { active := 1 } }] }).stats :=
  warned_of_remaining (sessionRow 1) (.inl rfl) rfl _ 8 _ .maxMessages _
    (exec_of_scriptedResult _ (by decide +kernel)) [{ sequenceNumber := 2 }] [{ sequenceNumber := 2 }]
    (path_const fun e he => ⟨(by decide +kernel : ∀ e ∈ scripted _ _ _, HonestCount _ e) e he,
      fun _ => List.Subset.refl _⟩)
    (by decide +kernel) (by decide) 20 { sequenceNumber := 2 } (by simp) rfl

/-- Session `A` is handed out, drained and handed out again, for a message that came meanwhile. -/
def revisited : Script where
  sessionIds := ["A", "A"]
  receives := [.ok [{ sequenceNumber := 1, sessionId := some "A", enqueuedTimeUtc := some 1 }]]

/-- The entity while that happens: completing the message takes it away, and the other one comes. -/
def revisitedMoves (held : List Message) : Event sdk → List Message
  | .call (.completeMessage _ message) _ => (held.filter fun m => m.sequenceNumber ≠ message.sequenceNumber) ++
    [{ sequenceNumber := 3, sessionId := some "A", enqueuedTimeUtc := some 11 }]
  | _ => held

/-- The event reads no counts. -/
def readsNoCounts : Event sdk → Bool
  | .call (.loadMetadata _) _ => false
  | _ => true

theorem entityMoves_revisitedMoves {e : Event sdk} (he : readsNoCounts e = true) (held : List Message) :
    EntityMoves e held (revisitedMoves held e) := by
  rcases e with ⟨c, r⟩ | n
  · cases c <;> simp_all [EntityMoves, HonestCount, Closing, revisitedMoves, readsNoCounts]
  · exact ⟨trivial, fun h => absurd h id⟩

/-- The loop ends at the second hand-out, a message of another session is still waiting, and nothing is said. -/
theorem silent_after_revisit : ∃ es s' held held',
    Prog.Exec (runReceiveLoop (sessionRow 0) 8) (openedState (sessionRow 0) 10) es (.ok (some .sessionRevisited)) s' ∧
    Path EntityMoves es held held' ∧ (∃ m ∈ held', isReceivable (sessionRow 0) 10 20 m = true) ∧ ¬ Warned s'.stats := by
  refine ⟨_, _, [{ sequenceNumber := 1, sessionId := some "A", enqueuedTimeUtc := some 1 },
      { sequenceNumber := 2, sessionId := some "B", enqueuedTimeUtc := some 2 }], _,
    exec_of_scriptedResult revisited (by decide +kernel), path_foldl
      (f := revisitedMoves) ?_, by decide +kernel, by decide +kernel⟩
  intro e he held
  have hno : ∀ e ∈ scripted (runReceiveLoop (sessionRow 0) 8) (openedState (sessionRow 0) 10) revisited,
      readsNoCounts e = true := by decide +kernel
  exact entityMoves_revisitedMoves (hno e he) held

end ServiceBusExtractor
