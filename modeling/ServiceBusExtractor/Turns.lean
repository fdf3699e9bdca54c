import ServiceBusExtractor.Frame

/-!
# The turns of a receive loop

A run of the receive loop is a sequence of turns: a step, or a step that raised
and what the loop does to go on after it. This is the loop as a transition system
between its turns, for the properties that depend on what happened in one turn.

## The model

* `Recovers` — a turn that goes on after an exception of its step.
* `BetweenTurns row s c l h` — the loop of a run that started from `s` may be in
  state `l` between two turns, after the trace `h`.
* `LastTurn` — the turn that ended the loop; `After` — what only the quiet end of
  the loop comes after.

## What is proved

* `exec_receiveLoop`: every execution of the loop is between two turns, or went
  through its last turn and then through the quiet end;
* `keeps_receive_locked`, `keeps_stopDrain_locked`: receiving and draining where
  messages are locked.
-/

namespace ServiceBusExtractor

open Interaction

/-- The turn goes on after an exception of its step: it recovers, or skips the session. -/
def Recovers (row : Row) (catchUpUntil : Option Time) (l : LoopState) (es : Trace sdk) (l' : LoopState) : Prop :=
  ∃ e es₁ es₂ l₁, es = es₁ ++ es₂ ∧ Prog.Exec (step row catchUpUntil) l es₁ (.error e) l₁ ∧ e.isUser = false ∧
    Prog.Exec (afterFailure row e) l₁ es₂ (.ok ()) l'

/-- The loop may be in state `l` between two turns, after the trace `h`. -/
inductive BetweenTurns (row : Row) (s : RunState) : Option Time → LoopState → Trace sdk → Prop where
  /-- The deadline is set. -/
  | start (now : Time) : BetweenTurns row s none
      ⟨s, { ReceiveLoop.start row with deadline := now + seconds row.config.advanced.maxDurationSeconds }⟩
      [.call .monotonic now]
  /-- A turn without a stop. -/
  | turn {c : Option Time} {l l' : LoopState} {h es : Trace sdk} :
      BetweenTurns row s c l h → Prog.Exec (consumeTurn row c) l es (.ok none) l' → BetweenTurns row s c l' (h ++ es)
  /-- A stop that the catch-up phase follows. -/
  | catchUp {l l' : LoopState} {h es : Trace sdk} {reason : StopReason} (now : Time) :
      BetweenTurns row s none l h → Prog.Exec (consumeTurn row none) l es (.ok (some reason)) l' →
      catchUpDue row l'.loop reason = true →
      BetweenTurns row s (some (min (now + seconds row.config.advanced.recoveryWaitSeconds) l'.loop.deadline))
        { l' with loop := { l'.loop with wait := catchUpPollSeconds } } (h ++ es ++ [.call .monotonic now])

/-- The loop ends with a turn that stops or raises. -/
def LastTurn (row : Row) (s : RunState) (c : Option Time) (r : Except Exn (Option StopReason)) (l' : LoopState)
    (h' : Trace sdk) : Prop :=
  ∃ l h es, BetweenTurns row s c l h ∧ Prog.Exec (consumeTurn row c) l es r l' ∧ r ≠ .ok none ∧ h' = h ++ es

/-- Whatever a frame keeps goes from the first state and history to the second. -/
def After (l : LoopState) (h : Trace sdk) (l' : LoopState) (h' : Trace sdk) : Prop :=
  ∀ K : LoopState → Trace sdk → Prop, LoopFrame Recorded K → K l h → K l' h'

section Turns

variable {row : Row} {s : RunState} {c : Option Time} {l l' : LoopState} {h es : Trace sdk}

/-- A turn is a step, a step and a recovery, or it raises. -/
theorem exec_consumeTurn {r : Except Exn (Option StopReason)} (hturn : Prog.Exec (consumeTurn row c) l es r l') :
    (Prog.Exec (step row c) l es r l' ∧ ∃ stop, r = .ok stop) ∨ (Recovers row c l es l' ∧ r = .ok none) ∨
      ∃ e e₁ es₁ es₂ l₁, r = .error e ∧ es = es₁ ++ es₂ ∧ Prog.Exec (step row c) l es₁ (.error e₁) l₁ ∧
        ((e₁.isUser = true ∧ es₂ = [] ∧ l' = l₁ ∧ e = e₁) ∨
          (e₁.isUser = false ∧ Prog.Exec (afterFailure row e₁) l₁ es₂ (.error e) l')) := by
  rcases Prog.exec_tryCatch.mp hturn with ⟨stop, hstep, rfl⟩ | ⟨es₁, es₂, e₁, l₁, rfl, hstep, hrest⟩
  · exact .inl ⟨hstep, stop, rfl⟩
  · cases huser : e₁.isUser with
    | true =>
      rw [if_pos huser] at hrest
      obtain ⟨rfl, rfl, rfl⟩ := Prog.exec_throw.mp hrest
      exact .inr (.inr ⟨e₁, e₁, es₁, [], l', rfl, rfl, hstep, .inl ⟨huser, rfl, rfl, rfl⟩⟩)
    | false =>
      rw [if_neg (by rw [huser]; exact Bool.false_ne_true)] at hrest
      rcases Prog.exec_bind.mp hrest with ⟨e, hfail, rfl⟩ | ⟨es₃, es₄, _, l₂, rfl, hok, hpure⟩
      · exact .inr (.inr ⟨e, e₁, es₁, es₂, l₁, rfl, rfl, hstep, .inr ⟨huser, hfail⟩⟩)
      · obtain ⟨rfl, rfl, rfl⟩ := Prog.exec_pure.mp hpure
        rw [List.append_nil]
        exact .inr (.inl ⟨⟨e₁, es₁, es₃, l₁, rfl, hstep, huser, hok⟩, rfl⟩)

/-- A recovery leaves its note, where no session can be skipped. -/
theorem Recovers.noted (hsessions : row.sessions = false) (hrecovers : Recovers row c l es l') :
    Event.note (S := sdk) .recovery ∈ es := by
  obtain ⟨e, es₁, es₂, l₁, rfl, -, -, hafter⟩ := hrecovers
  have hwp : Wp Recorded (afterFailure row e)
      (fun r _ h => r = .ok () → Event.note (S := sdk) .recovery ∈ h) l₁ [] := by
    rw [afterFailure, if_neg (by rw [hsessions]; exact fun h => Bool.false_ne_true h.1), recover, wp_bind]
    refine Wp.of_exec fun _ r₁ l₂ h₂ _ _ => ?_
    cases r₁ with
    | error e => rintro ⟨⟩
    | ok _ =>
      rw [onOk_ok, wp_bind, wp_get, onOk_ok, wp_bind, wp_ofExcept]
      cases l₂.loop.tracker.failure row e with
      | error e => rintro ⟨⟩
      | ok tracker =>
        rw [onOk_ok, wp_bind, updateLoop, wp_modify, onOk_ok, wp_bind, onRun, wp_embed, tally, wp_modify, onOk_ok,
          logRecovery, wp_bind, wp_note]
        rintro _ ⟨-, rfl⟩
        rw [onOk_ok, wp_note]
        rintro _ ⟨-, rfl⟩ _
        simp
  have hnote := wp_logged.mp hwp es₂ _ l' hafter (fun _ _ => trivial) rfl
  exact List.mem_append_right _ (by simpa using hnote)

theorem After.refl : After l h l h := fun _ _ hI => hI

/-- What comes after a state has a frame of its own. -/
theorem loopFrame_after : LoopFrame Recorded (After l h) where
  run loop := {
    stats := fun stats hsame hA K hK hI => (hK.run loop).stats stats hsame (hA K hK hI)
    guarded := fun guarded hA K hK hI => (hK.run loop).guarded guarded (hA K hK hI)
    info := fun info hA K hK hI => (hK.run loop).info info (hA K hK hI)
    quiet := fun e s b b' he hR hA K hK hI => (hK.run loop).quiet e s b b' he hR (hA K hK hI) }
  connection loop hloop hA K hK hI := hK.connection loop hloop (hA K hK hI)

theorem After.grows {h' : Trace sdk} (hA : After l h l' h') : h <+: h' := by
  refine hA (fun _ h' => h <+: h') ?_ (List.prefix_refl h)
  exact {
    run := fun loop => {
      stats := fun _ _ hp => hp
      info := fun _ hp => hp
      quiet := by
        rintro e s h₁ _ _ ⟨-, rfl⟩ hp
        exact hp.trans (List.prefix_append _ _) }
    connection := fun _ _ hp => hp }

/-- The turns of one phase of the loop. -/
theorem wp_consume_turns (turns : ℕ) (hb : BetweenTurns row s c l h) :
    Wp Recorded (consume row c turns) (fun r l' h' => (r = .ok none ∧ BetweenTurns row s c l' h') ∨
      LastTurn row s c r l' h') l h := by
  refine Wp.iterate (BetweenTurns row s c) ?_ (fun l' h' hb' => .inl ⟨rfl, hb'⟩) hb
  intro l h hb
  refine wp_ran.mono ?_
  rintro r l' h' ⟨es, hturn, hpath⟩
  obtain ⟨-, rfl⟩ := path_logged.mp hpath
  rcases r with e | _ | reason
  · exact .inr ⟨l, h, es, hb, hturn, by simp, rfl⟩
  · exact hb.turn hturn
  · exact .inr ⟨l, h, es, hb, hturn, by simp, rfl⟩

/-- Where the loop is once its phases are over: between two turns, or after its last one. -/
def Looped (row : Row) (s : RunState) (r : Except Exn (Option StopReason)) (l' : LoopState) (h' : Trace sdk) : Prop :=
  (r = .ok none ∧ ∃ c, BetweenTurns row s c l' h') ∨ ∃ c, LastTurn row s c r l' h'

theorem wp_consumeAll_turns (turns : ℕ) (hb : BetweenTurns row s none l h) :
    Wp Recorded (consumeAll row turns) (Looped row s) l h := by
  refine wp_bind.mpr ((wp_consume_turns turns hb).mono ?_)
  rintro r l₁ h₁ (⟨rfl, hb₁⟩ | hlast)
  · exact wp_pure.mpr (.inl ⟨rfl, none, hb₁⟩)
  · obtain ⟨l₀, h₀, es, hb₀, hturn, hr, rfl⟩ := id hlast
    rcases r with e | _ | reason
    · exact .inr ⟨none, hlast⟩
    · exact absurd rfl hr
    · rw [onOk_ok]
      dsimp only
      rw [wp_bind, wp_get, onOk_ok, wp_ite]
      refine ⟨fun hdue => ?_, fun _ => wp_pure.mpr (.inr ⟨none, hlast⟩)⟩
      rw [catchUp, wp_bind, monotonic, wp_perform]
      rintro now _ ⟨-, rfl⟩
      rw [onOk_ok, wp_bind, wp_get, onOk_ok, wp_bind, updateLoop, wp_modify, onOk_ok]
      refine (wp_consume_turns turns (.catchUp now hb₀ hturn hdue)).mono ?_
      rintro r l₂ h₂ (⟨rfl, hb₂⟩ | hlast₂)
      · exact .inl ⟨rfl, _, hb₂⟩
      · exact .inr ⟨_, hlast₂⟩

/-- The loop has stopped or raised: its last turn, and only quiet events after it. -/
def Ended (row : Row) (s : RunState) (r : Except Exn (Option StopReason)) (l' : LoopState) (h' : Trace sdk) : Prop :=
  ∃ c r₁ l₁ h₁, LastTurn row s c r₁ l₁ h₁ ∧ After l₁ h₁ l' h' ∧
    ∀ reason, r = .ok (some reason) → r₁ = .ok (some reason)

theorem wp_runUntilStop_turns (turns : ℕ) (hb : BetweenTurns row s none l h) :
    Wp Recorded (runUntilStop row turns) (fun r l' h' => (r = .ok none ∧ ∃ c, BetweenTurns row s c l' h') ∨
      Ended row s r l' h') l h := by
  refine wp_bind.mpr ((wp_consumeAll_turns turns hb).mono ?_)
  rintro r l₁ h₁ (⟨rfl, c, hb₁⟩ | ⟨c, hlast⟩)
  · exact wp_pure.mpr (.inl ⟨rfl, c, hb₁⟩)
  · rcases r with e | _ | reason
    · exact .inr ⟨c, _, l₁, h₁, hlast, .refl, by rintro _ ⟨⟩⟩
    · obtain ⟨_, _, _, _, _, hr, _⟩ := hlast
      exact absurd rfl hr
    · refine (keeps_warnIfMessagesRemain loopFrame_after row reason).wp_bind After.refl ?_ ?_
      · refine fun _ l₂ h₂ hA => wp_pure.mpr (.inr ⟨c, _, l₁, h₁, hlast, hA, ?_⟩)
        rintro _ ⟨⟩
        rfl
      · refine fun e l₂ h₂ hA => .inr ⟨c, _, l₁, h₁, hlast, hA, ?_⟩
        rintro _ ⟨⟩

/-- Every execution of the loop is between two turns, or through its last one and the quiet end. -/
theorem exec_receiveLoop {turns : ℕ} {r : Except Exn (Option StopReason)}
    (hrun : Prog.Exec (ReceiveLoop.run row turns) ⟨s, .start row⟩ es r l') :
    (r = .ok none ∧ ∃ c, BetweenTurns row s c l' es) ∨ Ended row s r l' es := by
  suffices hwp : Wp Recorded (ReceiveLoop.run row turns) (fun r l' h' =>
      (r = .ok none ∧ ∃ c, BetweenTurns row s c l' h') ∨ Ended row s r l' h') ⟨s, .start row⟩ [] from
    wp_logged.mp hwp es r l' hrun fun _ _ => trivial
  rw [ReceiveLoop.run, wp_bind, monotonic, wp_perform]
  rintro now _ ⟨-, rfl⟩
  rw [onOk_ok, wp_bind, updateLoop, wp_modify, onOk_ok, wp_bind]
  refine wp_finishing.mpr ((wp_runUntilStop_turns turns (.start now)).mono ?_)
  rintro r l₁ h₁ hI
  rcases r with e | _ | reason
  · rcases hI with ⟨⟨⟩, -⟩ | ⟨c, r₁, l₂, h₂, hlast, hA, -⟩
    refine (keeps_close loopFrame_after false).wp hA fun r l₃ h₃ hA' => ?_
    cases r with
    | error e => exact .inr ⟨c, r₁, l₂, h₂, hlast, hA', by rintro _ ⟨⟩⟩
    | ok _ => exact .inr ⟨c, r₁, l₂, h₂, hlast, hA', by rintro _ ⟨⟩⟩
  · rcases hI with ⟨-, hb⟩ | ⟨c, r₁, l₂, h₂, hlast, hA, -⟩
    · exact wp_pure.mpr (.inl ⟨rfl, hb⟩)
    · exact wp_pure.mpr (.inr ⟨c, r₁, l₂, h₂, hlast, hA, by rintro _ ⟨⟩⟩)
  · rcases hI with ⟨⟨⟩, -⟩ | ⟨c, r₁, l₂, h₂, hlast, hA, hr⟩
    obtain rfl := hr reason rfl
    refine (keeps_close loopFrame_after false).wp hA fun r l₃ h₃ hA' => ?_
    cases r with
    | error e => exact .inr ⟨c, _, l₂, h₂, hlast, hA', by rintro _ ⟨⟩⟩
    | ok _ =>
      rw [onOk_ok, onOk_ok]
      refine (keeps_onRun_tally loopFrame_after.run _).wp_bind hA' ?_ ?_
      · refine fun _ l₄ h₄ hA'' => wp_pure.mpr (.inr ⟨c, _, l₂, h₂, hlast, hA'', ?_⟩)
        rintro _ ⟨⟩
        rfl
      · refine fun e l₄ h₄ hA'' => .inr ⟨c, _, l₂, h₂, hlast, hA'', ?_⟩
        rintro _ ⟨⟩

end Turns

/-! ### Receiving and draining where messages are locked -/

section Locked

variable {B : Type} {R : Event sdk → B → B → Prop} {K : LoopState → B → Prop} {row : Row}

/-- A receive of locked messages arms nothing. -/
theorem keeps_receive_locked (hK : LoopFrame R K) (hmode : row.mode ≠ .receiveAndDelete)
    (hcall : ∀ receiver count wait reply l b b', R (.call (.receiveMessages receiver count wait) reply) b b' → K l b →
      K l b')
    (receiver : Handle) (count : ℕ) (wait : ℤ) : Keeps R K (receive row receiver count wait) := by
  refine keeps_bind (keeps_updateLoop hK fun _ => ⟨rfl, rfl, rfl, rfl⟩) fun _ => ?_
  refine keeps_bind (keeps_request (hcall receiver count wait)) fun batch => ?_
  refine keeps_bind (keeps_onRun fun loop => keeps_modify fun s b hI => (hK.run loop).info _ hI) fun _ => ?_
  refine keeps_bind keeps_get fun l => ?_
  refine keeps_bind (keeps_ite ?_ fun _ => keeps_pure) fun _ => keeps_pure
  rintro ⟨-, hdelete, -⟩
  exact absurd hdelete hmode

/-- A drain gives locked messages back. -/
theorem keeps_stopDrain_locked (hK : LoopFrame R K) (hmode : row.mode ≠ .receiveAndDelete)
    (hcall : ∀ receiver count wait reply l b b', R (.call (.receiveMessages receiver count wait) reply) b b' → K l b →
      K l b')
    (habandon : ∀ receiver message reply l b b', R (.call (.abandonMessage receiver message) reply) b b' → K l b →
      K l b')
    (receiver : Handle) (failing : Bool) : Keeps R K (stopDrain row receiver failing) := by
  have hq := quietKeeps_loop hK.run
  have hdrain : Keeps R K (drain row receiver) := by
    refine keeps_bind (keeps_when
      (keeps_bind (keeps_quietPerform hq rfl) fun _ => keeps_renewSessionIfNeeded hq receiver _)) fun _ => ?_
    refine keeps_bind (keeps_receive_locked hK hmode hcall receiver _ _) fun drained => ?_
    refine keeps_ite (fun _ => keeps_pure) fun _ => ?_
    refine keeps_ite (fun h => absurd h hmode) fun _ => ?_
    refine keeps_forM fun m _ => keeps_onRun fun loop => keeps_safeSettle (hK.run loop).toStillFrame (keeps_request ?_)
    exact fun reply s b b' => habandon receiver m reply ⟨s, loop⟩ b b'
  refine keeps_bind keeps_get fun l => keeps_when (keeps_tryCatch hdrain fun error => ?_)
  exact keeps_ite (fun _ => keeps_ite (fun _ => keeps_quietNote hq rfl) fun _ => keeps_throw)
    fun _ => keeps_quietNote hq rfl

end Locked


end ServiceBusExtractor
