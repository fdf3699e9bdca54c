import ServiceBusExtractor.OneRun
import ServiceBusExtractor.Script
import ServiceBusExtractor.Turns

/-!
# Failure verdicts

The policy `fail` and a full flatten registry end a run, but only once the batch
at hand is written and settled. Between the verdict and its exception the loop
may lose the batch, and goes on with the verdict still waiting.

## The model

* `isFailed`, `Overflowed` — the policy returned its verdict; the registry is full.
* `Undelivered` — a verdict waits to be raised.
* `RaisesFirst` — no turn goes on after an exception while a verdict waits.

## What is proved

* `wp_process_verdict` — a batch that ends well leaves no verdict waiting, whatever
  came before it;
* `verdict_ends_run` — where no turn goes on with a waiting verdict, neither the loop
  nor the run returns once one was given.
-/

namespace ServiceBusExtractor

open Interaction

/-- The policy judged the body failed. -/
def isFailed : Event sdk → Bool
  | .note (.unreadable _ .failed) => true
  | _ => false

/-- The registry met more paths than it may record. -/
def Overflowed (s : RunState) : Prop := (s.registry.map FlattenRegistry.overflowed).getD false = true

/-- A failure verdict waits to be raised. -/
def Undelivered (s : RunState) : Prop := s.unreadable.pending ≠ none ∨ Overflowed s

/-- Some body of the trace was judged failed. -/
def Failed (h : Trace sdk) : Prop := ∃ e ∈ h, isFailed e = true

instance (h : Trace sdk) : Decidable (Failed h) := inferInstanceAs (Decidable (∃ e ∈ h, isFailed e = true))

theorem not_failed_nil : ¬ Failed [] := by
  simp [Failed]

theorem failed_append {h es : Trace sdk} : Failed (h ++ es) ↔ Failed h ∨ Failed es := by
  simp [Failed, or_and_right, exists_or]

theorem failed_concat {h : Trace sdk} {e : Event sdk} (he : isFailed e = false) : Failed (h ++ [e]) ↔ Failed h := by
  rw [failed_append]
  simp [Failed, he]

theorem not_failed_of_quiet {e : Event sdk} (he : Quiet e) : isFailed e = false := by
  rcases e with ⟨c, r⟩ | n
  · rfl
  · cases n <;> first | rfl | exact absurd he Bool.false_ne_true

theorem not_failed_of_reopens {n : Note} (hn : n.reopens = true) : isFailed (.note n) = false := by
  cases n <;> first | rfl | exact absurd hn Bool.false_ne_true

/-! ### One batch -/

/-- A failed body is remembered until it is raised, and as an exception of the user's. -/
structure Remembered (s : RunState) (h : Trace sdk) : Prop where
  pending : Failed h → s.unreadable.pending ≠ none
  user : ∀ e, s.unreadable.pending = some e → e.isUser = true

/-- No verdict was given, and none waits. -/
structure NoVerdict (s : RunState) (h : Trace sdk) : Prop where
  unfailed : ¬ Failed h
  delivered : ¬ Undelivered s

namespace Remembered

variable {s : RunState} {h : Trace sdk}

theorem event (hI : Remembered s h) {e : Event sdk} (he : isFailed e = false) : Remembered s (h ++ [e]) :=
  ⟨fun hf => hI.pending ((failed_concat he).mp hf), hI.user⟩

theorem frame : Frame Recorded Remembered where
  stats _ _ hI := ⟨hI.pending, hI.user⟩
  info _ hI := ⟨hI.pending, hI.user⟩
  quiet := by
    rintro e s h _ he ⟨-, rfl⟩ hI
    exact hI.event (not_failed_of_quiet he)

/-- Nothing waits, so nothing was given. -/
theorem noVerdict (hI : Remembered s h) (hs : ¬ Undelivered s) : NoVerdict s h :=
  ⟨fun hf => hs (.inl (hI.pending hf)), hs⟩

end Remembered

theorem NoVerdict.remembered {s : RunState} {h : Trace sdk} (hI : NoVerdict s h) : Remembered s h := by
  have hnone : s.unreadable.pending = none := not_not.mp fun hp => hI.delivered (.inl hp)
  refine ⟨fun hf => absurd hf hI.unfailed, ?_⟩
  rw [hnone]
  rintro _ ⟨⟩

section Batch

variable {row : Row}

theorem keeps_callRemembered {c : Call} {α : Type} {result : Reply c → Except Exn α} :
    Keeps Recorded Remembered (Prog.request (S := sdk) c result) := by
  refine keeps_request ?_
  rintro r s h _ ⟨-, rfl⟩ hI
  exact hI.event rfl

theorem keeps_updateRemembered {change : UnreadableHandler → UnreadableHandler}
    (hchange : ∀ handler, (change handler).pending = handler.pending) :
    Keeps Recorded Remembered (updateUnreadable change) := by
  refine keeps_modify fun s h hI => ?_
  have hsame : (change s.unreadable).pending = s.unreadable.pending := hchange _
  refine ⟨fun hf => ?_, fun e he => hI.user e ?_⟩
  · show (change s.unreadable).pending ≠ none
    rw [hsame]
    exact hI.pending hf
  · rw [← hsame]
    exact he

theorem keeps_countRemembered (m : Message) (reason : UnreadableReason) {disposition : Disposition}
    (hd : disposition ≠ .failed) : Keeps Recorded Remembered (countUnreadable m reason disposition) := by
  refine keeps_bind (keeps_tally Remembered.frame.toStillFrame _) fun _ => keeps_note ?_
  rintro s h _ ⟨-, rfl⟩ hI
  refine hI.event ?_
  cases disposition <;> first | rfl | exact absurd rfl hd

theorem keeps_disposedRemembered (m : Message) (reason : UnreadableReason) {disposition : Disposition} (detail : String)
    (hd : disposition ≠ .failed) : Keeps Recorded Remembered (countDisposed m reason disposition detail) :=
  keeps_bind (keeps_countRemembered m reason hd) fun _ => keeps_warn Remembered.frame.toStillFrame _ _

/-- The policy `fail` remembers its verdict. -/
theorem keeps_failUnreadable (m : Message) (reason : UnreadableReason) :
    Keeps Recorded Remembered (failUnreadable m reason) := by
  intro s h hI
  rw [failUnreadable, wp_bind, countUnreadable, wp_bind, tally, wp_modify, onOk_ok, wp_note]
  rintro _ ⟨-, rfl⟩
  rw [onOk_ok, wp_bind, updateUnreadable, wp_modify, onOk_ok, wp_pure]
  refine ⟨fun _ => Option.some_ne_none _, ?_⟩
  rintro e he
  have hsome : s.unreadable.pending.getD (.user
      s!"{who m} has an unreadable body ({reason.value}) and the unreadable_body policy is 'fail'.") = e :=
    Option.some.inj he
  cases hp : s.unreadable.pending with
  | none =>
    rw [hp] at hsome
    rw [← hsome]
    rfl
  | some e' =>
    rw [hp] at hsome
    rw [← hsome]
    exact hI.user e' hp

theorem keeps_handleRemembered (receiver : Handle) (m : Message) (error : UnreadableError) (generation : ℕ) :
    Keeps Recorded Remembered (handleUnreadable row receiver m error generation) := by
  have hF := Remembered.frame.toStillFrame
  have hdispose : Keeps Recorded Remembered (disposeUnreadable row receiver m error) := by
    refine keeps_ite (fun _ => keeps_failUnreadable m error.reason) fun _ => ?_
    refine keeps_ite (fun _ => ?_) fun _ => keeps_ite (fun _ => ?_) fun _ => ?_
    · exact keeps_bind (keeps_disposedRemembered m error.reason _ (by decide)) fun _ => keeps_pure
    · refine keeps_bind (keeps_safeSettle hF keeps_callRemembered) fun _ => ?_
      exact keeps_bind (keeps_disposedRemembered m error.reason _ (by decide)) fun _ => keeps_pure
    · refine keeps_bind (keeps_when (keeps_warn hF _ _)) fun _ => ?_
      refine keeps_bind (keeps_updateRemembered fun _ => rfl) fun _ => ?_
      exact keeps_bind (keeps_disposedRemembered m error.reason _ (by decide)) fun _ => keeps_pure
  have hshould : Keeps Recorded Remembered (shouldRetry row m generation) := by
    refine keeps_bind keeps_get fun _ => ?_
    refine keeps_ite (fun _ => keeps_pure) fun _ => ?_
    refine keeps_ite (fun _ => keeps_pure) fun _ => ?_
    exact keeps_ite (fun _ => keeps_bind (keeps_warn hF _ _) fun _ => keeps_pure) fun _ => keeps_pure
  have hretry : Keeps Recorded Remembered (retryUnreadable row receiver m generation error.reason) := by
    refine keeps_bind (keeps_updateRemembered fun handler => ?_) fun _ => ?_
    · split
      · rfl
      · rfl
    refine keeps_bind (keeps_when (keeps_safeSettle hF keeps_callRemembered)) fun _ => ?_
    exact keeps_bind (keeps_countRemembered m error.reason (by decide)) fun _ => keeps_pure
  refine keeps_bind keeps_get fun s => ?_
  refine keeps_ite (fun _ => keeps_pure) fun _ => ?_
  exact keeps_ite (fun _ => keeps_bind hshould fun again => keeps_ite (fun _ => hretry) fun _ => hdispose)
    fun _ => hdispose

/-- What a batch raises at its end leaves no verdict waiting, and it raises exceptions of the user's only. -/
theorem wp_raiseAfterBatch_verdict {s : RunState} {h : Trace sdk} (hI : Remembered s h) :
    Wp Recorded raiseAfterBatch (Ends NoVerdict fun e _ _ => e.isUser = true) s h := by
  rw [raiseAfterBatch, raisePending, wp_bind, wp_bind, wp_get, onOk_ok, wp_bind, updateUnreadable, wp_modify, onOk_ok]
  cases hp : s.unreadable.pending with
  | some error => exact wp_throw.mpr (hI.user error hp)
  | none =>
    dsimp only
    rw [wp_pure, onOk_ok, wp_bind, wp_get, onOk_ok, wp_bind, wp_when]
    refine ⟨fun _ => wp_throw.mpr rfl, fun hover => ?_⟩
    rw [onOk_ok, checkAbortShare, wp_bind, wp_get, onOk_ok, wp_when]
    refine ⟨fun _ => wp_throw.mpr rfl, fun _ => ⟨fun hf => hI.pending hf hp, ?_⟩⟩
    rintro (hpending | hfull)
    · exact hpending rfl
    · exact hover hfull

/-- A batch that ends well leaves no verdict waiting; one that does not remembers its verdicts, or its
exception is the user's. -/
theorem wp_process_verdict (receiver : Handle) (messages : List Message) (generation : ℕ) {s : RunState} {h : Trace sdk}
    (hI : Remembered s h) : Wp Recorded (process row receiver messages generation)
      (Ends NoVerdict fun e s h => e.isUser = true ∨ Remembered s h) s h := by
  have hF := Remembered.frame.toStillFrame
  have herr : ∀ (e : Exn) s h, Remembered s h → e.isUser = true ∨ Remembered s h := fun _ _ _ hI => .inr hI
  have hmap : ∀ t draft m, Keeps Recorded Remembered (mapMessage row receiver t generation draft m) := by
    intro t draft m
    refine keeps_bind (keeps_tally hF _) fun _ => keeps_bind ?_ fun mapped => ?_
    · refine keeps_bind keeps_get fun s => ?_
      exact keeps_bind (keeps_modify fun _ _ hI => ⟨hI.pending, hI.user⟩) fun _ => keeps_ofExcept
    · cases mapped with
      | ok mapped => exact keeps_pure
      | error error =>
        refine keeps_bind (keeps_handleRemembered receiver m error generation) fun _ => ?_
        exact keeps_ite (fun _ => keeps_pure) fun _ => keeps_pure
  have hwrite : ∀ rows, Keeps Recorded Remembered (writeRows row rows) := by
    intro rows
    refine keeps_bind keeps_get fun _ => ?_
    refine keeps_bind (keeps_when keeps_throw) fun _ => ?_
    exact keeps_bind keeps_ofExcept fun _ => keeps_callRemembered
  have harm : Keeps Recorded Remembered armWriteAlways := by
    refine keeps_bind keeps_get fun s => keeps_ite (fun _ => keeps_pure) fun _ => ?_
    cases s.output.definition with
    | none => exact keeps_throw
    | some definition =>
      exact keeps_bind (keeps_modify fun _ _ hI => ⟨hI.pending, hI.user⟩) fun _ => keeps_callRemembered
  have hsettle : ∀ m bodyBytes, Keeps Recorded Remembered (settle row receiver m bodyBytes) := by
    refine keeps_settle hF (fun _ _ => keeps_callRemembered) ?_ ?_ receiver
    · intro _ receiver m
      refine keeps_bind keeps_get fun s => ?_
      refine keeps_bind (keeps_when (keeps_bind harm fun _ => keeps_modify fun _ _ hI => ⟨hI.pending, hI.user⟩))
        fun _ => ?_
      exact keeps_bind keeps_callRemembered fun _ => keeps_tally hF _
    · intro _ receiver m bodyBytes
      refine keeps_bind keeps_callRemembered fun _ => ?_
      exact keeps_bind (keeps_modify fun _ _ hI => ⟨hI.pending, hI.user⟩) fun _ => keeps_tally hF _
  have hclock : Keeps Recorded Remembered (utcNow : Run Time) := keeps_stillPerform hF.still fun _ => trivial
  rw [process]
  refine hclock.wp_bind hI (fun t s₁ h₁ hI₁ => ?_) fun e s₁ h₁ => herr e s₁ h₁
  refine (keeps_foldlM fun draft m _ => hmap t draft m).wp_bind hI₁ (fun draft s₂ h₂ hI₂ => ?_)
    fun e s₂ h₂ => herr e s₂ h₂
  have hwritten : Keeps Recorded Remembered
      (tally fun stats => { stats with written := stats.written + draft.rows.length }) :=
    keeps_modify fun _ _ hI => ⟨hI.pending, hI.user⟩
  refine (keeps_when (keeps_bind (hwrite _) fun _ => hwritten)).wp_bind hI₂ (fun _ s₃ h₃ hI₃ => ?_)
    fun e s₃ h₃ => herr e s₃ h₃
  refine (keeps_forM fun readable _ => hsettle readable.1 readable.2).wp_bind hI₃ (fun _ s₄ h₄ hI₄ => ?_)
    fun e s₄ h₄ => herr e s₄ h₄
  refine wp_bind.mpr ((wp_raiseAfterBatch_verdict hI₄).mono fun r s₅ h₅ h => ?_)
  cases r with
  | error e => exact .inl h
  | ok _ => exact wp_pure.mpr h

end Batch

/-! ### One turn -/

section Turn

variable {row : Row} {l l' : LoopState} {h es : Trace sdk}

/-- The warning of a stop drain that failed. -/
def drainFailedText (row : Row) (error : Exn) : String :=
  let consequence := if row.mode = .receiveAndDelete
    then "messages already in the local buffer were deleted on receive and may be lost"
    else "buffered messages stay locked until their lock expires, then redeliver"
  s!"The stop drain failed ({describe row error}); {consequence}."

/-- A stop drain failed and was logged. -/
def DrainFailed (row : Row) (h : Trace sdk) : Prop :=
  ∃ error, Event.note (S := sdk) (.warning (drainFailedText row error)) ∈ h

theorem DrainFailed.append (hd : DrainFailed row h) (es : Trace sdk) : DrainFailed row (h ++ es) := by
  obtain ⟨error, he⟩ := hd
  exact ⟨error, List.mem_append_left es he⟩

/-- A verdict waits in a turn only after an exception that the turn swallowed. -/
structure Deferring (row : Row) (l : LoopState) (h : Trace sdk) : Prop extends Remembered l.run h where
  swallowed : Undelivered l.run → DrainFailed row h

/-- What a step that raises leaves of it. -/
def Raising (e : Exn) (l : LoopState) (h : Trace sdk) : Prop := e.isUser = true ∨ Remembered l.run h

theorem Deferring.event (hI : Deferring row l h) {e : Event sdk} (he : isFailed e = false) :
    Deferring row l (h ++ [e]) :=
  ⟨hI.toRemembered.event he, fun hu => (hI.swallowed hu).append [e]⟩

theorem loopFrame_deferring : LoopFrame Recorded (Deferring row) where
  run loop := {
    stats := fun _ _ hI => ⟨⟨hI.pending, hI.user⟩, hI.swallowed⟩
    info := fun _ hI => ⟨⟨hI.pending, hI.user⟩, hI.swallowed⟩
    quiet := by
      rintro e s h _ he ⟨-, rfl⟩ hI
      exact hI.event (not_failed_of_quiet he) }
  connection _ _ hI := ⟨hI.toRemembered, hI.swallowed⟩

theorem loopFrame_noVerdict : LoopFrame Recorded fun l h => NoVerdict l.run h where
  run loop := {
    stats := fun _ _ hI => ⟨hI.unfailed, hI.delivered⟩
    info := fun _ hI => ⟨hI.unfailed, hI.delivered⟩
    quiet := by
      rintro e s h _ he ⟨-, rfl⟩ hI
      exact ⟨(failed_concat (not_failed_of_quiet he)).not.mpr hI.unfailed, hI.delivered⟩ }
  connection _ _ hI := hI

theorem loopFrame_raising (e : Exn) : LoopFrame Recorded (Raising e) where
  run loop := {
    stats := fun _ _ hI => hI.imp id fun hr => ⟨hr.pending, hr.user⟩
    guarded := fun _ hI => hI.imp id fun hr => ⟨hr.pending, hr.user⟩
    info := fun _ hI => hI.imp id fun hr => ⟨hr.pending, hr.user⟩
    quiet := by
      rintro e' s h _ he ⟨-, rfl⟩ hI
      exact hI.imp id fun hr => hr.event (not_failed_of_quiet he) }
  connection _ _ hI := hI

theorem reopenLoop_deferring : ReopenLoop Recorded (Deferring row) where
  toLoopFrame := loopFrame_deferring
  tracker _ hI := ⟨hI.toRemembered, hI.swallowed⟩
  reopen loop := {
    recycled := fun _ hI => ⟨⟨hI.pending, hI.user⟩, hI.swallowed⟩
    reopened := by
      rintro n s h _ hn ⟨-, rfl⟩ hI
      exact hI.event (not_failed_of_reopens hn) }

theorem reopenLoop_noVerdict : ReopenLoop Recorded fun l h => NoVerdict l.run h where
  toLoopFrame := loopFrame_noVerdict
  reopen loop := {
    recycled := fun _ hI => ⟨hI.unfailed, hI.delivered⟩
    reopened := by
      rintro n s h _ hn ⟨-, rfl⟩ hI
      exact ⟨(failed_concat (not_failed_of_reopens hn)).not.mpr hI.unfailed, hI.delivered⟩ }

theorem reopenLoop_raising (e : Exn) : ReopenLoop Recorded (Raising e) where
  toLoopFrame := loopFrame_raising e
  reopen loop := {
    recycled := fun _ hI => hI.imp id fun hr => ⟨hr.pending, hr.user⟩
    reopened := by
      rintro n s h _ hn ⟨-, rfl⟩ hI
      exact hI.imp id fun hr => hr.event (not_failed_of_reopens hn) }

theorem NoVerdict.deferring (hI : NoVerdict l.run h) : Deferring row l h :=
  ⟨hI.remembered, fun hu => absurd hu hI.delivered⟩

theorem keeps_receive_deferring (receiver : Handle) (count : ℕ) (wait : ℤ) :
    Keeps Recorded (Deferring row) (receive row receiver count wait) := by
  have harm : Keeps Recorded (Deferring row) (onRun armWriteAlways) := by
    refine keeps_onRun fun loop => keeps_bind keeps_get fun s => keeps_ite (fun _ => keeps_pure) fun _ => ?_
    cases s.output.definition with
    | none => exact keeps_throw
    | some definition =>
      refine keeps_bind (keeps_modify fun _ _ hI => ⟨⟨hI.pending, hI.user⟩, hI.swallowed⟩) fun _ => keeps_request ?_
      rintro r s h _ ⟨-, rfl⟩ hI
      exact hI.event rfl
  refine keeps_bind (keeps_updateLoop loopFrame_deferring fun _ => ⟨rfl, rfl, rfl, rfl⟩) fun _ => ?_
  refine keeps_bind (keeps_request ?_) fun batch => ?_
  · rintro r l h _ ⟨-, rfl⟩ hI
    exact hI.event rfl
  refine keeps_bind (keeps_onRun fun loop => keeps_modify fun _ _ hI => ?_) fun _ => ?_
  · exact ⟨⟨hI.pending, hI.user⟩, hI.swallowed⟩
  refine keeps_bind keeps_get fun l => ?_
  refine keeps_bind (keeps_when (keeps_bind harm fun _ => ?_)) fun _ => keeps_pure
  exact keeps_modify fun _ _ hI => ⟨⟨hI.pending, hI.user⟩, hI.swallowed⟩

theorem Deferring.raising (e : Exn) (hI : Deferring row l h) : Raising e l h := .inr hI.toRemembered

/-- A drain delivers what its batch was judged, or raises. -/
theorem upholds_drain_deferring (receiver : Handle) :
    Upholds Recorded (Deferring row) Raising (drain row receiver) := by
  have hF : LoopFrame Recorded (Deferring row) := loopFrame_deferring
  have hq := quietKeeps_loop hF.run
  have hkeeps : ∀ {α : Type}
      {p : Loop α}, Keeps Recorded (Deferring row) p → Upholds Recorded (Deferring row) Raising p :=
    fun hp => hp.upholds fun e _ _ hI => hI.raising e
  refine upholds_bind (hkeeps
    (keeps_when (keeps_bind (keeps_quietPerform hq rfl) fun _ => keeps_renewSessionIfNeeded hq receiver _))) fun _ => ?_
  refine upholds_bind (hkeeps (keeps_receive_deferring receiver _ _)) fun drained => ?_
  refine upholds_ite (fun _ => upholds_pure) fun _ => ?_
  refine upholds_ite (fun _ => ?_) fun _ => ?_
  · intro l h hI
    rw [wp_bind, wp_get, onOk_ok, wp_bind, onRun, wp_embed]
    refine (wp_process_verdict receiver drained _ hI.toRemembered).mono fun r s h' hend => ?_
    cases r with
    | error e => exact hend
    | ok _ => exact wp_pure.mpr (NoVerdict.deferring hend)
  · refine hkeeps (keeps_forM fun m _ => keeps_onRun fun loop => ?_)
    refine keeps_safeSettle (loopFrame_deferring.run loop).toStillFrame (keeps_request ?_)
    rintro r s h _ ⟨-, rfl⟩ hI
    exact hI.event rfl

/-- A stop drain that fails swallows what it was judged, and says so. -/
theorem upholds_stopDrain_deferring (receiver : Handle) :
    Upholds Recorded (Deferring row) Raising (stopDrain row receiver false) := by
  intro l h hI
  rw [stopDrain, wp_bind, wp_get, onOk_ok, wp_when]
  refine ⟨fun _ => wp_tryCatch.mpr ((upholds_drain_deferring receiver l h hI).mono fun r l₁ h₁ hend => ?_), fun _ => hI⟩
  cases r with
  | ok _ => exact hend
  | error e =>
    refine wp_ite.mpr ⟨fun huser => ?_, fun hnot => ?_⟩
    · exact wp_ite.mpr ⟨fun h => absurd h Bool.false_ne_true, fun _ => wp_throw.mpr (.inl huser)⟩
    · have hr : Remembered l₁.run h₁ := hend.resolve_left hnot
      rw [wp_note]
      rintro _ ⟨-, rfl⟩
      exact ⟨hr.event rfl, fun _ => ⟨e, List.mem_append_right h₁ (List.mem_singleton_self _)⟩⟩

/-- A batch of the loop leaves no verdict waiting, or raises. -/
theorem wp_processBatch_deferring (receiver : Handle) (batch : List Message) (hI : Deferring row l h) :
    Wp Recorded (processBatch row receiver batch) (Ends (Deferring row) Raising) l h := by
  have hprocess : Wp Recorded (process row receiver batch l.loop.tracker.generation) (fun r s h =>
      BatchEnds (fun _ l h => NoVerdict l.run h) Raising r ⟨s, l.loop⟩ h) l.run h := by
    refine (wp_process_verdict receiver batch _ hI.toRemembered).mono fun r s h' hend => ?_
    cases r with
    | error e => exact hend
    | ok _ => exact hend
  refine (wp_processBatch_of (fun _ => reopenLoop_noVerdict) reopenLoop_raising ?_ hprocess).mono fun r l' h' hend => ?_
  · exact fun e huser l' h' _ => Wp.of_exec fun _ _ _ _ _ _ => .inl huser
  · cases r with
    | error e => exact hend
    | ok _ =>
      obtain ⟨l₀, hno, rfl⟩ := hend
      exact NoVerdict.deferring hno

theorem turnSteps_deferring : TurnSteps Recorded row (Deferring row) Raising where
  toReopenLoop := reopenLoop_deferring
  raises e _ _ hI := hI.raising e
  stopDrain := upholds_stopDrain_deferring
  batch receiver l h hI _ := by
    refine (keeps_receive_deferring receiver _ _).wp hI fun r l' h' hI' => ?_
    cases r with
    | error e => exact hI'.raising e
    | ok batch =>
      refine ⟨fun _ => hI', fun _ => wp_processBatch_deferring receiver batch ?_⟩
      exact ⟨hI'.toRemembered, hI'.swallowed⟩

end Turn

/-! ### The loop -/

/-- No turn of the loop goes on after an exception while a verdict waits. -/
def RaisesFirst (row : Row) (s : RunState) (es : Trace sdk) : Prop :=
  ∀ c l h t r l', BetweenTurns row s c l h → Prog.Exec (consumeTurn row c) l t (.ok r) l' → h ++ t <+: es →
    Recovers row c l t l' ∨ DrainFailed row t → ¬ Undelivered l'.run

section Loop

variable {row : Row} {s : RunState} {c : Option Time} {l l' : LoopState} {h es : Trace sdk}

theorem RaisesFirst.initial {es' : Trace sdk} (hraises : RaisesFirst row s es') (hp : es <+: es') :
    RaisesFirst row s es :=
  fun c l h t r l' hb hturn hle => hraises c l h t r l' hb hturn (hle.trans hp)

/-- A recovery, or a warning. -/
def maySwallow : Event sdk → Bool
  | .note .recovery | .note (.warning _) => true
  | _ => false

/-- Without a recovery and a warning, no turn goes on after an exception. -/
theorem raisesFirst_of_calm (hsessions : row.sessions = false) (hcalm : ∀ e ∈ es, maySwallow e = false) :
    RaisesFirst row s es := by
  rintro c l h t r l' - - hp (hrecovers | ⟨error, hwarned⟩)
  · have hnote := hcalm _ (hp.subset (List.mem_append_right h (hrecovers.noted hsessions)))
    exact absurd hnote.symm Bool.false_ne_true
  · have hnote := hcalm _ (hp.subset (List.mem_append_right h hwarned))
    exact absurd hnote.symm Bool.false_ne_true

/-- Nothing waits before a turn, so nothing was judged in it that still waits after it. -/
theorem noVerdict_turn (hI : NoVerdict l.run h) {r : Option StopReason}
    (hturn : Prog.Exec (consumeTurn row c) l es (.ok r) l')
    (hraises : Recovers row c l es l' ∨ DrainFailed row es → ¬ Undelivered l'.run) : NoVerdict l'.run (h ++ es) := by
  have hstart : Deferring row l [] := NoVerdict.deferring ⟨not_failed_nil, hI.delivered⟩
  have hstep : ∀ {r t l₁}, Prog.Exec (step row c) l t r l₁ → Ends (Deferring row) Raising r l₁ t := fun hstep => by
    simpa using wp_logged.mp (upholds_step turnSteps_deferring c l [] hstart) _ _ _ hstep fun _ _ => trivial
  have hjoin : NoVerdict l'.run es → NoVerdict l'.run (h ++ es) := fun hno =>
    ⟨fun hf => (failed_append.mp hf).elim hI.unfailed hno.unfailed, hno.delivered⟩
  refine hjoin ?_
  rcases exec_consumeTurn hturn with ⟨hran, -⟩ | ⟨hrec, -⟩ | ⟨_, _, _, _, _, ⟨⟩, _⟩
  · have hend := hstep hran
    exact hend.noVerdict fun hu => hraises (.inr (hend.swallowed hu)) hu
  · obtain ⟨e, es₁, es₂, l₁, rfl, hran, huser, hafter⟩ := id hrec
    have hkept : Raising e l₁ es₁ := hstep hran
    have hend : Raising e l' (es₁ ++ es₂) :=
      wp_logged.mp (keeps_afterFailure (reopenLoop_raising e) row e l₁ es₁ hkept) es₂ _ l' hafter fun _ _ => trivial
    have hremembered : Remembered l'.run (es₁ ++ es₂) := hend.resolve_left (by rw [huser]; exact Bool.false_ne_true)
    exact hremembered.noVerdict (hraises (.inl hrec))

/-- Between the turns no verdict was given that still waits. -/
theorem noVerdict_betweenTurns (hs : ¬ Undelivered s) (hb : BetweenTurns row s c l h) (hraises : RaisesFirst row s h) :
    NoVerdict l.run h := by
  induction hb with
  | start now => exact ⟨by simp [Failed, isFailed], hs⟩
  | @turn c l l' h es hb hturn ih =>
    have hI := ih (hraises.initial (List.prefix_append h es))
    exact noVerdict_turn hI hturn (hraises c l h es _ l' hb hturn (List.prefix_refl _))
  | @catchUp l l' h es reason now hb hturn hdue ih =>
    have hI := ih (hraises.initial (by simp))
    have hI' := noVerdict_turn hI hturn (hraises none l h es _ l' hb hturn (List.prefix_append _ _))
    exact ⟨(failed_concat rfl).not.mpr hI'.unfailed, hI'.delivered⟩

/-- A loop that returned gave no verdict. -/
theorem noVerdict_of_returned (hs : ¬ Undelivered s) {turns : ℕ} {reason : StopReason}
    (hrun : Prog.Exec (ReceiveLoop.run row turns) ⟨s, .start row⟩ es (.ok (some reason)) l')
    (hraises : RaisesFirst row s es) : NoVerdict l'.run es := by
  rcases exec_receiveLoop hrun with ⟨⟨⟩, -⟩ | ⟨c, r₁, l₁, h₁, ⟨l, h, t, hb, hturn, -, rfl⟩, hafter, hsame⟩
  obtain rfl := hsame reason rfl
  refine hafter _ loopFrame_noVerdict ?_
  have hgrown := hraises.initial hafter.grows
  have hI := noVerdict_betweenTurns hs hb (hgrown.initial (List.prefix_append h t))
  exact noVerdict_turn hI hturn (hgrown c l h t _ l₁ hb hturn (List.prefix_refl _))

end Loop

/-! ### The run around the loop -/

/-- Everything a destructive run does before its loop; the texts are those of its two warnings. -/
def beforeLoop (row : Row) (atMostOnce prefetch : String) : Run Unit := do
  startRun row
  openOutput row
  commitPending row
  reconcileDeferrals row
  Prog.when (row.mode = .receiveAndDelete) (warn .atMostOnce atMostOnce)
  Prog.when (row.config.advanced.prefetchCount > 1) (warn .prefetch prefetch)

/-- A run reaches its loop in state `s`, after the trace `h`. -/
def ReachesLoop (row : Row) (input : ExtractorState) (h : Trace sdk) (s : RunState) : Prop :=
  ∃ atMostOnce prefetch, Prog.Exec (beforeLoop row atMostOnce prefetch) (.start input) h (.ok ()) s

section Around

variable {row : Row} {input : ExtractorState} {s : RunState} {h es : Trace sdk}

theorem frame_noVerdict : Frame Recorded NoVerdict where
  stats _ _ hI := ⟨hI.unfailed, hI.delivered⟩
  info _ hI := ⟨hI.unfailed, hI.delivered⟩
  quiet := by
    rintro e s h _ he ⟨-, rfl⟩ hI
    exact ⟨(failed_concat (not_failed_of_quiet he)).not.mpr hI.unfailed, hI.delivered⟩

theorem keeps_callNoVerdict {W : Type} {c : Call} {α : Type} {result : Reply c → Except Exn α} {of : W → RunState} :
    Keeps Recorded (fun w h => NoVerdict (of w) h) (Prog.request (S := sdk) c result) := by
  refine keeps_request ?_
  rintro r w h _ ⟨-, rfl⟩ hI
  exact ⟨(failed_concat (by rfl)).not.mpr hI.unfailed, hI.delivered⟩

/-- A new registry has room, and the table waits for no verdict. -/
theorem tableFrame_noVerdict : TableFrame Recorded row NoVerdict where
  toFrame := frame_noVerdict
  seed _ s h hI := by
    refine ⟨hI.unfailed, ?_⟩
    rintro (hpending | hfull)
    · exact hI.delivered (.inl hpending)
    · exact absurd hfull Bool.false_ne_true
  start _ _ hI := ⟨hI.unfailed, hI.delivered⟩
  output _ _ _ hI := ⟨hI.unfailed, hI.delivered⟩
  file := by
    rintro e s h _ he ⟨-, rfl⟩ hI
    refine ⟨(failed_concat ?_).not.mpr hI.unfailed, hI.delivered⟩
    rcases e with ⟨c, r⟩ | n
    · rfl
    · exact he.elim
  header := by
    rintro columns a s h _ - ⟨-, rfl⟩ hI
    exact ⟨(failed_concat rfl).not.mpr hI.unfailed, hI.delivered⟩

theorem keeps_commitPending_noVerdict : Keeps Recorded NoVerdict (commitPending row) := by
  refine keeps_bind keeps_get fun s => ?_
  refine keeps_bind (keeps_runCommit frame_noVerdict ?_ _) fun carried => keeps_modify
    fun _ _ hI => ⟨hI.unfailed, hI.delivered⟩
  rintro receiver seqs timeout a s h _ ⟨-, rfl⟩ hI
  exact ⟨(failed_concat rfl).not.mpr hI.unfailed, hI.delivered⟩

/-- The recovery of orphans returns only with nothing waiting. -/
theorem yields_runScan : Yields Recorded NoVerdict (runScan row) := by
  have hF := frame_noVerdict
  have hq := quietKeeps_inScan hF
  have hretries : ∀ enabled, Keeps Recorded (InScan NoVerdict)
      (onScanRun (updateUnreadable fun handler => { handler with retriesEnabled := enabled })) :=
    fun enabled => keeps_onScanRun (keeps_modify fun _ _ hI => ⟨hI.unfailed, hI.delivered⟩)
  have hprocess : ∀ receiver messages, Yields Recorded (InScan NoVerdict)
      (onScanRun (process row receiver messages 0)) := by
    refine fun receiver messages s h hI => wp_embed.mpr ?_
    refine (wp_process_verdict receiver messages 0 hI.remembered).mono fun r s' h' hend => ?_
    cases r with
    | ok _ => exact hend
    | error e => exact trivial
  have hchunk : ∀ receiver seqs, Yields Recorded (InScan NoVerdict) (recoverChunk row receiver seqs) := by
    intro receiver seqs
    refine upholds_bind (keeps_bisect hq.still (fun _ _ => keeps_callNoVerdict) _ _ (.refl _)).yields fun result => ?_
    refine upholds_when ?_
    exact upholds_bind (hprocess receiver _) fun _ => (keeps_onScanRun (keeps_tally hF.toStillFrame _)).yields
  have hwithReceiver : ∀ {α : Type} {receiver : Handle} {p : Scan α}, Yields Recorded (InScan NoVerdict) p →
      Yields Recorded (InScan NoVerdict) (withReceiver receiver p) := fun hp =>
    upholds_bind (keeps_quietCall hq rfl).yields fun _ => yields_ensuring hp (keeps_quietCall hq rfl).yields
  have hrecover : ∀ orphans, Yields Recorded (InScan NoVerdict) (recoverOrphans row orphans) := by
    refine fun orphans => upholds_when ?_
    refine upholds_bind (keeps_scanCommitClient (quietKeeps_inScan hF) fun _ h => h).yields fun client => ?_
    refine upholds_bind upholds_get fun s => ?_
    refine upholds_bind (hretries _).yields fun _ => ?_
    refine yields_ensuring (upholds_bind (keeps_openReceiver hq).yields fun receiver => ?_) (hretries _).yields
    exact hwithReceiver (upholds_forM fun seqs _ => hchunk receiver seqs)
  have hpage : ∀ peeker, Yields Recorded (InScan NoVerdict) (scanPage row peeker) := by
    intro peeker
    refine upholds_bind upholds_get fun s => ?_
    refine upholds_bind (keeps_onScanRun (keeps_bestEffort hF)).yields fun _ => ?_
    refine upholds_bind (keeps_quietCall hq rfl).yields fun page => ?_
    refine upholds_ite (fun _ => upholds_pure) fun _ => ?_
    refine upholds_bind (keeps_quietPerform hq rfl).yields fun now => ?_
    refine upholds_bind (keeps_scanMessages hF now [] page).yields fun found => ?_
    refine upholds_bind (hrecover found.1) fun _ => ?_
    refine upholds_ite (fun _ => upholds_pure) fun _ => ?_
    refine upholds_bind (Keeps.yields (keeps_modify ?_)) fun _ => upholds_pure
    exact fun _ _ hI => hI
  have hpages : Yields Recorded (InScan NoVerdict) (mapServiceBusError row (withPeeker row fun peeker =>
      Prog.iterate (scanPage row peeker) orphanPageCap)) := by
    refine yields_tryCatch (upholds_bind (keeps_quietCall hq rfl).yields fun client => yields_ensuring
      (upholds_bind (keeps_openReceiver hq).yields fun peeker => hwithReceiver (upholds_iterate (hpage peeker) _))
        (keeps_quietCall hq rfl).yields) fun error => ?_
    cases error.serviceBus? with
    | none => exact returns_throw
    | some sdkError => exact returns_throw
  have hclose : Keeps Recorded (InScan NoVerdict) closeScanClient := by
    refine keeps_bind keeps_get fun _ => keeps_whenOpen fun _ => ?_
    exact keeps_bind (keeps_quietCall hq rfl) fun _ => keeps_modify fun _ _ hI => hI
  have hscan : Yields Recorded (InScan NoVerdict) (scan row) := by
    refine upholds_ite (fun _ => (keeps_onScanRun (keeps_warn hF.toStillFrame _ _)).yields) fun _ => ?_
    refine upholds_bind (yields_ensuring hpages hclose.yields) fun finished => ?_
    refine upholds_bind (keeps_onScanRun
      (keeps_bind keeps_get fun _ => keeps_when (keeps_warn hF.toStillFrame _ _))).yields fun _ => ?_
    exact upholds_when (keeps_onScanRun (keeps_warn hF.toStillFrame _ _)).yields
  exact yields_embed hscan (fun _ _ hI => hI) fun _ _ _ hI => hI

/-- A run reaches its loop with nothing judged failed, and nothing waiting. -/
theorem ReachesLoop.noVerdict (hreaches : ReachesLoop row input h s) : NoVerdict s h := by
  obtain ⟨atMostOnce, prefetch, hbefore⟩ := hreaches
  have hwarn : ∀ key text, Yields Recorded NoVerdict (warn key text) := fun key text =>
    (keeps_warn frame_noVerdict.toStillFrame key text).yields
  have hyields : Yields Recorded NoVerdict (beforeLoop row atMostOnce prefetch) := by
    refine upholds_bind (keeps_startRun tableFrame_noVerdict).yields fun _ => ?_
    refine upholds_bind (keeps_openOutput tableFrame_noVerdict).yields fun _ => ?_
    refine upholds_bind keeps_commitPending_noVerdict.yields fun _ => ?_
    refine upholds_bind ?_ fun _ => upholds_bind (upholds_when (hwarn _ _)) fun _ => upholds_when (hwarn _ _)
    exact upholds_ite (fun _ => yields_runScan) fun _ => (keeps_probe frame_noVerdict).yields
  have hstart : NoVerdict (RunState.start input) [] :=
    ⟨not_failed_nil, by simp [Undelivered, Overflowed, RunState.start]⟩
  exact wp_logged.mp (hyields _ _ hstart) h _ s hbefore fun _ _ => trivial

/-- The part of a run inside its table that ended well. -/
theorem exec_returnedExtract {p : Run (Option Unit)} {opened : Option Unit} {s' : RunState}
    (hwith : Prog.Exec (withOutput row p) s es (.ok opened) s') (hopened : opened ≠ none) :
    ∃ es₁ s₁ es₂ s₂ es₃, es = es₁ ++ (es₂ ++ es₃) ∧ Prog.Exec (openOutput row) s es₁ (.ok ()) s₁ ∧
      Prog.Exec p s₁ es₂ (.ok (some ())) s₂ ∧ Prog.Exec closeOutput s₂ es₃ (.ok ()) s' := by
  obtain ⟨es₁, _, _, s₁, rfl, hopen, hwith⟩ := Prog.exec_bind_ok.mp hwith
  obtain ⟨es₂, es₃, result, s₂, rfl, hattempt, hclose⟩ := Prog.exec_bind_ok.mp hwith
  obtain ⟨result', hp, hsame⟩ := Prog.exec_attempt.mp hattempt
  cases hsame
  rcases result with e | _ | _
  · obtain ⟨_, _, _, _, rfl, -, hthrow⟩ := Prog.exec_bind_ok.mp hclose
    obtain ⟨-, ⟨⟩, -⟩ := Prog.exec_throw.mp hthrow
  · obtain ⟨-, hnone, -⟩ := Prog.exec_pure.mp hclose
    exact absurd (Except.ok.inj hnone) hopened
  · obtain ⟨es₄, es₅, _, s₃, rfl, hclosed, hpure⟩ := Prog.exec_bind_ok.mp hclose
    obtain ⟨rfl, -, rfl⟩ := Prog.exec_pure.mp hpure
    exact ⟨es₁, s₁, es₂, s₂, es₄, by simp, hopen, hp, hclosed⟩

/-- A destructive run that ended well reached its loop, and the loop returned. -/
theorem exec_returnedRun (hmode : row.mode.isDestructive = true) {turns : ℕ} {s' : RunState}
    (hrun : Prog.Exec (Component.run row turns) (.start input) es (.ok (some ())) s') :
    ∃ es₀ s₀ es₁ reason l' es₂, es = es₀ ++ (es₁ ++ es₂) ∧ ReachesLoop row input es₀ s₀ ∧
      Prog.Exec (ReceiveLoop.run row turns) ⟨s₀, .start row⟩ es₁ (.ok (some reason)) l' ∧
      Prog.Exec (do closeOutput; finish row) l'.run es₂ (.ok ()) s' := by
  obtain ⟨es₁, _, _, s₁, rfl, hstart, hrun⟩ := Prog.exec_bind_ok.mp hrun
  obtain ⟨_, es₂, opened, s₂, rfl, hwith, hfinish⟩ := Prog.exec_bind_ok.mp hrun
  cases opened with
  | none =>
    obtain ⟨-, ⟨⟩, -⟩ := Prog.exec_pure.mp hfinish
  | some _ =>
    obtain ⟨es₃, _, _, s₃, rfl, hfinish, hpure⟩ := Prog.exec_bind_ok.mp hfinish
    obtain ⟨rfl, -, rfl⟩ := Prog.exec_pure.mp hpure
    obtain ⟨es₄, s₄, _, s₅, es₅, rfl, hopen, hextract, hclose⟩ := exec_returnedExtract hwith (Option.some_ne_none _)
    rw [extract, if_pos hmode] at hextract
    obtain ⟨es₆, _, _, s₆, rfl, hcommit, hextract⟩ := Prog.exec_bind_ok.mp hextract
    obtain ⟨es₇, _, _, s₇, rfl, hreconcile, hextract⟩ := Prog.exec_bind_ok.mp hextract
    obtain ⟨_, _, reason, s₈, rfl, hconsume, hpure⟩ := Prog.exec_bind_ok.mp hextract
    obtain ⟨rfl, hreason, rfl⟩ := Prog.exec_pure.mp hpure
    obtain ⟨es₈, _, _, s₉, rfl, hfirst, hconsume⟩ := Prog.exec_bind_ok.mp hconsume
    obtain ⟨es₉, es₁₀, _, s₁₀, rfl, hsecond, hreceive⟩ := Prog.exec_bind_ok.mp hconsume
    obtain ⟨l', hloop, rfl⟩ := Prog.exec_embed.mp hreceive
    cases reason with
    | none => cases hreason
    | some reason =>
      have hbefore : ∀ {atMostOnce prefetch : String},
          Prog.Exec (Prog.when (row.mode = .receiveAndDelete) (warn .atMostOnce atMostOnce)) s₇ es₈ (.ok ()) s₉ →
          Prog.Exec (Prog.when (row.config.advanced.prefetchCount > 1) (warn .prefetch prefetch)) s₉ es₉ (.ok ()) s₁₀ →
          Prog.Exec (beforeLoop row atMostOnce prefetch) (.start input)
            (es₁ ++ (es₄ ++ (es₆ ++ (es₇ ++ (es₈ ++ es₉))))) (.ok ()) s₁₀ := fun hfirst hsecond =>
        Prog.exec_bind_ok.mpr ⟨_, _, _, _, rfl, hstart, Prog.exec_bind_ok.mpr ⟨_, _, _, _, rfl, hopen,
          Prog.exec_bind_ok.mpr ⟨_, _, _, _, rfl, hcommit, Prog.exec_bind_ok.mpr ⟨_, _, _, _, rfl, hreconcile,
            Prog.exec_bind_ok.mpr ⟨_, _, _, _, rfl, hfirst, hsecond⟩⟩⟩⟩⟩
      exact ⟨es₁ ++ (es₄ ++ (es₆ ++ (es₇ ++ (es₈ ++ es₉)))), s₁₀, es₁₀, reason, l', es₅ ++ es₃, by simp,
        ⟨_, _, hbefore hfirst hsecond⟩, hloop, Prog.exec_bind_ok.mpr ⟨es₅, es₃, (), _, rfl, hclose, hfinish⟩⟩

/-- Closing the table and saving the state give no verdict. -/
theorem keeps_finishing_noVerdict : Keeps Recorded NoVerdict (do closeOutput; finish row : Run Unit) := by
  have hF : TableFrame Recorded row NoVerdict := tableFrame_noVerdict
  refine keeps_bind (keeps_closeOutput hF) fun _ => ?_
  refine keeps_bind (keeps_projectedState hF.toStillFrame row) fun _ => ?_
  refine keeps_bind keeps_callNoVerdict fun _ => ?_
  refine keeps_bind (keeps_quietPerform hF.quiet rfl) fun _ => keeps_noteThrottled hF.toFrame _

end Around

/-- A failure verdict ends the run: where no turn goes on after an exception while a verdict waits, neither the loop
nor the run returns once the policy judged a body failed or the registry overflowed, and no state is saved. -/
theorem verdict_ends_run (row : Row) (hmode : row.mode.isDestructive = true) (input : ExtractorState) (turns : ℕ)
    (es : Trace sdk) (r : Except Exn (Option Unit)) (s' : RunState)
    (hrun : Prog.Exec (Component.run row turns) (.start input) es r s')
    (hraises : ∀ es₀ s₀ rest, ReachesLoop row input es₀ s₀ → es = es₀ ++ rest → RaisesFirst row s₀ rest) :
    (∀ es₀ s₀ es₁ r₁ l', ReachesLoop row input es₀ s₀ → es₀ ++ es₁ <+: es →
      Prog.Exec (ReceiveLoop.run row turns) ⟨s₀, .start row⟩ es₁ r₁ l' → Failed es₁ ∨ Overflowed l'.run →
      ∀ reason, r₁ ≠ .ok (some reason)) ∧
    (Failed es ∨ Overflowed s' → r ≠ .ok (some ()) ∧ stateWrites es = []) := by
  constructor
  · rintro es₀ s₀ es₁ _ l' hreaches ⟨rest, rfl⟩ hloop hverdict reason rfl
    have hfirst := (hraises es₀ s₀ (es₁ ++ rest) hreaches (by simp)).initial (List.prefix_append es₁ rest)
    have hno := noVerdict_of_returned hreaches.noVerdict.delivered hloop hfirst
    exact hverdict.elim hno.unfailed fun hfull => hno.delivered (.inr hfull)
  · intro hverdict
    have hended : r ≠ .ok (some ()) := by
      rintro rfl
      obtain ⟨es₀, s₀, es₁, reason, l', es₂, rfl, hreaches, hloop, hclosed⟩ := exec_returnedRun hmode hrun
      have hno₀ := hreaches.noVerdict
      have hfirst := (hraises es₀ s₀ (es₁ ++ es₂) hreaches rfl).initial (List.prefix_append es₁ es₂)
      have hno := noVerdict_of_returned hno₀.delivered hloop hfirst
      have hjoined : NoVerdict l'.run (es₀ ++ es₁) :=
        ⟨fun hf => (failed_append.mp hf).elim hno₀.unfailed hno.unfailed, hno.delivered⟩
      have hend : NoVerdict s' (es₀ ++ es₁ ++ es₂) :=
        wp_logged.mp (keeps_finishing_noVerdict l'.run (es₀ ++ es₁) hjoined) es₂ _ s' hclosed fun _ _ => trivial
      rw [List.append_assoc] at hend
      exact hverdict.elim hend.unfailed fun hfull => hend.delivered (.inr hfull)
    refine ⟨hended, ?_⟩
    obtain ⟨-, ⟨hok, -⟩ | ⟨-, hnone⟩⟩ := run_leaves hrun
    · exact absurd hok hended
    · exact hnone

/-- A message whose body cannot be read. -/
def garbled : Message where
  sequenceNumber := 1
  body := { sections := .error "bad section" }

/-- The message is unreadable on two connections. -/
def judgedBatch : Script where
  receives := [.ok [garbled], .ok [garbled]]

/-- The second verdict ends the run. -/
theorem verdict_ends_run_judged :
    scriptedResult (Component.run failingRow 8) (.start {}) judgedBatch ≠ .ok (some ()) ∧
    stateWrites (scripted (Component.run failingRow 8) (.start {}) judgedBatch) = [] := by
  have hcalm : ∀ e ∈ scripted (Component.run failingRow 8) (.start {}) judgedBatch, maySwallow e = false := by
    decide +kernel
  refine (verdict_ends_run failingRow rfl {} 8 _ _ _ (exec_scripted _ _ judgedBatch) fun es₀ s₀ rest _ hes => ?_).2
    (.inl (by decide +kernel))
  exact raisesFirst_of_calm rfl fun e he => hcalm e (by rw [hes]; exact List.mem_append_right es₀ he)

/-- The batch with the second failure loses the connection while it settles, and nothing is received after it. -/
def droppedVerdict : Script where
  receives := [.ok [garbled, { sequenceNumber := 2 }], .ok [garbled, { sequenceNumber := 2 }]]
  settles := [.ok (), .error (.serviceBus { kind := .messageLockLost, text := "lock lost" }),
    .error (.serviceBus { kind := .connection, text := "link detached" })]

/-- A run that gives a verdict, ends well and saves its state. -/
theorem verdict_dropped : ∃ es s', Prog.Exec (Component.run failingRow 12) (.start {}) es (.ok (some ())) s' ∧
    Failed es ∧ (stateWrites es).length = 1 :=
  ⟨_, _, exec_of_scriptedResult droppedVerdict (by decide +kernel), by decide +kernel, by decide +kernel⟩

end ServiceBusExtractor
