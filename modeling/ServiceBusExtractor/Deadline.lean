import ServiceBusExtractor.Script
import ServiceBusExtractor.Watch

/-!
# The deadline of a receive loop

A turn of the loop reads the clock before it receives. Past the deadline it stops,
and then it may still drain what its receiver buffered, and count what is left.

## The model

* `Kept` — between two turns: nothing was late, and the clock was read in each of them.
* `Overdue` — the loop stops, and may have received or peeked late.

## What is proved

* `wp_consumeTurnWatched`: a turn that goes on read the clock before the deadline, and
  was on time;
* `duration_kept`: a receive loop receives nothing late but by the one stop drain and
  peeks nothing late but for the one last count.
-/

namespace ServiceBusExtractor

open Interaction

/-! ### What leaves the watch alone -/

section Loop

variable {deadline : Time} {A : Watch → Prop} {row : Row} {n : ℕ}

/-- The loop keeps its deadline. -/
def Bound (deadline : Time) (l : LoopState) : Prop := l.loop.deadline = deadline

theorem idles_onRun {α : Type} {p : Run α} (hp : ∀ c : Prop, Idles deadline A (fun _ => c) p) :
    Idles deadline A (Bound deadline) (onRun p) :=
  fun w₀ hA => keeps_onRun fun loop => hp (loop.deadline = deadline) w₀ hA

theorem idles_updateLoop {change : ReceiveLoop → ReceiveLoop} (h : ∀ loop, (change loop).deadline = loop.deadline) :
    Idles deadline A (Bound deadline) (updateLoop change) := idles_modify fun l hl => (h l.loop).trans hl

theorem idles_finishSession : Idles deadline A (Bound deadline) finishSession := by
  refine idles_bind idles_get fun _ => ?_
  exact idles_bind (idles_updateLoop fun _ => rfl) fun _ => idles_whenOpen idles_closeReceiverQuietly

theorem idles_close (interrupted : Bool) : Idles deadline A (Bound deadline) (close interrupted) := by
  refine idles_bind idles_get fun _ => ?_
  refine idles_bind (idles_updateLoop fun _ => rfl) fun _ => ?_
  exact idles_bind (idles_whenOpen idles_closeReceiverQuietly) fun _ => idles_whenOpen idles_closeClientQuietly

theorem idles_ensureClient : Idles deadline A (Bound deadline) (ensureClient row) := by
  refine idles_bind idles_get fun l => ?_
  cases l.loop.client with
  | some client => exact idles_pure
  | none => exact idles_bind (idles_request rfl) fun _ => idles_bind (idles_updateLoop fun _ => rfl) fun _ => idles_pure

theorem idles_renewBeforeReceive (receiver : Handle) : Idles deadline A (Bound deadline)
    (Prog.when (row.sessions = true) (do
      let now ← utcNow
      renewSessionIfNeeded receiver now) : Loop Unit) :=
  idles_when (idles_bind (idles_perform rfl) fun _ => idles_renewSessionIfNeeded receiver _)

theorem idles_receivableMessages (hA : ∀ w, A w → w.Fresh deadline) :
    Idles deadline A (Bound deadline) (receivableMessages row) := by
  refine idles_bind idles_ensureClient fun _ => ?_
  refine idles_bind (idles_perform rfl) fun _ => ?_
  refine idles_bind idles_get fun _ => ?_
  refine idles_bind (idles_request rfl) fun peeker => ?_
  refine idles_bind (idles_enterReceiver peeker) fun _ => ?_
  exact idles_bind (idles_ensuring (idles_peekMessages hA) (idles_closeReceiverQuietly peeker)) fun _ => idles_pure

/-- What follows the receive itself. -/
theorem idles_afterReceive (batch : List Message) : Idles deadline A (Bound deadline) (do
    onRun (modify fun s => { s with
      info := batch.foldl (fun info message => info.noteSequenceNumber message.sequenceNumber) s.info })
    let l ← get
    Prog.when (batch ≠ [] ∧ row.mode = .receiveAndDelete ∧ l.loop.armed = false) do
      onRun armWriteAlways
      updateLoop fun loop => { loop with armed := true }
    pure batch : Loop (List Message)) := by
  refine idles_bind (idles_onRun fun _ => idles_modify fun _ h => h) fun _ => ?_
  refine idles_bind idles_get fun _ => ?_
  exact idles_bind (idles_when
    (idles_bind (idles_onRun fun _ => idles_armWriteAlways) fun _ => idles_updateLoop fun _ => rfl)) fun _ => idles_pure

theorem idles_receive (hA : ∀ w, A w → w.Fresh deadline) (receiver : Handle) (count : ℕ) (wait : ℤ) :
    Idles deadline A (Bound deadline) (receive row receiver count wait) := by
  refine idles_bind (idles_updateLoop fun _ => rfl) fun _ => ?_
  exact idles_bind (idles_receiveMessages hA) fun batch => idles_afterReceive batch

/-- What a drain does with what it received. -/
theorem idles_drained (receiver : Handle) (drained : List Message) : Idles deadline A (Bound deadline)
    (if drained = [] then pure ()
      else if row.mode = .receiveAndDelete then do
        let l ← get
        let _ ← onRun (process row receiver drained l.loop.tracker.generation)
        pure ()
      else drained.forM fun message => onRun (safeSettle (abandonMessage receiver message))) :=
  idles_ite idles_pure (idles_ite
    (idles_bind idles_get fun _ =>
      idles_bind (idles_onRun fun _ => idles_process receiver drained _) fun _ => idles_pure)
    (idles_forM fun _ => idles_onRun fun _ => idles_safeSettle (idles_request rfl)))

/-- How a drain that failed is answered. -/
theorem idles_drainFailure (failing : Bool) (error : Exn) : Idles deadline A (Bound deadline)
    (if error.isUser then
      if failing then Prog.note (S := sdk) (.warning
        ("The messages drained before the run fails raised a further error (their readable rows were written): " ++
          s!"{row.redact error.text}"))
      else throw error
    else
      let consequence := if row.mode = .receiveAndDelete
        then "messages already in the local buffer were deleted on receive and may be lost"
        else "buffered messages stay locked until their lock expires, then redeliver"
      Prog.note (S := sdk) (.warning s!"The stop drain failed ({describe row error}); {consequence}.") : Loop Unit) :=
  idles_ite (idles_ite idles_note idles_throw) idles_note

theorem idles_stopDrain (hA : ∀ w, A w → w.Fresh deadline) (receiver : Handle) (failing : Bool) :
    Idles deadline A (Bound deadline) (stopDrain row receiver failing) := by
  have hdrain : Idles deadline A (Bound deadline) (drain row receiver) := by
    refine idles_bind (idles_renewBeforeReceive receiver) fun _ => ?_
    exact idles_bind (idles_receive hA receiver _ _) fun drained => idles_drained receiver drained
  refine idles_bind idles_get fun _ => ?_
  exact idles_when (idles_tryCatch hdrain fun error => idles_drainFailure failing error)

theorem idles_processBatch (hA : ∀ w, A w → w.Fresh deadline) (receiver : Handle) (batch : List Message) :
    Idles deadline A (Bound deadline) (processBatch row receiver batch) := by
  have hprocess : ∀ generation, Idles deadline A (Bound deadline) (processOrDrain row receiver batch generation) :=
    fun generation => idles_tryCatch (idles_onRun fun _ => idles_process receiver batch generation) fun _ =>
      idles_bind (idles_when (idles_stopDrain hA receiver true)) fun _ => idles_throw
  have hnote : ∀ written, Idles deadline A (Bound deadline) (noteProgress written) :=
    fun _ => idles_bind idles_get fun _ => idles_when (idles_updateLoop fun _ => rfl)
  refine idles_bind idles_get fun _ => ?_
  refine idles_bind (idles_ensuring (hprocess _) (hnote _)) fun _ => ?_
  refine idles_bind (idles_when (idles_updateLoop fun _ => rfl)) fun _ => ?_
  exact idles_bind (idles_updateLoop fun _ => rfl) fun _ => idles_pure

theorem idles_onWatermark (hA : ∀ w, A w → w.Fresh deadline) (receiver : Handle) :
    Idles deadline A (Bound deadline) (onWatermark row receiver) := by
  refine idles_bind idles_get fun _ => ?_
  refine idles_bind (idles_when (idles_onRun fun _ => idles_warn _ _)) fun _ => ?_
  refine idles_bind (idles_stopDrain hA receiver false) fun _ => ?_
  exact idles_ite (idles_bind idles_finishSession fun _ => idles_pure) idles_pure

theorem idles_openLoopReceiver (client : Handle) (session : SessionRequest) :
    Idles deadline A (Bound deadline) (openLoopReceiver row client session) := by
  refine idles_bind (idles_request rfl) fun receiver => ?_
  refine idles_bind (idles_enterReceiver receiver) fun _ => ?_
  exact idles_bind (idles_updateLoop fun _ => rfl) fun _ => idles_pure

theorem idles_openNext (hA : ∀ w, A w → w.Fresh deadline) (catchUpUntil : Option Time) :
    Idles deadline A (Bound deadline) (openNext row catchUpUntil) := by
  have hopen : ∀ client, Idles deadline A (Bound deadline) (openSession row client) := fun client =>
    idles_bind idles_get fun _ => idles_tryCatch (idles_bind (idles_openLoopReceiver client _) fun _ => idles_pure)
      fun _ => idles_ite idles_pure idles_throw
  refine idles_bind idles_ensureClient fun client => ?_
  refine idles_ite (idles_bind (hopen client) fun opened => ?_) ?_
  · cases opened with
    | none => exact idles_ite idles_pure (idles_bind idles_poll fun _ => idles_pure)
    | some receiver =>
      refine idles_bind (idles_updateLoop fun _ => rfl) fun _ => ?_
      refine idles_bind (idles_perform rfl) fun _ => ?_
      refine idles_bind idles_get fun _ => ?_
      refine idles_bind idles_note fun _ => ?_
      exact idles_ite (idles_bind (idles_stopDrain hA receiver false) fun _ => idles_pure)
        (idles_bind (idles_updateLoop fun _ => rfl) fun _ => idles_pure)
  · refine idles_bind (idles_openLoopReceiver client _) fun _ => ?_
    exact idles_bind (idles_updateLoop fun _ => rfl) fun _ => idles_pure

theorem idles_recycle : Idles deadline A (Bound deadline) recycle := by
  refine idles_bind (idles_close true) fun _ => ?_
  refine idles_bind (idles_updateLoop fun _ => rfl) fun _ => ?_
  exact idles_bind (idles_onRun fun _ => idles_tally _) fun _ => idles_note

theorem idles_afterFailure (error : Exn) : Idles deadline A (Bound deadline) (afterFailure row error) := by
  refine idles_ite idles_finishSession ?_
  refine idles_bind (idles_close true) fun _ => ?_
  refine idles_bind idles_get fun _ => ?_
  refine idles_bind idles_ofExcept fun _ => ?_
  refine idles_bind (idles_updateLoop fun _ => rfl) fun _ => ?_
  exact idles_bind (idles_onRun fun _ => idles_tally _) fun _ => idles_logRecovery error _

/-! #### Turns -/

/-- The loop has had `n` turns, each of them begun before the deadline, and nothing was late. -/
def Kept (deadline : Time) (n : ℕ) (l : LoopState) (w : Watch) : Prop := Bound deadline l ∧ w.OnTime ∧ n ≤ w.timely

/-- At most so many receives and peeks were late. -/
def Overdue (deadline : Time) (receives peeks : ℕ) (l : LoopState) (w : Watch) : Prop :=
  Bound deadline l ∧ w.AtMost receives peeks

/-- What the turns of one phase of the loop leave: all was on time, but for the drain of a stop. -/
def Turned (deadline : Time) (catchUpUntil : Option Time) (n : ℕ) :
    Except Exn (Option StopReason) → LoopState → Watch → Prop
  | .ok none, l, w => Kept deadline n l w
  | .ok (some reason), l, w =>
    Overdue deadline 1 0 l w ∧ (catchUpUntil = none → MayCatchUp reason → Kept deadline 0 l w)
  | .error _, l, w => Overdue deadline 1 0 l w

variable {c : Option Time} {l : LoopState} {w : Watch}

theorem Kept.overdue (h : Kept deadline n l w) (receives peeks : ℕ) : Overdue deadline receives peeks l w :=
  ⟨h.1, h.2.1.atMost receives peeks⟩

theorem Kept.turned (h : Kept deadline n l w) (r : Except Exn (Option StopReason)) : Turned deadline c n r l w := by
  rcases r with e | _ | reason
  · exact h.overdue 1 0
  · exact h
  · exact ⟨h.overdue 1 0, fun _ _ => ⟨h.1, h.2.1, Nat.zero_le _⟩⟩

/-- An idle step of a turn. -/
theorem Idles.kept {α : Type} {p : Loop α} (hp : Idles deadline (Watch.Fresh deadline) (Bound deadline) p)
    (hI : Kept deadline n l w) (hfresh : w.Fresh deadline) : Wp (Watches deadline) p (fun _ => Kept deadline n) l w :=
  hp.wp hfresh hI.1 fun _ _ hl => ⟨hl, hI.2⟩

theorem Idles.kept_bind {α β : Type} {p : Loop α} {f : α → Loop β}
    (hp : Idles deadline (Watch.Fresh deadline) (Bound deadline) p) (hI : Kept deadline n l w)
    (hfresh : w.Fresh deadline)
    (hf : ∀ a l', Kept deadline n l' w → Wp (Watches deadline) (f a) (fun _ => Kept deadline n) l' w) :
    Wp (Watches deadline) (p >>= f) (fun _ => Kept deadline n) l w :=
  hp.wp_bind hfresh hI.1 (fun a l' hl => hf a l' ⟨hl, hI.2⟩) fun _ _ hl => ⟨hl, hI.2⟩

/-- A reading of the clock changes nothing but the last reading and the count of the timely ones. -/
theorem Kept.read (hI : Kept deadline n l w) (now : Time) :
    Kept deadline n l (w.step deadline (.call .monotonic now)) :=
  ⟨hI.1, hI.2.1, hI.2.2.trans (timely_le_read now)⟩

theorem Kept.read_timely (hI : Kept deadline n l w) {now : Time} (hnow : now < deadline) :
    Kept deadline (n + 1) l (w.step deadline (.call .monotonic now)) :=
  ⟨hI.1, hI.2.1, Nat.lt_of_le_of_lt hI.2.2 (timely_lt_read hnow)⟩

/-- The retry of an empty receive waits no longer than what is left. -/
theorem wp_retryEmptyReceiveKept (hI : Kept deadline n l w) :
    Wp (Watches deadline) retryEmptyReceive (fun _ => Kept deadline n) l w := by
  rw [retryEmptyReceive, wp_bind, updateLoop, wp_modify, onOk_ok, wp_bind, wp_get, onOk_ok, wp_ite]
  refine ⟨fun _ => wp_pure.mpr hI, fun _ => ?_⟩
  refine Idles.always_bind (J := Bound deadline) (idles_onRun fun _ => idles_tally _) ?_ (fun _ l₁ hl₁ => ?_)
    fun _ _ hl => ⟨hl, hI.2⟩
  · exact hI.1
  refine (idles_close false).always_bind hl₁ (fun _ l₂ hl₂ => ?_) fun _ _ hl => ⟨hl, hI.2⟩
  rw [wp_bind, monotonic, wp_perform]
  rintro now _ rfl
  rw [onOk_ok, wp_bind, sleep, wp_perform]
  rintro _ _ rfl
  rw [onOk_ok, wp_pure]
  have hread : Kept deadline n l₂ (w.step deadline (.call .monotonic now)) := Kept.read ⟨hl₂, hI.2⟩ now
  rw [step_sleep]
  · exact hread
  · have hl : l.loop.deadline = deadline := hI.1
    have hpoll : (0 : Time) ≤ seconds catchUpPollSeconds := by decide
    show _ ≤ max (deadline - now) (seconds catchUpPollSeconds)
    dsimp only
    rw [hl]
    exact (min_le_right _ _).trans (max_le (hpoll.trans (le_max_right _ _)) (le_max_left _ _))

theorem wp_onEmptyKept (hI : Kept deadline n l w) (hfresh : w.Fresh deadline) :
    Wp (Watches deadline) (onEmpty row c) (fun _ => Kept deadline n) l w := by
  refine wp_ite.mpr ⟨fun _ => ?_, fun _ => wp_ite.mpr ⟨fun _ => ?_, fun _ => ?_⟩⟩
  · exact (idles_bind idles_finishSession fun _ => idles_pure).kept hI hfresh
  · exact (idles_bind idles_poll fun _ => idles_pure).kept hI hfresh
  · refine (idles_receivableMessages fun _ h => h).kept_bind hI hfresh fun remaining l' hI' => ?_
    exact wp_ite.mpr ⟨fun _ => wp_pure.mpr hI', fun _ => wp_retryEmptyReceiveKept hI'⟩

theorem wp_receiveTurnKept (receiver : Handle) (hI : Kept deadline n l w) (hfresh : w.Fresh deadline) :
    Wp (Watches deadline) (receiveTurn row receiver c) (fun _ => Kept deadline n) l w := by
  refine (idles_renewBeforeReceive receiver).kept_bind hI hfresh fun _ l₁ hI₁ => ?_
  rw [wp_bind, wp_get, onOk_ok]
  refine (idles_receive (fun _ h => h) receiver _ _).kept_bind hI₁ hfresh fun batch l₂ hI₂ => ?_
  refine wp_ite.mpr ⟨fun _ => wp_onEmptyKept hI₂ hfresh, fun _ => ?_⟩
  rw [wp_bind, updateLoop, wp_modify, onOk_ok]
  refine (idles_processBatch (fun _ h => h) receiver batch).kept_bind ?_ hfresh fun result l₃ hI₃ => ?_
  · exact hI₂
  · exact wp_ite.mpr ⟨fun _ => (idles_onWatermark (fun _ h => h) receiver).kept hI₃ hfresh, fun _ =>
      (idles_bind (idles_when idles_recycle) fun _ => idles_pure).kept hI₃ hfresh⟩

/-- What the stop check says of a turn. -/
def StopChecked (deadline : Time) (c : Option Time) (n : ℕ) :
    Except Exn (Option StopReason) → LoopState → Watch → Prop
  | .ok none, l, w => Kept deadline (n + 1) l w ∧ w.Fresh deadline
  | .ok (some reason), l, w => Kept deadline n l w ∧ (c = none → ¬ MayCatchUp reason)
  | .error _, l, w => Kept deadline (n + 1) l w

/-- A turn goes on only from a reading before the deadline. -/
theorem wp_stopCheckWatched (hI : Kept deadline n l w) :
    Wp (Watches deadline) (stopCheck row c) (StopChecked deadline c n) l w := by
  rw [stopCheck, wp_bind, wp_get, onOk_ok, wp_ite]
  refine ⟨fun _ => wp_pure.mpr ⟨hI, fun _ => by simp [MayCatchUp]⟩, fun _ => ?_⟩
  rw [wp_bind, monotonic, wp_perform]
  rintro now _ rfl
  rw [onOk_ok, wp_ite]
  refine ⟨fun _ => wp_pure.mpr ⟨hI.read now, fun _ => by simp [MayCatchUp]⟩, fun hearly => ?_⟩
  have hl : l.loop.deadline = deadline := hI.1
  have hnow : now < deadline := by
    rw [hl] at hearly
    exact not_le.mp hearly
  have hread : Kept deadline (n + 1) l (w.step deadline (.call .monotonic now)) := hI.read_timely hnow
  have hfresh : (w.step deadline (.call .monotonic now)).Fresh deadline := hnow
  have hbudget : Idles deadline (Watch.Fresh deadline) (Bound deadline) (overBudget row) :=
    idles_ite (idles_bind (idles_onRun fun _ => idles_projectedState) fun _ => idles_pure) idles_pure
  refine hbudget.wp_bind hfresh hread.1 (fun exceeded l₁ hl₁ => ?_) fun _ _ hl => ⟨hl, hread.2⟩
  have hread₁ : Kept deadline (n + 1) l₁ (w.step deadline (.call .monotonic now)) := ⟨hl₁, hread.2⟩
  refine wp_ite.mpr ⟨fun _ => ?_, fun _ => ?_⟩
  · refine (idles_onRun fun _ => idles_warn _ _).always_bind hl₁ (fun _ l₂ hl₂ => wp_pure.mpr ?_)
      fun _ _ hl => ⟨hl, hread.2⟩
    exact ⟨⟨hl₂, hread.2.1, (Nat.le_succ n).trans hread.2.2⟩, fun _ => by simp [MayCatchUp]⟩
  · cases c with
    | none => exact wp_pure.mpr ⟨hread₁, hfresh⟩
    | some limit =>
      refine wp_ite.mpr ⟨fun _ => wp_pure.mpr ⟨?_, ?_⟩, fun _ => wp_pure.mpr ⟨hread₁, hfresh⟩⟩
      · exact ⟨hl₁, hread.2.1, (Nat.le_succ n).trans hread.2.2⟩
      · rintro ⟨⟩

/-- A receive after the deadline is the first one. -/
theorem step_receive_late {receiver : Handle} {count : ℕ} {wait : ℤ} {r : Except Fault (List Message)} (hw : w.OnTime) :
    (w.step deadline (.call (.receiveMessages receiver count wait) r)).AtMost 1 0 := by
  show Watch.AtMost (if w.last < deadline then w else { w with lateReceives := w.lateReceives + 1 }) 1 0
  split
  · exact hw.atMost 1 0
  · exact ⟨by rw [hw.1], hw.2.1.le, hw.2.2⟩

/-- A stop drain takes from the service once, and raises only what is the user's to fix. -/
theorem wp_stopDrainLate (receiver : Handle) (hl : Bound deadline l) (hw : w.OnTime) :
    Wp (Watches deadline) (stopDrain row receiver false)
      (fun r l w => Overdue deadline 1 0 l w ∧ ∀ e, r = .error e → e.isUser = true) l w := by
  have hreceive : ∀ {count wait l}, Bound deadline l →
      Wp (Watches deadline) (receive row receiver count wait) (fun _ => Overdue deadline 1 0) l w := by
    intro count wait l hl
    rw [receive, wp_bind, updateLoop, wp_modify, onOk_ok, wp_bind, receiveMessages, wp_request]
    rintro reply _ rfl
    have hlate : (w.step deadline (.call (.receiveMessages receiver count wait) reply)).AtMost 1 0 :=
      step_receive_late hw
    cases sdkResult reply with
    | error e => exact ⟨hl, hlate⟩
    | ok batch =>
      refine Idles.always (J := Bound deadline) (idles_afterReceive batch) ?_ fun _ _ hl' => ⟨hl', hlate⟩
      exact hl
  have hdrain : Wp (Watches deadline) (drain row receiver) (fun _ => Overdue deadline 1 0) l w := by
    refine (idles_renewBeforeReceive receiver).always_bind hl (fun _ l₁ hl₁ => ?_)
      fun _ _ hl' => ⟨hl', hw.atMost 1 0⟩
    refine Interaction.wp_bind.mpr ((hreceive hl₁).mono fun r l₂ w₂ h => ?_)
    cases r with
    | error e => exact h
    | ok drained =>
      exact (idles_drained receiver drained).always h.1 fun _ _ hl' => ⟨hl', h.2⟩
  have hraises : Raises (Watches deadline) (fun e => e.isUser = true) (stopDrain row receiver false) := by
    refine raises_bind raises_get fun _ => ?_
    refine raises_when fun _ => ?_
    refine raises_tryCatch fun error => ?_
    refine raises_ite (fun huser => ?_) fun _ => raises_note
    exact raises_ite (fun h => absurd h Bool.false_ne_true) fun _ => raises_throw huser
  refine Wp.and ?_ (hraises l w)
  rw [stopDrain, wp_bind, wp_get, onOk_ok, wp_when]
  refine ⟨fun _ => wp_tryCatch.mpr (hdrain.mono fun r l' w' h => ?_), fun _ => ⟨hl, hw.atMost 1 0⟩⟩
  cases r with
  | ok _ => exact h
  | error e => exact (idles_drainFailure false e).always h.1 fun _ _ hl' => ⟨hl', h.2⟩

/-- A step: what it takes from the service it takes before the deadline, but for the drain of a stop. -/
theorem wp_stepWatched (hI : Kept deadline n l w) : Wp (Watches deadline) (step row c)
    (fun r l w => Turned deadline c (n + 1) r l w ∧
      ∀ e, r = .error e → e.isUser = false → Kept deadline (n + 1) l w)
    l w := by
  rw [step, wp_bind, wp_get, onOk_ok, wp_bind]
  refine (wp_stopCheckWatched hI).mono fun r l₁ w₁ h => ?_
  rcases r with e | _ | stop
  · exact ⟨Kept.turned h _, fun _ _ _ => h⟩
  · obtain ⟨hkept, hfresh⟩ := h
    rw [onOk_ok]
    dsimp only
    cases l.loop.receiver with
    | none =>
      exact ((idles_openNext (fun _ h => h) c).kept hkept hfresh).mono fun _ _ _ h => ⟨h.turned _, fun _ _ _ => h⟩
    | some receiver =>
      exact (wp_receiveTurnKept receiver hkept hfresh).mono fun _ _ _ h => ⟨h.turned _, fun _ _ _ => h⟩
  · obtain ⟨hkept, hmay⟩ := h
    rw [onOk_ok]
    dsimp only
    have hstop : ∀ {l w}, Overdue deadline 1 0 l w → Turned deadline c (n + 1) (.ok (some stop)) l w :=
      fun h => ⟨h, fun hc hm => absurd hm (hmay hc)⟩
    cases l.loop.receiver with
    | none =>
      rw [wp_bind, whenOpen, wp_pure, onOk_ok, wp_pure]
      exact ⟨hstop (hkept.overdue 1 0), by rintro _ ⟨⟩⟩
    | some receiver =>
      refine Interaction.wp_bind.mpr ((wp_stopDrainLate receiver hkept.1 hkept.2.1).mono fun r l₂ w₂ h => ?_)
      cases r with
      | error e =>
        refine ⟨h.1, fun e' he' huser => ?_⟩
        obtain rfl := Except.error.inj he'
        rw [h.2 e rfl] at huser
        exact absurd huser.symm Bool.false_ne_true
      | ok _ =>
        rw [onOk_ok, wp_pure]
        exact ⟨hstop h.1, by rintro _ ⟨⟩⟩

/-- A turn, with what it does to go on after an exception. -/
theorem wp_consumeTurnWatched (hI : Kept deadline n l w) :
    Wp (Watches deadline) (consumeTurn row c) (Turned deadline c (n + 1)) l w := by
  refine wp_tryCatch.mpr ((wp_stepWatched hI).mono fun r l₁ w₁ h => ?_)
  cases r with
  | ok _ => exact h.1
  | error e =>
    refine wp_ite.mpr ⟨fun _ => wp_throw.mpr h.1, fun huser => ?_⟩
    have hkept : Kept deadline (n + 1) l₁ w₁ := h.2 e rfl (Bool.eq_false_iff.mpr huser)
    exact (idles_afterFailure e).always_bind hkept.1 (fun _ _ hl => wp_pure.mpr ⟨hl, hkept.2⟩)
      fun _ _ hl => ⟨hl, hkept.2.1.atMost 1 0⟩

/-- The turns of a phase. -/
theorem wp_consumeWatched (turns : ℕ) (hI : Kept deadline 0 l w) :
    Wp (Watches deadline) (consume row c turns) (Turned deadline c turns) l w := by
  refine Wp.iterate_counted (Kept deadline) (fun k l w hk => ?_) (fun l w hk => ?_) hI
  · refine (wp_consumeTurnWatched hk).mono fun r l' w' h => ?_
    rcases r with e | _ | reason
    · exact h
    · exact h
    · exact h
  · rw [Nat.zero_add] at hk
    exact hk

/-- What the loop leaves: all on time where it is still going, else one late drain and so many late peeks. -/
def Spent {α : Type} (deadline : Time) (turns peeks : ℕ) : Except Exn (Option α) → LoopState → Watch → Prop
  | .ok none, l, w => Kept deadline turns l w
  | _, l, w => Overdue deadline 1 peeks l w

theorem Overdue.more {receives peeks : ℕ} (h : Overdue deadline receives peeks l w) {l' : LoopState}
    (hl : Bound deadline l') :
    Overdue deadline receives (peeks + 1) l' w := ⟨hl, h.2.1, h.2.2.1.trans (Nat.le_succ peeks), h.2.2.2⟩

theorem Spent.bound {α : Type} {turns peeks : ℕ} {r : Except Exn (Option α)} (h : Spent deadline turns peeks r l w) :
    Bound deadline l := by
  rcases r with e | _ | a
  · exact h.1
  · exact h.1
  · exact h.1

theorem Spent.closed {α : Type} {turns peeks : ℕ} {r : Except Exn (Option α)} (h : Spent deadline turns peeks r l w)
    {l' : LoopState} (hl : Bound deadline l') :
    Spent deadline turns peeks r l' w ∧ ∀ e, Spent (α := α) deadline turns peeks (.error e) l' w := by
  rcases r with e | _ | a
  · exact ⟨⟨hl, h.2⟩, fun _ => ⟨hl, h.2⟩⟩
  · exact ⟨⟨hl, h.2⟩, fun _ => ⟨hl, h.2.1.atMost 1 peeks⟩⟩
  · exact ⟨⟨hl, h.2⟩, fun _ => ⟨hl, h.2⟩⟩

theorem wp_consumeAllWatched (turns : ℕ) (hI : Kept deadline 0 l w) :
    Wp (Watches deadline) (consumeAll row turns) (Spent deadline turns 0) l w := by
  rw [consumeAll, wp_bind]
  refine (wp_consumeWatched turns hI).mono fun r l₁ w₁ h => ?_
  rcases r with e | _ | reason
  · exact h
  · exact wp_pure.mpr h
  · rw [onOk_ok]
    dsimp only
    rw [wp_bind, wp_get, onOk_ok, wp_ite]
    refine ⟨fun hdue => ?_, fun _ => wp_pure.mpr h.1⟩
    have hmay : MayCatchUp reason := by
      simp only [catchUpDue, Bool.and_eq_true, Bool.or_eq_true, beq_iff_eq] at hdue
      exact hdue.2
    rw [catchUp, wp_bind, monotonic, wp_perform]
    rintro now _ rfl
    rw [onOk_ok, wp_bind, wp_get, onOk_ok, wp_bind, updateLoop, wp_modify, onOk_ok]
    have hread : Kept deadline 0 l₁ (w₁.step deadline (.call .monotonic now)) := (h.2 rfl hmay).read now
    refine (wp_consumeWatched turns ?_).mono fun r l₂ w₂ h₂ => ?_
    · exact hread
    · rcases r with e | _ | reason
      · exact h₂
      · exact h₂
      · exact h₂.1

/-- A peek after the deadline. -/
theorem step_peek_late {receiver : Handle} {count receives peeks : ℕ} {start : ℤ} {r : Except Fault (List Message)}
    (hw : w.AtMost receives peeks) :
    (w.step deadline (.call (.peekMessages receiver count start) r)).AtMost receives (peeks + 1) := by
  show Watch.AtMost (if w.last < deadline then w else { w with latePeeks := w.latePeeks + 1 }) receives (peeks + 1)
  split
  · exact ⟨hw.1, hw.2.1.trans (Nat.le_succ peeks), hw.2.2⟩
  · exact ⟨hw.1, Nat.succ_le_succ hw.2.1, hw.2.2⟩

theorem wp_receivableMessagesLate {receives peeks : ℕ} (h : Overdue deadline receives peeks l w) :
    Wp (Watches deadline) (receivableMessages row) (fun _ => Overdue deadline receives (peeks + 1)) l w := by
  have hnow : Idles deadline (fun _ => True) (Bound deadline) (utcNow : Loop Time) := idles_perform rfl
  have hopen : ∀ client profile, Idles deadline (fun _ => True) (Bound deadline)
      (openReceiver row row.entity client profile : Loop Handle) := fun _ _ => idles_request rfl
  refine idles_ensureClient.always_bind h.1 (fun client l₁ hl₁ => ?_) fun _ _ hl => h.more hl
  refine hnow.always_bind hl₁ (fun now l₂ hl₂ => ?_) fun _ _ hl => h.more hl
  rw [wp_bind, wp_get, onOk_ok]
  refine (hopen client _).always_bind hl₂ (fun peeker l₃ hl₃ => ?_) fun _ _ hl => h.more hl
  refine (idles_enterReceiver peeker).always_bind hl₃ (fun _ l₄ hl₄ => ?_) fun _ _ hl => h.more hl
  rw [wp_bind, wp_ensuring, peekMessages, wp_request]
  rintro reply _ rfl
  have hpeek : (w.step deadline (.call (.peekMessages peeker drainCheckPeekCount (drainCheckStart l₂)) reply)).AtMost
      receives (peeks + 1) := step_peek_late h.2
  refine (idles_closeReceiverQuietly peeker).always hl₄ fun r l₅ hl₅ => ?_
  cases r with
  | error e => exact ⟨hl₅, hpeek⟩
  | ok _ =>
    dsimp only
    cases sdkResult reply with
    | error e => exact ⟨hl₅, hpeek⟩
    | ok page => exact wp_pure.mpr ⟨hl₅, hpeek⟩

/-- What is left is counted once. -/
theorem wp_warnIfMessagesRemainLate {receives peeks : ℕ} (reason : StopReason)
    (h : Overdue deadline receives peeks l w) :
    Wp (Watches deadline) (warnIfMessagesRemain row reason) (fun _ => Overdue deadline receives (peeks + 1)) l w := by
  have hcount : Idles deadline (fun _ => True) (Bound deadline) (remainingByCount row reason) := by
    refine idles_ite idles_pure (idles_ite idles_pure (idles_ite idles_pure
      (idles_bind (idles_request rfl) fun info => ?_)))
    cases info.counts with
    | none => exact idles_pure
    | some counts => exact idles_ite idles_pure idles_pure
  have htext : Wp (Watches deadline) (remainingText row reason)
      (fun _ => Overdue deadline receives (peeks + 1)) l w := by
    refine wp_ite.mpr ⟨fun _ => hcount.always h.1 fun _ _ hl => h.more hl, fun _ =>
      wp_ite.mpr ⟨fun _ => ?_, fun _ => wp_pure.mpr (h.more h.1)⟩⟩
    refine wp_bind.mpr ((wp_receivableMessagesLate h).mono fun r l' w' h' => ?_)
    cases r with
    | error e => exact h'
    | ok remaining => exact wp_ite.mpr ⟨fun _ => wp_pure.mpr h', fun _ => wp_pure.mpr h'⟩
  rw [warnIfMessagesRemain, wp_bind, wp_tryCatch]
  refine htext.mono fun r l' w' h' => ?_
  rcases r with e | _ | text
  · exact wp_pure.mpr (wp_pure.mpr h')
  · exact wp_pure.mpr h'
  · exact (idles_onRun fun _ => idles_warn _ _).always h'.1 fun _ _ hl => ⟨hl, h'.2⟩

theorem wp_runUntilStopWatched (turns : ℕ) (hI : Kept deadline 0 l w) :
    Wp (Watches deadline) (runUntilStop row turns) (Spent deadline turns 1) l w := by
  rw [runUntilStop, wp_bind]
  refine (wp_consumeAllWatched turns hI).mono fun r l₁ w₁ h => ?_
  rcases r with e | _ | reason
  · exact Overdue.more h h.1
  · exact wp_pure.mpr h
  · rw [onOk_ok]
    dsimp only
    rw [wp_bind]
    refine (wp_warnIfMessagesRemainLate reason h).mono fun r l₂ w₂ h₂ => ?_
    cases r with
    | error e => exact h₂
    | ok _ => exact wp_pure.mpr h₂

/-- The loop from the reading that sets its deadline. -/
theorem exec_receiveLoopWatched {turns : ℕ} {r : Except Exn (Option StopReason)} {es : Trace sdk} {l' : LoopState}
    (hrun : Prog.Exec (ReceiveLoop.run row turns) l es r l') :
    ∃ t0 rest, es = .call .monotonic t0 :: rest ∧
      Spent (t0 + seconds row.config.advanced.maxDurationSeconds) turns 1 r l'
        (watch (t0 + seconds row.config.advanced.maxDurationSeconds) { last := t0 } rest) := by
  rcases Prog.exec_bind.mp hrun with ⟨e, hread, rfl⟩ | ⟨es₁, rest, t0, l₁, rfl, hread, hrest⟩
  · obtain ⟨_, -, hr, -⟩ := Prog.exec_perform.mp hread
    cases hr
  · obtain ⟨now, rfl, hr, rfl⟩ := Prog.exec_perform.mp hread
    obtain rfl := Except.ok.inj hr
    refine ⟨t0, rest, rfl,
      Wp.watched (Q := Spent (t0 + seconds row.config.advanced.maxDurationSeconds) turns 1) ?_ hrest⟩
    rw [wp_bind, updateLoop, wp_modify, onOk_ok, wp_bind]
    refine Wp.mono (Idles.finishing (idles_close false)
      (wp_runUntilStopWatched turns ⟨rfl, ⟨rfl, rfl, rfl⟩, le_rfl⟩) (fun _ _ _ h => h.bound)
      fun _ _ _ _ h hl => h.closed hl) fun r l₂ w₂ h => ?_
    rcases r with e | _ | reason
    · exact h
    · exact wp_pure.mpr h
    · rw [onOk_ok]
      exact (idles_onRun fun _ => idles_tally _).always_bind h.1 (fun _ _ hl => wp_pure.mpr ⟨hl, h.2⟩)
        fun _ _ hl => ⟨hl, h.2⟩

end Loop

/-- A receive loop keeps to `max_duration`: after a reading at or past the deadline it receives once more at most, to
drain its buffer, and peeks once more at most, to say what is left; it never sleeps for longer than what is left, or
than one poll; and where it is still going, each of its turns began with a reading before the deadline. -/
theorem duration_kept {row : Row} {turns : ℕ} {s s' : RunState} {es : Trace sdk} {r : Except Exn (Option StopReason)}
    (hrun : Prog.Exec (runReceiveLoop row turns) s es r s') :
    ∃ t0 rest, es = .call .monotonic t0 :: rest ∧
      let w := watch (t0 + seconds row.config.advanced.maxDurationSeconds) { last := t0 } rest
      w.lateReceives ≤ 1 ∧ w.latePeeks ≤ 1 ∧ w.oversleeps = 0 ∧ (r = .ok none → turns ≤ w.timely) := by
  obtain ⟨l', hloop, -⟩ := Prog.exec_embed.mp hrun
  obtain ⟨t0, rest, rfl, h⟩ := exec_receiveLoopWatched hloop
  refine ⟨t0, rest, rfl, ?_⟩
  rcases r with e | _ | reason
  · exact ⟨h.2.1, h.2.2.1, h.2.2.2, by rintro ⟨⟩⟩
  · exact ⟨(h.overdue 1 1).2.1, (h.overdue 1 1).2.2.1, h.2.1.2.2, fun _ => h.2.2⟩
  · exact ⟨h.2.1, h.2.2.1, h.2.2.2, by rintro ⟨⟩⟩

/-- A loop that met its deadline: one receive was late, to drain what was buffered. -/
theorem duration_kept_drained :
    let es := scripted (runReceiveLoop completeRow 8) (openedState completeRow 0)
      { ticks := [0, 5, 10, seconds 3000], receives := [.ok [{ sequenceNumber := 1 }], .ok [{ sequenceNumber := 2 }]] }
    ∃ t0 rest, es = .call .monotonic t0 :: rest ∧
      (watch (t0 + seconds 3000) { last := t0 } rest).lateReceives ≤ 1 ∧
      (watch (t0 + seconds 3000) { last := t0 } rest).oversleeps = 0 := by
  obtain ⟨t0, rest, hes, hreceives, -, hsleeps, -⟩ := duration_kept (exec_scripted (runReceiveLoop completeRow 8)
    (openedState completeRow 0)
    { ticks := [0, 5, 10, seconds 3000], receives := [.ok [{ sequenceNumber := 1 }], .ok [{ sequenceNumber := 2 }]] })
  exact ⟨t0, rest, hes, hreceives, hsleeps⟩

end ServiceBusExtractor
