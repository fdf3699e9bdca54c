import ServiceBusExtractor.RetryBudgets

/-!
# The watch on a deadline

`max_duration` bounds a run by the turns of its loops: each of them looks at the
monotonic clock before it does anything, and what it asks the service for it asks
within the same turn. The clock of a real run moves on its own; here it is read, and
each reading is what the run knows of the time until the next one. A receive may block
for as long as it was told to wait: what is watched is when it is asked for.

## The model

* `Watch` — what the readings so far say: the last one, how many came before the
  deadline, and what was asked or slept although the last one did not.
* `Idles` — a step that leaves the watch alone.

## What is proved

* `idles_process` and the others before it: the steps of a run that leave it alone.
-/

namespace ServiceBusExtractor

open Interaction

/-! ### The watch -/

/-- What the readings of the monotonic clock say of a loop with a deadline. -/
structure Watch where
  /-- The last reading. -/
  last : Time
  /-- The readings before the deadline. -/
  timely : ℕ := 0
  /-- The receives of a batch although the last reading was not before the deadline. -/
  lateReceives : ℕ := 0
  /-- The pages peeked although it was not. -/
  latePeeks : ℕ := 0
  /-- The sleeps for longer than what was left, and than one poll. -/
  oversleeps : ℕ := 0

/-- The longest sleep that keeps to the deadline. -/
def Watch.patience (deadline : Time) (w : Watch) : Time := max (deadline - w.last) (seconds catchUpPollSeconds)

def Watch.step (deadline : Time) (w : Watch) : Event sdk → Watch
  | .call .monotonic now => { w with last := now, timely := if now < deadline then w.timely + 1 else w.timely }
  | .call (.receiveMessages ..) _ => if w.last < deadline then w else { w with lateReceives := w.lateReceives + 1 }
  | .call (.peekMessages ..) _ => if w.last < deadline then w else { w with latePeeks := w.latePeeks + 1 }
  | .call (.sleep duration) _ =>
    if duration ≤ w.patience deadline then w else { w with oversleeps := w.oversleeps + 1 }
  | _ => w

/-- The watch after a trace. -/
def watch (deadline : Time) (w : Watch) (es : Trace sdk) : Watch := es.foldl (Watch.step deadline) w

/-- The surroundings of a loop, as far as its deadline goes. -/
def Watches (deadline : Time) (e : Event sdk) (w w' : Watch) : Prop := w' = w.step deadline e

/-- Nothing was late. -/
def Watch.OnTime (w : Watch) : Prop := w.lateReceives = 0 ∧ w.latePeeks = 0 ∧ w.oversleeps = 0

/-- One drain and one count may have been late. -/
def Watch.AtMost (w : Watch) (receives peeks : ℕ) : Prop :=
  w.lateReceives ≤ receives ∧ w.latePeeks ≤ peeks ∧ w.oversleeps = 0

/-- The event neither reads the clock, nor asks for messages, nor sleeps. -/
def Call.isIdle : Call → Bool
  | .monotonic | .sleep _ | .receiveMessages .. | .peekMessages .. => false
  | _ => true

section Watch

variable {deadline : Time} {w w' : Watch} {e : Event sdk}

theorem path_watches {es : Trace sdk} : Path (Watches deadline) es w (watch deadline w es) :=
  path_foldl fun _ _ _ => rfl

theorem step_idle {c : Call} {r : Reply c} (hc : c.isIdle = true) : w.step deadline (.call c r) = w := by
  cases c <;> first | rfl | exact absurd hc Bool.false_ne_true

theorem step_receive_fresh {receiver : Handle} {count : ℕ} {wait : ℤ} {r : Except Fault (List Message)}
    (hfresh : w.last < deadline) : w.step deadline (.call (.receiveMessages receiver count wait) r) = w := if_pos hfresh

theorem step_peek_fresh {receiver : Handle} {count : ℕ} {start : ℤ} {r : Except Fault (List Message)}
    (hfresh : w.last < deadline) : w.step deadline (.call (.peekMessages receiver count start) r) = w := if_pos hfresh

theorem step_sleep {duration : Time} {r : Unit} (h : duration ≤ w.patience deadline) :
    w.step deadline (.call (.sleep duration) r) = w := if_pos h

theorem timely_le_read (now : Time) : w.timely ≤ (w.step deadline (.call .monotonic now)).timely := by
  show w.timely ≤ if now < deadline then w.timely + 1 else w.timely
  split
  · exact Nat.le_succ _
  · exact le_rfl

theorem timely_lt_read {now : Time} (hnow : now < deadline) :
    w.timely < (w.step deadline (.call .monotonic now)).timely := by
  show w.timely < if now < deadline then w.timely + 1 else w.timely
  rw [if_pos hnow]
  exact Nat.lt_succ_self _

theorem Wp.watched {W α : Type} {p : Program W α} {Q : Except Exn α → W → Watch → Prop} {s s' : W} {es : Trace sdk}
    {r : Except Exn α} (hp : Wp (Watches deadline) p Q s w) (hrun : Prog.Exec p s es r s') :
    Q r s' (watch deadline w es) := hp es r s' _ hrun path_watches

theorem Watch.OnTime.atMost (h : w.OnTime) (receives peeks : ℕ) : w.AtMost receives peeks :=
  ⟨h.1.le.trans (Nat.zero_le _), h.2.1.le.trans (Nat.zero_le _), h.2.2⟩

end Watch

/-! ### What leaves the watch alone -/

/-- The last reading came before the deadline. -/
def Watch.Fresh (deadline : Time) (w : Watch) : Prop := w.last < deadline

/-- A watch that `A` allows is left alone by `p`, and so is what `J` says of the state. -/
def Idles (deadline : Time) (A : Watch → Prop) {W α : Type} (J : W → Prop) (p : Program W α) : Prop :=
  ∀ w₀, A w₀ → Keeps (Watches deadline) (fun s w => J s ∧ w = w₀) p

section Idles

variable {deadline : Time} {A : Watch → Prop} {W α β : Type} {J : W → Prop} {c : Prop} {row : Row}

theorem idles_bind {p : Program W α} {f : α → Program W β} (hp : Idles deadline A J p)
    (hf : ∀ a, Idles deadline A J (f a)) : Idles deadline A J (p >>= f) :=
  fun w₀ hA => keeps_bind (hp w₀ hA) fun a => hf a w₀ hA

theorem idles_pure {a : α} : Idles deadline A J (pure a : Program W α) := fun _ _ => keeps_pure

theorem idles_throw {e : Exn} : Idles deadline A J (throw e : Program W α) := fun _ _ => keeps_throw

theorem idles_ofExcept {r : Except Exn α} : Idles deadline A J (Prog.ofExcept r : Program W α) :=
  fun _ _ => keeps_ofExcept

theorem idles_get : Idles deadline A J (get : Program W W) := fun _ _ => keeps_get

theorem idles_modify {g : W → W} (hg : ∀ s, J s → J (g s)) : Idles deadline A J (modify g : Program W PUnit) :=
  fun _ _ => keeps_modify fun s _ h => ⟨hg s h.1, h.2⟩

theorem idles_request {c : Call} {result : Reply c → Except Exn α} (hc : c.isIdle = true) :
    Idles deadline A J (Prog.request (S := sdk) c result : Program W α) := by
  intro w₀ _
  refine keeps_request ?_
  rintro r s w _ rfl ⟨hJ, rfl⟩
  exact ⟨hJ, step_idle hc⟩

theorem idles_perform {c : Call} (hc : c.isIdle = true) :
    Idles deadline A J (Prog.perform (S := sdk) c : Program W _) := by
  intro w₀ _
  refine keeps_perform ?_
  rintro r s w _ rfl ⟨hJ, rfl⟩
  exact ⟨hJ, step_idle hc⟩

theorem idles_note {n : Note} : Idles deadline A J (Prog.note (S := sdk) n : Program W Unit) := by
  intro w₀ _
  refine keeps_note ?_
  rintro s w _ rfl h
  exact h

theorem idles_receiveMessages (hA : ∀ w, A w → w.Fresh deadline) {receiver : Handle} {count : ℕ} {wait : ℤ} :
    Idles deadline A J (receiveMessages receiver count wait : Program W (List Message)) := by
  intro w₀ hw
  refine keeps_request ?_
  rintro r s w _ rfl ⟨hJ, rfl⟩
  exact ⟨hJ, step_receive_fresh (hA w hw)⟩

theorem idles_peekMessages (hA : ∀ w, A w → w.Fresh deadline) {receiver : Handle} {count : ℕ} {start : ℤ} :
    Idles deadline A J (peekMessages receiver count start : Program W (List Message)) := by
  intro w₀ hw
  refine keeps_request ?_
  rintro r s w _ rfl ⟨hJ, rfl⟩
  exact ⟨hJ, step_peek_fresh (hA w hw)⟩

theorem idles_poll : Idles deadline A J (sleep (seconds catchUpPollSeconds) : Program W Unit) := by
  intro w₀ _
  refine keeps_perform ?_
  rintro r s w _ rfl ⟨hJ, rfl⟩
  exact ⟨hJ, step_sleep (le_max_right _ _)⟩

theorem idles_tryCatch {p : Program W α} {h : Exn → Program W α} (hp : Idles deadline A J p)
    (hh : ∀ e, Idles deadline A J (h e)) : Idles deadline A J (tryCatch p h) :=
  fun w₀ hA => keeps_tryCatch (hp w₀ hA) fun e => hh e w₀ hA

theorem idles_ensuring {p : Program W α} {fin : Program W Unit} (hp : Idles deadline A J p)
    (hf : Idles deadline A J fin) :
    Idles deadline A J (Prog.ensuring p fin) := fun w₀ hA => keeps_ensuring (hp w₀ hA) (hf w₀ hA)

theorem idles_ite {c : Prop} [Decidable c] {p q : Program W α} (hp : Idles deadline A J p) (hq : Idles deadline A J q) :
    Idles deadline A J (if c then p else q) := fun w₀ hA => keeps_ite (fun _ => hp w₀ hA) fun _ => hq w₀ hA

theorem idles_when {c : Prop} [Decidable c] {p : Program W Unit} (hp : Idles deadline A J p) :
    Idles deadline A J (Prog.when c p) := fun w₀ hA => keeps_when (hp w₀ hA)

theorem idles_forM {g : α → Program W PUnit} {as : List α} (hg : ∀ a, Idles deadline A J (g a)) :
    Idles deadline A J (as.forM g) := fun w₀ hA => keeps_forM fun a _ => hg a w₀ hA

theorem idles_foldlM {g : β → α → Program W β} {as : List α} {c : β} (hg : ∀ c a, Idles deadline A J (g c a)) :
    Idles deadline A J (as.foldlM g c) := fun w₀ hA => keeps_foldlM fun c a _ => hg c a w₀ hA

theorem idles_whenOpen {handle : Option Handle} {p : Handle → Program W Unit} (hp : ∀ h, Idles deadline A J (p h)) :
    Idles deadline A J (whenOpen handle p) := fun w₀ hA => keeps_whenOpen fun h => hp h w₀ hA

/-! #### The run's own steps -/

theorem idles_closeReceiverQuietly (receiver : Handle) :
    Idles deadline A J (closeReceiverQuietly receiver : Program W Unit) :=
  idles_tryCatch (idles_request rfl) fun _ => idles_pure

theorem idles_closeClientQuietly (client : Handle) : Idles deadline A J (closeClientQuietly client : Program W Unit) :=
  idles_tryCatch (idles_request rfl) fun _ => idles_pure

theorem idles_enterReceiver (receiver : Handle) : Idles deadline A J (enterReceiver receiver : Program W Unit) := by
  refine idles_tryCatch (idles_request rfl) fun _ => ?_
  exact idles_bind (idles_closeReceiverQuietly receiver) fun _ => idles_throw

theorem idles_renewSessionIfNeeded (receiver : Handle) (now : Time) :
    Idles deadline A J (renewSessionIfNeeded receiver now : Program W Unit) :=
  idles_bind (idles_perform rfl) fun _ => idles_when (idles_request rfl)

theorem idles_logRecovery (error : Exn) (tracker : RecoveryTracker) :
    Idles deadline A J (logRecovery row error tracker : Program W Unit) := idles_bind idles_note fun _ => idles_note

/-- A change of the run. -/
theorem idles_change {g : RunState → RunState} : Idles deadline A (fun _ => c) (modify g : Run PUnit) :=
  idles_modify fun _ h => h

theorem idles_tally (change : RunStats → RunStats) : Idles deadline A (fun _ => c) (tally change) := idles_change

theorem idles_warn (key : WarningKey) (text : String) : Idles deadline A (fun _ => c) (warn key text) :=
  idles_bind idles_get fun _ => idles_when (idles_bind (idles_tally _) fun _ => idles_note)

theorem idles_safeSettle {action : Run Unit} (ha : Idles deadline A (fun _ => c) action) :
    Idles deadline A (fun _ => c) (safeSettle action) := by
  refine idles_tryCatch ha fun _ => ?_
  exact idles_ite (idles_bind (idles_tally _) fun _ => idles_warn _ _) idles_throw

theorem idles_projectedState : Idles deadline A (fun _ => c) (projectedState row) := by
  refine idles_bind (idles_bind idles_get
    fun _ => idles_ite (idles_bind (idles_perform rfl) fun _ => idles_pure) idles_pure) fun _ => ?_
  exact idles_bind idles_get fun _ => idles_pure

theorem idles_armWriteAlways : Idles deadline A (fun _ => c) armWriteAlways := by
  refine idles_bind idles_get fun s => idles_ite idles_pure ?_
  cases s.output.definition with
  | none => exact idles_throw
  | some definition => exact idles_bind idles_change fun _ => idles_request rfl

theorem idles_countUnreadable (message : Message) (reason : UnreadableReason) (disposition : Disposition) :
    Idles deadline A (fun _ => c) (countUnreadable message reason disposition) :=
  idles_bind (idles_tally _) fun _ => idles_note

theorem idles_disposeUnreadable (receiver : Handle) (message : Message) (error : UnreadableError) :
    Idles deadline A (fun _ => c) (disposeUnreadable row receiver message error) := by
  have hcount : ∀ disposition detail,
      Idles deadline A (fun _ => c) (countDisposed message error.reason disposition detail) :=
    fun disposition _ => idles_bind (idles_countUnreadable message error.reason disposition) fun _ => idles_warn _ _
  refine idles_ite ?_ (idles_ite ?_ (idles_ite ?_ ?_))
  · refine idles_bind (idles_countUnreadable message error.reason .failed) fun _ => ?_
    exact idles_bind idles_change fun _ => idles_pure
  · exact idles_bind (hcount .skipped _) fun _ => idles_pure
  · refine idles_bind (idles_safeSettle (idles_request rfl)) fun _ => ?_
    exact idles_bind (hcount .deadLettered _) fun _ => idles_pure
  · refine idles_bind (idles_when (idles_warn _ _)) fun _ => ?_
    refine idles_bind idles_change fun _ => ?_
    exact idles_bind (hcount .left _) fun _ => idles_pure

theorem idles_handleUnreadable (receiver : Handle) (message : Message) (error : UnreadableError) (generation : ℕ) :
    Idles deadline A (fun _ => c) (handleUnreadable row receiver message error generation) := by
  have hshould : Idles deadline A (fun _ => c) (shouldRetry row message generation) := by
    refine idles_bind idles_get fun _ => ?_
    exact idles_ite idles_pure
      (idles_ite idles_pure (idles_ite (idles_bind (idles_warn _ _) fun _ => idles_pure) idles_pure))
  have hretry : Idles deadline A (fun _ => c) (retryUnreadable row receiver message generation error.reason) := by
    refine idles_bind idles_change fun _ => ?_
    refine idles_bind (idles_when (idles_safeSettle (idles_request rfl))) fun _ => ?_
    exact idles_bind (idles_countUnreadable message error.reason .retry) fun _ => idles_pure
  have hdispose : Idles deadline A (fun _ => c) (disposeUnreadable row receiver message error) :=
    idles_disposeUnreadable receiver message error
  refine idles_bind idles_get fun _ => ?_
  exact idles_ite idles_pure (idles_ite (idles_bind hshould fun _ => idles_ite hretry hdispose) hdispose)

theorem idles_settle (receiver : Handle) (message : Message) (bodyBytes : ℕ) :
    Idles deadline A (fun _ => c) (settle row receiver message bodyBytes) := by
  refine idles_safeSettle (idles_bind (idles_when (idles_bind (idles_perform rfl) fun _ =>
    idles_when (idles_request rfl))) fun _ => ?_)
  unfold modeSettle
  cases row.mode with
  | complete =>
    refine idles_bind idles_get fun _ => ?_
    refine idles_bind (idles_when (idles_bind idles_armWriteAlways fun _ => idles_change)) fun _ => ?_
    exact idles_bind (idles_request rfl) fun _ => idles_tally _
  | deferCommit => exact idles_bind (idles_request rfl) fun _ => idles_bind idles_change fun _ => idles_tally _
  | receiveAndDelete => exact idles_tally _
  | peek => exact idles_pure

theorem idles_writeRows (rows : List OutputRow) : Idles deadline A (fun _ => c) (writeRows row rows) := by
  refine idles_bind idles_get fun _ => ?_
  refine idles_bind (idles_when idles_throw) fun _ => ?_
  exact idles_bind idles_ofExcept fun _ => idles_request rfl

theorem idles_raiseAfterBatch : Idles deadline A (fun _ => c) raiseAfterBatch := by
  refine idles_bind (idles_bind idles_get fun s => idles_bind idles_change fun _ => ?_) fun _ => ?_
  · cases s.unreadable.pending with
    | none => exact idles_pure
    | some error => exact idles_throw
  refine idles_bind idles_get fun _ => ?_
  refine idles_bind (idles_when idles_throw) fun _ => ?_
  exact idles_bind idles_get fun _ => idles_when idles_throw

theorem idles_process (receiver : Handle) (messages : List Message) (generation : ℕ) :
    Idles deadline A (fun _ => c) (process row receiver messages generation) := by
  have hmap : ∀ extractedAt draft message,
      Idles deadline A (fun _ => c) (mapMessage row receiver extractedAt generation draft message) := by
    intro extractedAt draft message
    refine idles_bind (idles_tally _) fun _ => ?_
    refine idles_bind (idles_bind idles_get fun _ => idles_bind idles_change fun _ => idles_ofExcept) fun mapped => ?_
    rcases mapped with error | ⟨output, bodyBytes⟩
    · refine idles_bind (idles_handleUnreadable receiver message error generation) fun _ => ?_
      exact idles_ite idles_pure idles_pure
    · exact idles_pure
  refine idles_bind (idles_perform rfl) fun extractedAt => ?_
  refine idles_bind (idles_foldlM (hmap extractedAt)) fun draft => ?_
  refine idles_bind (idles_when (idles_bind (idles_writeRows _) fun _ => idles_tally _)) fun _ => ?_
  refine idles_bind (idles_forM fun readable => idles_settle receiver readable.1 readable.2) fun _ => ?_
  exact idles_bind idles_raiseAfterBatch fun _ => idles_pure

/-- An idle step on the way to a postcondition. -/
theorem Idles.wp {p : Program W α} (hp : Idles deadline A J p) {s : W} {w : Watch} (hA : A w) (hJ : J s)
    {Q : Except Exn α → W → Watch → Prop} (hQ : ∀ r s', J s' → Q r s' w) : Wp (Watches deadline) p Q s w := by
  refine (hp w hA s w ⟨hJ, rfl⟩).mono ?_
  rintro r s' w' ⟨hJ', rfl⟩
  exact hQ r s' hJ'

/-- And to what comes after it. -/
theorem Idles.wp_bind {p : Program W α} (hp : Idles deadline A J p) {f : α → Program W β} {s : W} {w : Watch} (hA : A w)
    (hJ : J s) {Q : Except Exn β → W → Watch → Prop} (hok : ∀ a s', J s' → Wp (Watches deadline) (f a) Q s' w)
    (herr : ∀ e s', J s' → Q (.error e) s' w) : Wp (Watches deadline) (p >>= f) Q s w := by
  refine Interaction.wp_bind.mpr (hp.wp hA hJ fun r s' hJ' => ?_)
  cases r with
  | error e => exact herr e s' hJ'
  | ok a => exact hok a s' hJ'

/-- The same where the watch does not matter. -/
theorem Idles.always {p : Program W α} (hp : Idles deadline (fun _ => True) J p) {s : W} {w : Watch} (hJ : J s)
    {Q : Except Exn α → W → Watch → Prop} (hQ : ∀ r s', J s' → Q r s' w) : Wp (Watches deadline) p Q s w :=
  hp.wp trivial hJ hQ

theorem Idles.always_bind {p : Program W α} (hp : Idles deadline (fun _ => True) J p) {f : α → Program W β} {s : W}
    {w : Watch} (hJ : J s) {Q : Except Exn β → W → Watch → Prop}
    (hok : ∀ a s', J s' → Wp (Watches deadline) (f a) Q s' w) (herr : ∀ e s', J s' → Q (.error e) s' w) :
    Wp (Watches deadline) (p >>= f) Q s w := hp.wp_bind trivial hJ hok herr

/-- And where it is what still runs at the end of a loop. -/
theorem Idles.finishing {p : Program W (Option α)} {fin : Program W Unit} {P : Except Exn (Option α) → W → Watch → Prop}
    {s : W} {w : Watch} (hfin : Idles deadline (fun _ => True) J fin) (hp : Wp (Watches deadline) p P s w)
    (hJ : ∀ r s w, P r s w → J s) (hkept : ∀ r s w s', P r s w → J s' → P r s' w ∧ ∀ e, P (.error e) s' w) :
    Wp (Watches deadline) (Prog.finishing p fin) P s w := by
  refine Wp.finishing hp (fun _ _ h => h) fun r s w h => hfin.always (hJ r s w h) fun r' s' hs' => ?_
  obtain ⟨hsame, herror⟩ := hkept r s w s' h hs'
  cases r' with
  | error e => exact herror e
  | ok _ => exact hsame

end Idles

end ServiceBusExtractor
