import ServiceBusExtractor.Script
import ServiceBusExtractor.Turns

/-!
# The message limit

`max_messages` bounds what a run takes out of the entity. The loop counts a batch
once it is processed, while settling and disposing work message by message: the
two are in step between the turns as long as no batch is given up half way.

## The model

* `isConsumed`, `isDisposed` — a message was completed or deferred, or disposed of;
  `consumed h`, `handled h` — how many of them there are in a trace.
* `Obliging` — a receive returns no more messages than it was asked for.
* `AsksFor` — the loop asks for that many messages after the trace.
* `HandlesWhole` — no turn recovers after its batch handled a message.

## What is proved

* `wp_process_handled` — a batch handles each of its messages once at most, and
  none of those it gives back;
* `max_messages_bound` — a run whose batches are not given up half way consumes at
  most `max_messages` messages, and asks for no more than what is left of them.
-/

namespace ServiceBusExtractor

open Interaction

/-- A message was completed or deferred. -/
def isConsumed : Event sdk → Bool
  | .call (.completeMessage ..) (.ok _) | .call (.deferMessage ..) (.ok _) => true
  | _ => false

/-- A message was disposed of: dead-lettered, left, skipped or failed. -/
def isDisposed : Event sdk → Bool
  | .note (.unreadable _ disposition) => disposition != .retry
  | _ => false

/-- The messages completed or deferred. -/
def consumed (h : Trace sdk) : ℕ := h.countP isConsumed

/-- The messages completed, deferred or disposed of. -/
def handled (h : Trace sdk) : ℕ := h.countP fun e => isConsumed e || isDisposed e

theorem consumed_le_handled (h : Trace sdk) : consumed h ≤ handled h :=
  List.countP_mono_left fun e _ he => by simp [he]

@[simp] theorem handled_nil : handled [] = 0 := rfl

@[simp] theorem handled_append (h es : Trace sdk) : handled (h ++ es) = handled h + handled es := List.countP_append

/-- An event handles one message at most. -/
theorem handled_concat_le (h : Trace sdk) (e : Event sdk) : handled (h ++ [e]) ≤ handled h + 1 := by
  rw [handled_append]
  have := List.countP_le_length (p := fun e => isConsumed e || isDisposed e) (l := [e])
  simpa [handled] using this

/-- An event that handles no message. -/
def Idle (e : Event sdk) : Prop := (isConsumed e || isDisposed e) = false

theorem handled_concat {e : Event sdk} (he : Idle e) (h : Trace sdk) : handled (h ++ [e]) = handled h := by
  have hzero : handled [e] = 0 := by simp [handled, show (isConsumed e || isDisposed e) = false from he]
  rw [handled_append, hzero, Nat.add_zero]

theorem idle_of_quiet {e : Event sdk} (he : Quiet e) : Idle e := by
  rcases e with ⟨c, r⟩ | n
  · cases c <;> first | rfl | exact absurd he Bool.false_ne_true
  · cases n <;> first | rfl | exact absurd he Bool.false_ne_true

theorem idle_of_reopens {n : Note} (hn : n.reopens = true) : Idle (.note n) := by
  cases n <;> first | rfl | exact absurd hn Bool.false_ne_true

/-! ### One batch -/

section Batch

variable {A : Event sdk → Prop} {row : Row} {n : ℕ}

/-- At most `n` messages are handled. -/
abbrev Upto (n : ℕ) (_ : RunState) (h : Trace sdk) : Prop := handled h ≤ n

theorem frame_upto (n : ℕ) : Frame (Logged A) (Upto n) where
  stats _ _ hI := hI
  info _ hI := hI
  quiet := by
    rintro e s h _ he ⟨-, rfl⟩ hI
    rw [Upto, handled_concat (idle_of_quiet he)]
    exact hI

theorem keeps_idleCall {W α : Type} {c : Call} {result : Reply c → Except Exn α} {I : W → Trace sdk → Prop}
    (hI : ∀ w h e, Idle e → I w h → I w (h ++ [e])) (hc : ∀ r, Idle (.call c r)) :
    Keeps (Logged A) I (Prog.request (S := sdk) c result : Program W α) := by
  refine keeps_request ?_
  rintro r w h _ ⟨-, rfl⟩ hw
  exact hI w h _ (hc r) hw

theorem Upto.idle {s : RunState} {h : Trace sdk} {e : Event sdk} (he : Idle e) (hI : Upto n s h) :
    Upto n s (h ++ [e]) := by
  rw [Upto, handled_concat he]
  exact hI

theorem keeps_idleSettle {c : Call} {result : Reply c → Except Exn Unit} (hc : ∀ r, Idle (.call c r)) :
    Keeps (Logged A) (Upto n) (safeSettle (Prog.request (S := sdk) c result)) :=
  keeps_safeSettle (frame_upto n).toStillFrame (keeps_idleCall (fun _ _ _ he hI => hI.idle he) hc)

theorem wp_countUnreadable_upto (m : Message) (reason : UnreadableReason) (disposition : Disposition) {s : RunState}
    {h : Trace sdk} (hI : Upto n s h) :
    Wp (Logged A) (countUnreadable m reason disposition) (fun _ => Upto (n + 1)) s h := by
  rw [countUnreadable, wp_bind, tally, wp_modify, onOk_ok, wp_note]
  rintro _ ⟨-, rfl⟩
  have hle := handled_concat_le h (.note (.unreadable m disposition))
  exact hle.trans (Nat.add_le_add_right hI 1)

/-- A final verdict disposes of one message. -/
theorem wp_disposeUnreadable_upto (receiver : Handle) (m : Message) (error : UnreadableError) {s : RunState}
    {h : Trace sdk} (hI : Upto n s h) : Wp (Logged A) (disposeUnreadable row receiver m error)
      (fun r s h => Upto (n + 1) s h ∧ r ≠ .ok .retry) s h := by
  have hup : ∀ s h, Upto n s h → Upto (n + 1) s h := fun _ _ hI => Nat.le_succ_of_le hI
  have hdisposed : ∀ reason disposition detail s h, Upto n s h →
      Wp (Logged A) (countDisposed m reason disposition detail) (fun _ => Upto (n + 1)) s h := by
    intro reason disposition detail s h hI
    refine wp_bind.mpr ((wp_countUnreadable_upto m reason disposition hI).mono fun r s' h' hI' => ?_)
    cases r with
    | error e => exact hI'
    | ok _ => exact keeps_warn (frame_upto (n + 1)).toStillFrame _ _ s' h' hI'
  have hend : ∀ {p : Run Unit} (action : UnreadableAction), action ≠ .retry →
      (∀ s h, Upto n s h → Wp (Logged A) p (fun _ => Upto (n + 1)) s h) → ∀ s h, Upto n s h →
      Wp (Logged A) (do p; pure action) (fun r s h => Upto (n + 1) s h ∧ r ≠ .ok .retry) s h := by
    intro p action haction hp s h hI
    refine wp_bind.mpr ((hp s h hI).mono fun r s' h' hI' => ?_)
    cases r with
    | error e => exact ⟨hI', by simp⟩
    | ok _ => exact wp_pure.mpr ⟨hI', by simpa using haction⟩
  have hthen : ∀ {p q : Run Unit} (action : UnreadableAction), action ≠ .retry → Keeps (Logged A) (Upto n) p →
      (∀ s h, Upto n s h → Wp (Logged A) q (fun _ => Upto (n + 1)) s h) → ∀ s h, Upto n s h →
      Wp (Logged A) (do p; q; pure action) (fun r s h => Upto (n + 1) s h ∧ r ≠ .ok .retry) s h := by
    intro p q action haction hp hq s h hI
    exact hp.wp_bind hI (fun _ s' h' hI' => hend action haction hq s' h' hI') fun e s' h' hI' =>
      ⟨hup s' h' hI', by simp⟩
  refine wp_ite.mpr ⟨fun _ => ?_, fun _ => wp_ite.mpr ⟨fun _ => ?_, fun _ => wp_ite.mpr ⟨fun _ => ?_, fun _ => ?_⟩⟩⟩
  · refine wp_bind.mpr ((wp_countUnreadable_upto m error.reason .failed hI).mono fun r s' h' hI' => ?_)
    cases r with
    | error e => exact ⟨hI', by simp⟩
    | ok _ => exact wp_bind.mpr (wp_modify.mpr (wp_pure.mpr ⟨hI', by simp⟩))
  · exact hend .skipped (by decide) (hdisposed error.reason .skipped _) s h hI
  · refine hthen .disposed (by decide) (keeps_idleSettle ?_) (hdisposed error.reason .deadLettered _) s h hI
    exact fun _ => rfl
  · refine (keeps_when (keeps_warn (frame_upto n).toStillFrame _ _)).wp_bind hI (fun _ s' h' hI' => ?_) ?_
    · rw [leaveUnreadable, updateUnreadable]
      refine hthen .disposed (by decide) (keeps_modify ?_) (hdisposed error.reason .left _) s' h' hI'
      exact fun _ _ hI => hI
    · exact fun e s' h' hI' => ⟨hup s' h' hI', by simp⟩

/-- The policy disposes of one message at most, and of none that it gives back. -/
theorem wp_handleUnreadable_upto (receiver : Handle) (m : Message) (error : UnreadableError) (generation : ℕ)
    {s : RunState} {h : Trace sdk} (hI : Upto n s h) : Wp (Logged A) (handleUnreadable row receiver m error generation)
      (fun r s h => Upto (n + 1) s h ∧ (r = .ok .retry → Upto n s h)) s h := by
  have hup : ∀ s h, Upto n s h → Upto (n + 1) s h := fun _ _ hI => Nat.le_succ_of_le hI
  have hdispose : ∀ s h, Upto n s h → Wp (Logged A) (disposeUnreadable row receiver m error)
      (fun r s h => Upto (n + 1) s h ∧ (r = .ok .retry → Upto n s h)) s h := fun s h hI =>
    (wp_disposeUnreadable_upto receiver m error hI).mono fun r s' h' hr => ⟨hr.1, fun h => absurd h hr.2⟩
  have hretry : Keeps (Logged A) (Upto n) (retryUnreadable row receiver m generation error.reason) := by
    refine keeps_bind (keeps_modify fun _ _ hI => hI) fun _ => ?_
    refine keeps_bind (keeps_when (keeps_idleSettle fun _ => rfl)) fun _ => ?_
    refine keeps_bind (keeps_bind (keeps_modify fun _ _ hI => hI) fun _ => keeps_note ?_) fun _ => keeps_pure
    rintro s h _ ⟨-, rfl⟩ hI
    exact hI.idle rfl
  have hshould : Keeps (Logged A) (Upto n) (shouldRetry row m generation) := by
    refine keeps_bind keeps_get fun _ => ?_
    refine keeps_ite (fun _ => keeps_pure) fun _ => ?_
    refine keeps_ite (fun _ => keeps_pure) fun _ => ?_
    exact keeps_ite (fun _ => keeps_bind (keeps_warn (frame_upto n).toStillFrame _ _) fun _ => keeps_pure)
      fun _ => keeps_pure
  refine wp_bind.mpr (wp_get.mpr
    (wp_ite.mpr ⟨fun _ => ?_, fun _ => wp_ite.mpr ⟨fun _ => ?_, fun _ => hdispose s h hI⟩⟩))
  · exact wp_pure.mpr ⟨hup s h hI, fun _ => hI⟩
  · refine hshould.wp_bind hI (fun again s' h' hI' => wp_ite.mpr ⟨fun _ => ?_, fun _ => hdispose s' h' hI'⟩) ?_
    · exact (hretry s' h' hI').mono fun r s₁ h₁ hI₁ => ⟨hup s₁ h₁ hI₁, fun _ => hI₁⟩
    · exact fun e s' h' hI' => ⟨hup s' h' hI', by simp⟩

/-- A message of the batch is handled, given back or readable, and not more than one of these. -/
theorem wp_mapMessage_upto (receiver : Handle) (t : Time) (generation : ℕ) (draft : Draft) (m : Message) {s : RunState}
    {h : Trace sdk} (hI : Upto n s h) : Wp (Logged A) (mapMessage row receiver t generation draft m) (fun r s h =>
      Upto (n + 1) s h ∧ ∀ draft', r = .ok draft' → ∃ k, Upto k s h ∧
        k + draft'.retried.length + draft'.readable.length = n + draft.retried.length + draft.readable.length + 1) s
          h := by
  have hsame : ∀ s', Upto n s' h := fun _ => hI
  have hup : Upto (n + 1) s h := Nat.le_succ_of_le hI
  rw [mapMessage, wp_bind, tally, wp_modify, onOk_ok, wp_bind, toRow, wp_bind, wp_get, onOk_ok]
  dsimp only
  rw [wp_bind, wp_modify, onOk_ok, wp_ofExcept]
  cases (mapRow row s.registry m t).1 with
  | error e => exact ⟨hup, by rintro _ ⟨⟩⟩
  | ok mapped =>
    rw [onOk_ok]
    rcases mapped with error | ⟨output, bodyBytes⟩
    · refine wp_bind.mpr ((wp_handleUnreadable_upto receiver m error generation (hsame _)).mono ?_)
      rintro r s' h' ⟨hI₁, hretry⟩
      cases r with
      | error e => exact ⟨hI₁, by rintro _ ⟨⟩⟩
      | ok action =>
        refine wp_ite.mpr ⟨fun hact => wp_pure.mpr ⟨hI₁, ?_⟩, fun _ => wp_pure.mpr ⟨hI₁, ?_⟩⟩
        · rintro _ ⟨⟩
          refine ⟨n, hretry (by rw [hact]), ?_⟩
          simp only [List.length_append, List.length_singleton]
          omega
        · rintro _ ⟨⟩
          exact ⟨n + 1, hI₁, by dsimp only; omega⟩
    · refine wp_pure.mpr ⟨hup, ?_⟩
      rintro _ ⟨⟩
      refine ⟨n, hI, ?_⟩
      simp only [List.length_append, List.length_singleton]
      omega

/-- Mapping a batch: what is handled, given back and readable are together the batch. -/
theorem wp_mapBatch_upto (receiver : Handle) (t : Time) (generation : ℕ) (messages : List Message) {s : RunState}
    {h : Trace sdk} (hI : Upto n s h) :
    Wp (Logged A) (messages.foldlM (mapMessage row receiver t generation) {})
      (fun r s h => Upto (n + messages.length) s h ∧
      ∀ draft, r = .ok draft → ∃ k, Upto k s h ∧
        k + draft.retried.length + draft.readable.length = n + messages.length) s h := by
  refine Wp.foldlM (fun left draft s h => ∃ k, Upto k s h ∧
    k + draft.retried.length + draft.readable.length + left.length = n + messages.length) ?_ ?_ ⟨n, hI, rfl⟩
  · rintro m left draft s' h' ⟨k, hk, hsum⟩
    rw [List.length_cons] at hsum
    refine (wp_mapMessage_upto receiver t generation draft m hk).mono ?_
    rintro r s₁ h₁ ⟨hI₁, hdraft⟩
    cases r with
    | error e =>
      refine ⟨Nat.le_trans hI₁ (by omega), ?_⟩
      rintro _ ⟨⟩
    | ok draft' =>
      obtain ⟨k', hk', hsum'⟩ := hdraft draft' rfl
      exact ⟨k', hk', by omega⟩
  · rintro draft s' h' ⟨k, hk, hsum⟩
    rw [List.length_nil] at hsum
    refine ⟨Nat.le_trans hk (by omega), ?_⟩
    rintro _ ⟨⟩
    exact ⟨k, hk, by omega⟩

/-- A call, and what only changes the run's own books after it. -/
theorem wp_settleCall_upto {c : Call} {result : Reply c → Except Exn Unit} {after : Run Unit}
    (hafter : Keeps (Logged A) (Upto (n + 1)) after) {s : RunState} {h : Trace sdk} (hI : Upto n s h) :
    Wp (Logged A) (do Prog.request (S := sdk) c result; after) (fun _ => Upto (n + 1)) s h := by
  rw [wp_bind, wp_request]
  rintro r _ ⟨-, rfl⟩
  have hI' : Upto (n + 1) s (h ++ [.call c r]) := (handled_concat_le h _).trans (Nat.add_le_add_right hI 1)
  cases result r with
  | error e => exact hI'
  | ok _ => exact hafter s _ hI'

/-- Settling handles one message at most. -/
theorem wp_settle_upto (receiver : Handle) (m : Message) (bodyBytes : ℕ) {s : RunState} {h : Trace sdk}
    (hI : Upto n s h) : Wp (Logged A) (settle row receiver m bodyBytes) (fun _ => Upto (n + 1)) s h := by
  have hup : ∀ s h, Upto n s h → Upto (n + 1) s h := fun _ _ hI => Nat.le_succ_of_le hI
  have htally : ∀ change, Keeps (Logged A) (Upto (n + 1)) (tally change) :=
    fun _ => keeps_modify fun _ _ hI => hI
  have harm : Keeps (Logged A) (Upto n) armWriteAlways := by
    refine keeps_bind keeps_get fun s => keeps_ite (fun _ => keeps_pure) fun _ => ?_
    cases s.output.definition with
    | none => exact keeps_throw
    | some definition =>
      exact keeps_bind (keeps_modify fun _ _ hI => hI) fun _ => keeps_idleCall (fun _ _ _ he hI => hI.idle he)
        fun _ => rfl
  have hmode : ∀ s h, Upto n s h → Wp (Logged A) (modeSettle row receiver m bodyBytes) (fun _ => Upto (n + 1)) s h := by
    intro s h hI
    unfold modeSettle
    cases row.mode with
    | complete =>
      show Wp (Logged A) (completeSettle receiver m) (fun _ => Upto (n + 1)) s h
      have hfirst : Keeps (Logged A) (Upto n) (Prog.when (s.settlerArmed = false) (do
          armWriteAlways
          modify fun s => { s with settlerArmed := true })) :=
        keeps_when (keeps_bind harm fun _ => keeps_modify fun _ _ hI => hI)
      rw [completeSettle, wp_bind, wp_get, onOk_ok]
      refine hfirst.wp_bind hI ?_ ?_
      · exact fun _ s' h' hI' => wp_settleCall_upto (htally _) hI'
      · exact fun _ s' h' hI' => hup s' h' hI'
    | deferCommit =>
      show Wp (Logged A) (deferSettle row receiver m bodyBytes) (fun _ => Upto (n + 1)) s h
      refine wp_settleCall_upto (keeps_bind (keeps_modify ?_) fun _ => htally _) hI
      exact fun _ _ hI => hI
    | receiveAndDelete => exact htally _ s h (hup s h hI)
    | peek => exact wp_pure.mpr (hup s h hI)
  refine wp_tryCatch.mpr (Wp.mono (Q := fun _ => Upto (n + 1)) ?_ fun r s' h' hI' => ?_)
  · have hrenew : ∀ now, Keeps (Logged A) (Upto n) (renewIfNeeded receiver m now) := fun now =>
      keeps_when (keeps_idleCall (fun _ _ _ he hI => hI.idle he) fun _ => rfl)
    refine (keeps_when (keeps_bind (keeps_stillPerform (frame_upto n).still ?_) hrenew)).wp_bind hI
      (fun _ s' h' hI' => hmode s' h' hI') fun e s' h' hI' => hup s' h' hI'
    exact fun _ => trivial
  · cases r with
    | ok _ => exact hI'
    | error e =>
      refine keeps_ite (fun _ => keeps_bind (htally _) fun _ => ?_) (fun _ => keeps_throw) s' h' hI'
      exact keeps_warn (frame_upto (n + 1)).toStillFrame _ _

theorem wp_settleAll_upto (receiver : Handle) (readable : List (Message × ℕ)) {s : RunState} {h : Trace sdk}
    (hI : Upto n s h) : Wp (Logged A) (readable.forM fun r => settle row receiver r.1 r.2)
      (fun _ => Upto (n + readable.length)) s h := by
  refine Wp.forM (fun left s h => ∃ k, Upto k s h ∧ k + left.length = n + readable.length) ?_ ?_ ⟨n, hI, rfl⟩
  · rintro r left s' h' ⟨k, hk, hsum⟩
    rw [List.length_cons] at hsum
    refine (wp_settle_upto receiver r.1 r.2 hk).mono fun res s₁ h₁ hI₁ => ?_
    cases res with
    | ok _ => exact ⟨k + 1, hI₁, by omega⟩
    | error e => exact Nat.le_trans hI₁ (by omega)
  · rintro s' h' ⟨k, hk, hsum⟩
    rw [List.length_nil] at hsum
    exact Nat.le_trans hk (by omega)

/-- A batch handles each of its messages once at most, and none of those it gives back. -/
theorem wp_process_handled (receiver : Handle) (messages : List Message) (generation : ℕ) {s : RunState} {h : Trace sdk}
    (hI : Upto n s h) : Wp (Logged A) (process row receiver messages generation) (fun r s h =>
      Upto (n + messages.length) s h ∧
        ∀ result, r = .ok result → ∃ k, Upto k s h ∧ k + result.retried.length = n + messages.length) s h := by
  rw [process, wp_bind, utcNow, wp_perform]
  rintro t _ ⟨-, rfl⟩
  have hclock : Upto n s (h ++ [.call .utcNow t]) := hI.idle rfl
  rw [onOk_ok, wp_bind]
  refine (wp_mapBatch_upto receiver t generation messages hclock).mono ?_
  rintro r s₁ h₁ ⟨hI₁, hdraft⟩
  cases r with
  | error e => exact ⟨hI₁, by rintro _ ⟨⟩⟩
  | ok draft =>
    obtain ⟨k, hk, hsum⟩ := hdraft draft rfl
    have hF := (frame_upto (A := A) k).toStillFrame
    have hwrite : Keeps (Logged A) (Upto k) (writeRows row draft.rows) := by
      refine keeps_bind keeps_get fun s => ?_
      refine keeps_bind (keeps_when keeps_throw) fun _ => ?_
      refine keeps_bind keeps_ofExcept fun _ => ?_
      exact keeps_idleCall (fun _ _ _ he hI => hI.idle he) fun _ => rfl
    rw [onOk_ok]
    have hwritten : Keeps (Logged A) (Upto k)
        (tally fun stats => { stats with written := stats.written + draft.rows.length }) :=
      keeps_modify fun _ _ hI => hI
    refine (keeps_when (keeps_bind hwrite fun _ => hwritten)).wp_bind hk (fun _ s₂ h₂ hk₂ => ?_) ?_
    · refine wp_bind.mpr ((wp_settleAll_upto receiver draft.readable hk₂).mono fun r s₃ h₃ hI₃ => ?_)
      cases r with
      | error e => exact ⟨Nat.le_trans hI₃ (by omega), by rintro _ ⟨⟩⟩
      | ok _ =>
        rw [onOk_ok]
        have hraise : Keeps (Logged A) (Upto (k + draft.readable.length)) raiseAfterBatch := by
          refine keeps_bind (keeps_bind keeps_get fun s => ?_) fun _ => ?_
          · refine keeps_bind (keeps_modify fun _ _ hI => hI) fun _ => ?_
            cases s.unreadable.pending with
            | none => exact keeps_pure
            | some error => exact keeps_throw
          refine keeps_bind keeps_get fun _ => ?_
          refine keeps_bind (keeps_when keeps_throw) fun _ => ?_
          exact keeps_bind keeps_get fun _ => keeps_when keeps_throw
        refine hraise.wp_bind hI₃ (fun _ s₄ h₄ hI₄ => wp_pure.mpr ⟨Nat.le_trans hI₄ (by omega), ?_⟩) ?_
        · rintro _ ⟨⟩
          exact ⟨_, hI₄, by dsimp only; omega⟩
        · exact fun e s₄ h₄ hI₄ => ⟨Nat.le_trans hI₄ (by omega), by rintro _ ⟨⟩⟩
    · exact fun e s₂ h₂ hk₂ => ⟨Nat.le_trans hk₂ (by omega), by rintro _ ⟨⟩⟩

end Batch

/-! ### The loop -/

/-- A receive returns no more messages than it was asked for. -/
def Obliging : Event sdk → Prop
  | .call (.receiveMessages _ count _) (.ok batch) => batch.length ≤ count
  | _ => True

/-- The event asks for messages. -/
def Receives : Event sdk → Prop
  | .call (.receiveMessages ..) _ => True
  | _ => False

/-- After the trace `h`, a turn of the loop asks for `count` messages. -/
def AsksFor (row : Row) (s : RunState) (h : Trace sdk) (count : ℕ) : Prop :=
  ∃ c l h₀ es₁ l₁ receiver es₂ wait reply rest r l₂, BetweenTurns row s c l h₀ ∧ l.loop.receiver = some receiver ∧
    Prog.Exec (stopCheck row c) l es₁ (.ok none) l₁ ∧
    Prog.Exec (receiveTurn row receiver c) l₁ (es₂ ++ .call (.receiveMessages receiver count wait) reply :: rest) r l₂ ∧
    (∀ e ∈ es₂, ¬ Receives e) ∧ h = h₀ ++ es₁ ++ es₂

/-- No turn goes on after an exception of a step that handled a message. -/
def HandlesWhole (row : Row) (s : RunState) (es : Trace sdk) : Prop :=
  ∀ c l h t l', BetweenTurns row s c l h → Recovers row c l t l' → h ++ t <+: es → handled t = 0

section Loop

variable {row : Row} {limit n t : ℕ}

/-- At most `n` messages are handled, and the loop counts `t`. -/
def Counting (n t : ℕ) (l : LoopState) (h : Trace sdk) : Prop := handled h ≤ n ∧ l.loop.taken = t

theorem loopFrame_counting {A : Event sdk → Prop} (n t : ℕ) : LoopFrame (Logged A) (Counting n t) where
  run loop := {
    stats := fun _ _ hI => hI
    info := fun _ hI => hI
    quiet := by
      rintro e s h _ he ⟨-, rfl⟩ hI
      rw [Counting, handled_concat (idle_of_quiet he)]
      exact hI }
  connection loop hloop hI := ⟨hI.1, hloop.1.trans hI.2⟩

theorem reopenLoop_counting {A : Event sdk → Prop} (n t : ℕ) : ReopenLoop (Logged A) (Counting n t) where
  toLoopFrame := loopFrame_counting n t
  reopen loop := {
    reopened := by
      rintro note s h _ hn ⟨-, rfl⟩ hI
      exact ⟨(handled_concat (idle_of_reopens hn) h).le.trans hI.1, hI.2⟩ }

/-- The counter is in step with the messages handled, within the limit and from `t` on. -/
def InStep (limit t : ℕ) (l : LoopState) (h : Trace sdk) : Prop :=
  handled h ≤ l.loop.taken ∧ l.loop.taken ≤ limit ∧ t ≤ l.loop.taken

/-- What an exception leaves of it. -/
def Bounded (limit t : ℕ) (_ : Exn) (l : LoopState) (h : Trace sdk) : Prop :=
  handled h ≤ limit ∧ l.loop.taken ≤ limit ∧ t ≤ l.loop.taken

theorem loopFrame_inStep {A : Event sdk → Prop} (limit t : ℕ) : LoopFrame (Logged A) (InStep limit t) where
  run loop := {
    stats := fun _ _ hI => hI
    info := fun _ hI => hI
    quiet := by
      rintro e s h _ he ⟨-, rfl⟩ hI
      rw [InStep, handled_concat (idle_of_quiet he)]
      exact hI }
  connection loop hloop hI := by
    rw [InStep, hloop.1]
    exact hI

theorem reopenLoop_inStep {A : Event sdk → Prop} (limit t : ℕ) : ReopenLoop (Logged A) (InStep limit t) where
  toLoopFrame := loopFrame_inStep limit t
  reopen loop := {
    reopened := by
      rintro note s h _ hn ⟨-, rfl⟩ hI
      rw [InStep, handled_concat (idle_of_reopens hn)]
      exact hI }

theorem InStep.idle {l : LoopState} {h : Trace sdk} {e : Event sdk} (he : Idle e) (hI : InStep limit t l h) :
    InStep limit t l (h ++ [e]) := by
  rw [InStep, handled_concat he]
  exact hI

theorem holdsLocks_ne (hmode : row.mode.holdsLocks = true) : row.mode ≠ .receiveAndDelete := by
  intro h
  rw [h] at hmode
  exact Bool.noConfusion hmode

/-- A batch within what is left of the limit stays within it. -/
theorem wp_processBatch_inStep (hmode : row.mode.holdsLocks = true) (receiver : Handle) {batch : List Message}
    {l : LoopState} {h : Trace sdk} (hI : InStep limit t l h) (hlen : l.loop.taken + batch.length ≤ limit) :
    Wp (Logged Obliging) (processBatch row receiver batch) (Ends (InStep limit t) (Bounded limit t)) l h := by
  obtain ⟨hhandled, htaken, ht⟩ := hI
  have hdrain : Keeps (Logged Obliging) (Counting (l.loop.taken + batch.length) l.loop.taken)
      (stopDrain row receiver true) := by
    refine keeps_stopDrain_locked (loopFrame_counting _ _) (holdsLocks_ne hmode) ?_ ?_ receiver true
    · rintro receiver count wait reply l b _ ⟨-, rfl⟩ hI
      exact ⟨(handled_concat (by rfl) b).le.trans hI.1, hI.2⟩
    · rintro receiver m reply l b _ ⟨-, rfl⟩ hI
      exact ⟨(handled_concat (by rfl) b).le.trans hI.1, hI.2⟩
  have hprocess : Wp (Logged Obliging) (process row receiver batch l.loop.tracker.generation) (fun r s h => BatchEnds
      (fun result => Counting (l.loop.taken + batch.length - result.retried.length) l.loop.taken)
      (fun _ => Counting (l.loop.taken + batch.length) l.loop.taken) r ⟨s, l.loop⟩ h) l.run h := by
    refine (wp_process_handled receiver batch _ hhandled).mono ?_
    rintro r s' h' ⟨hupto, hresult⟩
    cases r with
    | error e => exact ⟨hupto, rfl⟩
    | ok result =>
      obtain ⟨k, hk, hsum⟩ := hresult result rfl
      exact ⟨Nat.le_trans hk (by omega), rfl⟩
  refine (wp_processBatch_of (fun _ => reopenLoop_counting _ _) (fun _ => reopenLoop_counting _ _)
    (fun _ _ => hdrain) hprocess).mono fun r l' h' hend => ?_
  cases r with
  | error e =>
    obtain ⟨hle, hsame⟩ := hend
    exact ⟨by omega, by omega, by omega⟩
  | ok result =>
    obtain ⟨l₀, ⟨hle, hsame⟩, rfl⟩ := hend
    refine ⟨?_, ?_, ?_⟩ <;> simp only [ReceiveLoop.book] <;> omega

/-- A receive leaves the counter in step, and returns what it was asked for at most. -/
theorem wp_receive_inStep (hmode : row.mode.holdsLocks = true) (receiver : Handle) (count : ℕ) (wait : ℤ)
    {l : LoopState} {h : Trace sdk} (hI : InStep limit t l h) :
    Wp (Logged Obliging) (receive row receiver count wait)
      (fun r l' h' => (InStep limit t l' h' ∧ l'.loop.taken = l.loop.taken) ∧ ∀ batch, r = .ok batch →
        batch.length ≤ count)
      l h := by
  have hcall : ∀ (receiver : Handle) (count : ℕ) (wait : ℤ) reply (l' : LoopState) (b b' : Trace sdk),
      Logged Obliging (.call (.receiveMessages receiver count wait) reply) b b' →
      InStep limit t l' b ∧ l'.loop.taken = l.loop.taken → InStep limit t l' b' ∧ l'.loop.taken = l.loop.taken := by
    rintro _ _ _ reply l' b _ ⟨-, rfl⟩ hI
    exact ⟨hI.1.idle rfl, hI.2⟩
  have hK : LoopFrame (Logged Obliging) fun l' h' => InStep limit t l' h' ∧ l'.loop.taken = l.loop.taken :=
    (loopFrame_inStep limit t).and (loopFrame_taken _)
  refine (keeps_receive_locked hK (holdsLocks_ne hmode) hcall receiver count wait l h ⟨hI, rfl⟩).and ?_
  rw [receive, wp_bind, updateLoop, wp_modify, onOk_ok, wp_bind, receiveMessages, wp_request]
  rintro reply _ ⟨hobliging, rfl⟩
  cases reply with
  | error f => rintro _ ⟨⟩
  | ok batch =>
    have hrest : Returns (Logged Obliging) (fun b => b = batch) (do
        onRun (modify fun s => { s with
          info := batch.foldl (fun info message => info.noteSequenceNumber message.sequenceNumber) s.info })
        let l ← get
        Prog.when (batch ≠ [] ∧ row.mode = .receiveAndDelete ∧ l.loop.armed = false) do
          onRun armWriteAlways
          updateLoop fun loop => { loop with armed := true }
        pure batch : Loop (List Message)) := by
      refine returns_bind fun _ => ?_
      refine returns_bind fun _ => ?_
      exact returns_bind fun _ => returns_pure rfl
    refine (hrest _ _).mono fun r l' h' hr batch' hok => ?_
    rw [hr batch' hok]
    exact hobliging

theorem turnSteps_inStep (hmode : row.mode.holdsLocks = true) (hlimit : 0 < row.config.limits.maxMessages) (t : ℕ) :
    TurnSteps (Logged Obliging) row (InStep row.config.limits.maxMessages t)
      (Bounded row.config.limits.maxMessages t) where
  toReopenLoop := reopenLoop_inStep _ t
  raises _ _ _ hI := ⟨hI.1.trans hI.2.1, hI.2⟩
  stopDrain receiver := by
    refine Keeps.upholds (keeps_stopDrain_locked (loopFrame_inStep _ t) (holdsLocks_ne hmode) ?_ ?_ receiver false) ?_
    · rintro _ _ _ reply l b _ ⟨-, rfl⟩ hI
      exact hI.idle rfl
    · rintro _ _ reply l b _ ⟨-, rfl⟩ hI
      exact hI.idle rfl
    · exact fun _ _ _ hI => ⟨hI.1.trans hI.2.1, hI.2⟩
  batch receiver l h hI hbelow := by
    refine (wp_receive_inStep hmode receiver _ _ hI).mono ?_
    rintro r l' h' ⟨⟨hI', hsame⟩, hlen⟩
    cases r with
    | error e => exact ⟨hI'.1.trans hI'.2.1, hI'.2⟩
    | ok batch =>
      refine ⟨fun _ => hI', fun _ => wp_processBatch_inStep hmode receiver hI' ?_⟩
      have hcount : batchCount row l.loop.taken ≤ row.config.limits.maxMessages - l.loop.taken := by
        rw [batchCount, if_pos hlimit]
        exact Nat.min_le_right _ _
      have hlen' := hlen batch rfl
      have hlt := hbelow hlimit
      dsimp only
      omega

section Runs

variable {s : RunState} {c : Option Time} {l l' : LoopState} {h es : Trace sdk}

/-- What one step does to the counter, in any run. -/
theorem step_inStep (hmode : row.mode.holdsLocks = true) (hlimit : 0 < row.config.limits.maxMessages)
    (hI : InStep row.config.limits.maxMessages t l h) {r : Except Exn (Option StopReason)}
    (hstep : Prog.Exec (step row c) l es r l') (hobliging : ∀ e ∈ es, Obliging e) :
    Ends (InStep row.config.limits.maxMessages t) (Bounded row.config.limits.maxMessages t) r l' (h ++ es) :=
  wp_logged.mp (upholds_step (turnSteps_inStep hmode hlimit t) c l h hI) es r l' hstep hobliging

/-- Going on after an exception leaves the counter in step where the step handled nothing. -/
theorem recovers_inStep (hmode : row.mode.holdsLocks = true) (hlimit : 0 < row.config.limits.maxMessages)
    (hI : InStep row.config.limits.maxMessages 0 l h) (hrecovers : Recovers row c l es l') (hnone : handled es = 0)
    (hobliging : ∀ e ∈ es, Obliging e) : InStep row.config.limits.maxMessages 0 l' (h ++ es) := by
  obtain ⟨e, es₁, es₂, l₁, rfl, hstep, -, hafter⟩ := hrecovers
  have hI₀ : InStep row.config.limits.maxMessages l.loop.taken l h := ⟨hI.1, hI.2.1, Nat.le_refl _⟩
  have hbounded := step_inStep hmode hlimit hI₀ hstep fun e he => hobliging e (List.mem_append_left _ he)
  obtain ⟨-, hle, hge⟩ := hbounded
  have hzero : handled es₁ = 0 := by
    rw [handled_append] at hnone
    omega
  have hI₁ : InStep row.config.limits.maxMessages 0 l₁ (h ++ es₁) := by
    refine ⟨?_, hle, Nat.zero_le _⟩
    rw [handled_append, hzero, Nat.add_zero]
    exact hI.1.trans hge
  have hend := keeps_afterFailure (reopenLoop_inStep (A := Obliging) row.config.limits.maxMessages 0) row e l₁
      (h ++ es₁) hI₁
  rw [← List.append_assoc]
  exact wp_logged.mp hend es₂ _ l' hafter fun e he => hobliging e (List.mem_append_right _ he)

/-- Between the turns the counter is in step with the messages handled. -/
theorem inStep_betweenTurns (hmode : row.mode.holdsLocks = true) (hlimit : 0 < row.config.limits.maxMessages)
    (hb : BetweenTurns row s c l h) (hobliging : ∀ e ∈ h, Obliging e) (hwhole : HandlesWhole row s h) :
    InStep row.config.limits.maxMessages 0 l h := by
  induction hb with
  | start now => exact ⟨Nat.zero_le _, Nat.zero_le _, Nat.zero_le _⟩
  | @turn c l l' h es hb hturn ih =>
    have hI := ih (fun e he => hobliging e (List.mem_append_left _ he)) fun c l h₁ t l' hb hrec hp =>
      hwhole c l h₁ t l' hb hrec (hp.trans (List.prefix_append _ _))
    have hes : ∀ e ∈ es, Obliging e := fun e he => hobliging e (List.mem_append_right _ he)
    rcases exec_consumeTurn hturn with ⟨hstep, -⟩ | ⟨hrec, -⟩ | ⟨_, _, _, _, _, ⟨⟩, _⟩
    · exact step_inStep hmode hlimit hI hstep hes
    · exact recovers_inStep hmode hlimit hI hrec (hwhole c l h es l' hb hrec (List.prefix_refl _)) hes
  | @catchUp l l' h es reason now hb hturn hdue ih =>
    have hI := ih (fun e he => hobliging e (by simp [he])) fun c l h₁ t l' hb hrec hp =>
      hwhole c l h₁ t l' hb hrec (hp.trans (by simp))
    rcases exec_consumeTurn hturn with ⟨hstep, -⟩ | ⟨-, ⟨⟩⟩ | ⟨_, _, _, _, _, ⟨⟩, _⟩
    have hI' := step_inStep hmode hlimit hI hstep fun e he => hobliging e (by simp [he])
    exact InStep.idle rfl ((loopFrame_inStep (A := Obliging) _ 0).connection _ ⟨rfl, rfl, rfl, rfl⟩ hI')

/-- The first event of a receive is the call. -/
theorem receive_asks {α : Type} {f : List Message → Loop α} (receiver : Handle) (count : ℕ) (wait : ℤ) (l : LoopState)
    (h : Trace sdk) : Wp Recorded (receive row receiver count wait >>= f)
      (fun _ _ h' => ∃ reply, h ++ [.call (.receiveMessages receiver count wait) reply] <+: h') l h := by
  rw [wp_bind, receive, wp_bind, updateLoop, wp_modify, onOk_ok, wp_bind, receiveMessages, wp_request]
  rintro reply _ ⟨-, rfl⟩
  cases reply with
  | error f => exact ⟨_, List.prefix_refl _⟩
  | ok batch =>
    refine wp_extends.mono fun r l₁ h₁ hgrows => ?_
    cases r with
    | error e => exact ⟨_, hgrows⟩
    | ok batch' => exact wp_extends.mono fun _ _ h₂ hgrows' => ⟨_, hgrows.trans hgrows'⟩

theorem not_receives_of_quiet {e : Event sdk} (he : Quiet e) : ¬ Receives e := by
  rcases e with ⟨c, r⟩ | n
  · cases c <;> first | exact id | exact absurd he Bool.false_ne_true
  · exact id

/-- The first event that `P` holds of is the same in two equal traces. -/
theorem first_unique {P : Event sdk → Prop} {xs ys xs' ys' : Trace sdk} {e e' : Event sdk}
    (h : xs ++ e :: ys = xs' ++ e' :: ys') (hxs : ∀ x ∈ xs, ¬ P x) (hxs' : ∀ x ∈ xs', ¬ P x) (he : P e) (he' : P e') :
    xs = xs' ∧ e = e' := by
  rcases List.append_eq_append_iff.mp h with ⟨zs, rfl, hz⟩ | ⟨zs, rfl, hz⟩
  · cases zs with
    | nil => exact ⟨by simp, (List.cons.inj hz).1⟩
    | cons z zs =>
      obtain ⟨rfl, -⟩ := List.cons.inj hz
      exact absurd he (hxs' _ (by simp))
  · cases zs with
    | nil => exact ⟨by simp, (List.cons.inj hz).1.symm⟩
    | cons z zs =>
      obtain ⟨rfl, -⟩ := List.cons.inj hz
      exact absurd he' (hxs _ (by simp))

theorem frame_allQuiet : Frame Recorded fun (_ : RunState) h => ∀ e ∈ h, Quiet e where
  stats _ _ hI := hI
  info _ hI := hI
  quiet := by
    rintro e s h _ he ⟨-, rfl⟩ hI
    exact List.forall_mem_append.mpr ⟨hI, List.forall_mem_singleton.mpr he⟩

/-- The first receive of a turn asks for the batch count. -/
theorem receiveTurn_asks {receiver : Handle} {es₂ rest : Trace sdk} {count : ℕ} {wait : ℤ}
    {reply : Reply (.receiveMessages receiver count wait)} {r : Except Exn (Option StopReason)}
    (hturn : Prog.Exec (receiveTurn row receiver c) l
      (es₂ ++ .call (.receiveMessages receiver count wait) reply :: rest) r l')
    (hfirst : ∀ e ∈ es₂, ¬ Receives e) : count = batchCount row l.loop.taken ∧ handled es₂ = 0 := by
  have hwp : Wp Recorded (receiveTurn row receiver c)
      (fun _ _ h' => (∀ e ∈ h', Quiet e) ∨ ∃ es reply, (∀ e ∈ es, Quiet e) ∧
      es ++ [.call (.receiveMessages receiver (batchCount row l.loop.taken) l.loop.wait) reply] <+: h') l [] := by
    refine wp_bind.mpr ((wp_renewBeforeReceive (K := fun _ h' => ∀ e ∈ h', Quiet e) (fun _ => frame_allQuiet)
      receiver (by simp)).mono ?_)
    rintro r l₁ h₁ ⟨hquiet, rfl⟩
    cases r with
    | error e => exact .inl hquiet
    | ok _ =>
      rw [onOk_ok, wp_bind, wp_get, onOk_ok]
      refine (receive_asks receiver _ _ l₁ h₁).mono ?_
      rintro _ _ h₂ ⟨reply, hgrows⟩
      exact .inr ⟨h₁, reply, hquiet, hgrows⟩
  have hend := wp_logged.mp hwp _ r l' hturn fun _ _ => trivial
  rw [List.nil_append] at hend
  rcases hend with hes | ⟨es, reply', hes, rest', heq⟩
  · exact absurd trivial (not_receives_of_quiet (hes (.call (.receiveMessages receiver count wait) reply) (by simp)))
  · rw [List.append_assoc, List.singleton_append] at heq
    obtain ⟨rfl, hsame⟩ := first_unique (P := Receives) heq.symm hfirst (fun e he => not_receives_of_quiet (hes e he))
      trivial trivial
    refine ⟨?_, ?_⟩
    · cases hsame
      rfl
    · exact List.countP_eq_zero.mpr fun e he => by rw [idle_of_quiet (hes e he)]; exact Bool.false_ne_true

/-- A run that does not go on after a batch given up half way handles no more than the limit. -/
theorem handled_le_limit (hmode : row.mode.holdsLocks = true) (hlimit : 0 < row.config.limits.maxMessages) {turns : ℕ}
    {r : Except Exn (Option StopReason)} (hrun : Prog.Exec (ReceiveLoop.run row turns) ⟨s, .start row⟩ es r l')
    (hobliging : ∀ e ∈ es, Obliging e) (hwhole : HandlesWhole row s es) :
    handled es ≤ row.config.limits.maxMessages := by
  have hbound : ReopenLoop Recorded fun _ h => handled h ≤ row.config.limits.maxMessages := {
    run := fun _ => frame_upto _
    connection := fun _ _ hI => hI
    reopen := fun _ => {
      reopened := by
        rintro note s h _ hn ⟨-, rfl⟩ hI
        exact (handled_concat (idle_of_reopens hn) h).le.trans hI } }
  rcases exec_receiveLoop hrun with ⟨-, c, hb⟩ | ⟨c, r₁, l₁, h₁, ⟨l, h, t, hb, hturn, -, rfl⟩, hafter, -⟩
  · obtain ⟨hle, htaken, -⟩ := inStep_betweenTurns hmode hlimit hb hobliging hwhole
    exact hle.trans htaken
  · refine hafter _ hbound.toLoopFrame ?_
    obtain ⟨rest, rfl⟩ := hafter.grows
    have hI := inStep_betweenTurns hmode hlimit hb (fun e he => hobliging e (by simp [he]))
        fun c l h₁ t l' hb hrec hp =>
      hwhole c l h₁ t l' hb hrec (hp.trans (by simp))
    rcases exec_consumeTurn hturn with ⟨hstep, stop, rfl⟩ | ⟨hrec, rfl⟩ | ⟨e, e₁, t₁, t₂, l₂, rfl, rfl, hstep, hraised⟩
    · obtain ⟨hle, htaken, -⟩ := step_inStep hmode hlimit hI hstep fun e he => hobliging e (by simp [he])
      exact hle.trans htaken
    · obtain ⟨hle, htaken, -⟩ :=
        recovers_inStep hmode hlimit hI hrec (hwhole c l h t l₁ hb hrec (List.prefix_append _ _))
        fun e he => hobliging e (by simp [he])
      exact hle.trans htaken
    · obtain ⟨hle, -, -⟩ := step_inStep hmode hlimit hI hstep fun e he => hobliging e (by simp [he])
      rcases hraised with ⟨-, rfl, -, -⟩ | ⟨-, hfail⟩
      · simpa using hle
      · rw [← List.append_assoc]
        exact wp_logged.mp (keeps_afterFailure hbound row e₁ l₂ (h ++ t₁) hle) t₂ _ l₁ hfail fun _ _ => trivial

/-- What the loop asks for is at least one message and within what is left of the limit. -/
theorem asksFor_within (hmode : row.mode.holdsLocks = true) (hlimit : 0 < row.config.limits.maxMessages) {count : ℕ}
    (hasks : AsksFor row s h count) (hobliging : ∀ e ∈ h, Obliging e) (hwhole : HandlesWhole row s h) :
    1 ≤ count ∧ count + handled h ≤ row.config.limits.maxMessages := by
  obtain ⟨c, l, h₀, es₁, l₁, receiver, es₂, wait, reply, rest, r, l₂, hb, -, hcheck, hturn, hfirst, rfl⟩ := hasks
  have hI := inStep_betweenTurns hmode hlimit hb (fun e he => hobliging e (by simp [he])) fun c l h₁ t l' hb hrec hp =>
    hwhole c l h₁ t l' hb hrec (hp.trans (by simp))
  have hchecked := wp_logged.mp (wp_stopCheck (loopFrame_inStep (A := Obliging) _ 0).run row c hI) es₁ _ l₁ hcheck
    fun e he => hobliging e (by simp [he])
  obtain ⟨⟨⟨hle, -, -⟩, hloop⟩, hbelow⟩ := hchecked
  obtain ⟨hcount, hzero⟩ := receiveTurn_asks hturn hfirst
  have hlt := hbelow rfl hlimit
  have hbatch := row.config.advanced.batchSize_bounds.1
  rw [hloop] at hcount hle
  rw [handled_append, hzero, Nat.add_zero, hcount, batchCount, if_pos hlimit]
  omega

end Runs

/-- The bound of a run on the messages it takes: it completes or defers at most `max_messages`, and every
receive of the loop asks for at least one message and for no more than is left of the limit, where no turn
goes on after an exception of a step that handled a message. -/
theorem max_messages_bound (row : Row) (hmode : row.mode.holdsLocks = true) (hlimit : 0 < row.config.limits.maxMessages)
    (s : RunState) (turns : ℕ) (es : Trace sdk) (r : Except Exn (Option StopReason)) (l' : LoopState)
    (hrun : Prog.Exec (ReceiveLoop.run row turns) ⟨s, .start row⟩ es r l') (hobliging : ∀ e ∈ es, Obliging e)
    (hwhole : HandlesWhole row s es) :
    consumed es ≤ row.config.limits.maxMessages ∧ ∀ h count, AsksFor row s h count → h <+: es →
      1 ≤ count ∧ count + handled h ≤ row.config.limits.maxMessages := by
  constructor
  · exact (consumed_le_handled es).trans (handled_le_limit hmode hlimit hrun hobliging hwhole)
  · intro h count hasks hp
    refine asksFor_within hmode hlimit hasks (fun e he => hobliging e (hp.subset he)) ?_
    exact fun c l h₁ t l' hb hrec hp' => hwhole c l h₁ t l' hb hrec (hp'.trans hp)


end Loop

/-- The loop of a run of that row, at its start. -/
def limitedStart : LoopState := ⟨openedState limitedRow 10, .start limitedRow⟩

instance : DecidablePred Obliging := by
  refine decidableEvents (fun c => ?_) fun _ => .isTrue trivial
  induction c using Call.casesOn with
  | receiveMessages receiver count wait =>
    rintro (fault | batch)
    · exact .isTrue trivial
    · exact inferInstanceAs (Decidable (batch.length ≤ count))
  | _ => exact fun _ => .isTrue trivial

/-- The event is the note of a recovery. -/
def isRecovery : Event sdk → Bool
  | .note .recovery => true
  | _ => false

/-- A batch of two messages, both settled. -/
def settledBatch : Script where
  receives := [.ok [{ sequenceNumber := 1 }, { sequenceNumber := 2 }]]

/-- Both messages of the one batch are completed. -/
theorem max_messages_bound_two : consumed (scripted (ReceiveLoop.run limitedRow 8) limitedStart settledBatch) ≤ 2 ∧
    ∀ h count, AsksFor limitedRow (openedState limitedRow 10) h count →
      h <+: scripted (ReceiveLoop.run limitedRow 8) limitedStart settledBatch → 1 ≤ count ∧ count + handled h ≤ 2 := by
  refine max_messages_bound limitedRow rfl (by decide) (openedState limitedRow 10) 8 _ _ _ (exec_scripted _ _ _)
    (by decide +kernel) fun c l h t l' _ hrecovers hp => ?_
  have hno : ∀ e ∈ scripted (ReceiveLoop.run limitedRow 8) limitedStart settledBatch, isRecovery e = false := by
    decide +kernel
  have hnote := hno _ (hp.subset (List.mem_append_right h (hrecovers.noted rfl)))
  exact absurd hnote.symm Bool.false_ne_true

/-- The connection is lost between the two settles of a batch; the next receive asks for two again. -/
def interruptedBatch : Script where
  receives := [.ok [{ sequenceNumber := 1 }, { sequenceNumber := 2 }],
    .ok [{ sequenceNumber := 2 }, { sequenceNumber := 3 }]]
  settles := [.ok (), .error (.serviceBus { kind := .connection, text := "link detached" })]

/-- A run that completes three messages with a limit of two. -/
theorem limit_exceeded : ∃ es l', limitedRow.config.limits.maxMessages = 2 ∧
    Prog.Exec (ReceiveLoop.run limitedRow 12) limitedStart es (.ok (some .maxMessages)) l' ∧ (∀ e ∈ es, Obliging e) ∧
    consumed es = 3 :=
  ⟨_, _, rfl, exec_of_scriptedResult interruptedBatch (by decide +kernel), by decide +kernel, by decide +kernel⟩

end ServiceBusExtractor
