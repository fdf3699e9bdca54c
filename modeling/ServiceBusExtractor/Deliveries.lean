import ServiceBusExtractor.Interaction.Resources
import ServiceBusExtractor.RunFrame
import ServiceBusExtractor.Script

/-!
# Every settlement is of a delivery

The broker hands a message out under a lock, and each call that settles it uses that
lock up. A run collects the messages of a batch, drops the unreadable ones, settles
the rest, gives others back while it stops, and starts over after a failure. All the
while it may ask for the lock of a message only where that is still open.

## The model

* `deliveries h`, `settlements h` — the messages that receivers were handed, and
  those that were settled on them, each with its receiver.
* `HasLock row before e` — what the event needs the lock of was delivered more often
  than it was settled.
* `Owed row claims h` — `HasLock` all along, and the claims, each still to be
  settled, are covered by the deliveries.

## What is proved

`settled_within_deliveries`: of every run, in every mode.
-/

namespace ServiceBusExtractor

open Interaction

/-- A message by its number, with the receiver it was handed to. -/
abbrev Claim := Handle × ℤ

/-- The claims on the messages of a batch. -/
def claimsOf (receiver : Handle) (messages : List Message) : List Claim :=
  messages.map fun message => (receiver, message.sequenceNumber)

/-- The messages an event hands to a receiver. -/
def handed : Event sdk → List Claim
  | .call (.receiveMessages receiver _ _) (.ok messages) => claimsOf receiver messages
  | .call (.receiveDeferredMessages receiver _ _) (.ok messages) => claimsOf receiver messages
  | _ => []

/-- The message that a call settles, whether or not it raises. -/
def Call.settles : Call → Option Claim
  | .completeMessage receiver message | .deferMessage receiver message | .abandonMessage receiver message
  | .deadLetterMessage receiver message _ _ => some (receiver, message.sequenceNumber)
  | _ => none

/-- The message whose lock a call needs. -/
def Call.lock : Call → Option Claim
  | .renewMessageLock receiver message => some (receiver, message.sequenceNumber)
  | c => c.settles

/-- The message that an event settles. -/
def settledOf : Event sdk → Option Claim
  | .call c _ => c.settles
  | .note _ => none

/-- The message whose lock an event needs. -/
def lockOf : Event sdk → Option Claim
  | .call c _ => c.lock
  | .note _ => none

def deliveries (h : Trace sdk) : List Claim := h.flatMap handed

def settlements (h : Trace sdk) : List Claim := h.filterMap settledOf

/-- What the event needs the lock of was delivered, and is not settled as often. -/
def HasLock (row : Row) (before : Trace sdk) (e : Event sdk) : Prop :=
  ∀ claim, lockOf e = some claim →
    row.mode.holdsLocks = true ∧ (settlements before).count claim < (deliveries before).count claim

/-- Locks were used as they were handed out, and the claims are still open. -/
structure Owed (row : Row) (claims : List Claim) (h : Trace sdk) : Prop where
  held : Always (HasLock row) h
  covered : row.mode.holdsLocks = true → ∀ claim,
    (settlements h).count claim + claims.count claim ≤ (deliveries h).count claim

/-- What is owed, as an invariant of a program. -/
abbrev Owing {W : Type} (row : Row) (claims : List Claim) (_ : W) (h : Trace sdk) : Prop := Owed row claims h

variable {row : Row} {claims claims' : List Claim} {claim : Claim} {h : Trace sdk} {e : Event sdk}

@[simp] theorem deliveries_concat : deliveries (h ++ [e]) = deliveries h ++ handed e := by
  simp [deliveries]

@[simp] theorem settlements_concat : settlements (h ++ [e]) = settlements h ++ (settledOf e).toList := by
  cases hs : settledOf e <;> simp [settlements, hs]

theorem settles_of_lock {c : Call} (hc : c.lock = none) : c.settles = none := by
  cases c <;> first | rfl | cases hc

theorem settledOf_of_lockOf (he : lockOf e = none) : settledOf e = none := by
  cases e with
  | call c a => exact settles_of_lock he
  | note n => rfl

theorem lockOf_of_quiet (he : Quiet e) : lockOf e = none := by
  rcases e with ⟨c, a⟩ | n
  · cases c <;> first | rfl | cases he
  · rfl

section Events

theorem owed_nil : Owed row [] [] where
  held := by
    intro before e after hsplit
    cases before <;> cases hsplit
  covered _ _ := Nat.zero_le _

/-- Fewer claims are owed too. -/
theorem Owed.fewer (ho : Owed row claims h) (hle : ∀ claim, claims'.count claim ≤ claims.count claim) :
    Owed row claims' h where
  held := ho.held
  covered hlocks claim := le_trans (Nat.add_le_add_left (hle claim) _) (ho.covered hlocks claim)

theorem Owed.perm (ho : Owed row claims h) (hperm : claims.Perm claims') : Owed row claims' h :=
  ho.fewer fun claim => (hperm.count_eq claim).ge

theorem Owed.forget (ho : Owed row claims h) : Owed row [] h := ho.fewer fun _ => Nat.zero_le _

theorem Owed.initial (ho : Owed row (claims ++ claims') h) : Owed row claims h :=
  ho.fewer fun claim => by
    rw [List.count_append]
    exact Nat.le_add_right _ _

theorem Owed.tail (ho : Owed row (claim :: claims) h) : Owed row claims h :=
  ho.fewer fun _ => List.count_le_count_cons

/-- What an event hands over is owed from then on. -/
theorem Owed.event (ho : Owed row claims h) (he : lockOf e = none) : Owed row (claims ++ handed e) (h ++ [e]) where
  held := by
    refine always_concat.mpr ⟨ho.held, fun claim hlock => ?_⟩
    rw [he] at hlock
    cases hlock
  covered hlocks claim := by
    have hcovered := ho.covered hlocks claim
    simp only [settlements_concat, deliveries_concat, settledOf_of_lockOf he, Option.toList_none, List.append_nil,
      List.count_append]
    omega

/-- An event that settles nothing. -/
theorem Owed.still (ho : Owed row claims h) (he : lockOf e = none) : Owed row claims (h ++ [e]) := (ho.event he).initial

/-- A claim has its lock. -/
theorem Owed.open (ho : Owed row claims h) (hlocks : row.mode.holdsLocks = true) (hmem : claim ∈ claims) :
    (settlements h).count claim < (deliveries h).count claim := by
  have hcovered := ho.covered hlocks claim
  have hpos := List.count_pos_iff.mpr hmem
  omega

/-- A settlement uses its claim up. -/
theorem Owed.settled (ho : Owed row (claim :: claims) h) (hlocks : row.mode.holdsLocks = true) {c : Call} {a : Reply c}
    (hc : c.settles = some claim) (hlock : c.lock = some claim) : Owed row claims (h ++ [.call c a]) where
  held := by
    refine always_concat.mpr ⟨ho.held, fun claim' hlock' => ?_⟩
    obtain rfl : claim = claim' := Option.some.inj (hlock.symm.trans hlock')
    exact ⟨hlocks, ho.open hlocks List.mem_cons_self⟩
  covered _ claim' := by
    have hcovered := ho.covered hlocks claim'
    have hsettled : settledOf (.call c a) = some claim := hc
    rw [List.count_cons] at hcovered
    rw [settlements_concat, deliveries_concat, hsettled, Option.toList_some, List.count_append, List.count_append,
      List.count_singleton]
    omega

/-- A renewal leaves its claim open. -/
theorem Owed.renewed (ho : Owed row claims h) (hlocks : row.mode.holdsLocks = true) {receiver : Handle}
    {message : Message} (hmem : (receiver, message.sequenceNumber) ∈ claims) {a : Except Fault Unit} :
    Owed row claims (h ++ [.call (.renewMessageLock receiver message) a]) where
  held := by
    refine always_concat.mpr ⟨ho.held, fun claim hlock => ?_⟩
    obtain rfl : (receiver, message.sequenceNumber) = claim := Option.some.inj hlock
    exact ⟨hlocks, ho.open hlocks hmem⟩
  covered _ claim := by
    have hcovered := ho.covered hlocks claim
    have hsettled : settledOf (.call (.renewMessageLock receiver message) a) = none := rfl
    rw [settlements_concat, deliveries_concat, hsettled, Option.toList_none, List.append_nil, List.count_append]
    omega

/-- Without locks there is nothing to cover. -/
theorem Owed.unlocked (ho : Owed row claims h) (hmode : row.mode.holdsLocks = false) : Owed row claims' h where
  held := ho.held
  covered hlocks := by
    rw [hmode] at hlocks
    cases hlocks

end Events

/-! ### A batch -/

section Batch

variable {receiver : Handle} {message : Message} {W : Type}

theorem keeps_owingCall {c : Call} {α : Type} {result : Reply c → Except Exn α} (hc : c.lock = none) :
    Keeps Recorded (Owing row claims) (Prog.request (S := sdk) c result : Program W α) :=
  keeps_request fun _ _ _ _ hR ho => hR.2 ▸ ho.still hc

theorem keeps_owingPerform {c : Call} (hc : c.lock = none) :
    Keeps Recorded (Owing row claims) (Prog.perform (S := sdk) c : Program W _) :=
  keeps_perform fun _ _ _ _ hR ho => hR.2 ▸ ho.still hc

theorem frame_owing : Frame Recorded (Owing (W := RunState) row claims) where
  stats _ _ ho := ho
  guarded _ ho := ho
  info _ ho := ho
  quiet _ _ _ _ he hR ho := hR.2 ▸ ho.still (lockOf_of_quiet he)

theorem reopen_owing : ReopenFrame Recorded (Owing (W := RunState) row claims) where
  recycled _ ho := ho
  reopened _ _ _ _ _ hR ho := hR.2 ▸ ho.still rfl

/-- A call that settles closes its claim. -/
theorem closes_settleCall {c : Call} {α : Type} {result : Reply c → Except Exn α} (hlocks : row.mode.holdsLocks = true)
    (hc : c.settles = some claim) (hlock : c.lock = some claim) :
    Closes Recorded (Owing row (claim :: claims)) (Owing row claims)
      (Prog.request (S := sdk) c result : Program W α) := by
  intro w h ho
  refine wp_request.mpr ?_
  rintro a _ ⟨-, rfl⟩
  exact ho.settled hlocks hc hlock

theorem keeps_modifyOwing {change : W → W} : Keeps Recorded (Owing row claims) (modify change : Program W PUnit) :=
  keeps_modify fun _ _ ho => ho

theorem closes_safeSettle {action : Run Unit}
    (ha : Closes Recorded (Owing row (claim :: claims)) (Owing row claims) action) :
    Closes Recorded (Owing row (claim :: claims)) (Owing row claims) (safeSettle action) :=
  fun s h ho => wp_safeSettle_of frame_owing.toStillFrame (ha s h ho)

/-- Settling a message closes its claim. -/
theorem closes_settle (bodyBytes : ℕ) : Closes Recorded (Owing row ((receiver, message.sequenceNumber) :: claims))
    (Owing row claims) (settle row receiver message bodyBytes) := by
  refine closes_safeSettle (Keeps.before_close (keeps_ite (fun hlocks => ?_) fun _ => keeps_pure) (fun _ => ?_)
    fun _ _ ho => ho.tail)
  · refine keeps_bind (keeps_owingPerform rfl) fun now => keeps_when (keeps_request ?_)
    rintro a s h _ ⟨-, rfl⟩ ho
    exact ho.renewed hlocks List.mem_cons_self
  · unfold modeSettle
    split
    · rename_i hmode
      have harm : Keeps Recorded (Owing row ((receiver, message.sequenceNumber) :: claims)) armWriteAlways := by
        refine keeps_armWriteAlways (fun _ _ ho => ho) ?_
        rintro definition a s h _ ⟨-, rfl⟩ ho
        exact ho.still rfl
      refine Keeps.before_close keeps_get (fun _ => ?_) fun _ _ ho => ho.tail
      refine Keeps.before_close (keeps_when (keeps_bind harm fun _ => keeps_modifyOwing)) (fun _ => ?_)
        fun _ _ ho => ho.tail
      exact (closes_settleCall (holdsLocks_of_settles (.inl hmode)) rfl rfl).before_keep fun _ => keeps_modifyOwing
    · rename_i hmode
      exact (closes_settleCall (holdsLocks_of_settles (.inr hmode)) rfl rfl).before_keep fun _ =>
        keeps_bind keeps_modifyOwing fun _ => keeps_modifyOwing
    · exact keeps_modifyOwing.closes fun _ _ ho => ho.tail
    · exact keeps_pure.closes fun _ _ ho => ho.tail

/-- The policy for an unreadable body settles its message at most once. -/
theorem closes_handleUnreadable (error : UnreadableError) (generation : ℕ) :
    Closes Recorded (Owing row ((receiver, message.sequenceNumber) :: claims)) (Owing row claims)
      (handleUnreadable row receiver message error generation) := by
  have htail : ∀ (s : RunState) h, Owing row ((receiver, message.sequenceNumber) :: claims) s h →
      Owing row claims s h :=
    fun _ _ ho => ho.tail
  have hwarn : ∀ {claims : List Claim} key text, Keeps Recorded (Owing row claims) (warn key text) :=
    fun _ _ => keeps_warn frame_owing.toStillFrame _ _
  have hcount : ∀ reason disposition, Keeps Recorded (Owing row claims) (countUnreadable message reason disposition) :=
    fun _ _ => keeps_bind keeps_modifyOwing fun _ => keeps_note fun _ _ _ hR ho => hR.2 ▸ ho.still rfl
  have hdisposed : ∀ reason disposition detail,
      Keeps Recorded (Owing row claims) (countDisposed message reason disposition detail) :=
    fun _ _ _ => keeps_bind (hcount _ _) fun _ => hwarn _ _
  have hretry : Closes Recorded (Owing row ((receiver, message.sequenceNumber) :: claims)) (Owing row claims)
      (retryUnreadable row receiver message generation error.reason) := by
    refine Keeps.before_close keeps_modifyOwing
      (fun _ => Closes.before_keep (closes_ite (fun hlocks => ?_) fun _ => ?_) fun _ =>
      keeps_bind (hcount _ _) fun _ => keeps_pure) htail
    · exact closes_safeSettle (closes_settleCall hlocks rfl rfl)
    · exact keeps_pure.closes htail
  have hshould : Keeps Recorded (Owing row ((receiver, message.sequenceNumber) :: claims))
      (shouldRetry row message generation) := by
    refine keeps_bind keeps_get fun _ => ?_
    refine keeps_ite (fun _ => keeps_pure) fun _ => ?_
    refine keeps_ite (fun _ => keeps_pure) fun _ => ?_
    exact keeps_ite (fun _ => keeps_bind (hwarn _ _) fun _ => keeps_pure) fun _ => keeps_pure
  have hdispose : Closes Recorded (Owing row ((receiver, message.sequenceNumber) :: claims)) (Owing row claims)
      (disposeUnreadable row receiver message error) := by
    refine closes_ite (fun _ => ?_) fun _ => closes_ite (fun _ => ?_) fun hlocks => closes_ite (fun _ => ?_) fun _ => ?_
    · exact (keeps_bind (hcount _ _) fun _ => keeps_bind keeps_modifyOwing fun _ => keeps_pure).closes htail
    · exact (keeps_bind (hdisposed _ _ _) fun _ => keeps_pure).closes htail
    · have hlocks' : row.mode.holdsLocks = true := by simpa using hlocks
      exact (closes_safeSettle (closes_settleCall hlocks' rfl rfl)).before_keep fun _ =>
        keeps_bind (hdisposed _ _ _) fun _ => keeps_pure
    · exact (keeps_bind (keeps_when (hwarn _ _)) fun _ => keeps_bind keeps_modifyOwing fun _ =>
        keeps_bind (hdisposed _ _ _) fun _ => keeps_pure).closes htail
  refine Keeps.before_close keeps_get (fun s => ?_) htail
  refine closes_ite (fun _ => keeps_pure.closes htail) fun _ => closes_ite (fun _ => ?_) fun _ => hdispose
  exact Keeps.before_close hshould (fun again => closes_ite (fun _ => hretry) fun _ => hdispose) htail

/-- The claims of the rows that a batch has collected. -/
def Draft.drawn (draft : Draft) (receiver : Handle) : List Claim := claimsOf receiver (draft.readable.map Prod.fst)

/-- A message joins the rows of its batch, or the policy takes care of it. -/
theorem wp_mapOwed {draft : Draft} {s : RunState} (extractedAt : Time) (generation : ℕ)
    (ho : Owed row (draft.drawn receiver ++ (receiver, message.sequenceNumber) :: claims) h) :
    Wp Recorded (mapMessage row receiver extractedAt generation draft message)
      (Opened (Owing row []) fun draft' => Owing row (draft'.drawn receiver ++ claims)) s h := by
  refine keeps_modifyOwing.wp_bind ho (fun _ s₁ h₁ ho₁ => ?_) fun _ _ _ ho₁ => ho₁.forget
  refine (keeps_toRow (fun _ _ ho => ho) message extractedAt).wp_bind ho₁ (fun mapped s₂ h₂ ho₂ => ?_) fun _ _ _ ho₂ =>
    ho₂.forget
  cases mapped with
  | ok mapped =>
    refine wp_pure.mpr (ho₂.perm ?_)
    simp [Draft.drawn, claimsOf]
  | error error =>
    refine wp_bind.mpr ((closes_handleUnreadable error generation s₂ h₂ (ho₂.perm List.perm_middle)).mono ?_)
    intro r s₃ h₃ ho₃
    cases r with
    | error e => exact Owed.forget ho₃
    | ok action => exact wp_ite.mpr ⟨fun _ => wp_pure.mpr ho₃, fun _ => wp_pure.mpr ho₃⟩

/-- A batch settles each of its messages at most once. -/
theorem closes_process (messages : List Message) (generation : ℕ) :
    Closes Recorded (Owing row (claimsOf receiver messages)) (Owing row [])
      (process row receiver messages generation) := by
  intro s h ho
  have hwrite : ∀ {claims : List Claim} rows, Keeps Recorded (Owing row claims) (writeRows row rows) := fun rows =>
    keeps_writeRows_of_call (fun _ _ _ _ _ hR ho => hR.2 ▸ ho.still rfl) rows
  have hraise : Keeps Recorded (Owing (W := RunState) row []) raiseAfterBatch := keeps_raiseAfterBatch fun ho => ho
  refine (keeps_owingPerform rfl).wp_bind ho (fun extractedAt s₁ h₁ ho₁ => ?_) fun _ _ _ ho₁ => ho₁.forget
  refine wp_bind.mpr (Wp.foldlM
    (fun rest draft (_ : RunState) h => Owed row (draft.drawn receiver ++ claimsOf receiver rest) h) ?_ ?_ ho₁)
  · intro message rest draft s₂ h₂ ho₂
    refine (wp_mapOwed extractedAt generation ho₂).mono fun r s₃ h₃ ho₃ => ?_
    cases r with
    | error e => exact ho₃
    | ok draft' => exact ho₃
  · intro draft s₂ h₂ ho₂
    rw [claimsOf, List.map_nil, List.append_nil] at ho₂
    refine (keeps_when (keeps_bind (hwrite _) fun _ => keeps_modifyOwing)).wp_bind ho₂ (fun _ s₃ h₃ ho₃ => ?_)
      fun _ _ _ ho₃ => ho₃.forget
    refine wp_bind.mpr (Wp.forM
      (fun rest (_ : RunState) h => Owed row (claimsOf receiver (rest.map Prod.fst)) h) ?_ ?_ ho₃)
    · intro readable rest s₄ h₄ ho₄
      refine (closes_settle readable.2 s₄ h₄ ho₄).mono fun r s₅ h₅ ho₅ => ?_
      cases r with
      | error e => exact Owed.forget ho₅
      | ok _ => exact ho₅
    · exact fun s₄ h₄ ho₄ => (keeps_bind hraise fun _ => keeps_pure) s₄ h₄ ho₄

end Batch

/-! ### Deferred messages -/

section Deferred

variable {W : Type} {receiver : Handle}

theorem opens_deferredCall (seqs : List ℤ) (timeout : ℤ) : Opens Recorded (Owing row claims)
    (fun messages => Owing row (claims ++ claimsOf receiver messages))
    (receiveDeferredMessages receiver seqs timeout : Program W (List Message)) := by
  intro w h ho
  refine wp_request.mpr ?_
  rintro a _ ⟨-, rfl⟩
  cases a with
  | error fault => exact ho.still rfl
  | ok messages =>
    have hlock : lockOf (.call (.receiveDeferredMessages receiver seqs timeout) (.ok messages)) = none := rfl
    exact ho.event hlock

theorem opens_deferredRetry (retryable : Exn → Bool) (seqs : List ℤ) (timeout : ℤ) (delays : List ℤ) :
    Opens Recorded (Owing row claims)
    (fun messages => Owing row (claims ++ claimsOf receiver messages))
    (withTransientRetry retryable (receiveDeferredMessages receiver seqs timeout) delays : Program W
      (List Message)) := by
  induction delays with
  | nil => exact opens_deferredCall seqs timeout
  | cons delay delays ih =>
    refine fun w h ho => wp_tryCatch.mpr ((opens_deferredCall seqs timeout w h ho).mono fun r w' h' hend => ?_)
    cases r with
    | ok messages => exact hend
    | error e =>
      refine wp_ite.mpr ⟨fun _ => ?_, fun _ => wp_throw.mpr hend⟩
      have ho' : Owing row claims w' h' := hend
      exact (keeps_owingPerform rfl).wp_bind ho' (fun _ w'' h'' ho'' => ih w'' h'' ho'') fun _ _ _ ho'' => ho''

theorem wp_deferredNone {w : W} (ho : Owed row claims h) (notFound : List ℤ) :
    Wp Recorded (pure ⟨[], notFound⟩ : Program W DeferredReceive)
      (Opened (Owing row claims) fun result => Owing row (claims ++ claimsOf receiver result.received)) w h := by
  refine wp_pure.mpr (ho.perm ?_)
  simp [claimsOf]

/-- What the halves of a deferred receive return is owed. -/
theorem opens_bisect (sessionLocked : Bool) (halvings : ℕ) (seqs : List ℤ) : Opens Recorded (Owing row claims)
    (fun result => Owing row (claims ++ claimsOf receiver result.received))
    (bisect receiver sessionLocked halvings seqs : Program W DeferredReceive) := by
  induction halvings generalizing claims seqs with
  | zero => exact fun w h ho => wp_deferredNone ho []
  | succ halvings ih =>
    intro w h ho
    refine wp_ite.mpr ⟨fun _ => wp_deferredNone ho [], fun _ => wp_bind.mpr (wp_attempt.mpr ?_)⟩
    refine (opens_deferredRetry _ seqs _ _ w h ho).mono fun r w₁ h₁ ho₁ => ?_
    cases r with
    | ok messages => exact wp_pure.mpr ho₁
    | error error =>
      have ho₁ : Owed row claims h₁ := ho₁
      refine wp_ite.mpr ⟨fun _ => wp_ite.mpr ⟨fun _ => wp_deferredNone ho₁ seqs, fun _ => ?_⟩,
        fun _ => wp_throw.mpr ho₁⟩
      refine wp_bind.mpr ((ih _ w₁ h₁ ho₁).mono fun r w₂ h₂ ho₂ => ?_)
      cases r with
      | error e => exact ho₂
      | ok left =>
        have ho₂ : Owed row (claims ++ claimsOf receiver left.received) h₂ := ho₂
        refine wp_bind.mpr ((ih _ w₂ h₂ ho₂).mono fun r w₃ h₃ ho₃ => ?_)
        cases r with
        | error e => exact Owed.initial ho₃
        | ok right =>
          refine wp_pure.mpr (Owed.perm ho₃ ?_)
          simp [claimsOf]

/-- The orphans of a chunk are processed on the receiver that returned them. -/
theorem keeps_recoverChunkOwing (chunk : List ℤ) : Keeps Recorded (Owing row []) (recoverChunk row receiver chunk) := by
  refine fun s h ho => wp_bind.mpr ((opens_bisect false _ chunk s h ho).mono fun r s₁ h₁ ho₁ => ?_)
  cases r with
  | error e => exact ho₁
  | ok result =>
    refine wp_when.mpr ⟨fun _ => wp_bind.mpr (wp_embed.mpr ?_), fun _ => Owed.forget ho₁⟩
    refine (closes_process result.received 0 s₁.run h₁ ho₁).mono fun r run h₂ ho₂ => ?_
    cases r with
    | error e => exact ho₂
    | ok _ => exact wp_embed.mpr (wp_modify.mpr ho₂)

end Deferred

/-! ### The receive loop -/

section Loop

variable {receiver : Handle}

/-- What the loop receives is owed. -/
theorem opens_receive (count : ℕ) (wait : ℤ) : Opens Recorded (Owing row [])
    (fun batch => Owing row (claimsOf receiver batch)) (receive row receiver count wait) := by
  intro l h ho
  refine wp_bind.mpr (wp_modify.mpr (wp_bind.mpr (wp_request.mpr ?_)))
  rintro a _ ⟨-, rfl⟩
  cases a with
  | error fault => exact ho.still rfl
  | ok batch =>
    have hlock : lockOf (.call (.receiveMessages receiver count wait) (.ok batch)) = none := rfl
    have ho₁ : Owed row (claimsOf receiver batch) (h ++ [.call (.receiveMessages receiver count wait) (.ok batch)]) :=
      ho.event hlock
    have harm : Keeps Recorded (Owing row (claimsOf receiver batch)) (onRun armWriteAlways) := by
      refine keeps_onRun fun _ => keeps_armWriteAlways (fun _ _ ho => ho) ?_
      rintro definition a s h _ ⟨-, rfl⟩ ho
      exact ho.still rfl
    refine wp_bind.mpr (wp_embed.mpr (wp_modify.mpr (wp_bind.mpr (wp_get.mpr ?_))))
    refine Keeps.wp_bind (keeps_when (keeps_bind harm fun _ => keeps_modifyOwing)) ho₁ (fun _ l₂ h₂ ho₂ => ?_)
      fun _ _ _ ho₂ => ho₂.forget
    exact wp_pure.mpr ho₂

theorem reopenLoop_owing : ReopenLoop Recorded (Owing (W := LoopState) row claims) where
  run _ := frame_owing
  connection _ _ ho := ho
  tracker _ ho := ho
  reopen _ := reopen_owing

/-- What a drain receives is written or given back. -/
theorem keeps_drainOwing (hdestructive : row.mode.isDestructive = true) :
    Keeps Recorded (Owing row []) (drain row receiver) := by
  have hq : QuietKeeps Recorded (Owing (W := LoopState) row []) := quietKeeps_loop reopenLoop_owing.run
  refine keeps_bind (keeps_when
    (keeps_bind (keeps_quietPerform hq rfl) fun _ => keeps_renewSessionIfNeeded hq receiver _))
    fun _ => Opens.bind (opens_receive _ _) fun drained => ?_
  refine closes_ite (fun _ => keeps_pure.closes fun _ _ ho => ho.forget) fun _ => closes_ite (fun _ => ?_)
    fun hmode => ?_
  · refine Keeps.before_close keeps_get (fun l => Closes.before_keep ?_ fun _ => keeps_pure) fun _ _ ho => ho.forget
    exact fun l h ho => wp_embed.mpr (closes_process drained _ l.run h ho)
  · intro l h ho
    have hlocks : row.mode.holdsLocks = true := by
      cases hrow : row.mode with
      | complete => rfl
      | deferCommit => rfl
      | receiveAndDelete => exact absurd hrow hmode
      | peek =>
        rw [hrow] at hdestructive
        cases hdestructive
    refine Wp.forM (fun rest (_ : LoopState) h => Owed row (claimsOf receiver rest) h) ?_ (fun _ _ ho => ho) ho
    intro message rest l₁ h₁ ho₁
    refine wp_embed.mpr ((closes_safeSettle (closes_settleCall hlocks rfl rfl) l₁.run h₁ ho₁).mono fun r s₂ h₂ ho₂ =>
      ?_)
    cases r with
    | error e => exact Owed.forget ho₂
    | ok _ => exact ho₂

theorem keeps_stopDrainOwing (hdestructive : row.mode.isDestructive = true) (failing : Bool) :
    Keeps Recorded (Owing row []) (stopDrain row receiver failing) := by
  have hq : QuietKeeps Recorded (Owing (W := LoopState) row []) := quietKeeps_loop reopenLoop_owing.run
  refine keeps_bind keeps_get fun l => ?_
  refine keeps_when (keeps_tryCatch (keeps_drainOwing hdestructive) fun error => ?_)
  exact keeps_ite (fun _ => keeps_ite (fun _ => keeps_quietNote hq rfl) fun _ => keeps_throw)
    fun _ => keeps_quietNote hq rfl

/-- A turn settles what it received at most once. -/
theorem turnSteps_owing (hdestructive : row.mode.isDestructive = true) :
    TurnSteps Recorded row (Owing row []) fun _ => Owing row [] where
  toReopenLoop := reopenLoop_owing
  raises _ _ _ ho := ho
  stopDrain receiver := (keeps_stopDrainOwing hdestructive false).upholds fun _ _ _ ho => ho
  batch receiver l h ho _ := by
    refine (opens_receive _ _ l h ho).mono fun r l₁ h₁ ho₁ => ?_
    cases r with
    | error e => exact ho₁
    | ok batch =>
      refine ⟨fun _ => Owed.forget ho₁, fun _ => ?_⟩
      have hprocess : ∀ generation, Wp Recorded (process row receiver batch generation) (fun r s h =>
          BatchEnds (fun _ => Owing row []) (fun _ => Owing row []) r ⟨s, { l₁.loop with emptyRetries := 0 }⟩ h) l₁.run
            h₁ := by
        refine fun generation => (closes_process batch generation l₁.run h₁ ho₁).mono fun r s h₂ ho₂ => ?_
        cases r with
        | error e => exact ho₂
        | ok _ => exact ho₂
      refine (wp_processBatch_of (fun _ => reopenLoop_owing) (fun _ => reopenLoop_owing)
        (fun _ _ => keeps_stopDrainOwing hdestructive true) (hprocess _)).mono fun r l₂ h₂ hend => ?_
      cases r with
      | error e => exact hend
      | ok result =>
        obtain ⟨l₃, ho₃, rfl⟩ := hend
        exact ho₃

end Loop

/-! ### The run -/

section Run

theorem tableFrame_owing : TableFrame Recorded row (Owing row claims) where
  toFrame := frame_owing
  seed _ _ _ ho := ho
  start _ _ ho := ho
  output _ _ _ ho := ho
  file e s h h' he hR ho := by
    obtain ⟨-, rfl⟩ := hR
    rcases e with ⟨c, a⟩ | n
    · cases c <;> first | exact he.elim | exact ho.still rfl
    · exact he.elim
  header _ _ _ _ _ _ hR ho := hR.2 ▸ ho.still rfl

theorem keeps_consumeRunOwing (hdestructive : row.mode.isDestructive = true) (turns : ℕ) :
    Keeps Recorded (Owing row []) (consumeRun row turns) := by
  have hF : Frame Recorded (Owing (W := RunState) row []) := frame_owing
  have hdeferred : DeferredKeeps Recorded (Owing (W := RunState) row []) := by
    rintro receiver seqs timeout a s h _ ⟨-, rfl⟩ ho
    exact ho.still rfl
  have hrecover : ∀ orphans, Keeps Recorded (InScan (Owing row [])) (recoverOrphans row orphans) := fun _ =>
    keeps_recoverOrphans_of (quietKeeps_inScan hF) (fun _ ho => ho) (fun _ => keeps_onScanRun keeps_modifyOwing)
      fun _ chunk _ => keeps_recoverChunkOwing chunk
  have hloop : Keeps Recorded (Owing row []) (runReceiveLoop row turns) :=
    fun s h ho => wp_embed.mpr ((turnSteps_owing hdestructive).keeps_receiveLoop turns _ h ho)
  refine keeps_bind ?_ fun _ => ?_
  · refine keeps_bind keeps_get fun _ => ?_
    exact keeps_bind (keeps_runCommit hF hdeferred _) fun _ => keeps_modifyOwing
  refine keeps_bind (keeps_ite (fun _ => keeps_runScan hF hrecover) fun _ => keeps_probe hF) fun _ => ?_
  exact keeps_bind (keeps_consumeEntity hF hloop) fun _ => keeps_pure

/-- A run that peeks needs no locks. -/
theorem pageFrame_owing (hmode : row.mode.holdsLocks = false) : PageFrame Recorded row (Owing row []) where
  toFrame := frame_owing
  toReopenFrame := reopen_owing
  unreadable _ ho := ho
  skip e s h h' he hR ho := by
    obtain ⟨-, rfl⟩ := hR
    rcases e with ⟨c, a⟩ | n
    · exact he.elim
    · exact ho.still rfl
  process receiver messages generation s h ho := closes_process messages generation s h (ho.unlocked hmode)

theorem keeps_peekRunOwing (hmode : row.mode.holdsLocks = false) (turns : ℕ) :
    Keeps Recorded (Owing row []) (peekRun row turns) := by
  refine keeps_bind keeps_get fun _ => ?_
  refine keeps_bind (keeps_when (keeps_warn frame_owing.toStillFrame _ _)) fun _ => ?_
  refine keeps_bind (keeps_runPeekPager (pageFrame_owing hmode) turns) fun cursor => ?_
  cases cursor with
  | none => exact keeps_pure
  | some cursor => exact keeps_bind keeps_modifyOwing fun _ => keeps_pure

theorem keeps_finishOwing : Keeps Recorded (Owing row []) (finish row) := by
  refine keeps_bind (keeps_projectedState frame_owing.toStillFrame row) fun _ => ?_
  refine keeps_bind (keeps_owingCall rfl) fun _ => ?_
  refine keeps_bind (keeps_owingPerform rfl) fun _ => ?_
  refine keeps_bind keeps_modifyOwing fun _ => ?_
  refine keeps_bind keeps_get fun _ => ?_
  exact keeps_when (keeps_warn frame_owing.toStillFrame _ _)

theorem keeps_runOwing (turns : ℕ) : Keeps Recorded (Owing row []) (Component.run row turns) := by
  have hextract : Keeps Recorded (Owing row []) (extract row turns) := by
    refine keeps_ite (fun hdestructive => keeps_consumeRunOwing hdestructive turns)
      fun hpeek => keeps_peekRunOwing ?_ turns
    cases hrow : row.mode with
    | peek => rfl
    | receiveAndDelete => rfl
    | complete => simp [hrow, SettlementMode.isDestructive] at hpeek
    | deferCommit => simp [hrow, SettlementMode.isDestructive] at hpeek
  refine keeps_bind (keeps_startRun tableFrame_owing) fun _ => ?_
  refine keeps_bind (keeps_withOutput tableFrame_owing hextract) fun r => ?_
  cases r with
  | none => exact keeps_pure
  | some _ => exact keeps_bind keeps_finishOwing fun _ => keeps_pure

end Run

/-- In every run, whatever fails: a call that completes, defers, abandons or dead-letters a message, or renews its
lock, is made in a mode that holds locks, on a receiver that was handed the message, and more often than the message
was settled there before. -/
theorem settled_within_deliveries (row : Row) (turns : ℕ) (state : ExtractorState) {es : Trace sdk}
    {r : Except Exn (Option Unit)} {s' : RunState} (hrun : Prog.Exec (Component.run row turns) (.start state) es r s') :
    Always (HasLock row) es := by
  have hend := wp_logged.mp (keeps_runOwing turns (.start state) [] owed_nil) es r s' hrun fun _ _ => trivial
  exact Owed.held hend

/-- A message that is delivered again is settled again. -/
theorem settled_within_deliveries_again :
    let es := scripted (Component.run completeRow 8) (.start {})
      { receives := [.ok [{ sequenceNumber := 1 }, { sequenceNumber := 2 }], .ok [{ sequenceNumber := 1 }]] }
    settlements es = [(4, 1), (4, 2), (4, 1)] ∧ Always (HasLock completeRow) es :=
  ⟨by decide +kernel, settled_within_deliveries completeRow 8 {} (exec_scripted _ _ _)⟩

end ServiceBusExtractor
