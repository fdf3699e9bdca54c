import ServiceBusExtractor.Budgets
import ServiceBusExtractor.RunFrame

/-!
# The budgets along a run

Between two turns of the loop every first failure was on an earlier connection: a
batch that asked for a fresh one gets it before the next receive, and a failure of
the connection opens one as well.

## The model

* `DraftBooks`, `BatchBooks` — the books while a batch is mapped, and what it ends with.
* `Live` — the books between two turns of the loop.

## What is proved

* `wp_process_budgets`, `wp_recycle`, `wp_recover` — batches and reopenings keep the
  books;
* `retry_budgets` — so does every run of the loop that a run reaches.
-/

namespace ServiceBusExtractor

open Interaction

/-! ### One batch -/

section Batch

variable {row : Row} {left : List ℤ} {tracker : RecoveryTracker} {batch : Handout} {s : RunState} {h : Trace sdk}

/-- The books while a batch is mapped. -/
structure DraftBooks (row : Row) (left : List ℤ) (tracker : RecoveryTracker) (batch : Handout) (draft : Draft)
    (s : RunState) (h : Trace sdk) :
    Prop extends Underway row left tracker batch s h where
  settled : draft.retried = [] → FailedEarlier tracker s
  retried : draft.retried ≠ [] → batch.recycles < maxUnreadableRecycles
  disposed : draft.disposed = true → ProgressSince left h

theorem stillFrame_drafted {draft : Draft} : StillFrame Recorded (DraftBooks row left tracker batch draft) where
  stats stats hsame hI := { hI with toUnderway := stillFrame_underway.stats stats hsame hI.toUnderway }
  still := by
    rintro e s h _ he ⟨-, rfl⟩ hI
    exact { hI with
      toUnderway := stillFrame_underway.still e s h _ he ⟨trivial, rfl⟩ hI.toUnderway
      disposed := fun hd => (hI.disposed hd).event (recoveries_of_aside (aside_of_quiet (quiet_of_still he))) }

/-- What mapping says of a body that has no row. -/
theorem returns_toRow {B : Type} {R : Event sdk → B → B → Prop} (m : Message) (t : Time) :
    Returns R (fun mapped => ∀ error, mapped = .error error → (error.reason = .unreadableBody ↔ Undecodable row m))
      (toRow row m t) := by
  intro s b
  rw [toRow, wp_bind, wp_get, onOk_ok]
  dsimp only
  rw [wp_bind, wp_modify, onOk_ok, wp_ofExcept]
  rintro _ hmap error rfl
  exact undecodable_iff hmap

/-- The result of mapping a message of the batch. -/
def MapEnd (row : Row) (left : List ℤ) (tracker : RecoveryTracker) (batch : Handout) :
    Except Exn Draft → RunState → Trace sdk → Prop
  | .ok draft, s, h => DraftBooks row left tracker batch draft s h
  | .error _, s, h => Underway row left tracker batch s h

/-- Mapping one message of the batch. -/
theorem wp_mapMessage_budgets (hdestructive : row.mode.isDestructive = true) (receiver : Handle) (t : Time)
    {draft : Draft} {m : Message} (hm : m ∈ batch.messages) (hI : DraftBooks row left tracker batch draft s h) :
    Wp Recorded (mapMessage row receiver t tracker.generation draft m) (MapEnd row left tracker batch) s h := by
  have herr : ∀ (e : Exn) s h, DraftBooks row left tracker batch draft s h →
      MapEnd row left tracker batch (.error e) s h :=
    fun _ _ _ hI => hI.toUnderway
  refine (keeps_tally stillFrame_drafted _).wp_bind hI (fun _ s₁ h₁ hI₁ => ?_) herr
  have hrow : Keeps Recorded (DraftBooks row left tracker batch draft) (toRow row m t) :=
    keeps_toRow (I := DraftBooks row left tracker batch draft) (fun _ _ hI => { hI with }) m t
  refine wp_bind.mpr (((hrow s₁ h₁ hI₁).and (returns_toRow m t s₁ h₁)).mono ?_)
  rintro r s₂ h₂ ⟨hI₂, hmapped⟩
  cases r with
  | error e => exact herr e s₂ h₂ hI₂
  | ok mapped =>
    rw [onOk_ok]
    rcases mapped with error | ⟨output, bodyBytes⟩
    · have hbody := hmapped _ rfl error rfl
      have hhandle := wp_handleUnreadable_budgets hdestructive receiver error hm hbody hI₂.toUnderway
      refine wp_bind.mpr ((hhandle.and wp_extends).mono ?_)
      rintro r s₃ h₃ ⟨⟨hI₃, hend⟩, hgrown⟩
      cases r with
      | error e => exact hI₃
      | ok action =>
        obtain ⟨hverdict, hretry⟩ := hend action rfl
        refine wp_ite.mpr ⟨fun hact => wp_pure.mpr ?_, fun hact => wp_pure.mpr ?_⟩
        · exact {
            toUnderway := hI₃
            settled := fun hnil => absurd hnil (by simp)
            retried := fun _ => hretry hact
            disposed := fun hd => hI₂.progressSince hI₃.toBudgets hgrown (hI₂.disposed hd) }
        · obtain ⟨hfirst, hp⟩ := hverdict hact
          refine { toUnderway := hI₃, settled := fun hnil => ?_, retried := hI₂.retried, disposed := fun _ => hp }
          unfold FailedEarlier
          rw [hfirst]
          exact hI₂.settled hnil
    · exact wp_pure.mpr { hI₂ with }

theorem aside_of_settle {e : Event sdk} (he : SettleEvent e) : isAside e = true := by
  rcases e with ⟨c, r⟩ | n
  · rfl
  · exact he.elim

theorem receive_not_settle {e : Event sdk} (he : SettleEvent e) : isReceive e = false := by
  rcases e with ⟨c, r⟩ | n
  · cases c <;> first | rfl | exact he.elim
  · rfl

/-- What a batch ends with: the books and what its result says of them, or the books and an error. -/
def BatchBooks (row : Row) (left : List ℤ) (tracker : RecoveryTracker) (written : ℕ) :
    Except Exn BatchResult → RunState → Trace sdk → Prop
  | .ok result, s, h => Budgets row left tracker s h ∧
    (written < s.stats.written ∨ result.progressed = true → ProgressSince left h) ∧
    (result.needsRecycle = false → FailedEarlier tracker s) ∧
      (result.needsRecycle = true → recycles h < maxUnreadableRecycles)
  | .error _, s, h => Budgets row left tracker s h ∧ (written < s.stats.written → ProgressSince left h)

theorem DraftBooks.event {draft : Draft} (hI : DraftBooks row left tracker batch draft s h) {e : Event sdk}
    (he : isAside e = true) (hreceive : isReceive e = false) : DraftBooks row left tracker batch draft s (h ++ [e]) :=
  { hI with
    toUnderway := hI.toUnderway.event he hreceive
    disposed := fun hd => (hI.disposed hd).event (recoveries_of_aside he) }

/-- Writing the rows of a batch is progress. -/
theorem wp_writeRows_budgets {draft : Draft} (rows : List OutputRow)
    (hI : DraftBooks row left tracker batch draft s h) :
    Wp Recorded (writeRows row rows) (fun r s h => DraftBooks row left tracker batch draft s h ∧
      (r = .ok () → ProgressSince left h)) s h := by
  rw [writeRows, wp_bind, wp_get, onOk_ok, wp_bind, wp_when]
  refine ⟨fun _ => wp_throw.mpr ⟨hI, by rintro ⟨⟩⟩, fun _ => ?_⟩
  rw [onOk_ok, wp_bind, wp_ofExcept]
  cases rows.mapM (rowRecord row s.registry) with
  | error e => exact ⟨hI, by rintro ⟨⟩⟩
  | ok records =>
    rw [onOk_ok, wp_request]
    rintro reply _ ⟨-, rfl⟩
    refine ⟨hI.event rfl rfl, fun hok => ?_⟩
    cases reply with
    | error e => cases hok
    | ok _ => exact progressSince_last trivial

/-- The books once the rows of a batch are written. -/
def Delivering (row : Row) (left : List ℤ) (tracker : RecoveryTracker) (batch : Handout) (draft : Draft) (s : RunState)
    (h : Trace sdk) : Prop :=
  DraftBooks row left tracker batch draft s h ∧ (draft.rows ≠ [] → ProgressSince left h)

theorem Delivering.event {draft : Draft} (hI : Delivering row left tracker batch draft s h) {e : Event sdk}
    (he : isAside e = true) (hreceive : isReceive e = false) : Delivering row left tracker batch draft s (h ++ [e]) :=
  ⟨hI.1.event he hreceive, fun hne => (hI.2 hne).event (recoveries_of_aside he)⟩

theorem stillFrame_delivering {draft : Draft} : StillFrame Recorded (Delivering row left tracker batch draft) where
  stats stats hsame hI := ⟨stillFrame_drafted.stats stats hsame hI.1, hI.2⟩
  still := by
    rintro e s h _ he ⟨-, rfl⟩ hI
    exact hI.event (aside_of_quiet (quiet_of_still he)) (receive_not_still he)

/-- The rows of a batch are written, where it has some. -/
theorem wp_writeDraft_budgets {draft : Draft} (hI : DraftBooks row left tracker batch draft s h) :
    Wp Recorded (Prog.when (draft.rows ≠ []) (do
        writeRows row draft.rows
        tally fun stats => { stats with written := stats.written + draft.rows.length }))
      (fun r s h => Underway row left tracker batch s h ∧
        (r = .ok () → Delivering row left tracker batch draft s h)) s h := by
  rw [wp_when]
  refine ⟨fun _ => ?_, fun hnone => ⟨hI.toUnderway, fun _ => ⟨hI, fun hne => absurd hne hnone⟩⟩⟩
  refine wp_bind.mpr ((wp_writeRows_budgets draft.rows hI).mono ?_)
  rintro r s₁ h₁ ⟨hI₁, hp⟩
  cases r with
  | error e => exact ⟨hI₁.toUnderway, by rintro ⟨⟩⟩
  | ok _ =>
    have hI₂ : DraftBooks row left tracker batch draft
        { s₁ with stats := { s₁.stats with written := s₁.stats.written + draft.rows.length } } h₁ :=
      { hI₁ with wrote := fun _ => hp rfl }
    exact wp_modify.mpr ⟨hI₂.toUnderway, fun _ => ⟨hI₂, fun _ => hp rfl⟩⟩

/-- A batch keeps the books. -/
theorem wp_process_budgets (hdestructive : row.mode.isDestructive = true) (receiver : Handle)
    (hI : Underway row left tracker batch s h) (hsettled : FailedEarlier tracker s) :
    Wp Recorded (process row receiver batch.messages tracker.generation)
      (BatchBooks row left tracker batch.written) s h := by
  have herr : ∀ (e : Exn) s h, Underway row left tracker batch s h →
      BatchBooks row left tracker batch.written (.error e) s h := fun _ _ _ hI => ⟨hI.toBudgets, hI.wrote⟩
  have hempty : DraftBooks row left tracker batch {} s h := {
    toUnderway := hI
    settled := fun _ => hsettled
    retried := fun hne => absurd rfl hne
    disposed := fun hd => absurd hd Bool.false_ne_true }
  have hclock : Keeps Recorded (DraftBooks row left tracker batch {}) (utcNow : Run Time) :=
    keeps_stillPerform stillFrame_drafted.still fun _ => trivial
  rw [process]
  refine hclock.wp_bind hempty (fun t s₁ h₁ hI₁ => ?_) fun e s₁ h₁ hI₁ => herr e s₁ h₁ hI₁.toUnderway
  have hmapping : Wp Recorded (batch.messages.foldlM (mapMessage row receiver t tracker.generation) {})
      (MapEnd row left tracker batch) s₁ h₁ := by
    refine Wp.foldlM (fun rest draft s h => rest <:+ batch.messages ∧ DraftBooks row left tracker batch draft s h) ?_
      (fun draft s h hI => hI.2) ⟨List.suffix_refl _, hI₁⟩
    rintro m rest draft s h ⟨hrest, hI⟩
    refine (wp_mapMessage_budgets hdestructive receiver t (hrest.subset (by simp)) hI).mono fun r s' h' hend => ?_
    cases r with
    | error e => exact hend
    | ok draft' => exact ⟨(List.suffix_cons m rest).trans hrest, hend⟩
  refine wp_bind.mpr (hmapping.mono fun r s₂ h₂ hI₂ => ?_)
  cases r with
  | error e => exact herr e s₂ h₂ hI₂
  | ok draft =>
    rw [onOk_ok]
    refine wp_bind.mpr ((wp_writeDraft_budgets hI₂).mono ?_)
    rintro r s₃ h₃ ⟨hI₃, hdelivering⟩
    cases r with
    | error e => exact herr e s₃ h₃ hI₃
    | ok _ =>
      have hsettle : ∀ m bodyBytes, Keeps Recorded (Delivering row left tracker batch draft)
          (settle row receiver m bodyBytes) := by
        refine keeps_settle_of_calls stillFrame_delivering ?_ (fun _ _ hI => ⟨{ hI.1 with }, hI.2⟩)
          (fun _ hI => ⟨{ hI.1 with }, hI.2⟩) receiver
        rintro e s h _ he ⟨-, rfl⟩ hI
        exact hI.event (aside_of_settle he) (receive_not_settle he)
      have hraise : Keeps Recorded (Delivering row left tracker batch draft) raiseAfterBatch :=
        keeps_raiseAfterBatch fun hI => ⟨{ hI.1 with }, hI.2⟩
      have herr' : ∀ (e : Exn) s h, Delivering row left tracker batch draft s h →
          BatchBooks row left tracker batch.written (.error e) s h := fun e s h hI => herr e s h hI.1.toUnderway
      rw [onOk_ok]
      refine (keeps_forM fun readable _ => hsettle readable.1 readable.2).wp_bind (hdelivering rfl)
        (fun _ s₄ h₄ hI₄ => ?_) herr'
      refine hraise.wp_bind hI₄ (fun _ s₅ h₅ hI₅ => wp_pure.mpr ⟨hI₅.1.toBudgets, ?_, ?_, ?_⟩) herr'
      · rintro (hw | hprogressed)
        · exact hI₅.1.wrote hw
        · rw [Bool.or_eq_true, decide_eq_true_eq] at hprogressed
          exact hprogressed.elim hI₅.2 hI₅.1.disposed
      · intro hnot
        exact hI₅.1.settled (by simpa using hnot)
      · intro hneeds
        rw [hI₅.1.unspent]
        exact hI₅.1.retried (of_decide_eq_true hneeds)

end Batch

/-! ### The loop -/

/-- The books of a loop; what its rows are progress for began with `written` rows. -/
def LoopBooks (row : Row) (left : List ℤ) (written : ℕ) (l : LoopState) (h : Trace sdk) : Prop :=
  Budgets row left l.loop.tracker l.run h ∧ (written < l.run.stats.written → ProgressSince left h)

/-- The books between two turns. -/
def Live (row : Row) (left : List ℤ) (l : LoopState) (h : Trace sdk) : Prop :=
  Budgets row left l.loop.tracker l.run h ∧ FailedEarlier l.loop.tracker l.run

section Loop

variable {row : Row} {left : List ℤ} {written : ℕ} {l : LoopState} {h : Trace sdk}

theorem loopFrame_loopBooks : LoopFrame Recorded (LoopBooks row left written) where
  run loop := {
    stats := fun stats hsame hI =>
      ⟨{ hI.1 with recycled := hsame.2.2.trans hI.1.recycled }, fun hw => hI.2 (hsame.2.1 ▸ hw)⟩
    guarded := fun _ hI => ⟨{ hI.1 with }, hI.2⟩
    info := fun _ hI => ⟨{ hI.1 with }, hI.2⟩
    quiet := by
      rintro e s h _ he ⟨-, rfl⟩ hI
      exact ⟨hI.1.event (aside_of_quiet he), fun hw => (hI.2 hw).event (recoveries_of_aside (aside_of_quiet he))⟩ }
  connection := by
    rintro l h loop ⟨-, -, -, htracker⟩ hI
    refine ⟨?_, hI.2⟩
    show Budgets row left loop.tracker l.run h
    rw [htracker]
    exact hI.1

theorem loopFrame_budgets : LoopFrame Recorded fun l h => Budgets row left l.loop.tracker l.run h where
  run loop := {
    stats := fun stats hsame hI => { hI with recycled := hsame.2.2.trans hI.recycled }
    guarded := fun _ hI => { hI with }
    info := fun _ hI => { hI with }
    quiet := by
      rintro e s h _ he ⟨-, rfl⟩ hI
      exact hI.event (aside_of_quiet he) }
  connection := by
    rintro l h loop ⟨-, -, -, htracker⟩ hI
    show Budgets row left loop.tracker l.run h
    rw [htracker]
    exact hI

theorem loopFrame_live : LoopFrame Recorded (Live row left) := by
  refine loopFrame_budgets.and {
    run := fun loop => { stats := fun _ _ hI => hI, info := fun _ hI => hI, quiet := fun _ _ _ _ _ _ hI => hI }
    connection := ?_ }
  rintro l h loop ⟨-, -, -, htracker⟩ hI
  show FailedEarlier loop.tracker l.run
  rw [htracker]
  exact hI

/-- A fresh connection for the unreadable bodies of a batch. -/
theorem wp_recycle (hI : Budgets row left l.loop.tracker l.run h) (hspent : recycles h < maxUnreadableRecycles) :
    Wp Recorded recycle (Ends (Live row left) fun _ l h => Budgets row left l.loop.tracker l.run h) l h := by
  have hunspent : LoopFrame Recorded fun (_ : LoopState) h => recycles h < maxUnreadableRecycles := {
    run := fun loop => {
      stats := fun _ _ hs => hs
      info := fun _ hs => hs
      quiet := by
        rintro e s h _ he ⟨-, rfl⟩ hs
        rw [recycles_concat_aside (aside_of_quiet he)]
        exact hs }
    connection := fun _ _ hs => hs }
  refine (keeps_close (loopFrame_budgets.and hunspent) true).wp_bind ⟨hI, hspent⟩ (fun _ l₁ h₁ hI₁ => ?_)
    fun e l₁ h₁ hI₁ => hI₁.1
  obtain ⟨hI₁, hspent₁⟩ := hI₁
  rw [wp_bind, updateLoop, wp_modify, onOk_ok, wp_bind, onRun, wp_embed, tally, wp_modify, onOk_ok, wp_note]
  rintro _ ⟨-, rfl⟩
  have hsettled : FailedEarlier l₁.loop.tracker.unreadableRetry l₁.run := hI₁.settled_succ rfl
  exact ⟨hI₁.recycle hspent₁, hsettled⟩

/-- A recovery needs progress since the last one, and room in the budget. -/
theorem failure_ok {tracker tracker' : RecoveryTracker} {error : Exn} (hok : tracker.failure row error = .ok tracker') :
    tracker.count < maxRecoveries ∧ tracker.progressed = true ∧ tracker' = tracker.recovered := by
  have hgo : ∀ {e : Exn}, (if tracker.count ≥ maxRecoveries ∨ tracker.progressed = false then .error e
      else .ok tracker.recovered : Except Exn RecoveryTracker) = .ok tracker' →
        tracker.count < maxRecoveries ∧ tracker.progressed = true ∧ tracker' = tracker.recovered := by
    intro e he
    split at he
    · cases he
    · rename_i hnot
      cases he
      refine ⟨by omega, ?_, rfl⟩
      by_contra hp
      exact hnot (.inr (by simpa using hp))
  unfold RecoveryTracker.failure at hok
  dsimp only at hok
  split at hok
  · cases hok
  · split at hok
    · exact hgo hok
    · split at hok
      · cases hok
      · exact hgo hok

/-- A failure of the connection is counted, or raised. -/
theorem wp_recover (error : Exn) (hI : Budgets row left l.loop.tracker l.run h) :
    Wp Recorded (recover row error)
      (Ends (Live row left) fun _ l h => Budgets row left l.loop.tracker l.run h) l h := by
  refine (keeps_close loopFrame_budgets true).wp_bind hI (fun _ l₁ h₁ hI₁ => ?_) fun e l₁ h₁ hI₁ => hI₁
  rw [wp_bind, wp_get, onOk_ok, wp_bind, wp_ofExcept]
  cases hfailure : l₁.loop.tracker.failure row error with
  | error e => exact hI₁
  | ok tracker =>
    obtain ⟨hcount, hprogressed, rfl⟩ := failure_ok hfailure
    rw [onOk_ok, wp_bind, updateLoop, wp_modify, onOk_ok, wp_bind, onRun, wp_embed, tally, wp_modify, onOk_ok,
      logRecovery,
      wp_bind, wp_note]
    rintro _ ⟨-, rfl⟩
    rw [onOk_ok, wp_note]
    rintro _ ⟨-, rfl⟩
    have hsettled : FailedEarlier l₁.loop.tracker.recovered l₁.run := hI₁.settled_succ rfl
    refine ⟨Budgets.event (hI₁.recover hcount hprogressed ?_) rfl, hsettled⟩
    exact ⟨rfl, rfl, rfl⟩

/-- The books with a batch that was just handed out. -/
def HandedOut (row : Row) (left : List ℤ) (written : ℕ) (messages : List Message) (l : LoopState) (h : Trace sdk) :
    Prop :=
  LoopBooks row left written l h ∧ FailedEarlier l.loop.tracker l.run ∧
    Underway row left l.loop.tracker ⟨messages, l.run.stats.written, recycles h⟩ l.run h

theorem HandedOut.event {messages : List Message} (hI : HandedOut row left written messages l h) {e : Event sdk}
    (he : isAside e = true) (hreceive : isReceive e = false) : HandedOut row left written messages l (h ++ [e]) := by
  obtain ⟨⟨hbooks, hp⟩, hsettled, hunder⟩ := hI
  refine ⟨⟨hbooks.event he, fun hw => (hp hw).event (recoveries_of_aside he)⟩, hsettled, ?_⟩
  rw [recycles_concat_aside he]
  exact hunder.event he hreceive

/-- A receive hands out a batch, or it raises and the books are what they were. -/
theorem wp_receive_live (receiver : Handle) (count : ℕ) (wait : ℤ) (hI : LoopBooks row left written l h)
    (hsettled : FailedEarlier l.loop.tracker l.run) : Wp Recorded (receive row receiver count wait) (fun r l' h' =>
      LoopBooks row left written l' h' ∧ ∀ messages, r = .ok messages →
        HandedOut row left written messages l' h') l h := by
  rw [receive, wp_bind, updateLoop, wp_modify, onOk_ok, wp_bind, receiveMessages, wp_request]
  rintro reply _ ⟨-, rfl⟩
  cases reply with
  | error e =>
    refine ⟨⟨hI.1.event rfl, fun hw => (hI.2 hw).event rfl⟩, ?_⟩
    rintro _ ⟨⟩
  | ok messages =>
    have hout : HandedOut row left written messages l
        (h ++ [.call (.receiveMessages receiver count wait) (.ok messages)]) := by
      refine ⟨⟨hI.1.event rfl, fun hw => (hI.2 hw).event rfl⟩, hsettled, ?_⟩
      rw [recycles_concat_aside rfl]
      exact hI.1.underway hsettled
    have harm : ∀ loop, Keeps Recorded (fun s h => HandedOut row left written messages ⟨s, loop⟩ h) armWriteAlways := by
      refine fun loop => keeps_armWriteAlways (fun _ _ hI => ⟨⟨{ hI.1.1 with }, hI.1.2⟩, hI.2.1, { hI.2.2 with }⟩) ?_
      rintro definition reply s h _ ⟨-, rfl⟩ hI
      exact hI.event rfl rfl
    have hkeeps : Keeps Recorded (HandedOut row left written messages) (do
        onRun armWriteAlways
        updateLoop fun loop => { loop with armed := true }) :=
      keeps_bind (keeps_onRun harm) fun _ => keeps_modify fun _ _ hI => ⟨⟨hI.1.1, hI.1.2⟩, hI.2.1, hI.2.2⟩
    rw [sdkResult_ok, onOk_ok, wp_bind, onRun, wp_embed, wp_modify, onOk_ok, wp_bind, wp_get, onOk_ok]
    refine (keeps_when hkeeps).wp_bind ?_ (fun _ l' h' hI' => wp_pure.mpr ⟨hI'.1, ?_⟩)
      fun e l' h' hI' => ⟨hI'.1, by rintro _ ⟨⟩⟩
    · exact ⟨⟨{ hout.1.1 with }, hout.1.2⟩, hout.2.1, { hout.2.2 with }⟩
    · rintro _ ⟨⟩
      exact hI'

/-- Where messages are deleted on receive, nothing asks for a fresh connection. -/
theorem Budgets.settled_of_delete (hI : Budgets row left l.loop.tracker l.run h)
    (hdelete : row.mode = .receiveAndDelete) :
    FailedEarlier l.loop.tracker l.run := by
  intro q g hq
  rw [hI.deleted (by rw [hdelete]; rfl)] at hq
  cases hq

/-- Draining the buffer keeps the books. -/
theorem keeps_stopDrain_budgets (hdestructive : row.mode.isDestructive = true) (receiver : Handle) (failing : Bool) :
    Keeps Recorded (LoopBooks row left written) (stopDrain row receiver failing) := by
  have hF : LoopFrame Recorded (LoopBooks row left written) := loopFrame_loopBooks
  have hq := quietKeeps_loop hF.run
  have hcall : ∀ {e : Event sdk} {l h}, isAside e = true → LoopBooks row left written l h →
      LoopBooks row left written l (h ++ [e]) :=
    fun he hI => ⟨hI.1.event he, fun hw => (hI.2 hw).event (recoveries_of_aside he)⟩
  by_cases hdelete : row.mode = .receiveAndDelete
  · have hdrain : Keeps Recorded (LoopBooks row left written) (drain row receiver) := by
      refine keeps_bind (keeps_when (keeps_bind (keeps_quietPerform hq rfl) fun _ =>
        keeps_renewSessionIfNeeded hq receiver _)) fun _ l h hI => ?_
      refine wp_bind.mpr ((wp_receive_live receiver _ _ hI (hI.1.settled_of_delete hdelete)).mono ?_)
      rintro r l₁ h₁ ⟨hI₁, hhanded⟩
      cases r with
      | error e => exact hI₁
      | ok drained =>
        obtain ⟨-, hsettled, hunder⟩ := hhanded drained rfl
        rw [onOk_ok, wp_ite]
        refine ⟨fun _ => wp_pure.mpr hI₁, fun _ => wp_ite.mpr ⟨fun _ => ?_, fun hno => absurd hdelete hno⟩⟩
        rw [wp_bind, wp_get, onOk_ok, wp_bind, onRun, wp_embed]
        refine ((wp_process_budgets hdestructive receiver hunder hsettled).and wp_extends).mono ?_
        -- rows written before the drain were progress then, others are progress now
        rintro r s h₂ ⟨hbooks, hgrown⟩
        have hbudgets : Budgets row left l₁.loop.tracker s h₂ := by
          cases r with
          | error e => exact hbooks.1
          | ok _ => exact hbooks.1
        have hdrained : l₁.run.stats.written < s.stats.written → ProgressSince left h₂ := by
          cases r with
          | error e => exact hbooks.2
          | ok _ => exact fun hw => hbooks.2.1 (.inl hw)
        have hend : LoopBooks row left written { l₁ with run := s } h₂ := by
          refine ⟨hbudgets, fun hw => ?_⟩
          by_cases hbefore : written < l₁.run.stats.written
          · exact hI₁.1.progressSince hbudgets hgrown (hI₁.2 hbefore)
          · exact hdrained (Nat.lt_of_le_of_lt (Nat.le_of_not_lt hbefore) hw)
        cases r with
        | error e => exact hend
        | ok _ => exact wp_pure.mpr hend
    refine keeps_bind keeps_get fun l => keeps_when (keeps_tryCatch hdrain fun error => ?_)
    exact keeps_ite (fun _ => keeps_ite (fun _ => keeps_quietNote hq rfl) fun _ => keeps_throw)
      fun _ => keeps_quietNote hq rfl
  · refine keeps_stopDrain_locked hF hdelete ?_ ?_ receiver failing
    · rintro receiver count wait reply l h _ ⟨-, rfl⟩ hI
      exact hcall rfl hI
    · rintro receiver message reply l h _ ⟨-, rfl⟩ hI
      exact hcall rfl hI

/-- What is left to do after a batch. -/
def BatchDone (row : Row) (left : List ℤ) (result : BatchResult) (l : LoopState) (h : Trace sdk) : Prop :=
  Budgets row left l.loop.tracker l.run h ∧ (result.needsRecycle = false → FailedEarlier l.loop.tracker l.run) ∧
    (result.needsRecycle = true → recycles h < maxUnreadableRecycles)

/-- The same before the loop notes its progress. -/
def BatchOkay (row : Row) (left : List ℤ) (written : ℕ) (result : BatchResult) (l : LoopState) (h : Trace sdk) : Prop :=
  BatchDone row left result l h ∧ (written < l.run.stats.written ∨ result.progressed = true → ProgressSince left h)

/-- A batch of the loop keeps the books. -/
theorem wp_processBatch_budgets (hdestructive : row.mode.isDestructive = true) (receiver : Handle)
    {messages : List Message} (hI : HandedOut row left written messages l h) :
    Wp Recorded (processBatch row receiver messages)
      (BatchEnds (BatchDone row left) fun _ l h => Budgets row left l.loop.tracker l.run h) l h := by
  have hprocess : Wp Recorded (process row receiver messages l.loop.tracker.generation) (fun r s h =>
      BatchEnds (BatchOkay row left l.run.stats.written) (fun _ => LoopBooks row left l.run.stats.written) r
        ⟨s, l.loop⟩ h)
      l.run h := by
    refine (wp_process_budgets hdestructive receiver hI.2.2 hI.2.1).mono fun r s h' hbooks => ?_
    cases r with
    | error e => exact hbooks
    | ok result => exact ⟨⟨hbooks.1, hbooks.2.2⟩, hbooks.2.1⟩
  have hnoted : ∀ {l' : LoopState} {h'}, Budgets row left l'.loop.tracker l'.run h' → ProgressSince left h' →
      Budgets row left l'.progressed.loop.tracker l'.run h' := fun hI hp => { hI with progress := fun _ => hp }
  have hbatch := @wp_processBatch_with _ _ row (BatchOkay row left l.run.stats.written)
    (fun _ => LoopBooks row left l.run.stats.written) receiver messages l h
    (fun result l' h' hp hI => ⟨⟨hnoted hI.1.1 (hI.2 hp), hI.1.2⟩, hI.2⟩)
    (fun e l' h' hw hI => ⟨hnoted hI.1 (hI.2 hw), hI.2⟩)
    (fun e _ => keeps_stopDrain_budgets hdestructive receiver true) hprocess
  refine hbatch.mono fun r l' h' hend => ?_
  cases r with
  | error e => exact hend.1
  | ok result =>
    obtain ⟨l₀, hokay, rfl⟩ := hend
    exact hokay.1

/-- The reasons after which the loop may go on to poll for the messages of interrupted batches. -/
def MayCatchUp (reason : StopReason) : Prop := reason = .idle ∨ reason = .noMoreSessions

/-- What a turn ends with. -/
def TurnEnd (row : Row) (left : List ℤ) (c : Option Time) :
    Except Exn (Option StopReason) → LoopState → Trace sdk → Prop
  | .error _, l, h => Budgets row left l.loop.tracker l.run h
  | .ok none, l, h => Live row left l h
  | .ok (some reason), l, h => Budgets row left l.loop.tracker l.run h ∧
    (c = none → MayCatchUp reason → Live row left l h)

theorem Live.turnEnd {c : Option Time} (hI : Live row left l h) (r : Except Exn (Option StopReason)) :
    TurnEnd row left c r l h := by
  rcases r with e | _ | reason
  · exact hI.1
  · exact hI
  · exact ⟨hI.1, fun _ _ => hI⟩

/-- The stop check names no reason to catch up, as long as the loop is not catching up. -/
theorem returns_stopCheck_catchUp : Returns Recorded (fun stop => ∀ reason, stop = some reason → ¬ MayCatchUp reason)
    (stopCheck row none) := by
  have hsome : ∀ {reason : StopReason}, ¬ MayCatchUp reason →
      Returns Recorded (fun stop => ∀ reason, stop = some reason → ¬ MayCatchUp reason)
        (pure (some reason) : Loop (Option StopReason)) := by
    intro reason hno
    refine returns_pure ?_
    rintro _ ⟨⟩
    exact hno
  refine returns_bind fun l => returns_ite (fun _ => hsome (by simp [MayCatchUp])) fun _ => returns_bind fun now =>
    returns_ite (fun _ => hsome (by simp [MayCatchUp])) fun _ => returns_bind fun exceeded =>
      returns_ite (fun _ => returns_bind fun _ => hsome (by simp [MayCatchUp])) fun _ => returns_pure ?_
  rintro _ ⟨⟩

/-- A stop drain keeps the budgets. -/
theorem keeps_drain_budgets (hdestructive : row.mode.isDestructive = true) (receiver : Handle) :
    Keeps Recorded (fun l h => Budgets row left l.loop.tracker l.run h) (stopDrain row receiver false) := by
  intro l h hI
  have hbooks : LoopBooks row left l.run.stats.written l h := ⟨hI, fun hw => absurd hw (Nat.lt_irrefl _)⟩
  exact (keeps_stopDrain_budgets hdestructive receiver false l h hbooks).mono fun _ _ _ hI' => hI'.1

theorem wp_onWatermark_budgets (hdestructive : row.mode.isDestructive = true) (hsessions : row.sessions = false)
    (receiver : Handle) (c : Option Time) (hI : Budgets row left l.loop.tracker l.run h) :
    Wp Recorded (onWatermark row receiver) (TurnEnd row left c) l h := by
  rw [onWatermark, wp_bind, wp_get, onOk_ok]
  refine (keeps_when (keeps_onRun_warn loopFrame_budgets.run _ _)).wp_bind hI (fun _ l₁ h₁ hI₁ => ?_) fun _ _ _ hI₁ =>
    hI₁
  refine (keeps_drain_budgets hdestructive receiver).wp_bind hI₁ (fun _ l₂ h₂ hI₂ => ?_) fun _ _ _ hI₂ => hI₂
  rw [hsessions, if_neg Bool.false_ne_true, wp_pure]
  exact ⟨hI₂, fun _ hmay => absurd hmay (by simp [MayCatchUp])⟩

/-- Receiving a batch and processing it. -/
theorem wp_receiveTurn_budgets (hdestructive : row.mode.isDestructive = true) (hsessions : row.sessions = false)
    (receiver : Handle) (c : Option Time) (hI : Live row left l h) :
    Wp Recorded (receiveTurn row receiver c) (TurnEnd row left c) l h := by
  have hbooks : LoopBooks row left l.run.stats.written l h := ⟨hI.1, fun hw => absurd hw (Nat.lt_irrefl _)⟩
  have hno : ¬ row.sessions = true := by
    rw [hsessions]
    exact Bool.false_ne_true
  rw [receiveTurn, Prog.when, if_neg hno, wp_bind, wp_pure, onOk_ok, wp_bind, wp_get, onOk_ok, wp_bind]
  refine (wp_receive_live receiver _ _ hbooks hI.2).mono ?_
  rintro r l₁ h₁ ⟨hI₁, hhanded⟩
  cases r with
  | error e => exact hI₁.1
  | ok batch =>
    have hout := hhanded batch rfl
    rw [onOk_ok, wp_ite]
    refine ⟨fun _ => ?_, fun _ => ?_⟩
    · have hlive : Live row left l₁ h₁ := ⟨hI₁.1, hout.2.1⟩
      exact (keeps_onEmpty loopFrame_live row c l₁ h₁ hlive).mono fun r _ _ hI' => hI'.turnEnd r
    · rw [wp_bind, updateLoop, wp_modify, onOk_ok]
      have hout' : HandedOut row left l.run.stats.written batch
          { l₁ with loop := { l₁.loop with emptyRetries := 0 } } h₁ := hout
      refine wp_bind.mpr ((wp_processBatch_budgets hdestructive receiver hout').mono fun r l₂ h₂ hend => ?_)
      cases r with
      | error e => exact hend
      | ok result =>
        obtain ⟨hI₂, hsettled, hspent⟩ := hend
        rw [onOk_ok, wp_ite]
        refine ⟨fun _ => ?_, fun _ => wp_bind.mpr ?_⟩
        · exact wp_onWatermark_budgets hdestructive hsessions receiver c hI₂
        · have hrecycled : Wp Recorded (Prog.when (result.needsRecycle = true) recycle)
              (Ends (Live row left) fun _ l h => Budgets row left l.loop.tracker l.run h) l₂ h₂ := by
            rw [wp_when]
            exact ⟨fun hneeds => wp_recycle hI₂ (hspent hneeds), fun hneeds => ⟨hI₂, hsettled (by simpa using hneeds)⟩⟩
          refine hrecycled.mono fun r l₃ h₃ hend => ?_
          cases r with
          | error e => exact hend
          | ok _ => exact wp_pure.mpr hend

/-- A turn of the loop keeps the books, and every first failure is settled where the loop goes on. -/
theorem wp_step_budgets (hdestructive : row.mode.isDestructive = true) (hsessions : row.sessions = false)
    (c : Option Time) (hI : Live row left l h) : Wp Recorded (step row c) (TurnEnd row left c) l h := by
  have hreason : Wp Recorded (stopCheck row c) (fun r _ _ => c = none → ∀ reason, r = .ok (some reason) →
      ¬ MayCatchUp reason) l h := by
    cases c with
    | none =>
      refine (returns_stopCheck_catchUp l h).mono fun r l' h' hr _ reason hsome => ?_
      exact hr _ hsome reason rfl
    | some limit => exact Wp.of_exec fun _ _ _ _ _ _ hnone => by cases hnone
  rw [step, wp_bind, wp_get, onOk_ok]
  refine wp_bind.mpr (((keeps_stopCheck loopFrame_live.run row c l h hI).and hreason).mono ?_)
  rintro r l₁ h₁ ⟨hI₁, hstop⟩
  rcases r with e | _ | stop
  · exact hI₁.1
  · rw [onOk_ok]
    dsimp only
    cases l.loop.receiver with
    | none =>
      have hno : ¬ row.sessions = true := by
        rw [hsessions]
        exact Bool.false_ne_true
      rw [openNext]
      have hopen : Keeps Recorded (Live row left) (do
          let client ← ensureClient row
          let receiver ← openLoopReceiver row client .none
          updateLoop fun loop => { loop with receiver := some receiver }
          pure none : Loop (Option StopReason)) := by
        refine keeps_bind (keeps_ensureClient loopFrame_live row) fun client => ?_
        refine keeps_bind (keeps_openLoopReceiver loopFrame_live row client _) fun _ => ?_
        exact keeps_bind (keeps_updateLoop loopFrame_live fun _ => ⟨rfl, rfl, rfl, rfl⟩) fun _ => keeps_pure
      simp only [if_neg hno]
      exact (hopen l₁ h₁ hI₁).mono fun r _ _ hI' => hI'.turnEnd r
    | some receiver => exact wp_receiveTurn_budgets hdestructive hsessions receiver c hI₁
  · rw [onOk_ok]
    dsimp only
    have hdrain : Keeps Recorded (fun l h => Budgets row left l.loop.tracker l.run h)
        (whenOpen l.loop.receiver fun receiver => stopDrain row receiver false) :=
      keeps_whenOpen fun receiver => keeps_drain_budgets hdestructive receiver
    refine hdrain.wp_bind hI₁.1 (fun _ l₂ h₂ hI₂ => wp_pure.mpr ⟨hI₂, fun hc hmay => ?_⟩) fun _ _ _ hI₂ => hI₂
    exact absurd hmay (hstop hc stop rfl)

theorem wp_consumeTurn_budgets (hdestructive : row.mode.isDestructive = true) (hsessions : row.sessions = false)
    (c : Option Time) (hI : Live row left l h) : Wp Recorded (consumeTurn row c) (TurnEnd row left c) l h := by
  refine wp_tryCatch.mpr ((wp_step_budgets hdestructive hsessions c hI).mono fun r l₁ h₁ hI₁ => ?_)
  cases r with
  | ok stop => exact hI₁
  | error e =>
    refine wp_ite.mpr ⟨fun _ => wp_throw.mpr hI₁, fun _ => wp_bind.mpr ?_⟩
    rw [afterFailure, if_neg (by rw [hsessions]; exact fun h => Bool.false_ne_true h.1)]
    refine (wp_recover e hI₁).mono fun r l₂ h₂ hI₂ => ?_
    cases r with
    | error e => exact hI₂
    | ok _ => exact wp_pure.mpr hI₂

end Loop

/-! ### A run of the loop -/

/-- No message was tried again, and none will be where the retries are off. -/
structure Untried (enabled : Bool) (s : RunState) : Prop where
  recycles : s.stats.unreadableRecycles = 0
  enabled : s.unreadable.retriesEnabled = enabled
  firstFailure : s.unreadable.firstFailure = []

section Run

variable {row : Row} {s : RunState} {c : Option Time} {l : LoopState} {h : Trace sdk}

/-- The books of a loop that has not begun. -/
theorem Untried.budgets (hs : Untried true s) : Budgets row s.unreadable.left {} s [] where
  generation := rfl
  count := rfl
  recovered := Nat.zero_le _
  recycled := hs.recycles
  spent := Nat.zero_le _
  enabled := hs.enabled
  remembered _ hq := .inl hq
  progress _ := .inl rfl
  failed _ q g hq := by
    rw [hs.firstFailure] at hq
    cases hq
  known q hq := absurd hq List.not_mem_nil
  deleted _ := hs.firstFailure
  history := always_nil

theorem live_betweenTurns (hdestructive : row.mode.isDestructive = true) (hsessions : row.sessions = false)
    (hs : Untried true s) (hb : BetweenTurns row s c l h) :
    Live row s.unreadable.left l h := by
  induction hb with
  | start now =>
    refine ⟨@Budgets.event _ _ _ _ [] _ hs.budgets rfl, fun q g hq => ?_⟩
    rw [hs.firstFailure] at hq
    cases hq
  | turn _ hturn ih =>
    exact wp_logged.mp (wp_consumeTurn_budgets hdestructive hsessions _ ih) _ _ _ hturn fun _ _ => trivial
  | @catchUp l l' h es reason now _ hturn hdue ih =>
    have hend := wp_logged.mp (wp_consumeTurn_budgets hdestructive hsessions _ ih) _ _ _ hturn fun _ _ => trivial
    have hmay : MayCatchUp reason := by
      simp only [catchUpDue, Bool.and_eq_true, Bool.or_eq_true, beq_iff_eq] at hdue
      exact hdue.2
    have hlive : Live row s.unreadable.left l' (h ++ es) := hend.2 rfl hmay
    exact ⟨hlive.1.event rfl, hlive.2⟩

/-- The books of every execution of the loop. -/
theorem budgets_of_exec (hdestructive : row.mode.isDestructive = true) (hsessions : row.sessions = false)
    (hs : Untried true s) {turns : ℕ} {es : Trace sdk} {r : Except Exn (Option StopReason)}
    (hrun : Prog.Exec (ReceiveLoop.run row turns) ⟨s, .start row⟩ es r l) :
    Budgets row s.unreadable.left l.loop.tracker l.run es := by
  obtain ⟨-, c, hb⟩ | ⟨c, r₁, l₁, h₁, ⟨l₀, h₀, t, hb, hturn, -, rfl⟩, hafter, -⟩ := exec_receiveLoop hrun
  · exact (live_betweenTurns hdestructive hsessions hs hb).1
  · refine hafter _ loopFrame_budgets ?_
    have hlive := live_betweenTurns hdestructive hsessions hs hb
    have hend := wp_logged.mp (wp_consumeTurn_budgets hdestructive hsessions c hlive) _ _ _ hturn fun _ _ => trivial
    rcases r₁ with e | _ | reason
    · exact hend
    · exact hend.1
    · exact hend.1

end Run

/-! ### The run before its loop -/

section Before

variable {B : Type} {R : Event sdk → B → B → Prop} {row : Row} {enabled : Bool} {s : RunState} {h : Trace sdk}

theorem tableFrame_untried : TableFrame R row fun s _ => Untried enabled s where
  stats _ hsame hI := ⟨hsame.2.2.trans hI.recycles, hI.enabled, hI.firstFailure⟩
  guarded _ hI := { hI with }
  info _ hI := { hI with }
  quiet _ _ _ _ _ _ hI := hI
  seed _ _ _ hI := { hI with }
  start _ _ hI := { hI with }
  output _ _ _ hI := { hI with }
  file _ _ _ _ _ _ hI := hI
  header _ _ _ _ _ _ _ hI := hI

theorem disposalFrame_untried : DisposalFrame R fun s _ => Untried enabled s where
  stats _ hsame hI := ⟨hsame.2.2.trans hI.recycles, hI.enabled, hI.firstFailure⟩
  still _ _ _ _ _ _ hI := hI
  disposed _ _ hI := { hI with }
  handling _ _ _ _ _ _ hI := hI

/-- With the retries off no message is tried again. -/
theorem keeps_handleUnreadable_untried (receiver : Handle) (m : Message) (error : UnreadableError) (generation : ℕ) :
    Keeps R (fun s _ => Untried false s) (handleUnreadable row receiver m error generation) := by
  have hdispose : Keeps R (fun s _ => Untried false s) (disposeUnreadable row receiver m error) :=
    keeps_disposeUnreadable disposalFrame_untried receiver m error
  refine keeps_bind keeps_get fun _ => ?_
  refine keeps_ite (fun _ => keeps_pure) fun _ => ?_
  refine keeps_ite (fun _ => ?_) fun _ => hdispose
  intro s b hs
  have hshould : Wp R (shouldRetry row m generation) (fun r s _ => r = .ok false ∧ Untried false s) s b := by
    rw [shouldRetry, wp_bind, wp_get, onOk_ok, wp_ite]
    refine ⟨fun _ => wp_pure.mpr ⟨rfl, hs⟩, fun _ => wp_ite.mpr ⟨fun _ => wp_pure.mpr ⟨rfl, hs⟩, fun hon => ?_⟩⟩
    exact absurd (.inr hs.enabled) hon
  refine wp_bind.mpr (hshould.mono ?_)
  rintro _ s' b' ⟨rfl, hs'⟩
  rw [onOk_ok, if_neg Bool.false_ne_true]
  exact hdispose s' b' hs'

theorem keeps_process_untried (receiver : Handle) (messages : List Message) (generation : ℕ) :
    Keeps R (fun s _ => Untried false s) (process row receiver messages generation) := by
  have hD : DisposalFrame R fun s _ => Untried false s := disposalFrame_untried
  refine keeps_process_of hD (fun _ _ hI => { hI with }) (fun _ hI => { hI with })
    (fun m error => keeps_handleUnreadable_untried receiver m error generation)
    (keeps_writeRows_of_call fun _ _ _ _ _ _ hI => hI) ?_ messages
  exact keeps_settle_of_calls hD.toStillFrame (fun _ _ _ _ _ _ hI => hI) (fun _ _ hI => { hI with })
    (fun _ hI => { hI with }) receiver

/-- The recovery of orphans tries none of them again, and leaves the retries as they were. -/
theorem keeps_recoverOrphans_untried (orphans : List ℤ) :
    Keeps R (InScan fun s _ => Untried true s) (recoverOrphans row orphans) := by
  have hF : ∀ enabled, Frame R fun s _ => Untried enabled s := fun _ =>
    (tableFrame_untried : TableFrame R row _).toFrame
  have hq := quietKeeps_inScan (hF false)
  have hchunk : ∀ receiver chunk, Keeps R (InScan fun s _ => Untried false s) (recoverChunk row receiver chunk) := by
    refine fun receiver chunk => keeps_recoverChunk (fun _ => (hF false).toStillFrame) (fun seqs _ => ?_)
      fun _ messages => keeps_process_untried receiver messages 0
    exact keeps_request fun _ _ _ _ _ hI => hI
  have hbody : ∀ client, Keeps R (InScan fun s _ => Untried false s) (do
      let receiver ← openReceiver row row.entity client (commitProfile row .peekLock .none)
      withReceiver receiver ((orphanChunks row orphans).forM (recoverChunk row receiver))) := fun client =>
    keeps_bind (keeps_openReceiver hq)
      fun receiver => keeps_withReceiver (keeps_quietCall hq rfl) (keeps_quietCall hq rfl)
      (keeps_forM fun chunk _ => hchunk receiver chunk)
  refine keeps_when fun s b hs => ?_
  refine (keeps_scanCommitClient (quietKeeps_inScan (hF true)) fun _ hI => hI).wp_bind hs (fun client s₁ b₁ hs₁ => ?_)
    fun _ _ _ hs₁ => hs₁
  rw [wp_bind, wp_get, onOk_ok, wp_bind, onScanRun, wp_embed, updateUnreadable, wp_modify, onOk_ok, wp_ensuring]
  refine (hbody client).wp ?_ fun r s₂ b₂ hs₂ => ?_
  · exact ⟨hs₁.recycles, rfl, hs₁.firstFailure⟩
  · rw [onScanRun, wp_embed, updateUnreadable, wp_modify]
    exact ⟨hs₂.recycles, hs₁.enabled, hs₂.firstFailure⟩

/-- A run reaches its loop before any message was tried again. -/
theorem ReachesLoop.untried {input : ExtractorState} (hreaches : ReachesLoop row input h s) : Untried true s := by
  obtain ⟨atMostOnce, prefetch, hbefore⟩ := hreaches
  have hT : TableFrame Recorded row fun s _ => Untried true s := tableFrame_untried
  have hcommit : Keeps Recorded (fun s _ => Untried true s) (commitPending row) := by
    refine keeps_bind keeps_get fun s => ?_
    exact keeps_bind (keeps_runCommit hT.toFrame (fun _ _ _ _ _ _ _ _ hI => hI) _) fun _ => keeps_modify
      fun _ _ hI => { hI with }
  have hreconcile : Keeps Recorded (fun s _ => Untried true s) (reconcileDeferrals row) :=
    keeps_ite (fun _ => keeps_runScan hT.toFrame keeps_recoverOrphans_untried) fun _ => keeps_probe hT.toFrame
  have hkeeps : Keeps Recorded (fun s _ => Untried true s) (beforeLoop row atMostOnce prefetch) := by
    refine keeps_bind (keeps_startRun hT) fun _ => ?_
    refine keeps_bind (keeps_openOutput hT) fun _ => ?_
    refine keeps_bind hcommit fun _ => ?_
    refine keeps_bind hreconcile fun _ => ?_
    refine keeps_bind (keeps_when (keeps_warn hT.toStillFrame _ _)) fun _ => ?_
    exact keeps_when (keeps_warn hT.toStillFrame _ _)
  exact wp_logged.mp (hkeeps (.start input) [] ⟨rfl, rfl, rfl⟩) h _ s hbefore fun _ _ => trivial

end Before

/-! ### The budgets -/

/-- In every run of the loop of a destructive run without sessions, from wherever that run reaches it: the generation of
the connection is the number of its recoveries and of its fresh connections for unreadable bodies, each counted for
itself and within its own budget; every recovery follows some progress since the one before it; a number asks for a
fresh connection in one batch only; and where messages are locked, no body that cannot be decoded gets its verdict
before it failed on two connections, as long as there are fresh connections to ask for. -/
theorem retry_budgets (row : Row) (hdestructive : row.mode.isDestructive = true) (hsessions : row.sessions = false)
    (input : ExtractorState) (h₀ : Trace sdk) (s : RunState) (hreaches : ReachesLoop row input h₀ s) (turns : ℕ)
    (es : Trace sdk) (r : Except Exn (Option StopReason)) (l : LoopState)
    (hrun : Prog.Exec (ReceiveLoop.run row turns) ⟨s, .start row⟩ es r l) :
    l.loop.tracker.generation = recoveries es + recycles es ∧ l.loop.tracker.count = recoveries es ∧
      l.run.stats.unreadableRecycles = recycles es ∧ recoveries es ≤ maxRecoveries ∧
      recycles es ≤ maxUnreadableRecycles ∧ Always (Within row s.unreadable.left) es := by
  have hbudgets := budgets_of_exec hdestructive hsessions hreaches.untried hrun
  exact ⟨hbudgets.generation, hbudgets.count, hbudgets.recycled, hbudgets.recovered, hbudgets.spent, hbudgets.history⟩

/-- A run of the row reaches its loop in this state. -/
def reachedState : RunState := scriptedState (beforeLoop completeRow "" "") (.start {}) {}

theorem reaches_reachedState :
    ReachesLoop completeRow {} (scripted (beforeLoop completeRow "" "") (.start {}) {}) reachedState :=
  ⟨"", "", exec_of_scriptedResult {} (by decide +kernel)⟩

/-- A body is unreadable, the connection is lost, and the body is unreadable again. -/
def triedTwice : Script where
  receives := [.ok [garbled], .error (.serviceBus { kind := .connection, text := "link detached" }), .ok [garbled]]

/-- The loop over these replies. -/
def triedRun (script : Script) : Trace sdk :=
  scripted (ReceiveLoop.run completeRow 12) ⟨reachedState, .start completeRow⟩ script

/-- One fresh connection, one recovery, and a verdict after both. -/
theorem retry_budgets_tried : asked (triedRun triedTwice) = [1] ∧ recoveries (triedRun triedTwice) = 1 ∧
    recycles (triedRun triedTwice) = 1 ∧ handled (triedRun triedTwice) = 1 ∧
    Always (Within completeRow reachedState.unreadable.left) (triedRun triedTwice) :=
  ⟨by decide +kernel, by decide +kernel, by decide +kernel, by decide +kernel,
    (retry_budgets completeRow rfl rfl {} _ _ reaches_reachedState 12 _ _ _ (exec_scripted _ _ triedTwice)).2.2.2.2.2⟩

/-- A batch that holds a message twice. -/
def twoCopies : Script where
  receives := [.ok [garbled, garbled]]

/-- Each copy of the message asks for a fresh connection. -/
theorem asked_for_each_copy : ∃ h₀ s es r l, ReachesLoop completeRow {} h₀ s ∧
    Prog.Exec (ReceiveLoop.run completeRow 12) ⟨s, .start completeRow⟩ es r l ∧ ¬ (asked es).Nodup :=
  ⟨_, _, _, _, _, reaches_reachedState, exec_scripted _ _ twoCopies, by decide +kernel⟩

end ServiceBusExtractor
