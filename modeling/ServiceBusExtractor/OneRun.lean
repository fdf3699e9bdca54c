import ServiceBusExtractor.Committed
import ServiceBusExtractor.StateFile
import ServiceBusExtractor.WriteBeforeSettle

/-!
# What one run leaves

A run starts from the state an earlier one saved. Here is what it asks the broker to
delete, what it writes to the state file, and where each pending deferral is
afterwards.

## The model

* `Orderly`, `Unwritten` — what holds all through a run before its end.
* `CommitOutcome` — the commit of the run returned, and where it left each deferral.
* `Leaves row input h saved` — `saved` against the input of the run, field by field.

## What is proved

`run_leaves`: of every run, in every mode.
-/

namespace ServiceBusExtractor

open Interaction

/-- The run starts from its input, nothing but the input's pending set was asked for, and a run that does not flatten
has no registry. -/
structure Orderly (row : Row) (input state : ExtractorState) (registry : Option FlattenRegistry) (h : Trace sdk) :
    Prop where
  started : state = input
  listed : Always (AsksListed input.pendingCommit) h
  unseeded : row.config.body.bodyFormat ≠ .jsonFlatten → registry = none

/-- The state is not written yet. -/
def Unwritten (_ : ExtractorState) (_ : Option FlattenRegistry) (h : Trace sdk) : Prop := stateWrites h = []

section Steps

variable {row : Row} {input : ExtractorState}

theorem asksListed_of_runEvent {pending : List PendingEntity} {e : Event sdk} {h : Trace sdk} (he : RunEvent e) :
    AsksListed pending h e := by
  refine asksListed_of_not ?_
  rintro receiver seqs timeout reply rfl
  exact he

theorem outside_orderly : Outside Recorded row (Orderly row input) where
  event := by
    rintro e state registry h _ he ⟨-, rfl⟩ hI
    exact { hI with listed := always_concat.mpr ⟨hI.listed, asksListed_of_runEvent he⟩ }
  header := by
    rintro columns a state registry h _ - ⟨-, rfl⟩ hI
    exact { hI with listed := always_concat.mpr ⟨hI.listed, asksListed_of_not fun _ _ _ _ h => nomatch h⟩ }
  mapped _ _ _ _ hmaps hI := { hI with unseeded := fun hformat => (hI.unseeded hformat ▸ hmaps).none }
  seeded hflatten _ _ _ hI := { hI with unseeded := fun hformat => absurd hflatten hformat }

theorem outside_unwritten : Outside Recorded row Unwritten where
  event := by
    rintro e state registry h _ he ⟨-, rfl⟩ hI
    exact (stateWrites_idle he).trans hI
  header := by
    rintro columns a state registry h _ - ⟨-, rfl⟩ hI
    rw [Unwritten, stateWrites_concat]
    exact (List.append_nil _).trans hI
  mapped _ _ _ _ _ hI := hI
  seeded _ _ _ _ hI := hI

theorem runSteps_unwritten : RunSteps Recorded row fun s h => Unwritten s.state s.registry h := by
  have hE : EndFrame Recorded row fun s h => Unwritten s.state s.registry h := outside_unwritten.endFrame
  refine outside_unwritten.runSteps fun orphans => keeps_recoverOrphans hE.toFrame hE.toHandlingFrame ?_
    outside_unwritten.keeps_process orphans
  rintro receiver seqs timeout a s h _ ⟨-, rfl⟩ hI
  have hidle : stateWritten (.call (.receiveDeferredMessages receiver seqs timeout) a) = none := rfl
  rw [Unwritten, stateWrites_concat, hidle]
  exact (List.append_nil _).trans hI

/-- The same while the recovery holds a receiver that locks what it receives. -/
structure OrderlyOn (row : Row) (input : ExtractorState) (receiver : Handle) (state : ExtractorState)
    (registry : Option FlattenRegistry) (h : Trace sdk) : Prop extends Orderly row input state registry h where
  locks : ∀ opened, receiverOf h receiver = some opened → opened.2.receiveMode ≠ .receiveAndDelete

theorem OrderlyOn.event {receiver : Handle} {state : ExtractorState} {registry : Option FlattenRegistry} {h : Trace sdk}
    (hI : OrderlyOn row input receiver state registry h) {e : Event sdk} (hask : AsksListed input.pendingCommit h e)
    (hmade : receiverMade e = none) : OrderlyOn row input receiver state registry (h ++ [e]) := by
  refine ⟨{ hI.toOrderly with listed := always_concat.mpr ⟨hI.listed, hask⟩ }, fun opened hopened => ?_⟩
  rw [receiverOf_idle hmade] at hopened
  exact hI.locks opened hopened

theorem receiverMade_of_batchEvent {e : Event sdk} (he : BatchEvent e) : receiverMade e = none := by
  rcases e with ⟨c, r⟩ | n
  · cases c <;> first | rfl | exact he.elim False.elim False.elim
  · rfl

theorem keeps_process_orderlyOn {receiver : Handle} (messages : List Message) :
    Keeps Recorded (fun s h => OrderlyOn row input receiver s.state s.registry h)
      (process row receiver messages 0) := by
  refine keeps_process_of_events ?_ ?_ receiver messages 0
  · rintro e state registry h _ he ⟨-, rfl⟩ hI
    exact hI.event (asksListed_of_runEvent (runEvent_of_batchEvent he)) (receiverMade_of_batchEvent he)
  · exact fun state registry registry' h hmaps hI => { hI with unseeded :=
      fun hformat => (hI.unseeded hformat ▸ hmaps).none }

/-- The recovery deletes nothing: its receiver locks. -/
theorem keeps_recoverOrphans_orderly (orphans : List ℤ) :
    Keeps Recorded (InScan fun s h => Orderly row input s.state s.registry h) (recoverOrphans row orphans) := by
  have hE : EndFrame Recorded row fun s h => Orderly row input s.state s.registry h := outside_orderly.endFrame
  have hcall : ∀ {receiver : Handle} {c : Call} {α : Type} {result : Reply c → Except Exn α},
      (∀ a h, AsksListed input.pendingCommit h (.call c a)) → (∀ a, receiverMade (.call c a) = none) →
      Keeps Recorded (InScan fun s h => OrderlyOn row input receiver s.state s.registry h)
        (Prog.request (S := sdk) c result) := by
    intro receiver c α result hask hmade
    refine keeps_request ?_
    rintro a s h _ ⟨-, rfl⟩ hI
    exact OrderlyOn.event hI (hask a h) (hmade a)
  have hstill : ∀ receiver, StillFrame Recorded (fun s h => OrderlyOn row input receiver s.state s.registry h) :=
    fun receiver => {
    stats := fun _ _ hI => hI
    still := by
      rintro e s h _ he ⟨-, rfl⟩ hI
      have hb := batchEvent_of_still he
      exact hI.event (asksListed_of_runEvent (runEvent_of_batchEvent hb)) (receiverMade_of_batchEvent hb) }
  have hdeferred : ∀ receiver seqs, Keeps Recorded (InScan fun s h => OrderlyOn row input receiver s.state s.registry h)
      (receiveDeferredMessages receiver seqs deferredReceiveTimeoutSeconds) := by
    refine fun receiver seqs => keeps_request ?_
    rintro a s h _ ⟨-, rfl⟩ hI
    refine OrderlyOn.event hI ?_ rfl
    rintro entity seqs' reply ⟨receiver', timeout, profile, heq, hopened, hmode⟩
    cases heq
    exact absurd hmode (hI.locks _ hopened)
  have hbody : ∀ client, Keeps Recorded (InScan fun s h => Orderly row input s.state s.registry h) (do
      let receiver ← openReceiver row row.entity client (commitProfile row .peekLock .none)
      withReceiver receiver ((orphanChunks row orphans).forM (recoverChunk row receiver))) := by
    intro client s h hI
    rw [wp_bind, openReceiver, wp_request]
    rintro reply h₁ hR
    have hI₁ : InScan (fun s h => Orderly row input s.state s.registry h) s h₁ :=
      hE.quiet (.call (.getReceiver client row.entity _) reply) s.run h h₁ rfl hR hI
    obtain ⟨-, rfl⟩ := hR
    cases reply with
    | error fault => cases fault <;> exact hI₁
    | ok receiver =>
      have hon : InScan (fun s h => OrderlyOn row input receiver s.state s.registry h) s
          (h ++ [.call (.getReceiver client row.entity (commitProfile row .peekLock .none)) (.ok receiver)]) := by
        refine ⟨hI₁, fun opened hopened => ?_⟩
        rw [receiverOf_made rfl] at hopened
        cases hopened
        rintro ⟨⟩
      have henter : ∀ a h, AsksListed input.pendingCommit h (.call (.enterReceiver receiver) a) :=
        fun _ _ => asksListed_of_quiet rfl
      have hclose : ∀ a h, AsksListed input.pendingCommit h (.call (.closeReceiver receiver) a) :=
        fun _ _ => asksListed_of_quiet rfl
      refine (keeps_withReceiver (hcall henter fun _ => rfl) (hcall hclose fun _ => rfl)
        (keeps_forM fun seqs _ => ?_)).wp
        hon fun _ _ _ h' => h'.toOrderly
      exact keeps_recoverChunk (fun _ => hstill receiver) (fun part _ => hdeferred receiver part)
        fun _ => keeps_process_orderlyOn
  refine keeps_when (keeps_bind (keeps_scanCommitClient (quietKeeps_inScan hE.toFrame) fun _ h => h) fun client => ?_)
  refine keeps_bind keeps_get fun s => ?_
  refine keeps_bind (keeps_onScanRun (keeps_updateUnreadable hE.toHandlingFrame _)) fun _ => ?_
  exact keeps_ensuring (hbody client) (keeps_onScanRun (keeps_updateUnreadable hE.toHandlingFrame _))

end Steps

/-! ### A whole run -/

/-- The commit of the run returned: where it left each deferral, and that what it gave up is counted. -/
structure CommitOutcome (row : Row) (input : ExtractorState) (carried dropped : List PendingEntity) (h : Trace sdk) :
    Prop where
  committed : Committed row input.pendingCommit carried dropped h
  counted : ∃ s₁ h₁ es s₂, Prog.Exec (runCommit row input.pendingCommit) s₁ es (.ok carried) s₂ ∧ h₁ ++ es <+: h ∧
    s₂.stats.droppedStale = s₁.stats.droppedStale + droppedCount dropped

/-- The state a run saves, against its input. -/
structure Leaves (row : Row) (input : ExtractorState) (h : Trace sdk) (saved : ExtractorState) : Prop where
  pending : row.mode.isDestructive = true → ∃ carried dropped, CommitOutcome row input carried dropped h ∧
    ∀ d, Pending d saved.pendingCommit ↔ Pending d carried ∨ Deferred row h d
  carried : row.mode.isDestructive = false → saved.pendingCommit = input.pendingCommit
  cursor : row.mode.isDestructive = true ∨ row.config.source.fetchMode = .fullFetch →
    saved.peekCursor = input.peekCursor
  columns : row.config.body.bodyFormat ≠ .jsonFlatten → saved.flattenColumns = input.flattenColumns

/-- How a run ends: it writes its state once, or it did not end well and writes none. -/
def StateEnd (row : Row) (input : ExtractorState) (r : Except Exn (Option Unit)) (h : Trace sdk) : Prop :=
  (r = .ok (some ()) ∧ ∃ saved, stateWrites h = [saved] ∧ Leaves row input h saved) ∨
  (r ≠ .ok (some ()) ∧ stateWrites h = [])

section Whole

variable {row : Row} {input : ExtractorState} {s : RunState} {h : Trace sdk}

/-- What the commit returned is as its specification says. -/
theorem CommitReturned.outcome {carried : List PendingEntity} (hc : CommitReturned row input h carried)
    (hl : Always (AsksListed input.pendingCommit) h) : ∃ dropped, CommitOutcome row input carried dropped h := by
  obtain ⟨s₁, h₁, es, s₂, hrun, hp⟩ := hc
  have hl₁ : Always (AsksListed input.pendingCommit) h₁ := hl.initial ((List.prefix_append h₁ es).trans hp)
  obtain ⟨-, hend⟩ := wp_logged.mp (@wp_runCommit row h₁ input.pendingCommit s₁ hl₁) es _ s₂ hrun fun _ _ => trivial
  obtain ⟨dropped, hcommitted, hcounted⟩ := hend carried rfl
  exact ⟨dropped, hcommitted.along hp, s₁, h₁, es, s₂, hrun, hp, hcounted⟩

theorem Projects.columns_of {saved : ExtractorState} (hp : Projects row s saved)
    (ho : Orderly row input s.state s.registry h) (hformat : row.config.body.bodyFormat ≠ .jsonFlatten) :
    saved.flattenColumns = input.flattenColumns := by
  rw [hp.columns, ho.unseeded hformat, ho.started]
  rfl

/-- Before the end, and after the commit. -/
abbrev MidRun (row : Row) (input : ExtractorState) (carried : List PendingEntity) (s : RunState) (h : Trace sdk) :
    Prop :=
  (AfterCommit input row carried s h ∧ Orderly row input s.state s.registry h) ∧ Unwritten s.state s.registry h

/-- Before the commit returned. -/
abbrev EarlyRun (row : Row) (input : ExtractorState) (s : RunState) (h : Trace sdk) : Prop :=
  (BeforeCommit input row s h ∧ Orderly row input s.state s.registry h) ∧ Unwritten s.state s.registry h

/-- The state is written, and the run is over. -/
def Saved (row : Row) (input : ExtractorState) (carried : List PendingEntity) (s : RunState) (h : Trace sdk) : Prop :=
  (AfterCommit input row carried s h ∧ Orderly row input s.state s.registry h) ∧
    ∃ saved, stateWrites h = [saved] ∧ Projects row s saved

theorem runSteps_orderly (input : ExtractorState) :
    RunSteps Recorded row fun s h => Orderly row input s.state s.registry h :=
  outside_orderly.runSteps keeps_recoverOrphans_orderly

/-- Writing the state asks for nothing. -/
theorem Orderly.stateWritten {state : ExtractorState} {registry : Option FlattenRegistry} {saved : ExtractorState}
    {reply : Except FileError Unit} (ho : Orderly row input state registry h) :
    Orderly row input state registry (h ++ [.call (.writeStateFile saved) reply]) := by
  refine { ho with listed := always_concat.mpr ⟨ho.listed, asksListed_of_not ?_⟩ }
  rintro receiver seqs timeout reply' ⟨⟩

/-- The commit asks for nothing but the pending set. -/
theorem wp_runCommit_orderly (hI : Orderly row input s.state s.registry h) :
    Wp Recorded (runCommit row input.pendingCommit) (fun _ s h => Orderly row input s.state s.registry h) s h := by
  have hrest : Keeps Recorded (fun s' (_ : Trace sdk) => s'.state = s.state ∧ s'.registry = s.registry)
      (runCommit row input.pendingCommit) :=
    keeps_runCommit { stats := fun _ _ h => h, info := fun _ h => h, quiet := fun _ _ _ _ _ _ h => h }
      (fun _ _ _ _ _ _ _ _ h => h) input.pendingCommit
  refine ((wp_runCommit input.pendingCommit hI.listed).and (hrest s h ⟨rfl, rfl⟩)).mono ?_
  rintro r s' h' ⟨⟨hlisted, -⟩, hstate, hregistry⟩
  rw [hstate, hregistry]
  exact { hI with listed := hlisted }

/-- The commit does not write the state. -/
theorem keeps_runCommit_unwritten (pending : List PendingEntity) :
    Keeps Recorded (fun s h => Unwritten s.state s.registry h) (runCommit row pending) := by
  have hE : EndFrame Recorded row fun s h => Unwritten s.state s.registry h := outside_unwritten.endFrame
  refine keeps_runCommit hE.toFrame ?_ pending
  rintro receiver seqs timeout a s h _ ⟨-, rfl⟩ hI
  have hidle : stateWritten (.call (.receiveDeferredMessages receiver seqs timeout) a) = none := rfl
  rw [Unwritten, stateWrites_concat, hidle]
  exact (List.append_nil _).trans hI

theorem wp_commitPending_early (hI : EarlyRun row input s h) :
    Wp Recorded (commitPending row) (fun r s h => (r = .ok () ∧ ∃ carried, MidRun row input carried s h) ∨
      ((∃ e, r = .error e) ∧ EarlyRun row input s h)) s h := by
  have hothers : Wp Recorded (commitPending row)
      (fun _ s h => Orderly row input s.state s.registry h ∧ Unwritten s.state s.registry h) s h := by
    rw [commitPending, wp_bind, wp_get, onOk_ok, wp_bind, hI.1.1.started]
    refine ((wp_runCommit_orderly hI.1.2).and (keeps_runCommit_unwritten input.pendingCommit s h hI.2)).mono ?_
    rintro r s' h' ⟨ho, hu⟩
    cases r with
    | error e => exact ⟨ho, hu⟩
    | ok carried => exact wp_modify.mpr ⟨ho, hu⟩
  refine ((wp_commitPending input hI.1.1).and hothers).mono ?_
  rintro r s' h' ⟨⟨rfl, carried, hafter⟩ | ⟨hr, hbefore⟩, ho, hu⟩
  · exact .inl ⟨rfl, carried, ⟨hafter, ho⟩, hu⟩
  · exact .inr ⟨hr, ⟨hbefore, ho⟩, hu⟩

theorem wp_finish_midRun (carried : List PendingEntity) (hI : MidRun row input carried s h) :
    Wp Recorded (finish row) (fun r s h => (r = .ok () ∧ Saved row input carried s h) ∨
      ((∃ e, r = .error e) ∧ MidRun row input carried s h)) s h := by
  have hF := ((@runSteps_afterCommit row input carried).and (runSteps_orderly input)).toFrame
  refine (wp_finish hF ?_ hI.1 hI.2).mono ?_
  · rintro state reply s h ⟨hafter, ho⟩
    exact ⟨hafter.idle (e := .call (.writeStateFile state) reply) ⟨trivial, rfl⟩ rfl rfl, ho.stateWritten⟩
  · rintro r s' h' (⟨rfl, hA, hsaved⟩ | ⟨hr, hA, hnone⟩)
    · exact .inl ⟨rfl, hA, hsaved⟩
    · exact .inr ⟨hr, hA, hnone⟩

/-- A run of a destructive mode. -/
theorem destructiveRun_leaves (hmode : row.mode.isDestructive = true) {turns : ℕ} {es : Trace sdk}
    {r : Except Exn (Option Unit)} {s' : RunState} (hrun : Prog.Exec (Component.run row turns) (.start input) es r s') :
    Always (AsksListed input.pendingCommit) es ∧ Always (RowFirst row) es ∧ StateEnd row input r es := by
  have hstart : EarlyRun row input (.start input) [] :=
    ⟨⟨⟨rfl, always_nil, rfl, fun d => by simp [Deferred]⟩, rfl, always_nil, fun _ => rfl⟩, rfl⟩
  have hearly : EndFrame Recorded row (EarlyRun row input) :=
    ((endFrame_beforeCommit input).and outside_orderly.endFrame).and outside_unwritten.endFrame
  have hmid : ∀ carried, RunSteps Recorded row (MidRun row input carried) := fun carried =>
    ((runSteps_afterCommit input carried).and (runSteps_orderly input)).and runSteps_unwritten
  have hends := wp_destructiveRun hmode hearly hmid (fun s h hI => wp_commitPending_early hI)
    (fun carried s h hI => wp_finish_midRun carried hI) turns hstart
  rcases wp_logged.mp hends es r s' hrun fun _ _ => trivial with ⟨rfl, carried, hI⟩ | ⟨hr, hI | ⟨carried, hI⟩⟩
  · obtain ⟨⟨hafter, ho⟩, saved, hwrites, hp⟩ := hI
    refine ⟨ho.listed, hafter.first, .inl ⟨rfl, saved, hwrites, ?_⟩⟩
    refine ⟨fun _ => ?_, fun hpeek => ?_, fun _ => ?_, hp.columns_of ho⟩
    · obtain ⟨dropped, houtcome⟩ := hafter.returned.outcome ho.listed
      refine ⟨carried, dropped, houtcome, fun d => ?_⟩
      rw [hp.pending, if_pos hmode, hafter.pending]
      rfl
    · rw [hmode] at hpeek
      cases hpeek
    · rw [hp.cursor, hmode, if_neg (by simp), hafter.started]
  · exact ⟨hI.1.2.listed, hI.1.1.first, .inr ⟨hr, hI.2⟩⟩
  · exact ⟨hI.1.2.listed, hI.1.1.first, .inr ⟨hr, hI.2⟩⟩

/-- A run that peeks. -/
theorem peekRun_leaves (hmode : row.mode.isDestructive = false) {turns : ℕ} {es : Trace sdk}
    {r : Except Exn (Option Unit)} {s' : RunState} (hrun : Prog.Exec (Component.run row turns) (.start input) es r s') :
    Always (AsksListed input.pendingCommit) es ∧ StateEnd row input r es := by
  have hS : PeekSteps Recorded row fun s h => Orderly row input s.state s.registry h := outside_orderly.peekSteps
  have hstart : Orderly row input (RunState.start input).state (RunState.start input).registry [] ∧
      Unwritten (RunState.start input).state (RunState.start input).registry [] :=
        ⟨⟨rfl, always_nil, fun _ => rfl⟩, rfl⟩
  have hfinish : ∀ s h, Orderly row input s.state s.registry h ∧ Unwritten s.state s.registry h →
      Wp Recorded (finish row) (fun r s h => (r = .ok () ∧ Orderly row input s.state s.registry h ∧
          ∃ saved, stateWrites h = [saved] ∧ Projects row s saved) ∨
        ((∃ e, r = .error e) ∧ Orderly row input s.state s.registry h ∧ Unwritten s.state s.registry h)) s h :=
    fun s h hI => wp_finish hS.toFrame (fun state reply s h ho => ho.stateWritten) hI.1 hI.2
  have hends := wp_peekRun hmode (hS.and outside_unwritten.peekSteps) hfinish turns hstart
  rcases wp_logged.mp hends es r s' hrun fun _ _ => trivial with ⟨rfl, -, hI⟩ | ⟨hr, hI | ⟨-, hI⟩⟩
  · obtain ⟨ho, saved, hwrites, hp⟩ := hI
    refine ⟨ho.listed, .inl ⟨rfl, saved, hwrites, fun hd => ?_, fun _ => ?_, ?_, hp.columns_of ho⟩⟩
    · rw [hmode] at hd
      cases hd
    · rw [hp.carried hmode, ho.started]
    · rintro (hd | hfull)
      · rw [hmode] at hd
        cases hd
      · rw [hp.cursor, hfull, if_neg (by simp), ho.started]
  · exact ⟨hI.1.listed, .inr ⟨hr, hI.2⟩⟩
  · exact ⟨hI.1.listed, .inr ⟨hr, hI.2⟩⟩

/-- Every run asks for the deletion of its pending set only, and leaves its state as `Leaves` says. -/
theorem run_leaves {turns : ℕ} {es : Trace sdk} {r : Except Exn (Option Unit)} {s' : RunState}
    (hrun : Prog.Exec (Component.run row turns) (.start input) es r s') :
    Always (AsksListed input.pendingCommit) es ∧ StateEnd row input r es := by
  cases hmode : row.mode.isDestructive with
  | false => exact peekRun_leaves hmode hrun
  | true =>
    obtain ⟨hlisted, -, hend⟩ := destructiveRun_leaves hmode hrun
    exact ⟨hlisted, hend⟩

end Whole

/-! ### What holds all through a run -/

/-- `J` looks at the surroundings, at the input and at the flatten registry only, and all that a run does to them
keeps it. -/
structure Throughout (row : Row) (J : ExtractorState → Option FlattenRegistry → Trace sdk → Prop) : Prop
    extends Outside Recorded row J where
  deferred : ∀ receiver seqs timeout a state registry h, J state registry h →
    J state registry (h ++ [.call (.receiveDeferredMessages receiver seqs timeout) a])
  saves : ∀ saved a state registry h, J state registry h → J state registry (h ++ [.call (.writeStateFile saved) a])

section Throughout

variable {row : Row} {J : ExtractorState → Option FlattenRegistry → Trace sdk → Prop} {input : ExtractorState}

theorem Throughout.deferredKeeps (hT : Throughout row J) :
    DeferredKeeps Recorded fun (s : RunState) h => J s.state s.registry h := by
  rintro receiver seqs timeout a s h _ ⟨-, rfl⟩ hJ
  exact hT.deferred receiver seqs timeout a s.state s.registry h hJ

theorem Throughout.runSteps (hT : Throughout row J) : RunSteps Recorded row fun s h => J s.state s.registry h := by
  have hE : EndFrame Recorded row fun s h => J s.state s.registry h := hT.endFrame
  exact hT.toOutside.runSteps fun orphans =>
    keeps_recoverOrphans hE.toFrame hE.toHandlingFrame hT.deferredKeeps hT.keeps_process orphans

theorem Throughout.keeps_commitPending (hT : Throughout row J) :
    Keeps Recorded (fun s h => J s.state s.registry h) (commitPending row) := by
  refine keeps_bind keeps_get fun _ => ?_
  exact keeps_bind (keeps_runCommit hT.endFrame.toFrame hT.deferredKeeps _) fun _ => keeps_modify fun _ _ hJ => hJ

theorem keeps_commitPending_unwritten :
    Keeps Recorded (fun s h => Unwritten s.state s.registry h) (commitPending row) := by
  refine keeps_bind keeps_get fun _ => ?_
  exact keeps_bind (keeps_runCommit_unwritten _) fun _ => keeps_modify fun _ _ hU => hU

/-- It holds at the end of every run, and a run that ends well writes its state once. -/
theorem Throughout.run (hT : Throughout row J) (hstart : J input none []) {turns : ℕ} {es : Trace sdk}
    {r : Except Exn (Option Unit)} {s : RunState} (hrun : Prog.Exec (Component.run row turns) (.start input) es r s) :
    J s.state s.registry es ∧ (r = .ok (some ()) → ∃ saved, stateWrites es = [saved] ∧ Projects row s saved) := by
  have hstart' : J (RunState.start input).state (RunState.start input).registry [] ∧
      Unwritten (RunState.start input).state (RunState.start input).registry [] := ⟨hstart, rfl⟩
  have hfinish : ∀ s h, J s.state s.registry h ∧ Unwritten s.state s.registry h → Wp Recorded (finish row)
      (fun r s h => (r = .ok () ∧ J s.state s.registry h ∧ ∃ saved, stateWrites h = [saved] ∧ Projects row s saved) ∨
        ((∃ e, r = .error e) ∧ J s.state s.registry h ∧ Unwritten s.state s.registry h)) s h :=
    fun s h hI => wp_finish hT.runSteps.toFrame (fun saved a s h => hT.saves saved a s.state s.registry h) hI.1 hI.2
  cases hmode : row.mode.isDestructive with
  | true =>
    have hS := hT.runSteps.and runSteps_unwritten
    have hends := wp_destructiveRun (C := Unit) hmode hS.toEndFrame (fun _ => hS) (fun s h hI => ?_)
      (fun _ s h hI => hfinish s h hI) turns hstart'
    · rcases wp_logged.mp hends es r s hrun fun _ _ => trivial with ⟨-, -, hJ, hsaved⟩ | ⟨hr, hI | ⟨-, hI⟩⟩
      · exact ⟨hJ, fun _ => hsaved⟩
      · exact ⟨hI.1, fun h => absurd h hr⟩
      · exact ⟨hI.1, fun h => absurd h hr⟩
    · refine ((hT.keeps_commitPending s h hI.1).and (keeps_commitPending_unwritten s h hI.2)).mono ?_
      intro r s' h' hI'
      cases r with
      | error e => exact .inr ⟨⟨e, rfl⟩, hI'⟩
      | ok _ => exact .inl ⟨rfl, (), hI'⟩
  | false =>
    have hends := wp_peekRun hmode (hT.peekSteps.and outside_unwritten.peekSteps) hfinish turns hstart'
    rcases wp_logged.mp hends es r s hrun fun _ _ => trivial with ⟨-, -, hJ, hsaved⟩ | ⟨hr, hI | ⟨-, hI⟩⟩
    · exact ⟨hJ, fun _ => hsaved⟩
    · exact ⟨hI.1, fun h => absurd h hr⟩
    · exact ⟨hI.1, fun h => absurd h hr⟩

end Throughout

end ServiceBusExtractor
