import ServiceBusExtractor.Batch
import ServiceBusExtractor.RunFrame
import ServiceBusExtractor.Script

/-!
# Write before settle

A message leaves the entity, or becomes invisible on it, only once its row is in
the output table.

## The model

* `RecordOf row m record` — `record` is the row of `m` as the extractor writes it.
* `RowFirst` — a complete or defer call comes after a returned write of the row.
* `Deferred h d` — a returned defer call of `h` deferred `d`.
* `Faithful` — what one batch may do: settle the readable messages in order, write
  their rows and no others.

## What is proved

`write_before_settle`: all of this, for every run and every batch of the modes that
lock their messages.
-/

namespace ServiceBusExtractor

open Interaction

variable {row : Row}

/-- The record is the row of the message. -/
def RecordOf (row : Row) (m : Message) (record : Record) : Prop :=
  ∃ t encoded registry, row.codec.encodeBody m row.config.body.bodyFormat = .ok encoded ∧
    rowRecord row registry ⟨messageMetadata row m t, encoded.content⟩ = .ok record

/-- A returned write of the history has the message's row. -/
def RowWritten (row : Row) (h : Trace sdk) (m : Message) : Prop :=
  ∃ records, .call (.writeRows records) (.ok ()) ∈ h ∧ ∃ record ∈ records, RecordOf row m record

/-- The message a settle call settles. -/
def settleOf : Event sdk → Option Message
  | .call (.completeMessage _ m) _ | .call (.deferMessage _ m) _ => some m
  | _ => none

/-- A settle call comes after the row. -/
def RowFirst (row : Row) (h : Trace sdk) (e : Event sdk) : Prop := ∀ m, settleOf e = some m → RowWritten row h m

/-- The message a returned defer call deferred. -/
def deferredBy : Event sdk → Option Message
  | .call (.deferMessage _ m) (.ok _) => some m
  | _ => none

/-- The message as the pending set identifies it. -/
def deferralOf (row : Row) (m : Message) : Deferral := ⟨row.entity, m.sessionId, m.sequenceNumber⟩

/-- A returned defer call of the history deferred it. -/
def Deferred (row : Row) (h : Trace sdk) (d : Deferral) : Prop := ∃ m ∈ h.filterMap deferredBy, deferralOf row m = d

instance (row : Row) (h : Trace sdk) (d : Deferral) : Decidable (Deferred row h d) :=
  inferInstanceAs (Decidable (∃ m ∈ h.filterMap deferredBy, deferralOf row m = d))

/-! ### The row of a settled message -/

theorem RowWritten.append {h : Trace sdk} {m : Message} (hw : RowWritten row h m) (es : Trace sdk) :
    RowWritten row (h ++ es) m := by
  obtain ⟨records, hr, hm⟩ := hw
  exact ⟨records, List.mem_append_left _ hr, hm⟩

theorem attempted_of_settleOf {e : Event sdk} {m : Message} (h : settleOf e = some m) : attempted e = some m := by
  rcases e with ⟨c, r⟩ | n
  · cases c <;> simp_all [settleOf, attempted]
  · cases h

/-- A mapped row is the encoded body under the message's metadata. -/
theorem output_of_mapRow {registry : Option FlattenRegistry} {m : Message} {t : Time} {output : OutputRow}
    {bodyBytes : ℕ} (h : (mapRow row registry m t).1 = .ok (.ok (output, bodyBytes))) :
    ∃ encoded, row.codec.encodeBody m row.config.body.bodyFormat = .ok encoded ∧
      output = ⟨messageMetadata row m t, encoded.content⟩ := by
  unfold mapRow at h
  split at h
  · cases h
  · cases h
  · rename_i encoded hencoded
    refine ⟨encoded, hencoded, ?_⟩
    split at h
    · cases h
      rename_i hc
      rw [hc]
    · rename_i hc
      split at h
      · cases h
      · dsimp only at h
        split at h
        · cases h
          rw [hc]
        · cases h
        · cases h

theorem mem_judge {t : Time} {messages : List Message} {registry : Option FlattenRegistry} {j : Judged}
    (h : j ∈ judge row t registry messages) : ∃ registry', (mapRow row registry' j.1 t).1 = j.2 := by
  induction messages generalizing registry with
  | nil => cases h
  | cons m rest ih =>
    rcases List.mem_cons.mp h with rfl | h
    · exact ⟨registry, rfl⟩
    · exact ih h

/-- Whatever mapping a list gives, each element gives one of them. -/
theorem exists_of_mapM {α β ε : Type} {f : α → Except ε β} {as : List α} {bs : List β} (h : as.mapM f = .ok bs) {a : α}
    (ha : a ∈ as) : ∃ b ∈ bs, f a = .ok b := by
  induction as generalizing bs with
  | nil => cases ha
  | cons a' as ih =>
    rw [List.mapM_cons] at h
    cases hf : f a' with
    | error e =>
      rw [hf] at h
      cases h
    | ok b =>
      cases hfs : as.mapM f with
      | error e =>
        rw [hf, hfs] at h
        cases h
      | ok bs' =>
        rw [hf, hfs] at h
        cases h
        rcases List.mem_cons.mp ha with rfl | ha
        · exact ⟨b, by simp, hf⟩
        · obtain ⟨b', hb', hfb'⟩ := ih hfs ha
          exact ⟨b', by simp [hb'], hfb'⟩

/-- A message the batch settles has its row among the records of the batch. -/
theorem recordOf_of_settled {t : Time} {messages : List Message} {registry : Option FlattenRegistry}
    {records : List Record} (hrecords : RowRecords row ((judge row t registry messages).filterMap rowOf?) records)
    {m : Message} (hm : m ∈ settled row (judge row t registry messages)) :
    ∃ record ∈ records, RecordOf row m record := by
  obtain ⟨registry', hmap⟩ := hrecords
  simp only [settled, List.mem_flatMap, List.mem_map, List.mem_filterMap] at hm
  obtain ⟨_, ⟨⟨m', bodyBytes⟩, ⟨⟨m'', v⟩, hj, hreadable⟩, rfl⟩, hattempts⟩ := hm
  have hm' : m = m' := by
    unfold attempts at hattempts
    split at hattempts
    · exact List.mem_singleton.mp hattempts
    · cases hattempts
  subst hm'
  rcases v with e | e | ⟨output, size⟩
  · cases hreadable
  · cases hreadable
  · cases hreadable
    obtain ⟨registry'', hrow⟩ := mem_judge hj
    obtain ⟨encoded, hencoded, houtput⟩ := output_of_mapRow hrow
    have hmem : output ∈ (judge row t registry messages).filterMap rowOf? := List.mem_filterMap.mpr ⟨_, hj, rfl⟩
    obtain ⟨record, hrecord, hrec⟩ := exists_of_mapM hmap hmem
    rw [houtput] at hrec
    exact ⟨record, hrecord, t, encoded, registry', hencoded, hrec⟩

theorem not_settleOf_of_handles {e : Event sdk} (he : Handles e) : settleOf e = none := by
  rcases e with ⟨c, r⟩ | n
  · cases c <;> simp_all [Handles, Still, Handling, settleOf]
  · rfl

/-- A batch settles nothing before it wrote the row. -/
theorem rowFirst_processed {messages : List Message} {s s' : RunState} {h h' : Trace sdk} {r : Except Exn BatchResult}
    (hp : Processed row messages s h r s' h') (hI : Always (RowFirst row) h) : Always (RowFirst row) h' := by
  obtain ⟨t, mapping, writing, settling, rfl, hphases, -⟩ := hp
  have hbefore : Always (RowFirst row) (h ++ (mapping ++ writing)) := by
    refine hI.append_of_forall fun e he _ m hm => ?_
    rcases List.mem_append.mp he with he | he
    · rw [not_settleOf_of_handles (hphases.handles e he)] at hm
      cases hm
    · rcases hphases.writes with ⟨rfl, -⟩ | ⟨records, reply, rfl, -, -⟩
      · cases he
      · obtain rfl := List.mem_singleton.mp he
        cases hm
  rw [← List.append_assoc]
  refine hbefore.append fun before e after he m hm => ?_
  have hmem : m ∈ settling.filterMap attempted := by
    rw [he]
    exact List.mem_filterMap.mpr ⟨e, by simp, attempted_of_settleOf hm⟩
  have hsettled : m ∈ settled row (judge row t s.registry messages) := hphases.tries.subset hmem
  rcases hphases.writes with ⟨-, hnone⟩ | ⟨records, reply, rfl, hrecords, hreply⟩
  · rw [hnone] at hmem
    cases hmem
  · obtain rfl := hreply (List.ne_nil_of_mem hmem)
    exact ⟨records, by simp, recordOf_of_settled hrecords hsettled⟩

/-! ### The pending set of a run -/

/-- The pending set has what was carried and what was deferred; the input state is kept. -/
structure Ledger (input : ExtractorState) (row : Row) (carried : List PendingEntity) (s : RunState) (h : Trace sdk) :
    Prop where
  started : s.state = input
  pending : ∀ d, s.pending.Holds d ↔ Pending d carried ∨ Deferred row h d

section Ledger

variable {input : ExtractorState} {carried : List PendingEntity}

theorem deferred_concat {h : Trace sdk} {e : Event sdk} {d : Deferral} :
    Deferred row (h ++ [e]) d ↔ Deferred row h d ∨ ∃ m, deferredBy e = some m ∧ deferralOf row m = d := by
  simp only [Deferred, List.filterMap_append, List.mem_append, or_and_right, exists_or]
  refine or_congr Iff.rfl ?_
  cases he : deferredBy e <;> simp [he]

/-- An event that defers nothing changes nothing of it. -/
theorem Ledger.idle {s : RunState} {h h' : Trace sdk} {e : Event sdk} (hI : Ledger input row carried s h)
    (hR : Recorded e h h') (he : deferredBy e = none) :
    Ledger input row carried s h' := by
  obtain ⟨-, rfl⟩ := hR
  refine ⟨hI.started, fun d => ?_⟩
  rw [deferred_concat, he, hI.pending d]
  simp

theorem deferredBy_of_quiet {e : Event sdk} (he : Quiet e) : deferredBy e = none := by
  rcases e with ⟨c, r⟩ | n
  · cases c <;> simp_all [Quiet, Call.isQuiet, deferredBy]
  · rfl

theorem deferredBy_of_handling {e : Event sdk} (he : Handling e) : deferredBy e = none := by
  rcases e with ⟨c, r⟩ | n
  · cases c <;> simp_all [Handling, deferredBy]
  · rfl

theorem deferredBy_of_file {e : Event sdk} (he : FileEvent e) : deferredBy e = none := by
  rcases e with ⟨c, r⟩ | n
  · cases c <;> simp_all [FileEvent, deferredBy]
  · cases he

theorem mapFrame_ledger : MapFrame Recorded row (Ledger input row carried) where
  stats _ _ hI := { hI with }
  still _ _ _ _ he hR hI := hI.idle hR (deferredBy_of_quiet (quiet_of_still he))
  unreadable _ hI := { hI with }
  handling _ _ _ _ he hR hI := hI.idle hR (deferredBy_of_handling he)
  registry _ _ hI := { hI with }

/-- A deferred message joins the pending set, and no other does. -/
theorem keeps_deferSettle_ledger (receiver : Handle) (message : Message) (bodyBytes : ℕ) :
    Keeps Recorded (Ledger input row carried) (deferSettle row receiver message bodyBytes) := by
  intro s h hI
  rw [deferSettle, wp_bind, deferMessage, wp_request]
  rintro reply _ ⟨-, rfl⟩
  cases reply with
  | error f => exact hI.idle (e := .call (.deferMessage receiver message) (.error f)) ⟨trivial, rfl⟩ rfl
  | ok _ =>
    rw [sdkResult_ok, onOk_ok, wp_bind, wp_modify, onOk_ok, tally, wp_modify]
    refine ⟨hI.started, fun d => ?_⟩
    have hd : Deferred row (h ++ [.call (.deferMessage receiver message) (.ok ())]) d ↔
        Deferred row h d ∨ deferralOf row message = d := by
      rw [deferred_concat]
      simp [deferredBy]
    rw [hd, PendingSetBuilder.holds_add, hI.pending d, or_assoc]
    exact or_congr Iff.rfl (or_congr Iff.rfl eq_comm)

theorem keeps_process_ledger (receiver : Handle) (messages : List Message) (generation : ℕ) :
    Keeps Recorded (Ledger input row carried) (process row receiver messages generation) := by
  have hM : MapFrame Recorded row (Ledger input row carried) := mapFrame_ledger
  refine keeps_process hM (fun rows => ?_) ?_ receiver messages generation
  · refine keeps_bind keeps_get fun s => ?_
    refine keeps_bind (keeps_when keeps_throw) fun _ => ?_
    refine keeps_bind keeps_ofExcept fun _ => ?_
    exact keeps_request fun a s h h' hR hI => hI.idle hR rfl
  · refine keeps_settle hM.toStillFrame ?_ ?_ fun _ => keeps_deferSettle_ledger
    · refine fun receiver message => keeps_request fun a s h h' hR hI => hI.idle hR ?_
      cases a <;> rfl
    · refine fun _ => keeps_completeSettle_of hM.toStillFrame (fun _ _ hI => { hI with }) ?_ ?_
      · exact fun definition a s h h' hR hI => hI.idle hR rfl
      · exact fun receiver message => keeps_request fun a s h h' hR hI => hI.idle hR rfl

end Ledger

/-! ### A whole run -/

/-- The commit of the run returned `carried`. -/
def CommitReturned (row : Row) (input : ExtractorState) (h : Trace sdk) (carried : List PendingEntity) : Prop :=
  ∃ s₁ h₁ es s₂, Prog.Exec (runCommit row input.pendingCommit) s₁ es (.ok carried) s₂ ∧ h₁ ++ es <+: h

/-- Before the commit: nothing is settled and nothing is pending. -/
structure BeforeCommit (input : ExtractorState) (row : Row) (s : RunState) (h : Trace sdk) : Prop where
  started : s.state = input
  first : Always (RowFirst row) h
  pending : s.pending = {}
  fresh : ∀ d, ¬ Deferred row h d

/-- After it: the set has what the commit carried and what this run deferred. -/
structure AfterCommit (input : ExtractorState) (row : Row) (carried : List PendingEntity) (s : RunState)
    (h : Trace sdk) : Prop extends Ledger input row carried s h where
  first : Always (RowFirst row) h
  returned : CommitReturned row input h carried

theorem CommitReturned.append {input : ExtractorState} {h : Trace sdk} {carried : List PendingEntity}
    (hc : CommitReturned row input h carried) (es : Trace sdk) : CommitReturned row input (h ++ es) carried := by
  obtain ⟨s₁, h₁, es₁, s₂, hrun, hin⟩ := hc
  exact ⟨s₁, h₁, es₁, s₂, hrun, hin.trans (List.prefix_append h es)⟩

section Steps

variable {input : ExtractorState} {carried : List PendingEntity} {s : RunState} {h h' : Trace sdk} {e : Event sdk}

theorem BeforeCommit.idle (hI : BeforeCommit input row s h) (hR : Recorded e h h') (hs : settleOf e = none)
    (hd : deferredBy e = none) : BeforeCommit input row s h' := by
  obtain ⟨-, rfl⟩ := hR
  refine ⟨hI.started, always_concat.mpr ⟨hI.first, fun m hm => ?_⟩, hI.pending, fun d hd' => ?_⟩
  · rw [hs] at hm
    cases hm
  · rw [deferred_concat, hd] at hd'
    rcases hd' with h' | ⟨_, h', -⟩
    · exact hI.fresh d h'
    · cases h'

theorem AfterCommit.idle (hI : AfterCommit input row carried s h) (hR : Recorded e h h') (hs : settleOf e = none)
    (hd : deferredBy e = none) : AfterCommit input row carried s h' := by
  have hledger := hI.toLedger.idle hR hd
  obtain ⟨-, rfl⟩ := hR
  refine ⟨hledger, always_concat.mpr ⟨hI.first, fun m hm => ?_⟩, hI.returned.append _⟩
  rw [hs] at hm
  cases hm

theorem settleOf_of_quiet (he : Quiet e) : settleOf e = none := by
  rcases e with ⟨c, r⟩ | n
  · cases c <;> simp_all [Quiet, Call.isQuiet, settleOf]
  · rfl

theorem settleOf_of_handling (he : Handling e) : settleOf e = none := not_settleOf_of_handles (.inr he)

theorem settleOf_of_file (he : FileEvent e) : settleOf e = none := by
  rcases e with ⟨c, r⟩ | n
  · cases c <;> simp_all [FileEvent, settleOf]
  · cases he

end Steps

theorem endFrame_beforeCommit (input : ExtractorState) : EndFrame Recorded row (BeforeCommit input row) where
  stats _ _ hI := { hI with }
  info _ hI := { hI with }
  quiet _ _ _ _ he hR hI := hI.idle hR (settleOf_of_quiet he) (deferredBy_of_quiet he)
  reopened _ _ _ _ _ hR hI := hI.idle hR rfl rfl
  unreadable _ hI := { hI with }
  handling _ _ _ _ he hR hI := hI.idle hR (settleOf_of_handling he) (deferredBy_of_handling he)
  registry _ _ hI := { hI with }
  seed _ _ _ hI := { hI with }
  start _ _ hI := { hI with }
  output _ _ _ hI := { hI with }
  file _ _ _ _ he hR hI := hI.idle hR (settleOf_of_file he) (deferredBy_of_file he)
  header _ _ _ _ _ _ hR hI := hI.idle hR rfl rfl

theorem endFrame_afterCommit (input : ExtractorState) (carried : List PendingEntity) :
    EndFrame Recorded row (AfterCommit input row carried) where
  stats _ _ hI := { hI with }
  info _ hI := { hI with }
  quiet _ _ _ _ he hR hI := hI.idle hR (settleOf_of_quiet he) (deferredBy_of_quiet he)
  reopened _ _ _ _ _ hR hI := hI.idle hR rfl rfl
  unreadable _ hI := { hI with }
  handling _ _ _ _ he hR hI := hI.idle hR (settleOf_of_handling he) (deferredBy_of_handling he)
  registry _ _ hI := { hI with }
  seed _ _ _ hI := { hI with }
  start _ _ hI := { hI with }
  output _ _ _ hI := { hI with }
  file _ _ _ _ he hR hI := hI.idle hR (settleOf_of_file he) (deferredBy_of_file he)
  header _ _ _ _ _ _ hR hI := hI.idle hR rfl rfl

/-- A batch keeps the ledger of the run. -/
theorem keeps_process_afterCommit (input : ExtractorState) (carried : List PendingEntity) (receiver : Handle)
    (messages : List Message) (generation : ℕ) :
    Keeps Recorded (AfterCommit input row carried) (process row receiver messages generation) := by
  intro s h hI
  refine ((keeps_process_ledger receiver messages generation s h hI.toLedger).and
    (wp_process receiver messages generation s h)).mono ?_
  rintro r s' h' ⟨hledger, hprocessed⟩
  refine ⟨hledger, rowFirst_processed hprocessed hI.first, ?_⟩
  obtain ⟨t, mapping, writing, settling, rfl, -, -⟩ := hprocessed
  exact hI.returned.append _

theorem runSteps_afterCommit (input : ExtractorState) (carried : List PendingEntity) :
    RunSteps Recorded row (AfterCommit input row carried) where
  toEndFrame := endFrame_afterCommit input carried
  table _ _ hI := { hI with }
  receive _ _ _ _ _ _ _ hR hI := hI.idle hR rfl rfl
  recover orphans := by
    have hE : EndFrame Recorded row (AfterCommit input row carried) := endFrame_afterCommit input carried
    refine keeps_recoverOrphans hE.toFrame hE.toHandlingFrame ?_ (keeps_process_afterCommit input carried) orphans
    exact fun _ _ _ _ _ _ _ hR hI => hI.idle hR rfl rfl
  process receiver messages generation := keeps_process_afterCommit input carried receiver messages generation

/-- The commit settles nothing; what it returns is where the run's pending set starts. -/
theorem wp_commitPending (input : ExtractorState) {s : RunState} {h : Trace sdk} (hI : BeforeCommit input row s h) :
    Wp Recorded (commitPending row) (fun r s h => (r = .ok () ∧ ∃ carried, AfterCommit input row carried s h) ∨
      ((∃ e, r = .error e) ∧ BeforeCommit input row s h)) s h := by
  have hkeep : Keeps Recorded (BeforeCommit input row) (runCommit row s.state.pendingCommit) :=
    keeps_runCommit (endFrame_beforeCommit input).toFrame (fun _ _ _ _ _ _ _ hR hI => hI.idle hR rfl rfl) _
  rw [commitPending, wp_bind, wp_get, onOk_ok, wp_bind]
  refine ((hkeep s h hI).and wp_ran).mono ?_
  rintro r s' h' ⟨hI', es, hrun, hpath⟩
  obtain ⟨-, rfl⟩ := path_logged.mp hpath
  cases r with
  | error e => exact .inr ⟨⟨e, rfl⟩, hI'⟩
  | ok carried =>
    rw [onOk_ok, wp_modify]
    refine .inl ⟨rfl, carried, ⟨hI'.started, fun d => ?_⟩, hI'.first, s, h, es, s', ?_, List.prefix_refl _⟩
    · rw [PendingSetBuilder.holds_carry, hI'.pending]
      simp [PendingSetBuilder.not_holds_empty, hI'.fresh d]
    · rw [← hI.started]
      exact hrun

/-- Finishing settles nothing. -/
theorem wp_finish_afterCommit (input : ExtractorState) (carried : List PendingEntity) (s : RunState) (h : Trace sdk)
    (hI : AfterCommit input row carried s h) : Wp Recorded (finish row) (fun r s h =>
      (r = .ok () ∧ AfterCommit input row carried s h) ∨
        ((∃ e, r = .error e) ∧ AfterCommit input row carried s h)) s h := by
  have hF : Frame Recorded (AfterCommit input row carried) := (runSteps_afterCommit input carried).toFrame
  have hkeep : Keeps Recorded (AfterCommit input row carried) (finish row) := by
    refine keeps_bind (keeps_projectedState hF.toStillFrame row) fun state => ?_
    refine keeps_bind (keeps_request ?_) fun _ => keeps_bind (keeps_quietPerform hF.quiet rfl)
      fun count => keeps_noteThrottled hF count
    exact fun a s h h' hR hI => hI.idle hR rfl rfl
  refine (hkeep s h hI).mono fun r s' h' hI' => ?_
  cases r with
  | ok _ => exact .inl ⟨rfl, hI'⟩
  | error e => exact .inr ⟨⟨e, rfl⟩, hI'⟩

/-- What one batch may do. -/
structure Faithful (row : Row) (judged : List Judged) (es : Trace sdk) (r : Except Exn BatchResult) : Prop where
  /-- Settle attempts are for the readable messages, in order, and for no other. -/
  settles : es.filterMap attempted <+: (judged.filterMap readable?).map Prod.fst
  /-- Rows are the rows of the readable messages, and no others. -/
  writes : ∀ records reply, .call (.writeRows records) reply ∈ es → RowRecords row (judged.filterMap rowOf?) records
  /-- An error of the batch's own comes after all rows are written and each readable message was attempted once. -/
  through : ∀ text, r = .error (.user text) → es.filterMap attempted = (judged.filterMap readable?).map Prod.fst ∧
    (judged.filterMap rowOf? ≠ [] → ∃ records, .call (.writeRows records) (.ok ()) ∈ es)

theorem settled_of_holdsLocks (hmode : row.mode.holdsLocks = true) (judged : List Judged) :
    settled row judged = (judged.filterMap readable?).map Prod.fst := by
  have hone : attempts row = fun m => [m] := by
    funext m
    rw [attempts, if_pos hmode]
  rw [settled, hone]
  simp

/-- A batch of a locking mode is faithful. -/
theorem faithful_of_processed (hmode : row.mode.holdsLocks = true) {messages : List Message} {s s' : RunState}
    {es : Trace sdk} {r : Except Exn BatchResult} (hp : Processed row messages s [] r s' es) :
    ∃ t, Faithful row (judge row t s.registry messages) es r := by
  obtain ⟨t, mapping, writing, settling, rfl, hphases, hthrough⟩ := hp
  have hnone : ∀ e ∈ mapping ++ writing, attempted e = none := by
    intro e he
    rcases List.mem_append.mp he with he | he
    · exact attempted_of_handles (hphases.handles e he)
    · rcases hphases.writes with ⟨rfl, -⟩ | ⟨records, reply, rfl, -, -⟩
      · cases he
      · obtain rfl := List.mem_singleton.mp he
        rfl
  have htries : ([] ++ (mapping ++ writing ++ settling)).filterMap attempted = settling.filterMap attempted := by
    rw [List.nil_append, List.filterMap_append, List.filterMap_eq_nil_iff.mpr hnone, List.nil_append]
  refine ⟨t, ?_, fun records reply he => ?_, ?_⟩
  · rw [htries, ← settled_of_holdsLocks hmode]
    exact hphases.tries
  · rw [List.nil_append, List.append_assoc, List.mem_append, List.mem_append] at he
    rcases he with he | he | he
    · exact absurd trivial (not_writesRows_of_handles (hphases.handles _ he))
    · rcases hphases.writes with ⟨rfl, -⟩ | ⟨records', reply', rfl, hrecords, -⟩
      · cases he
      · cases List.mem_singleton.mp he
        exact hrecords
    · exact absurd trivial (hphases.settles _ he)
  · rintro text rfl
    have huser : ∀ e, (Except.error (.user text) : Except Exn BatchResult) = .error e → e.isUser = true := by
      rintro _ ⟨⟩
      rfl
    obtain ⟨⟨hwritten, hall⟩, -⟩ := hthrough huser
    refine ⟨?_, fun hrows => ?_⟩
    · rw [htries, hall, settled_of_holdsLocks hmode]
    · obtain ⟨records, rfl⟩ := hwritten hrows
      exact ⟨records, by simp⟩

/-- In complete and defer_commit mode, in every run: a settle call comes after the row; the pending set has, beside
what the commit carried, exactly the messages whose defer call returned; and every batch is faithful. -/
theorem write_before_settle (row : Row) (hmode : row.mode = .complete ∨ row.mode = .deferCommit) :
    (∀ input turns es r s', Prog.Exec (Component.run row turns) (.start input) es r s' →
      Always (RowFirst row) es ∧ ∃ carried, (carried = [] ∨ CommitReturned row input es carried) ∧
        ∀ d, s'.pending.Holds d ↔ Pending d carried ∨ Deferred row es d) ∧
    ∀ receiver messages generation s es r s',
      Prog.Exec (process row receiver messages generation) s es r s' →
        ∃ t, Faithful row (judge row t s.registry messages) es r := by
  constructor
  · intro input turns es r s' hrun
    have hdestructive : row.mode.isDestructive = true := by
      rcases hmode with h | h <;> rw [h] <;> rfl
    have hstart : BeforeCommit input row (.start input) [] :=
      ⟨rfl, always_nil, rfl, fun d => by simp [Deferred]⟩
    have hends := wp_destructiveRun hdestructive (endFrame_beforeCommit input) (runSteps_afterCommit input)
      (fun s h hI => wp_commitPending input hI) (wp_finish_afterCommit input) turns hstart
    rcases wp_logged.mp hends es r s' hrun fun _ _ => trivial with ⟨-, carried, hI⟩ | ⟨-, hI | ⟨carried, hI⟩⟩
    · exact ⟨hI.first, carried, .inr hI.returned, hI.pending⟩
    · refine ⟨hI.first, [], .inl rfl, fun d => ?_⟩
      rw [hI.pending]
      exact iff_of_false (PendingSetBuilder.not_holds_empty d) (by simpa using hI.fresh d)
    · exact ⟨hI.first, carried, .inr hI.returned, hI.pending⟩
  · intro receiver messages generation s es r s' hrun
    have hlocks : row.mode.holdsLocks = true := by
      rcases hmode with h | h <;> rw [h] <;> rfl
    exact faithful_of_processed hlocks
      (wp_logged.mp (wp_process receiver messages generation s []) es r s' hrun fun _ _ => trivial)

/-- One message is deferred, after its row. -/
theorem write_before_settle_one :
    let es := scripted (Component.run deferRow 8) (.start {}) { receives := [.ok [{ sequenceNumber := 1 }]] }
    Always (RowFirst deferRow) es ∧ Deferred deferRow es ⟨deferRow.entity, none, 1⟩ :=
  ⟨((write_before_settle deferRow (.inr rfl)).1 {} 8 _ _ _ (exec_scripted _ _ _)).1,
    by decide +kernel⟩

end ServiceBusExtractor
