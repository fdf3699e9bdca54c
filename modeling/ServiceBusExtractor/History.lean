import ServiceBusExtractor.OneRun
import ServiceBusExtractor.Script

/-!
# Runs of one row, one after the other

The state a run writes is seen by the next run only where the run succeeded and its
table was imported. Any other run, killed at any point, leaves the state the next
one sees as it was. The settings of the row may change between two runs.

## The model

* `PastRun` — one run: its settings, the state it saw, its trace, and the state the
  next run sees of it, if any.
* `History s runs v` — the runs lead from the visible state `s` to `v`.

## What is proved

* `deleted_was_imported`: the two-phase deletion. Whatever a commit asks the broker
  to delete was written and deferred by an earlier run whose table was imported.
* `pending_ledger`: no deferral is forgotten.
-/

namespace ServiceBusExtractor

open Interaction

/-- One run of the row. -/
structure PastRun where
  row : Row
  /-- The state the run saw. -/
  input : ExtractorState
  /-- What it did, as far as it came. -/
  trace : Trace sdk
  /-- The state the next run sees of it: it succeeded and its table was imported. -/
  saved : Option ExtractorState

namespace PastRun

/-- The run failed, was killed, or its table was not imported. -/
def Lost (run : PastRun) : Prop := run.saved = none

/-- The run is a run of the component, whole where its state is seen. -/
inductive Ran (run : PastRun) : Prop where
  /-- It came to some point of a run, and its state is not seen. -/
  | lost {turns : ℕ} {es : Trace sdk} {r : Except Exn (Option Unit)} {s : RunState}
      (hlost : run.Lost) (hrun : Prog.Exec (Component.run run.row turns) (.start run.input) es r s)
      (hcut : run.trace <+: es)
  /-- It ended well, and the state it wrote is seen. -/
  | imported {turns : ℕ} {s : RunState} {saved : ExtractorState} (hsaved : run.saved = some saved)
      (hrun : Prog.Exec (Component.run run.row turns) (.start run.input) run.trace (.ok (some ())) s)
      (hwrite : saved ∈ stateWrites run.trace)

/-- The state the next run sees. -/
def visible (run : PastRun) : ExtractorState := run.saved.getD run.input

end PastRun

/-- The runs lead from one visible state to another. -/
inductive History : ExtractorState → List PastRun → ExtractorState → Prop where
  /-- No run, no change. -/
  | nil {s : ExtractorState} : History s [] s
  /-- One run from the state it sees, and then the others. -/
  | cons {run : PastRun} {runs : List PastRun} {v : ExtractorState} :
      run.Ran → History run.visible runs v → History run.input (run :: runs) v

/-- The run asked the broker to delete the number. -/
def AsksToDelete (h : Trace sdk) (entity : EntityRef) (q : ℤ) : Prop :=
  Once (fun before e => ∃ seqs reply, Asks before entity seqs reply e ∧ q ∈ seqs) h

/-- The numbers the event asks to be deleted, each with its entity. -/
def askedBy (h : Trace sdk) : Event sdk → List (EntityRef × ℤ)
  | .call (.receiveDeferredMessages receiver seqs _) _ => match receiverOf h receiver with
    | some (entity, profile) => if profile.receiveMode = .receiveAndDelete then seqs.map fun q => (entity, q) else []
    | none => []
  | _ => []

theorem mem_askedBy {h : Trace sdk} {entity : EntityRef} {q : ℤ} {e : Event sdk} :
    (entity, q) ∈ askedBy h e ↔ ∃ seqs reply, Asks h entity seqs reply e ∧ q ∈ seqs := by
  constructor
  · intro hq
    unfold askedBy at hq
    split at hq
    · split at hq
      · split at hq
        · rename_i hopened hmode
          obtain ⟨p, hp, heq⟩ := List.mem_map.mp hq
          cases heq
          exact ⟨_, _, ⟨_, _, _, rfl, hopened, hmode⟩, hp⟩
        · cases hq
      · cases hq
    · cases hq
  · rintro ⟨seqs, reply, ⟨receiver, timeout, profile, rfl, hopened, hmode⟩, hq⟩
    simp [askedBy, hopened, hmode, hq]

instance (h : Trace sdk) (entity : EntityRef) (q : ℤ) (e : Event sdk) :
    Decidable (∃ seqs reply, Asks h entity seqs reply e ∧ q ∈ seqs) := decidable_of_iff _ mem_askedBy

instance (h : Trace sdk) (entity : EntityRef) (q : ℤ) : Decidable (AsksToDelete h entity q) :=
  inferInstanceAs (Decidable (Once _ h))

/-- The run's table was imported, with the row of a message it then deferred as `d`. -/
def ImportedAndDeferred (run : PastRun) (d : Deferral) : Prop :=
  run.saved ≠ none ∧ ∃ m ∈ run.trace.filterMap deferredBy, deferralOf run.row m = d ∧ RowWritten run.row run.trace m

/-- The broker deleted the deferral in the run, or did not find it when it was asked for alone, or the run gave it up:
its entity is not the run's own and refused to be read, a warning names it, and it is counted as dropped. -/
def Released (run : PastRun) (d : Deferral) : Prop :=
  Gone run.trace d.entity d.sequenceNumber ∨ ∃ carried dropped,
    CommitOutcome run.row run.input carried dropped run.trace ∧ Pending d dropped

section OneRun

variable {run : PastRun} {saved : ExtractorState} {d : Deferral}

/-- A deferred message has its row. -/
theorem rowWritten_of_deferredBy {row : Row} {h : Trace sdk} {m : Message} (hf : Always (RowFirst row) h)
    (hm : m ∈ h.filterMap deferredBy) : RowWritten row h m := by
  obtain ⟨e, he, hd⟩ := List.mem_filterMap.mp hm
  obtain ⟨before, after, rfl⟩ := List.append_of_mem he
  have hs : settleOf e = some m := by
    rcases e with ⟨c, r⟩ | n
    · cases c <;> first | cases hd | skip
      cases r with
      | error fault => cases hd
      | ok _ => exact hd
    · cases hd
  exact (hf before e after rfl m hs).append _

theorem PastRun.Ran.listed (hr : run.Ran) : Always (AsksListed run.input.pendingCommit) run.trace := by
  cases hr with
  | lost _ hrun hcut => exact (run_leaves hrun).1.initial hcut
  | imported _ hrun _ => exact (run_leaves hrun).1

/-- A run whose state is seen leaves it as `Leaves` says. -/
theorem PastRun.Ran.leaves (hr : run.Ran) (hs : run.saved = some saved) :
    Leaves run.row run.input run.trace saved := by
  cases hr with
  | lost hlost _ _ =>
    rw [PastRun.Lost, hs] at hlost
    cases hlost
  | imported hsaved hrun hwrite =>
    rw [hs] at hsaved
    cases hsaved
    rcases (run_leaves hrun).2 with ⟨-, written, hwrites, hleaves⟩ | ⟨hne, -⟩
    · rw [hwrites, List.mem_singleton] at hwrite
      rw [hwrite]
      exact hleaves
    · exact absurd rfl hne

theorem PastRun.Ran.first (hr : run.Ran) (hmode : run.row.mode.isDestructive = true) :
    Always (RowFirst run.row) run.trace := by
  cases hr with
  | lost _ hrun hcut => exact (destructiveRun_leaves hmode hrun).2.1.initial hcut
  | imported _ hrun _ => exact (destructiveRun_leaves hmode hrun).2.1

/-- What is pending after a run was pending before, or the run wrote and deferred it and was imported. -/
theorem PastRun.Ran.sourced (hr : run.Ran) (hd : Pending d run.visible.pendingCommit) :
    Pending d run.input.pendingCommit ∨ ImportedAndDeferred run d := by
  cases hs : run.saved with
  | none =>
    rw [PastRun.visible, hs] at hd
    exact .inl hd
  | some saved =>
    rw [PastRun.visible, hs] at hd
    have hleaves := hr.leaves hs
    cases hmode : run.row.mode.isDestructive with
    | false =>
      rw [Option.getD_some, hleaves.carried hmode] at hd
      exact .inl hd
    | true =>
      obtain ⟨carried, dropped, houtcome, hpending⟩ := hleaves.pending hmode
      rcases (hpending d).mp hd with hc | ⟨m, hm, hmd⟩
      · exact .inl (houtcome.committed.carried d hc)
      · exact .inr ⟨by simp [hs], m, hm, hmd, rowWritten_of_deferredBy (hr.first hmode) hm⟩

/-- What was pending before a run is pending after it, or the run released it. -/
theorem PastRun.Ran.kept (hr : run.Ran) (hpos : 0 ≤ d.sequenceNumber) (hd : Pending d run.input.pendingCommit) :
    Pending d run.visible.pendingCommit ∨ Released run d := by
  cases hs : run.saved with
  | none =>
    rw [PastRun.visible, hs]
    exact .inl hd
  | some saved =>
    rw [PastRun.visible, hs, Option.getD_some]
    have hleaves := hr.leaves hs
    cases hmode : run.row.mode.isDestructive with
    | false =>
      rw [hleaves.carried hmode]
      exact .inl hd
    | true =>
      obtain ⟨carried, dropped, houtcome, hpending⟩ := hleaves.pending hmode
      rcases houtcome.committed.kept d hpos hd with hc | hg | hdropped
      · exact .inl ((hpending d).mpr (.inl hc))
      · exact .inr (.inl hg)
      · exact .inr (.inr ⟨carried, dropped, houtcome, hdropped⟩)

end OneRun

section Runs

variable {s v : ExtractorState} {runs before between after : List PastRun} {run : PastRun} {d : Deferral}

theorem history_append : History s (before ++ after) v ↔ ∃ u, History s before u ∧ History u after v := by
  induction before generalizing s with
  | nil =>
    constructor
    · intro h
      exact ⟨s, .nil, h⟩
    · rintro ⟨u, ⟨⟩, h⟩
      exact h
  | cons run before ih =>
    constructor
    · intro h
      cases h with
      | cons hr h =>
        obtain ⟨u, hb, ha⟩ := ih.mp h
        exact ⟨u, .cons hr hb, ha⟩
    · rintro ⟨u, hb, ha⟩
      cases hb with
      | cons hr hb => exact .cons hr (ih.mpr ⟨u, hb, ha⟩)

/-- A run in the middle of a history saw what the runs before it left. -/
theorem History.at (h : History s (before ++ run :: after) v) :
    History s before run.input ∧ run.Ran ∧ History run.visible after v := by
  obtain ⟨u, hb, ha⟩ := history_append.mp h
  cases ha with
  | cons hr ha => exact ⟨hb, hr, ha⟩

/-- What is pending was pending at the start, or an imported run wrote and deferred it. -/
theorem History.sourced (h : History s runs v) (hd : Pending d v.pendingCommit) :
    Pending d s.pendingCommit ∨ ∃ run ∈ runs, ImportedAndDeferred run d := by
  induction h with
  | nil => exact .inl hd
  | cons hr _ ih =>
    rcases ih hd with hd | ⟨run, hrun, hi⟩
    · rcases hr.sourced hd with hd | hi
      · exact .inl hd
      · exact .inr ⟨_, List.mem_cons_self, hi⟩
    · exact .inr ⟨run, List.mem_cons_of_mem _ hrun, hi⟩

/-- What was pending at the start is pending at the end, or some run released it. -/
theorem History.kept (h : History s runs v) (hpos : 0 ≤ d.sequenceNumber) (hd : Pending d s.pendingCommit) :
    Pending d v.pendingCommit ∨ ∃ run ∈ runs, Released run d := by
  induction h with
  | nil => exact .inl hd
  | cons hr _ ih =>
    rcases hr.kept hpos hd with hd | hreleased
    · rcases ih hd with hd | ⟨run, hrun, hreleased⟩
      · exact .inl hd
      · exact .inr ⟨run, List.mem_cons_of_mem _ hrun, hreleased⟩
    · exact .inr ⟨_, List.mem_cons_self, hreleased⟩

/-- A number the run asks to be deleted is one of its pending set. -/
theorem PastRun.Ran.listed_of_asks (hr : run.Ran) {entity : EntityRef} {q : ℤ}
    (hask : AsksToDelete run.trace entity q) :
    Listed run.input.pendingCommit entity q := by
  obtain ⟨earlier, e, later, heq, seqs, reply, hasks, hq⟩ := hask
  exact hr.listed earlier e later heq entity seqs reply hasks q hq

/-- Two-phase deletion: whatever a run asks the broker to delete, an earlier run of the history wrote, deferred and saw
imported; and after a lost run, a later one did so again, unless the number was pending already when the lost run
started, from an imported run before it. -/
theorem deleted_was_imported (h : History {} (before ++ run :: after) v) {entity : EntityRef} {q : ℤ}
    (hask : AsksToDelete run.trace entity q) :
    (∃ earlier ∈ before, ∃ sessionId, ImportedAndDeferred earlier ⟨entity, sessionId, q⟩) ∧
    ∀ past lost between, before = past ++ lost :: between → lost.Lost →
      (∃ later ∈ between, ∃ sessionId, ImportedAndDeferred later ⟨entity, sessionId, q⟩) ∨
      (Listed lost.input.pendingCommit entity q ∧
        ∃ earlier ∈ past, ∃ sessionId, ImportedAndDeferred earlier ⟨entity, sessionId, q⟩) := by
  obtain ⟨hbefore, hr, -⟩ := h.at
  obtain ⟨sessionId, hd⟩ := hr.listed_of_asks hask
  constructor
  · rcases hbefore.sourced hd with hnil | ⟨earlier, he, hi⟩
    · exact absurd hnil (not_pending_nil _)
    · exact ⟨earlier, he, sessionId, hi⟩
  · rintro past lost between rfl hlost
    obtain ⟨hpast, -, hbetween⟩ := hbefore.at
    have hsame : lost.visible = lost.input := by
      rw [PastRun.visible, hlost]
      rfl
    rw [hsame] at hbetween
    rcases hbetween.sourced hd with hd | ⟨later, hl, hi⟩
    · refine .inr ⟨⟨sessionId, hd⟩, ?_⟩
      rcases hpast.sourced hd with hnil | ⟨earlier, he, hi⟩
      · exact absurd hnil (not_pending_nil _)
      · exact ⟨earlier, he, sessionId, hi⟩
    · exact .inl ⟨later, hl, sessionId, hi⟩

/-- The state of a run that deferred message 1. -/
def oneDeferred : ExtractorState where
  pendingCommit := [{
    entity := deferRow.entity
    groups := [{ ranges := [(1, 1)] }]
    deferredAtUtc := "0" }]

/-- A scripted run, imported with the state it wrote. -/
def scriptedRun (row : Row) (input : ExtractorState) (script : Script) (saved : ExtractorState) : PastRun where
  row := row
  input := input
  trace := scripted (Component.run row 8) (.start input) script
  saved := some saved

theorem ran_scriptedRun {row : Row} {input saved : ExtractorState} {script : Script}
    (hresult : scriptedResult (Component.run row 8) (.start input) script = .ok (some ()))
    (hwrite : saved ∈ stateWrites (scripted (Component.run row 8) (.start input) script)) :
    (scriptedRun row input script saved).Ran := .imported rfl (exec_of_scriptedResult script hresult) hwrite

/-- The run that defers message 1. -/
def deferringRun : PastRun := scriptedRun deferRow {} { receives := [.ok [{ sequenceNumber := 1 }]] } oneDeferred

/-- The next one, which deletes it. -/
def deletingRun : PastRun := scriptedRun deferRow oneDeferred {} {}

theorem ran_deferringRun : deferringRun.Ran := ran_scriptedRun (by decide +kernel) (by decide +kernel)

theorem ran_deletingRun : deletingRun.Ran := ran_scriptedRun (by decide +kernel) (by decide +kernel)

/-- Message 1 is deleted: the run before wrote and deferred it. -/
theorem deleted_was_imported_one :
    AsksToDelete deletingRun.trace deferRow.entity 1 ∧
      ∃ earlier ∈ [deferringRun], ∃ sessionId, ImportedAndDeferred earlier ⟨deferRow.entity, sessionId, 1⟩ :=
  have hask : AsksToDelete deletingRun.trace deferRow.entity 1 := by decide +kernel
  have h : History {} ([deferringRun] ++ [deletingRun]) {} := .cons ran_deferringRun (.cons ran_deletingRun .nil)
  ⟨hask, (deleted_was_imported h hask).1⟩

/-- No deferral is forgotten: over any runs, what a saved state has pending every later saved state has pending, until a
run released it. And a run that does not end well writes no state; a peeking one carries the pending set; only an
incremental peek moves the cursor, and only a flattening run the columns. -/
theorem pending_ledger :
    (∀ {s v : ExtractorState} {before between after : List PastRun} {x y : PastRun} {sx sy : ExtractorState},
      History s (before ++ x :: (between ++ y :: after)) v → x.saved = some sx → y.saved = some sy →
      ∀ d : Deferral, 0 ≤ d.sequenceNumber → Pending d sx.pendingCommit →
        Pending d sy.pendingCommit ∨ ∃ run ∈ between ++ [y], Released run d) ∧
    ∀ row input turns es r s', Prog.Exec (Component.run row turns) (.start input) es r s' →
      (r ≠ .ok (some ()) → stateWrites es = []) ∧ ∀ saved ∈ stateWrites es,
        (row.mode.isDestructive = false → saved.pendingCommit = input.pendingCommit) ∧
        (row.mode.isDestructive = true ∨ row.config.source.fetchMode = .fullFetch →
          saved.peekCursor = input.peekCursor) ∧
        (row.config.body.bodyFormat ≠ .jsonFlatten → saved.flattenColumns = input.flattenColumns) := by
  constructor
  · intro s v before between after x y sx sy h hx hy d hpos hd
    obtain ⟨-, -, hrest⟩ := h.at
    have hfrom : History x.visible (between ++ [y]) y.visible := by
      obtain ⟨hbetween, hry, -⟩ := hrest.at
      exact history_append.mpr ⟨y.input, hbetween, .cons hry .nil⟩
    have hvx : x.visible = sx := by
      rw [PastRun.visible, hx]
      rfl
    have hvy : y.visible = sy := by
      rw [PastRun.visible, hy]
      rfl
    rw [hvx, hvy] at hfrom
    exact hfrom.kept hpos hd
  · intro row input turns es r s' hrun
    rcases (run_leaves hrun).2 with ⟨hr, written, hwrites, hleaves⟩ | ⟨-, hnone⟩
    · refine ⟨fun hne => absurd hr hne, fun saved hsaved => ?_⟩
      rw [hwrites, List.mem_singleton] at hsaved
      rw [hsaved]
      exact ⟨hleaves.carried, hleaves.cursor, hleaves.columns⟩
    · refine ⟨fun _ => hnone, fun saved hsaved => ?_⟩
      rw [hnone] at hsaved
      cases hsaved

/-- Message 1 is in the first saved state and not in the second: the second run released it. -/
theorem pending_ledger_one :
    let d : Deferral := ⟨deferRow.entity, none, 1⟩
    Pending d oneDeferred.pendingCommit ∧ (Pending d [] ∨ ∃ run ∈ [deletingRun], Released run d) :=
  have hd : Pending ⟨deferRow.entity, none, 1⟩ oneDeferred.pendingCommit :=
    ⟨_, List.mem_singleton_self _, rfl, _, List.mem_singleton_self _, rfl,
      ⟨(1, 1), List.mem_singleton_self _, by decide⟩⟩
  have h : History {} ([] ++ deferringRun :: ([] ++ deletingRun :: [])) {} :=
    .cons ran_deferringRun (.cons ran_deletingRun .nil)
  ⟨hd, pending_ledger.1 h rfl rfl _ (by decide) hd⟩

end Runs

end ServiceBusExtractor
