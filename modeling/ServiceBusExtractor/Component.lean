import ServiceBusExtractor.Commit
import ServiceBusExtractor.Peek

/-!
# The component

One run of one row: read the metadata, open the table, commit and reconcile the
deferrals or peek, receive until a stop, and write the new state once at the end.

## The model

* `startRun` — everything before the table is opened.
* `extract` — the run inside the open table, destructive or peeking.
* `finish` — the one write of the row state.
* `Component.run` — the whole run from an input state; `none` as its result says
  that one of its loops is still running.
-/

namespace ServiceBusExtractor

open Interaction

def legacyQueueWarning : String :=
  ("This project runs on the legacy job queue, which does not support write_always: if this job fails after " ++
    "messages were deleted, the rows written so far are not uploaded and those messages are lost. Use defer_commit " ++
    "for failure-safe consumption on this project.")

/-- The modes that arm `write_always`. -/
def SettlementMode.armsWriteAlways (mode : SettlementMode) : Bool := mode == .complete || mode == .receiveAndDelete

/-- `Component._check_sessions`: a known mismatch ends the run at once. -/
def checkSessions (row : Row) (info : EntityInfo) : Except Exn Unit :=
  match info.requiresSession with
  | none => .ok ()
  | some required =>
    if row.entity.isSubQueue || required == row.sessions then .ok ()
    else if required then
      .error (.user s!"The entity '{row.entity.path}' requires sessions: enable Sessions in the row.")
    else .error (.user s!"The entity '{row.entity.path}' does not use sessions: disable Sessions in the row.")

/-- `Component._start_run`. -/
def startRun (row : Row) : Run Unit := do
  let t0 ← utcNow
  let info ← loadEntityInfo row.entity
  modify fun s => { s with t0 := t0, info := info, peekCursor := s.state.peekCursor }
  Prog.ofExcept (checkSessions row info)
  Prog.when (row.mode.armsWriteAlways = true ∧ row.isLegacyQueue = true)
    (warn .legacyQueueWriteAlways legacyQueueWarning)
  Prog.when (row.config.body.bodyFormat = .jsonFlatten)
    (modify fun s => { s with registry := some (.seed s.state.flattenColumns metadataColumnNames) })

/-- `Component._commit_pending`: what could not be deleted is carried into this run's set. -/
def commitPending (row : Row) : Run Unit := do
  let s ← get
  let carried ← runCommit row s.state.pendingCommit
  modify fun s => { s with pending := s.pending.carry carried }

/-- `Component._reconcile_deferrals`. -/
def reconcileDeferrals (row : Row) : Run Unit := if row.mode = .deferCommit then runScan row else probe row

/-- `Component._consume`. -/
def consumeEntity (row : Row) (turns : ℕ) : Run (Option StopReason) := do
  Prog.when (row.mode = .receiveAndDelete) (warn .atMostOnce
    "receive_and_delete deletes messages on delivery: a failure before the rows reach Storage loses them.")
  let prefetch := row.config.advanced.prefetchCount
  Prog.when (prefetch > 1) (warn .prefetch
    (s!"prefetch_count is {prefetch}: up to {prefetch} messages wait in the local buffer with their locks already " ++
      "running, so a slow batch can lose locks (those messages redeliver and the primary key deduplicates their " ++
      "rows) and an interrupted connection leaves more messages locked until their locks expire. The default of 1 " ++
      "is recommended."))
  runReceiveLoop row turns

/-- The destructive run inside the open table. -/
def consumeRun (row : Row) (turns : ℕ) : Run (Option Unit) := do
  commitPending row
  reconcileDeferrals row
  let reason ← consumeEntity row turns
  pure (reason.map fun _ => ())

/-- `Component._peek`: the pending set of an earlier deferring period is carried untouched. -/
def peekRun (row : Row) (turns : ℕ) : Run (Option Unit) := do
  let s ← get
  let carried := (s.state.pendingCommit.map fun pe => countGroups pe.groups).sum
  Prog.when (carried ≠ 0) (warn .pendingCarried
    (s!"{carried} message(s) deferred by an earlier defer-commit run are still pending; they are deleted by the " ++
      "next run in a destructive mode."))
  match ← runPeekPager row turns with
  | none => pure none
  | some cursor => do
    modify fun s => { s with peekCursor := cursor }
    pure (some ())

/-- The run inside the open table. -/
def extract (row : Row) (turns : ℕ) : Run (Option Unit) :=
  if row.mode.isDestructive then consumeRun row turns else peekRun row turns

/-- The output table as a context manager: a failure to close it never hides the run's own. -/
def withOutput (row : Row) (p : Run (Option Unit)) : Run (Option Unit) := do
  openOutput row
  match ← Prog.attempt p with
  | .ok none => pure none
  | .ok (some _) => do
    closeOutput
    pure (some ())
  | .error error => do
    tryCatch closeOutput fun _ => pure ()
    throw error

/-- `RunStats.note_throttled`. -/
def noteThrottled (count : ℕ) : Run Unit := do
  tally fun stats => { stats with throttled := count }
  let s ← get
  let signs :=
    (if count = 0 then [] else [s!"throttled {count} request(s) (ServerBusy; the SDK retried them)"]) ++
    (if s.stats.emptyReceiveRetries = 0 then []
      else [(s!"returned no messages to {s.stats.emptyReceiveRetries} receive(s) although messages were available " ++
        "(the run reconnected and continued)")])
  let observed := " and ".intercalate signs
  Prog.when (signs ≠ []) (warn .throttled
    (s!"Service Bus {observed} -- typical of a namespace at its throughput limit (Standard tier: about " ++
      "1,000 operations per second, shared by every client of the namespace) or of a stalled receive link. Nothing " ++
      "was lost. If runs slow down or stop before the entity is drained, lower Batch Size / Prefetch Count, run " ++
      "fewer consumers at once, or use the Premium tier."))

/-- `Component._finish`: write the row state, once. -/
def finish (row : Row) : Run Unit := do
  let state ← projectedState row
  Prog.request (S := sdk) (.writeStateFile state) fileResult
  let count ← throttledRequests
  noteThrottled count

/-- `Component.run`, with the row state loaded. -/
def Component.run (row : Row) (turns : ℕ) : Run (Option Unit) := do
  startRun row
  match ← withOutput row (extract row turns) with
  | none => pure none
  | some _ => do
    finish row
    pure (some ())

/-- What a run starts from. -/
def RunState.start (state : ExtractorState) : RunState := { state }

end ServiceBusExtractor
