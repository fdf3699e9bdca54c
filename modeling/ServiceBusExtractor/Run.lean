import ServiceBusExtractor.Sdk

/-!
# The state of a run

The collaborators of one run share their counters, the output table, the flatten
registry and the pending set. Here they are one record.

## The model

* `RunStats` — the counters of the run and its warnings, each logged once.
* `UnreadableHandler` — what the unreadable-body policy remembers.
* `OutputTable` — the open output table.
* `RunState` — all of it, with the metadata of the entity.
* `warn`, `safeSettle` — the two helpers every collaborator uses.
* `projectedState` — the row state the run would write.
-/

namespace ServiceBusExtractor

open Interaction

inductive StopReason where
  | idle
  | maxMessages
  | maxDuration
  | watermark
  | stateBudget
  | noMoreSessions
  | sessionRevisited
  | endOfEntity
  | receiveStalled
  deriving DecidableEq, Repr

/-- The reason as the warnings and the summary name it. -/
def StopReason.value : StopReason → String
  | .idle => "idle"
  | .maxMessages => "max_messages"
  | .maxDuration => "max_duration"
  | .watermark => "watermark"
  | .stateBudget => "state_budget"
  | .noMoreSessions => "no_more_sessions"
  | .sessionRevisited => "session_revisited"
  | .endOfEntity => "end_of_entity"
  | .receiveStalled => "receive_stalled"

/-- The keys of the warnings: a key is logged once in a run. -/
inductive WarningKey where
  | legacyQueueWriteAlways
  | atMostOnce
  | prefetch
  | pendingCarried
  | peekSessions
  | settlementFailures
  | unreadableRetryBudget
  | deadLetterOnSubQueue
  | unreadable (reason : UnreadableReason) (disposition : Disposition)
  | stateBudget
  | messagesRemaining
  | watermarkApproximate
  | commitSessionLocked
  | commitStaleEntity
  | orphanSessions
  | orphanScanIncomplete
  | orphanBestEffort
  | orphanGuard
  | foreignDeferrals
  | throttled
  deriving DecidableEq, Repr

/-- The counters of a run. -/
structure RunStats where
  received : ℕ := 0
  written : ℕ := 0
  completed : ℕ := 0
  deferred : ℕ := 0
  deletedOnReceive : ℕ := 0
  committed : ℕ := 0
  alreadyGone : ℕ := 0
  carriedForward : ℤ := 0
  droppedStale : ℤ := 0
  orphansRecovered : ℕ := 0
  settlementFailures : ℕ := 0
  recoveries : ℕ := 0
  emptyReceiveRetries : ℕ := 0
  throttled : ℕ := 0
  unreadableRecycles : ℕ := 0
  expiredSkipped : ℕ := 0
  skippedScheduled : ℕ := 0
  maxDeliveryCount : ℕ := 0
  orphansGuarded : List ℤ := []
  /-- One entry for each unreadable verdict. -/
  unreadable : List (UnreadableReason × Disposition) := []
  stopReason : Option StopReason := none
  warnings : List (WarningKey × String) := []

/-- The unreadable bodies that were disposed of; a retry is not a disposal. -/
def RunStats.unreadableTotal (stats : RunStats) : ℕ := (stats.unreadable.filter fun u => u.2 != .retry).length

/-- What the unreadable-body policy remembers in a run. -/
structure UnreadableHandler where
  retriesEnabled : Bool := true
  /-- The connection generation of the first decode failure of a sequence number. -/
  firstFailure : List (ℤ × ℕ) := []
  left : List ℤ := []
  /-- The first failure of the policy `fail` in the batch. -/
  pending : Option Exn := none

/-- The output table: its columns, its manifest, and whether the CSV is open. -/
structure OutputTable where
  columns : List String := []
  definition : Option TableDefinition := none
  writeAlwaysArmed : Bool := false
  isOpen : Bool := false

/-- What the collaborators of a run share. -/
structure RunState where
  /-- The row state the run started from. -/
  state : ExtractorState := {}
  stats : RunStats := {}
  info : EntityInfo := {}
  t0 : Time := 0
  registry : Option FlattenRegistry := none
  pending : PendingSetBuilder := {}
  output : OutputTable := {}
  /-- `CompleteSettler._armed`. -/
  settlerArmed : Bool := false
  unreadable : UnreadableHandler := {}
  peekCursor : Option PeekCursor := none

/-- A step of a collaborator. -/
abbrev Run (α : Type) := Program RunState α

/-- Change the counters. -/
def tally (change : RunStats → RunStats) : Run Unit := modify fun s => { s with stats := change s.stats }

/-- `RunStats.warn`: log the first warning of a key and keep it. -/
def warn (key : WarningKey) (text : String) : Run Unit := do
  let s ← get
  Prog.when (key ∉ s.stats.warnings.map Prod.fst) do
    tally fun stats => { stats with warnings := stats.warnings ++ [(key, text)] }
    Prog.note (S := sdk) (.warning text)

/-- The pending set the run would write: a destructive mode owns it. -/
def projectedPending (row : Row) : Run (List PendingEntity) := do
  let s ← get
  if row.mode.isDestructive then do
    let now ← utcNow
    pure (s.pending.build (row.codec.formatTimestamp now))
  else pure s.state.pendingCommit

/-- `Component._projected_state`: the row state the run would write now. Destructive modes own the
pending set, an incremental peek the cursor and a flattening run the columns. -/
def projectedState (row : Row) : Run ExtractorState := do
  let pendingCommit ← projectedPending row
  let s ← get
  pure {
    pendingCommit
    peekCursor := if row.mode.isDestructive = false ∧ row.config.source.fetchMode = .incrementalFetch
      then s.peekCursor else s.state.peekCursor
    flattenColumns := (s.registry.map FlattenRegistry.toState).getD s.state.flattenColumns }

/-- A lost lock or an already settled message. -/
def Exn.isSettlementFailure : Exn → Bool
  | .fault (.alreadySettled _) => true
  | e => e.isKind .messageLockLost

/-- Run one settle or renew; a lost lock or an already settled message is counted, never fatal. -/
def safeSettle (action : Run Unit) : Run Unit :=
  tryCatch action fun error => do
    if error.isSettlementFailure then
      tally fun stats => { stats with settlementFailures := stats.settlementFailures + 1 }
      warn .settlementFailures
        (s!"A message could not be settled ({error.className}): its lock was lost or it was already " ++
          "settled. Such messages redeliver and the primary key deduplicates their rows; the run summary " ++
          "counts every occurrence (settlement_failures).")
    else throw error

end ServiceBusExtractor
