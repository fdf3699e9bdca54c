import ServiceBusExtractor.Output

/-!
# Settlers, the unreadable-body policy and the batch processor

The one pipeline of the receive loop, the orphan recovery and the peek pager.

## The model

* `settle` — the settler of the row's mode, behind the lock renewal and `safeSettle`.
* `handleUnreadable` — the `unreadable_body` policy.
* `toRow` — a message's row, or why its body is unreadable.
* `process` — one batch: map every message, write the rows in one call, settle
  the readable messages, and only then raise what the batch has to raise.
-/

namespace ServiceBusExtractor

open Interaction

def lockRenewMargin : Time := seconds 10
def unreadableAbortMin : ℕ := 10
def maxUnreadableRecycles : ℕ := 50

/-- The modes whose messages are locked when they are received. -/
def SettlementMode.holdsLocks (mode : SettlementMode) : Bool := mode == .complete || mode == .deferCommit

/-! ### Settlers -/

/-- The lock runs out within the margin. -/
def lapsesSoon (lockedUntil : Option Time) (now : Time) : Bool :=
  match lockedUntil with
  | none => false
  | some lockedUntil => lockedUntil - now < lockRenewMargin

/-- `renew_if_needed`: messages without a lock of their own are left alone. -/
def renewIfNeeded (receiver : Handle) (message : Message) (now : Time) : Run Unit :=
  Prog.when (lapsesSoon message.lockedUntilUtc now = true) (renewMessageLock receiver message)

/-- `CompleteSettler.settle`: arm `write_always` before the first message is deleted. -/
def completeSettle (receiver : Handle) (message : Message) : Run Unit := do
  let s ← get
  Prog.when (s.settlerArmed = false) do
    armWriteAlways
    modify fun s => { s with settlerArmed := true }
  completeMessage receiver message
  tally fun stats => { stats with completed := stats.completed + 1 }

/-- `DeferSettler.settle`: the message joins the pending set once the call returned. -/
def deferSettle (row : Row) (receiver : Handle) (message : Message) (bodyBytes : ℕ) : Run Unit := do
  deferMessage receiver message
  modify fun s => { s with
    pending := s.pending.add row.entity message.sequenceNumber message.sessionId bodyBytes }
  tally fun stats => { stats with deferred := stats.deferred + 1 }

/-- `make_settler`: the settler of the mode. -/
def modeSettle (row : Row) (receiver : Handle) (message : Message) (bodyBytes : ℕ) : Run Unit :=
  match row.mode with
  | .complete => completeSettle receiver message
  | .deferCommit => deferSettle row receiver message bodyBytes
  | .receiveAndDelete => tally fun stats => { stats with deletedOnReceive := stats.deletedOnReceive + 1 }
  | .peek => pure ()

/-- `BatchProcessor._settle`. -/
def settle (row : Row) (receiver : Handle) (message : Message) (bodyBytes : ℕ) : Run Unit :=
  safeSettle do
    Prog.when (row.mode.holdsLocks = true) do
      let now ← utcNow
      renewIfNeeded receiver message now
    modeSettle row receiver message bodyBytes

/-! ### Unreadable bodies -/

inductive UnreadableAction where
  | retry
  | disposed
  | skipped
  | failed
  deriving DecidableEq, Repr

/-- How the warnings name a message. -/
def who (message : Message) : String :=
  let id := message.messageId.getD "None"
  s!"Message {message.sequenceNumber} (message id {id})"

/-- Change what the policy remembers. -/
def updateUnreadable (change : UnreadableHandler → UnreadableHandler) : Run Unit :=
  modify fun s => { s with unreadable := change s.unreadable }

/-- Count a verdict. -/
def countUnreadable (message : Message) (reason : UnreadableReason) (disposition : Disposition) : Run Unit := do
  tally fun stats => { stats with unreadable := stats.unreadable ++ [(reason, disposition)] }
  Prog.note (S := sdk) (.unreadable message disposition)

/-- `UnreadableHandler._should_retry`. -/
def shouldRetry (row : Row) (message : Message) (generation : ℕ) : Run Bool := do
  let s ← get
  let first := s.unreadable.firstFailure.lookup message.sequenceNumber
  if first ≠ none ∧ first ≠ some generation then pure false
  else if row.mode = .receiveAndDelete ∨ s.unreadable.retriesEnabled = false then pure false
  else if s.stats.unreadableRecycles ≥ maxUnreadableRecycles then do
    warn .unreadableRetryBudget
      (s!"Unreadable-body retry budget exhausted ({maxUnreadableRecycles} fresh-connection retries per run): " ++
        s!"{who message} and every later unreadable body go straight to the " ++
        s!"'{row.config.body.unreadableBody.value}' policy.")
    pure false
  else pure true

/-- `UnreadableHandler._retry`: give the message back and ask for a fresh connection. -/
def retryUnreadable (row : Row) (receiver : Handle) (message : Message) (generation : ℕ) (reason : UnreadableReason) :
    Run UnreadableAction := do
  updateUnreadable fun handler =>
    if (handler.firstFailure.lookup message.sequenceNumber).isSome then handler
    else { handler with firstFailure := handler.firstFailure ++ [(message.sequenceNumber, generation)] }
  Prog.when (row.mode.holdsLocks = true) (safeSettle (abandonMessage receiver message))
  countUnreadable message reason .retry
  pure .retry

/-- `UnreadableHandler._count`: count a final verdict and warn of it. -/
def countDisposed (message : Message) (reason : UnreadableReason) (disposition : Disposition) (detail : String) :
    Run Unit := do
  countUnreadable message reason disposition
  warn (.unreadable reason disposition) s!"{detail} Further such messages are counted in the run summary."

/-- The policy `fail`: the first failure of the batch is raised once the batch is written and settled. -/
def failUnreadable (message : Message) (reason : UnreadableReason) : Run UnreadableAction := do
  countUnreadable message reason .failed
  updateUnreadable fun handler => { handler with pending := some (handler.pending.getD (.user
    s!"{who message} has an unreadable body ({reason.value}) and the unreadable_body policy is 'fail'.")) }
  pure .failed

/-- Nothing holds the message: no row, and nothing to settle. -/
def skipUnreadable (row : Row) (message : Message) (reason : UnreadableReason) : Run UnreadableAction := do
  let detail := if row.mode = .receiveAndDelete then "receive_and_delete already deleted it, so its row is lost"
    else "no row is written; the message stays on the entity"
  countDisposed message reason .skipped
    s!"{who message} has an unreadable body ({reason.value}) and was skipped: {detail}."
  pure .skipped

def deadLetterUnreadable (receiver : Handle) (message : Message) (error : UnreadableError) : Run UnreadableAction := do
  safeSettle (deadLetterMessage receiver message error.reason.value error.description)
  countDisposed message error.reason .deadLettered
    s!"{who message} has an unreadable body ({error.reason.value}) and was dead-lettered."
  pure .disposed

def leaveUnreadable (message : Message) (reason : UnreadableReason) : Run UnreadableAction := do
  updateUnreadable fun handler => { handler with left := message.sequenceNumber :: handler.left }
  countDisposed message reason .left
    s!"{who message} has an unreadable body ({reason.value}) and was left unsettled; its lock lapses and it redelivers."
  pure .disposed

/-- `UnreadableHandler._dispose`: the policy's final verdict. -/
def disposeUnreadable (row : Row) (receiver : Handle) (message : Message) (error : UnreadableError) :
    Run UnreadableAction :=
  if row.config.body.unreadableBody = .fail then failUnreadable message error.reason
  else if row.mode.holdsLocks = false then skipUnreadable row message error.reason
  else if row.config.body.unreadableBody = .deadLetter ∧ row.entity.isSubQueue = false then
    deadLetterUnreadable receiver message error
  else do
    Prog.when (row.config.body.unreadableBody = .deadLetter) (warn .deadLetterOnSubQueue
      (s!"{who message} has an unreadable body ({error.reason.value}); a message on a dead-letter sub-queue cannot " ++
        "be dead-lettered, so the 'dead_letter' policy is applied as 'leave' on this entity."))
    leaveUnreadable message error.reason

/-- `UnreadableHandler.handle`: a message left once already is left again, uncounted. -/
def handleUnreadable (row : Row) (receiver : Handle) (message : Message) (error : UnreadableError) (generation : ℕ) :
    Run UnreadableAction := do
  let s ← get
  if message.sequenceNumber ∈ s.unreadable.left then pure .disposed
  else if error.reason = .unreadableBody then do
    let again ← shouldRetry row message generation
    if again = true then retryUnreadable row receiver message generation error.reason
    else disposeUnreadable row receiver message error
  else disposeUnreadable row receiver message error

/-- `UnreadableHandler.raise_pending`. -/
def raisePending : Run Unit := do
  let s ← get
  updateUnreadable fun handler => { handler with pending := none }
  match s.unreadable.pending with
  | none => pure ()
  | some error => throw error

/-- More than a tenth of the received messages, and at least ten, were unreadable. -/
def tooManyUnreadable (stats : RunStats) : Prop :=
  stats.unreadableTotal * 10 > stats.received ∧ stats.unreadableTotal ≥ unreadableAbortMin

instance (stats : RunStats) : Decidable (tooManyUnreadable stats) :=
  inferInstanceAs (Decidable (stats.unreadableTotal * 10 > stats.received ∧ stats.unreadableTotal ≥ unreadableAbortMin))

/-- `UnreadableHandler.check_abort_share`. -/
def checkAbortShare : Run Unit := do
  let s ← get
  Prog.when (tooManyUnreadable s.stats) (throw (.user
    (s!"{s.stats.unreadableTotal} of the {s.stats.received} messages received in this run had unreadable bodies " ++
      s!"(more than 10% and at least {unreadableAbortMin}), which points to a systemic problem such as a wrong body " ++
      "format or a faulty producer. The readable messages were written; check the body format setting of this row.")))

/-! ### The batch processor -/

/-- `message_metadata`. -/
def messageMetadata (row : Row) (message : Message) (extractedAt : Time) : Metadata where
  sequenceNumber := message.sequenceNumber
  messageId := message.messageId
  enqueuedTimeUtc := message.enqueuedTimeUtc
  sessionId := message.sessionId
  contentType := message.contentType
  deliveryCount := message.deliveryCount
  state := message.state
  expiresAtUtc := message.expiresAtUtc
  scheduledEnqueueTimeUtc := message.scheduledEnqueueTimeUtc
  bodyType := message.body.bodyType
  sourceEntity := row.entity.path
  settlementMode := row.mode
  extractedAtUtc := extractedAt

/-- What mapping a message to its row gives: the row and the size of the body, or why it has none. -/
abbrev Mapped := Except UnreadableError (OutputRow × ℕ)

/-- The registry and the result of mapping a message, an error of the program's own included. -/
def mapRow (row : Row) (registry : Option FlattenRegistry) (message : Message) (extractedAt : Time) :
    Except Exn Mapped × Option FlattenRegistry :=
  match row.codec.encodeBody message row.config.body.bodyFormat with
  | .error (.unreadable e) => (.ok (.error e), registry)
  | .error (.other name text) => (.error (.program name text), registry)
  | .ok encoded =>
    let mapped : Mapped := .ok (⟨messageMetadata row message extractedAt, encoded.content⟩, encoded.sizeBytes)
    match encoded.content with
    | .cell _ => (.ok mapped, registry)
    | .fields fields => match registry with
      | none => (.error (assertionError "json_flatten requires a registry (checked in __init__)"), none)
      | some registry =>
        let registry := (fields.map Prod.fst).foldl (FlattenRegistry.register row.codec) registry
        match registry.split row.codec fields with
        | .ok _ => (.ok mapped, some registry)
        | .error .tooLarge => (.ok (.error { reason := .bodyTooLarge }), some registry)
        | .error e => (.error (splitExn e), some registry)

/-- `BatchProcessor._to_row`. -/
def toRow (row : Row) (message : Message) (extractedAt : Time) : Run Mapped := do
  let s ← get
  let (result, registry) := mapRow row s.registry message extractedAt
  modify fun s => { s with registry := registry }
  Prog.ofExcept result

/-- What the mapping of a batch has collected so far. -/
structure Draft where
  rows : List OutputRow := []
  readable : List (Message × ℕ) := []
  retried : List ℤ := []
  disposed : Bool := false

structure BatchResult where
  written : ℕ
  needsRecycle : Bool
  progressed : Bool
  retried : List ℤ
  deriving DecidableEq, Repr

/-- Map one message of a batch, or hand it to the unreadable-body policy. -/
def mapMessage (row : Row) (receiver : Handle) (extractedAt : Time) (generation : ℕ) (draft : Draft)
    (message : Message) : Run Draft := do
  tally fun stats => { stats with
    received := stats.received + 1
    maxDeliveryCount := max stats.maxDeliveryCount (message.deliveryCount.getD 0) }
  match ← toRow row message extractedAt with
  | .ok (output, bodyBytes) =>
    pure { draft with rows := draft.rows ++ [output], readable := draft.readable ++ [(message, bodyBytes)] }
  | .error error => do
    let action ← handleUnreadable row receiver message error generation
    if action = .retry then pure { draft with retried := draft.retried ++ [message.sequenceNumber] }
    else pure { draft with disposed := true }

/-- Raise what the batch has to raise, once its readable rows are written and settled. -/
def raiseAfterBatch : Run Unit := do
  raisePending
  let s ← get
  Prog.when ((s.registry.map FlattenRegistry.overflowed).getD false = true) (throw (.user
    (s!"The message bodies produced more than {maxFlattenColumns} distinct JSON keys; this batch was written, but " ++
      "use the text body format for this entity.")))
  checkAbortShare

/-- `BatchProcessor.process`. -/
def process (row : Row) (receiver : Handle) (messages : List Message) (generation : ℕ) : Run BatchResult := do
  let extractedAt ← utcNow
  let draft ← messages.foldlM (mapMessage row receiver extractedAt generation) {}
  Prog.when (draft.rows ≠ []) do
    writeRows row draft.rows
    tally fun stats => { stats with written := stats.written + draft.rows.length }
  draft.readable.forM fun readable => settle row receiver readable.1 readable.2
  raiseAfterBatch
  pure {
    written := draft.rows.length
    needsRecycle := draft.retried ≠ []
    progressed := draft.rows ≠ [] || draft.disposed
    retried := draft.retried }

end ServiceBusExtractor
