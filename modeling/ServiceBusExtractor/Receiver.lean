import ServiceBusExtractor.Settlement

/-!
# The receive loop

One destructive run: batches go through the batch processor until a stop rule
fires, then the local buffer is drained. A failed connection is closed and opened
again, as often as the recovery tracker allows; session entities are read one
session after the other.

## The model

* `RecoveryTracker` — the recovery budget and the no-progress guard.
* `ReceiveLoop` — the fields of the loop; `LoopState` — with the run's.
* `step` — open a receiver, or receive and process one batch; `consumeTurn` — a
  step and what an exception does to it; `consume` — turns until a stop.
* `stopDrain`, `onEmpty`, `receivableMessages`, `warnIfMessagesRemain` — what
  happens at a stop.
* `ReceiveLoop.run` — the whole loop, with the catch-up phase and the close.

## Honest scope

Each `while True` takes a number of turns; `none` as a result says that the loop
is still running after them.
-/

namespace ServiceBusExtractor

open Interaction

def maxRecoveries : ℕ := 5
def drainWaitSeconds : ℤ := 1
def catchUpPollSeconds : ℤ := 1
def maxEmptyReceiveRetries : ℕ := 5
def emptyReceiveBackoffSeconds : List ℤ := [2, 4, 8, 16, 30]
def drainCheckPeekCount : ℕ := 250

/-- The receive mode of a settlement mode. -/
def SettlementMode.receiveMode : SettlementMode → ReceiveMode
  | .receiveAndDelete => .receiveAndDelete
  | _ => .peekLock

/-- The stops that can leave receivable messages behind. -/
def StopReason.isPartial (reason : StopReason) : Bool := reason ∈ [.maxMessages, .maxDuration, .receiveStalled]

/-! ### Recovery -/

structure RecoveryTracker where
  generation : ℕ := 0
  count : ℕ := 0
  progressed : Bool := true
  deriving DecidableEq, Repr

namespace RecoveryTracker

/-- A row was written or an unreadable body was disposed of. -/
def progress (tracker : RecoveryTracker) : RecoveryTracker := { tracker with progressed := true }

/-- A fresh connection for an unreadable body. -/
def unreadableRetry (tracker : RecoveryTracker) : RecoveryTracker :=
  { tracker with generation := tracker.generation + 1 }

/-- A connection failure: count it, or raise what ends the run. -/
def failure (row : Row) (tracker : RecoveryTracker) (error : Exn) : Except Exn RecoveryTracker :=
  let exhausted := tracker.count ≥ maxRecoveries ∨ tracker.progressed = false
  let recovered := { generation := tracker.generation + 1, count := tracker.count + 1, progressed := false }
  if error.isUser then .error error
  else match error.serviceBus? with
    | none => if exhausted then .error error else .ok recovered
    | some sdkError =>
      if sdkError.isFatal then .error (row.toUserException sdkError row.entity.path)
      else if exhausted then .error (.user
        (s!"Lost the connection to Service Bus {tracker.count + 1} times in this run (limit {maxRecoveries}, or " ++
          "twice without writing a row or disposing an unreadable message in between); last error: " ++
          s!"{row.redact sdkError.text}. Messages that were not settled redeliver on the next run."))
      else .ok recovered

end RecoveryTracker

/-! ### Receivers -/

section Receivers

variable {W : Type}

/-- What to do with a handle that may not be open. -/
def whenOpen (handle : Option Handle) (p : Handle → Program W Unit) : Program W Unit :=
  match handle with
  | none => pure ()
  | some handle => p handle

/-- Close a receiver; failing to close it never hides anything. -/
def closeReceiverQuietly (receiver : Handle) : Program W Unit := tryCatch (closeReceiver receiver) fun _ => pure ()

def closeClientQuietly (client : Handle) : Program W Unit := tryCatch (closeClient client) fun _ => pure ()

/-- Attach a receiver; one that fails to open is closed. -/
def enterReceiver (receiver : Handle) : Program W Unit :=
  tryCatch (enterReceiverCall receiver) fun error => do
    closeReceiverQuietly receiver
    throw error

/-- `receiver_profile`. -/
def receiverProfile (row : Row) (receiveMode : ReceiveMode) (prefetchCount : ℕ) (session : SessionRequest) :
    ReceiverProfile where
  receiveMode := receiveMode
  prefetchCount := prefetchCount
  session := session
  clientIdentifier := row.clientIdentifier

/-- Renew the session's lock when it lapses soon. -/
def renewSessionIfNeeded (receiver : Handle) (now : Time) : Program W Unit := do
  let lockedUntil ← sessionLockedUntil receiver
  Prog.when (lapsesSoon lockedUntil now = true) (renewSessionLock receiver)

end Receivers

/-- Enqueued at or after T0; a scheduled message never counts. -/
def afterWatermark (message : Message) (t0 : Time) : Bool :=
  message.state != .scheduled && (match message.enqueuedTimeUtc with
    | none => false
    | some enqueued => enqueued ≥ t0)

/-- A scheduled message that has not activated yet. -/
def isPendingActivation (message : Message) : Bool :=
  message.state == .scheduled && (match message.scheduledEnqueueTimeUtc, message.enqueuedTimeUtc with
    | some scheduled, some enqueued => enqueued < scheduled
    | _, _ => true)

/-- How the log names an exception. -/
def describe (row : Row) (error : Exn) : String := row.redact s!"{error.className}: {error.text}"

/-- The warning of a recovery. -/
def logRecovery {W : Type} (row : Row) (error : Exn) (tracker : RecoveryTracker) : Program W Unit := do
  Prog.note (S := sdk) .recovery
  Prog.note (S := sdk) (.warning
    (s!"The Service Bus connection failed ({describe row error}); reopening it (recovery {tracker.count} of " ++
      s!"{maxRecoveries}). Messages of an interrupted batch redeliver once their lock expires."))

/-! ### The loop -/

/-- The fields of the receive loop. -/
structure ReceiveLoop where
  client : Option Handle := none
  receiver : Option Handle := none
  /-- A receiver that never received has nothing buffered. -/
  receivedOnReceiver : Bool := false
  sessionId : Option String := none
  seenSessions : List String := []
  /-- The messages handled for `max_messages`. -/
  taken : ℕ := 0
  armed : Bool := false
  deadline : Time := 0
  wait : ℤ := 0
  highestProcessed : Option ℤ := none
  emptyRetries : ℕ := 0
  tracker : RecoveryTracker := {}

/-- The state of the loop and of the run it is part of. -/
structure LoopState where
  run : RunState
  loop : ReceiveLoop

/-- A step of the receive loop. -/
abbrev Loop (α : Type) := Program LoopState α

/-- A step of the run's collaborators, inside the loop. -/
def onRun {α : Type} (p : Run α) : Loop α := Prog.embed LoopState.run (fun run l => { l with run := run }) p

/-- Change the fields of the loop. -/
def updateLoop (change : ReceiveLoop → ReceiveLoop) : Loop Unit := modify fun l => { l with loop := change l.loop }

/-- `ReceiveLoop._receive`: in receive_and_delete mode, arm before the first messages are written. -/
def receive (row : Row) (receiver : Handle) (count : ℕ) (wait : ℤ) : Loop (List Message) := do
  updateLoop fun loop => { loop with receivedOnReceiver := true }
  let batch ← receiveMessages receiver count wait
  onRun (modify fun s => { s with
    info := batch.foldl (fun info message => info.noteSequenceNumber message.sequenceNumber) s.info })
  let l ← get
  Prog.when (batch ≠ [] ∧ row.mode = .receiveAndDelete ∧ l.loop.armed = false) do
    onRun armWriteAlways
    updateLoop fun loop => { loop with armed := true }
  pure batch

/-- Empty the local buffer: abandon the messages, or write them where they are already deleted. -/
def drain (row : Row) (receiver : Handle) : Loop Unit := do
  Prog.when (row.sessions = true) do
    let now ← utcNow
    renewSessionIfNeeded receiver now
  let drained ← receive row receiver (row.config.advanced.prefetchCount + 1) drainWaitSeconds
  if drained = [] then pure ()
  else if row.mode = .receiveAndDelete then do
    let l ← get
    let _ ← onRun (process row receiver drained l.loop.tracker.generation)
    pure ()
  else drained.forM fun message => onRun (safeSettle (abandonMessage receiver message))

/-- `ReceiveLoop._stop_drain`: a receiver that never received has nothing buffered. -/
def stopDrain (row : Row) (receiver : Handle) (failing : Bool) : Loop Unit := do
  let l ← get
  Prog.when (l.loop.receivedOnReceiver = true) <| tryCatch (drain row receiver) fun error =>
    if error.isUser then
      if failing then Prog.note (S := sdk) (.warning
        ("The messages drained before the run fails raised a further error (their readable rows were written): " ++
          s!"{row.redact error.text}"))
      else throw error
    else
      let consequence := if row.mode = .receiveAndDelete
        then "messages already in the local buffer were deleted on receive and may be lost"
        else "buffered messages stay locked until their lock expires, then redeliver"
      Prog.note (S := sdk) (.warning s!"The stop drain failed ({describe row error}); {consequence}.")

/-- A batch that writes a row is progress, also when it fails while it settles. -/
def noteProgress (written : ℕ) : Loop Unit := do
  let l ← get
  Prog.when (l.run.stats.written > written) (updateLoop fun loop => { loop with tracker := loop.tracker.progress })

/-- Process a batch; on the processor's own exception the open receiver is drained first. -/
def processOrDrain (row : Row) (receiver : Handle) (batch : List Message) (generation : ℕ) : Loop BatchResult :=
  tryCatch (onRun (process row receiver batch generation)) fun error => do
    Prog.when (error.isUser = true) (stopDrain row receiver true)
    throw error

/-- `ReceiveLoop._process`. -/
def processBatch (row : Row) (receiver : Handle) (batch : List Message) : Loop BatchResult := do
  let l ← get
  let result ← Prog.ensuring (processOrDrain row receiver batch l.loop.tracker.generation)
    (noteProgress l.run.stats.written)
  Prog.when (result.progressed = true) (updateLoop fun loop => { loop with tracker := loop.tracker.progress })
  updateLoop fun loop => { loop with
    taken := loop.taken + (batch.length - result.retried.length)
    highestProcessed := some (batch.foldl (fun high message => max high message.sequenceNumber)
      (loop.highestProcessed.getD 0)) }
  pure result

/-- Every message that counts was enqueued at or after T0, and one does count. -/
def isWatermarkBatch (t0 : Time) (batch : List Message) : Bool :=
  let considered := batch.filter fun message => message.state != .scheduled
  !considered.isEmpty && considered.all fun message => afterWatermark message t0

/-- `ReceiveLoop._finish_session`: close the session's receiver; the client stays open. -/
def finishSession : Loop Unit := do
  let l ← get
  updateLoop fun loop => { loop with receiver := none, sessionId := none }
  whenOpen l.loop.receiver closeReceiverQuietly

/-- `ReceiveLoop._close`: an interrupted session may be handed out again. -/
def close (interrupted : Bool) : Loop Unit := do
  let l ← get
  updateLoop fun loop => { loop with
    seenSessions := if interrupted then loop.seenSessions.filter fun id => some id ≠ loop.sessionId
      else loop.seenSessions
    receiver := none
    client := none
    sessionId := none }
  whenOpen l.loop.receiver closeReceiverQuietly
  whenOpen l.loop.client closeClientQuietly

/-- The open client, or a new one. -/
def ensureClient (row : Row) : Loop Handle := do
  let l ← get
  match l.loop.client with
  | some client => pure client
  | none => do
    let client ← receiveClient row
    updateLoop fun loop => { loop with client := some client }
    pure client

/-- What a receive would still hand out: neither deferred, nor pending activation, nor expired, nor,
with the job-start stop, past the watermark. -/
def isReceivable (row : Row) (t0 now : Time) (message : Message) : Bool :=
  message.state != .deferred && !isPendingActivation message &&
    (match message.expiresAtUtc with
      | none => true
      | some expiresAt => expiresAt ≥ now) &&
    !(row.config.limits.stopAtJobStart && afterWatermark message t0)

/-- Where the drain check peeks from. -/
def drainCheckStart (l : LoopState) : ℤ :=
  if l.run.info.isPartitioned then 0 else l.loop.highestProcessed.getD 0 + 1

/-- `ReceiveLoop._receivable_messages`: one peek page past the highest processed number. -/
def receivableMessages (row : Row) : Loop (List Message) := do
  let client ← ensureClient row
  let now ← utcNow
  let l ← get
  let peeker ← openReceiver row row.entity client (receiverProfile row .peekLock 1 .none)
  enterReceiver peeker
  let page ← Prog.ensuring (peekMessages peeker drainCheckPeekCount (drainCheckStart l))
    (closeReceiverQuietly peeker)
  pure (page.filter fun message => isReceivable row l.run.t0 now message)

/-- `ReceiveLoop._retry_empty_receive`: a fresh connection after a backoff, five times in a row at most. -/
def retryEmptyReceive : Loop (Option StopReason) := do
  updateLoop fun loop => { loop with emptyRetries := loop.emptyRetries + 1 }
  let l ← get
  if l.loop.emptyRetries > maxEmptyReceiveRetries then pure (some .receiveStalled)
  else do
    onRun (tally fun stats => { stats with emptyReceiveRetries := stats.emptyReceiveRetries + 1 })
    let backoff := emptyReceiveBackoffSeconds.getD
      (min l.loop.emptyRetries emptyReceiveBackoffSeconds.length - 1) 0
    close false
    let now ← monotonic
    sleep (min (seconds backoff) (max 0 (l.loop.deadline - now)))
    pure none

/-- `ReceiveLoop._on_empty`: a session is done; a plain entity is drained once nothing receivable is peeked. -/
def onEmpty (row : Row) (catchUpUntil : Option Time) : Loop (Option StopReason) :=
  if row.sessions then do
    finishSession
    pure none
  else if catchUpUntil ≠ none then do
    sleep (seconds catchUpPollSeconds)
    pure none
  else do
    let remaining ← receivableMessages row
    if remaining = [] then pure (some .idle) else retryEmptyReceive

/-- `ReceiveLoop._on_watermark`. -/
def onWatermark (row : Row) (receiver : Handle) : Loop (Option StopReason) := do
  let l ← get
  Prog.when (l.run.info.isPartitioned = true) (onRun (warn .watermarkApproximate
    (s!"'{row.entity.path}' is partitioned, so messages are not received in enqueue order: the stop at the job " ++
      "start time is approximate (it can end early or late; nothing is lost).")))
  stopDrain row receiver false
  if row.sessions then do
    finishSession
    pure none
  else pure (some .watermark)

/-- The state this run would save reached the budget; only a deferring run looks. -/
def overBudget (row : Row) : Loop Bool :=
  if row.mode = .deferCommit then do
    let state ← onRun (projectedState row)
    pure (row.codec.sizeBytes state ≥ stateBudgetBytes)
  else pure false

/-- `ReceiveLoop._stop_check`: the limits, in the source's order. -/
def stopCheck (row : Row) (catchUpUntil : Option Time) : Loop (Option StopReason) := do
  let l ← get
  if row.config.limits.maxMessages > 0 ∧ l.loop.taken ≥ row.config.limits.maxMessages then pure (some .maxMessages)
  else do
    let now ← monotonic
    if now ≥ l.loop.deadline then pure (some .maxDuration)
    else do
      let exceeded ← overBudget row
      if exceeded then do
        onRun (warn .stateBudget
          (s!"The state this defer-commit run would save reached the {stateBudgetBytes / 1024} KiB state budget " ++
            "(Keboola keeps about 1 MB of state per configuration), so the run stopped receiving early; the next " ++
            "run deletes this run's deferrals first and continues."))
        pure (some .stateBudget)
      else match catchUpUntil with
        | none => pure none
        | some limit =>
          if now ≥ limit then pure (some (if row.sessions then .noMoreSessions else .idle)) else pure none

/-- `ReceiveLoop._batch_count`. -/
def batchCount (row : Row) (taken : ℕ) : ℕ :=
  if row.config.limits.maxMessages > 0 then min row.config.advanced.batchSize (row.config.limits.maxMessages - taken)
  else row.config.advanced.batchSize

/-- `ReceiveLoop._open_receiver`. -/
def openLoopReceiver (row : Row) (client : Handle) (session : SessionRequest) : Loop Handle := do
  let receiver ← openReceiver row row.entity client
    (receiverProfile row row.mode.receiveMode row.config.advanced.prefetchCount session)
  enterReceiver receiver
  updateLoop fun loop => { loop with receivedOnReceiver := false }
  pure receiver

/-- A session receiver, or `none` where no session is available. -/
def openSession (row : Row) (client : Handle) : Loop (Option Handle) := do
  let l ← get
  tryCatch (do
    let receiver ← openLoopReceiver row client (.nextAvailable l.loop.wait)
    pure (some receiver)) fun error => if error.isKind .operationTimeout then pure none else throw error

/-- `ReceiveLoop._open_next`: a session handed out a second time ends the session loop. -/
def openNext (row : Row) (catchUpUntil : Option Time) : Loop (Option StopReason) := do
  let client ← ensureClient row
  if row.sessions then
    match ← openSession row client with
    | none =>
      if catchUpUntil = none then pure (some .noMoreSessions)
      else do
        sleep (seconds catchUpPollSeconds)
        pure none
    | some receiver => do
      updateLoop fun loop => { loop with receiver := some receiver }
      let id ← sessionId receiver
      let l ← get
      Prog.note (S := sdk) (.sessionOpened id l.loop.seenSessions)
      if id ∈ l.loop.seenSessions then do
        stopDrain row receiver false
        pure (some .sessionRevisited)
      else do
        updateLoop fun loop => { loop with seenSessions := id :: loop.seenSessions, sessionId := some id }
        pure none
  else do
    let receiver ← openLoopReceiver row client .none
    updateLoop fun loop => { loop with receiver := some receiver }
    pure none

/-- A fresh connection for the unreadable bodies of a batch. -/
def recycle : Loop Unit := do
  close true
  updateLoop fun loop => { loop with tracker := loop.tracker.unreadableRetry }
  onRun (tally fun stats => { stats with unreadableRecycles := stats.unreadableRecycles + 1 })
  Prog.note (S := sdk) .recycle

/-- Receive one batch and process it. -/
def receiveTurn (row : Row) (receiver : Handle) (catchUpUntil : Option Time) : Loop (Option StopReason) := do
  Prog.when (row.sessions = true) do
    let now ← utcNow
    renewSessionIfNeeded receiver now
  let l ← get
  let batch ← receive row receiver (batchCount row l.loop.taken) l.loop.wait
  if batch = [] then onEmpty row catchUpUntil
  else do
    updateLoop fun loop => { loop with emptyRetries := 0 }
    let result ← processBatch row receiver batch
    if row.config.limits.stopAtJobStart = true ∧ isWatermarkBatch l.run.t0 batch = true then onWatermark row receiver
    else do
      Prog.when (result.needsRecycle = true) recycle
      pure none

/-- `ReceiveLoop._step`. -/
def step (row : Row) (catchUpUntil : Option Time) : Loop (Option StopReason) := do
  let l ← get
  match ← stopCheck row catchUpUntil with
  | some stop => do
    whenOpen l.loop.receiver fun receiver => stopDrain row receiver false
    pure (some stop)
  | none => match l.loop.receiver with
    | none => openNext row catchUpUntil
    | some receiver => receiveTurn row receiver catchUpUntil

/-- `ReceiveLoop._recover`: close, then let the tracker decide. -/
def recover (row : Row) (error : Exn) : Loop Unit := do
  close true
  let l ← get
  let tracker ← Prog.ofExcept (l.loop.tracker.failure row error)
  updateLoop fun loop => { loop with tracker := tracker }
  onRun (tally fun stats => { stats with recoveries := tracker.count })
  logRecovery row error tracker

/-- A session another receiver holds is skipped; any other failure is recovered from. -/
def afterFailure (row : Row) (error : Exn) : Loop Unit :=
  if row.sessions = true ∧ error.isKind .sessionCannotBeLocked = true then finishSession else recover row error

/-- One turn of `ReceiveLoop._consume`: a step, or a recovery from what it raised. -/
def consumeTurn (row : Row) (catchUpUntil : Option Time) : Loop (Option StopReason) :=
  tryCatch (step row catchUpUntil) fun error =>
    if error.isUser then throw error
    else do
      afterFailure row error
      pure none

/-- `ReceiveLoop._consume`: turns until a stop. -/
def consume (row : Row) (catchUpUntil : Option Time) (turns : ℕ) : Loop (Option StopReason) :=
  Prog.iterate (consumeTurn row catchUpUntil) turns

/-! ### The end of the loop -/

/-- `ReceiveLoop._remaining_by_count`: what the management plane says is left. -/
def remainingByCount (row : Row) (reason : StopReason) : Loop (Option String) :=
  if row.mode = .deferCommit then pure none
  else if reason = .noMoreSessions ∧ row.config.limits.stopAtJobStart = true then pure none
  else if reason.isPartial = false ∧ reason ≠ .noMoreSessions then pure none
  else do
    let info ← loadEntityInfo row.entity
    match info.counts with
    | none => pure none
    | some counts =>
      if counts.active = 0 then pure none
      else pure (some s!"Service Bus reports {counts.active} active message(s) in '{row.entity.path}'")

/-- What is left, peeked on plain entities and counted on session entities. -/
def remainingText (row : Row) (reason : StopReason) : Loop (Option String) :=
  if row.sessions then remainingByCount row reason
  else if reason.isPartial then do
    let remaining ← receivableMessages row
    if remaining = [] then pure none
    else
      let shown := if remaining.length ≥ drainCheckPeekCount then s!"at least {remaining.length}"
        else s!"{remaining.length}"
      pure (some s!"{shown} receivable message(s) are still in '{row.entity.path}'")
  else pure none

/-- The hint of the warning for a stop reason. -/
def remainHint : StopReason → String
  | .maxMessages => "Max Messages was reached"
  | .maxDuration => "Max Duration was reached (Advanced options)"
  | .receiveStalled =>
    (s!"Service Bus returned no messages to {maxEmptyReceiveRetries + 1} receives in a row although messages were " ++
      "available -- typically a throttled namespace (see the throttling warning, if any)")
  | .noMoreSessions =>
    "no further session was handed out -- they may be locked by another consumer, or the namespace was throttled"
  | _ => "see the stop reason"

/-- `ReceiveLoop._warn_if_messages_remain`: best effort, it never changes the outcome. -/
def warnIfMessagesRemain (row : Row) (reason : StopReason) : Loop Unit := do
  match ← tryCatch (remainingText row reason) fun _ => pure none with
  | none => pure ()
  | some text => onRun (warn .messagesRemaining
      (s!"The run stopped before the entity was drained: {text}. Stop reason: {reason.value} ({remainHint reason}). " ++
        "The next run continues with them."))

/-- `ReceiveLoop._catch_up_due`. -/
def catchUpDue (row : Row) (loop : ReceiveLoop) (reason : StopReason) : Bool :=
  row.config.advanced.recoveryWaitSeconds > 0 && loop.tracker.count > 0 &&
    (reason == .idle || reason == .noMoreSessions)

/-- `ReceiveLoop._catch_up`: keep polling for the messages of interrupted batches. -/
def catchUp (row : Row) (turns : ℕ) : Loop (Option StopReason) := do
  let now ← monotonic
  let l ← get
  let limit := min (now + seconds row.config.advanced.recoveryWaitSeconds) l.loop.deadline
  updateLoop fun loop => { loop with wait := catchUpPollSeconds }
  consume row (some limit) turns

/-- The loop until its stop, the catch-up phase included. -/
def consumeAll (row : Row) (turns : ℕ) : Loop (Option StopReason) := do
  match ← consume row none turns with
  | none => pure none
  | some reason => do
    let l ← get
    if catchUpDue row l.loop reason then catchUp row turns else pure (some reason)

/-- The body of `ReceiveLoop.run`: the loop and the warning about what is left. -/
def runUntilStop (row : Row) (turns : ℕ) : Loop (Option StopReason) := do
  match ← consumeAll row turns with
  | none => pure none
  | some reason => do
    warnIfMessagesRemain row reason
    pure (some reason)

/-- `ReceiveLoop.run`. -/
def ReceiveLoop.run (row : Row) (turns : ℕ) : Loop (Option StopReason) := do
  let now ← monotonic
  updateLoop fun loop => { loop with deadline := now + seconds row.config.advanced.maxDurationSeconds }
  match ← Prog.finishing (runUntilStop row turns) (close false) with
  | none => pure none
  | some reason => do
    onRun (tally fun stats => { stats with stopReason := some reason })
    pure (some reason)

/-- The loop as the run starts it. -/
def ReceiveLoop.start (row : Row) : ReceiveLoop := { wait := row.config.source.idleTimeoutSeconds }

/-- The receive loop as one step of the run. -/
def runReceiveLoop (row : Row) (turns : ℕ) : Run (Option StopReason) :=
  Prog.embed (fun run => { run, loop := .start row }) (fun l _ => l.run) (ReceiveLoop.run row turns)

end ServiceBusExtractor
