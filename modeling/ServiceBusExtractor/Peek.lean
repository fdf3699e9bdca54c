import ServiceBusExtractor.Receiver

/-!
# The peek pager

A peeking run exports the entity without locking, settling or deleting anything.
Incremental fetch pages from the stored cursor; full fetch reads everything, one
session after the other on session entities.

## The model

* `PeekPager` — the fields of the pager, the local variables of its loops
  included; `PagerState` — with the run's.
* `exportPage` — select what a page still has to export and hand it to the
  batch processor.
* `pageStep`, `sessionStep` — one turn of the page loop and of the session loop.
* `newCursor` — the cursor the run stores.

## Honest scope

The loop inside one session and the loop over the sessions are one loop here: a
turn either opens a session or peeks a page of the open one.
-/

namespace ServiceBusExtractor

open Interaction

def peekPageSize : ℕ := 250
def sessionAcceptWaitSeconds : ℤ := 5

def partitionedIncremental : Exn :=
  .user "Incremental Fetch cannot page a partitioned entity reliably; use Full Fetch."

/-- The fields of the pager. -/
structure PeekPager where
  client : Option Handle := none
  receiver : Option Handle := none
  /-- The session receivers, closed only when the pager finishes. -/
  held : List Handle := []
  /-- The numbers already exported or skipped, dropped from a page peeked again. -/
  processed : List ℤ := []
  high : Option ℤ := none
  /-- The first body still waiting for its retry. -/
  outstanding : Option ℤ := none
  taken : ℕ := 0
  deadline : Time := 0
  tracker : RecoveryTracker := {}
  /-- Where the next page starts. -/
  nextSeq : ℤ := 1
  cursorMode : Bool := false
  /-- The sessions seen since the last recovery. -/
  seen : List String := []
  /-- The session being peeked. -/
  session : Option Handle := none

/-- The state of the pager and of the run it is part of. -/
structure PagerState where
  run : RunState
  pager : PeekPager

/-- A step of the pager. -/
abbrev Pager (α : Type) := Program PagerState α

/-- A step of the run's collaborators, inside the pager. -/
def onPagerRun {α : Type} (p : Run α) : Pager α := Prog.embed PagerState.run (fun run s => { s with run := run }) p

/-- Change the fields of the pager. -/
def updatePager (change : PeekPager → PeekPager) : Pager Unit := modify fun s => { s with pager := change s.pager }

/-- Turn the unreadable-body retries on or off. -/
def setRetries (enabled : Bool) : Pager Unit :=
  onPagerRun (updateUnreadable fun u => { u with retriesEnabled := enabled })

/-! ### The cursor -/

/-- `PeekPager._start`: past the stored cursor of the same entity, else the first message. -/
def startAt (row : Row) (cursor : Option PeekCursor) : ℤ :=
  match cursor with
  | none => 1
  | some cursor => if cursor.entityPath = row.entity.path then cursor.lastSequenceNumber + 1 else 1

/-- The highest processed number, never past a body still waiting for its retry. -/
def cursorHigh (pager : PeekPager) : Option ℤ :=
  match pager.high, pager.outstanding with
  | some high, some outstanding => some (min high (outstanding - 1))
  | high, _ => high

/-- `PeekPager._new_cursor`: the stored cursor where nothing new was processed. -/
def newCursor (row : Row) (start : ℤ) (stored : Option PeekCursor) (pager : PeekPager) : Option PeekCursor :=
  match cursorHigh pager with
  | none => stored
  | some high => if high < start then stored else some ⟨row.entity.path, high⟩

/-! ### Pages -/

/-- `PeekPager._mark_processed`. -/
def markProcessed (seq : ℤ) : Pager Unit :=
  updatePager fun pager => { pager with
    processed := seq :: pager.processed
    high := some (match pager.high with
      | none => seq
      | some high => max high seq) }

/-- `PeekPager._stop_check`. -/
def pagerStopCheck (row : Row) : Pager (Option StopReason) := do
  let s ← get
  if row.config.limits.maxMessages > 0 ∧ s.pager.taken ≥ row.config.limits.maxMessages then pure (some .maxMessages)
  else do
    let now ← monotonic
    if now ≥ s.pager.deadline then pure (some .maxDuration) else pure none

/-- Expired and not purged yet. -/
def isExpired (now : Time) (message : Message) : Bool :=
  match message.expiresAtUtc with
  | none => false
  | some expiresAt => expiresAt < now

/-- What a page still has to export, and the stop it reaches: processed messages are dropped, those
pending activation or expired are skipped and counted. -/
def selectPage (row : Row) (now : Time) (selected : List Message) :
    List Message → Pager (List Message × Option StopReason)
  | [] => pure (selected, none)
  | message :: rest => do
    let s ← get
    if message.sequenceNumber ∈ s.pager.processed then selectPage row now selected rest
    else if row.config.limits.maxMessages > 0 ∧ s.pager.taken + selected.length ≥ row.config.limits.maxMessages then
      pure (selected, some .maxMessages)
    else if isPendingActivation message then do
      onPagerRun (tally fun stats => { stats with skippedScheduled := stats.skippedScheduled + 1 })
      Prog.note (S := sdk) (.pendingActivation message)
      markProcessed message.sequenceNumber
      selectPage row now selected rest
    else if isExpired now message then do
      onPagerRun (tally fun stats => { stats with expiredSkipped := stats.expiredSkipped + 1 })
      Prog.note (S := sdk) (.expired message)
      markProcessed message.sequenceNumber
      selectPage row now selected rest
    else if row.config.limits.stopAtJobStart = true ∧ afterWatermark message s.run.t0 = true then
      pure (selected, some .watermark)
    else selectPage row now (selected ++ [message]) rest

/-- A written row is progress, also when the batch fails afterwards. -/
def notePagerProgress (written : ℕ) : Pager Unit := do
  let s ← get
  Prog.when (s.run.stats.written > written) (updatePager fun pager => { pager with tracker := pager.tracker.progress })

/-- A message of the page that did not ask for a retry is processed. -/
def markExported (retried : List ℤ) (message : Message) : Pager Unit :=
  Prog.when (message.sequenceNumber ∉ retried) do
    markProcessed message.sequenceNumber
    updatePager fun pager => { pager with taken := pager.taken + 1 }

/-- `PeekPager._process`. -/
def processPage (row : Row) (receiver : Handle) (messages : List Message) : Pager (List ℤ) := do
  let s ← get
  let result ← Prog.ensuring (onPagerRun (process row receiver messages s.pager.tracker.generation))
    (notePagerProgress s.run.stats.written)
  Prog.when (result.progressed = true) (updatePager fun pager => { pager with tracker := pager.tracker.progress })
  messages.forM (markExported result.retried)
  pure result.retried

/-- Export what was selected; nothing where nothing was. -/
def processSelected (row : Row) (receiver : Handle) (selected : List Message) : Pager (List ℤ) :=
  if selected = [] then pure [] else processPage row receiver selected

/-- `PeekPager._export`: the stop the page reached and the numbers that asked for a retry. -/
def exportPage (row : Row) (receiver : Handle) (page : List Message) : Pager (Option StopReason × List ℤ) := do
  let now ← utcNow
  let (selected, stop) ← selectPage row now [] page
  let retried ← processSelected row receiver selected
  updatePager fun pager => { pager with outstanding := retried.min? }
  let s ← get
  Prog.when (stop = some .watermark ∧ (s.run.info.isPartitioned = true ∨ row.sessions = true))
    (onPagerRun (warn .watermarkApproximate
      (s!"'{row.entity.path}' is partitioned or uses sessions, so messages are not peeked in enqueue order: the " ++
        "stop at the job start time is approximate (it can end early or late; nothing is lost).")))
  pure (stop, retried)

/-! ### Receivers -/

/-- The open client, or a new one. -/
def pagerClient (row : Row) : Pager Handle := do
  let s ← get
  match s.pager.client with
  | some client => pure client
  | none => do
    let client ← receiveClient row
    updatePager fun pager => { pager with client := some client }
    pure client

/-- `PeekPager._open`. -/
def openPager (row : Row) (session : SessionRequest) : Pager Handle := do
  let client ← pagerClient row
  let receiver ← openReceiver row row.entity client
    (receiverProfile row .peekLock row.config.advanced.prefetchCount session)
  enterReceiver receiver
  pure receiver

/-- The plain receiver, opened where it is not. -/
def pageReceiver (row : Row) : Pager Handle := do
  let s ← get
  match s.pager.receiver with
  | some receiver => pure receiver
  | none => do
    let receiver ← openPager row .none
    updatePager fun pager => { pager with receiver := some receiver }
    pure receiver

/-- `PeekPager._close`. -/
def closePager : Pager Unit := do
  let s ← get
  updatePager fun pager => { pager with receiver := none, held := [], client := none }
  whenOpen s.pager.receiver closeReceiverQuietly
  s.pager.held.forM closeReceiverQuietly
  whenOpen s.pager.client closeClientQuietly

/-- `PeekPager._close_receiver`. -/
def closePageReceiver : Pager Unit := do
  let s ← get
  updatePager fun pager => { pager with receiver := none }
  whenOpen s.pager.receiver closeReceiverQuietly

/-- `PeekPager._recover`. -/
def recoverPager (row : Row) (error : Exn) : Pager Unit := do
  closePager
  let s ← get
  let tracker ← Prog.ofExcept (s.pager.tracker.failure row error)
  updatePager fun pager => { pager with tracker := tracker }
  onPagerRun (tally fun stats => { stats with recoveries := tracker.count })
  logRecovery row error tracker

/-! ### Plain entities -/

/-- `PeekPager._reveals_partitions`, which a pass in cursor mode does not ask. -/
def revealsPartitions (page : List Message) : Pager Bool := do
  let s ← get
  if s.pager.cursorMode then pure false
  else do
    onPagerRun (modify fun s => { s with
      info := page.foldl (fun info message => info.noteSequenceNumber message.sequenceNumber) s.info })
    let s ← get
    pure s.run.info.isPartitioned

/-- The entity turned out to be partitioned: stop, or read it again from the start in cursor mode. -/
def onPartitions (incremental : Bool) : Pager (Option StopReason) :=
  if incremental then throw partitionedIncremental
  else do
    updatePager fun pager => { pager with cursorMode := true }
    setRetries false
    closePageReceiver
    pure none

/-- A fresh connection, from the first unreadable body on. -/
def recyclePager (retried : List ℤ) : Pager Unit := do
  closePager
  updatePager fun pager => { pager with tracker := pager.tracker.unreadableRetry }
  onPagerRun (tally fun stats => { stats with unreadableRecycles := stats.unreadableRecycles + 1 })
  Prog.note (S := sdk) .recycle
  updatePager fun pager => { pager with nextSeq := retried.min?.getD pager.nextSeq }

/-- What a page does to the loop: peek again from a retried body, stop, or go on to the next page. -/
def afterPage (incremental : Bool) (page : List Message) (result : Option StopReason × List ℤ) :
    Pager (Option StopReason) :=
  if result.2 ≠ [] then do
    recyclePager result.2
    pure none
  else match result.1 with
    | some stop => pure (some stop)
    | none => do
      updatePager fun pager => { pager with
        nextSeq := lastSequenceNumber page + 1
        processed := if incremental then [] else pager.processed }
      pure none

/-- One pass of the page loop's `try`. -/
def pageStep (row : Row) (incremental : Bool) : Pager (Option StopReason) := do
  match ← pagerStopCheck row with
  | some stop => pure (some stop)
  | none => do
    let receiver ← pageReceiver row
    let s ← get
    let page ← peekMessages receiver peekPageSize (if s.pager.cursorMode then 0 else s.pager.nextSeq)
    if page = [] then pure (some .endOfEntity)
    else do
      let reveals ← revealsPartitions page
      if reveals then onPartitions incremental
      else do
        let result ← exportPage row receiver page
        afterPage incremental page result

/-- One turn of the page loop. -/
def pageTurn (row : Row) (incremental : Bool) : Pager (Option StopReason) :=
  tryCatch (pageStep row incremental) fun error =>
    if error.isUser then throw error
    else do
      recoverPager row error
      pure none

/-- `PeekPager._run_pages`. -/
def runPages (row : Row) (start : ℤ) (incremental : Bool) (turns : ℕ) : Pager (Option StopReason) := do
  let s ← get
  let cursorMode := !incremental && s.run.info.isPartitioned
  updatePager fun pager => { pager with nextSeq := start, cursorMode := cursorMode }
  Prog.when (cursorMode = true) (setRetries false)
  Prog.iterate (pageTurn row incremental) turns

/-! ### Session entities -/

/-- Open the next session, or `none` where none is available. -/
def nextSession (row : Row) : Pager (Option Handle) :=
  tryCatch (do
    let receiver ← openPager row (.nextAvailable sessionAcceptWaitSeconds)
    pure (some receiver)) fun error => if error.isKind .operationTimeout then pure none else throw error

/-- Open a session and hold it: a session seen before ends the loop. -/
def openPagerSession (row : Row) : Pager (Option StopReason) := do
  match ← nextSession row with
  | none => pure (some .noMoreSessions)
  | some receiver => do
    updatePager fun pager => { pager with held := pager.held ++ [receiver] }
    let id ← sessionId receiver
    let s ← get
    Prog.note (S := sdk) (.sessionOpened id s.pager.seen)
    if id ∈ s.pager.seen then pure (some .sessionRevisited)
    else do
      updatePager fun pager => { pager with seen := id :: pager.seen, session := some receiver, nextSeq := 1 }
      pure none

/-- Peek one page of the open session. -/
def peekSessionPage (row : Row) (receiver : Handle) : Pager (Option StopReason) := do
  let now ← utcNow
  renewSessionIfNeeded receiver now
  let s ← get
  let page ← peekMessages receiver peekPageSize s.pager.nextSeq
  if page = [] then do
    updatePager fun pager => { pager with session := none }
    pure none
  else do
    let result ← exportPage row receiver page
    match result.1 with
    | some .watermark => do
      updatePager fun pager => { pager with session := none }
      pure none
    | some stop => pure (some stop)
    | none => do
      updatePager fun pager => { pager with nextSeq := lastSequenceNumber page + 1 }
      pure none

/-- One pass of the session loops. -/
def sessionStep (row : Row) : Pager (Option StopReason) := do
  match ← pagerStopCheck row with
  | some stop => pure (some stop)
  | none => do
    let s ← get
    match s.pager.session with
    | none => openPagerSession row
    | some receiver => peekSessionPage row receiver

/-- A session another receiver holds is skipped; any other failure starts the sessions again. -/
def afterSessionFailure (row : Row) (error : Exn) : Pager Unit := do
  updatePager fun pager => { pager with session := none }
  Prog.when (error.isKind .sessionCannotBeLocked = false) do
    recoverPager row error
    updatePager fun pager => { pager with seen := [] }

/-- One turn of the session loops. -/
def sessionTurn (row : Row) : Pager (Option StopReason) :=
  tryCatch (sessionStep row) fun error =>
    if error.isUser then throw error
    else do
      afterSessionFailure row error
      pure none

/-- `PeekPager._run_sessions`. -/
def runSessions (row : Row) (turns : ℕ) : Pager (Option StopReason) := do
  setRetries false
  onPagerRun (warn .peekSessions
    (s!"Full Fetch on the session entity '{row.entity.path}' reads only the sessions Service Bus hands out: " ++
      "sessions locked by other consumers are skipped and sessions holding only deferred messages are not visible. " ++
      "Each visited session stays locked until the peek finishes."))
  Prog.iterate (sessionTurn row) turns

/-! ### The pager -/

/-- The loop of the row's kind of entity. -/
def pagerLoop (row : Row) (start : ℤ) (incremental : Bool) (turns : ℕ) : Pager (Option StopReason) :=
  if row.sessions then runSessions row turns else runPages row start incremental turns

/-- The peek is incremental. -/
def isIncremental (row : Row) : Bool := row.config.source.fetchMode == .incrementalFetch

/-- Put the retries back and close everything. -/
def endPager (retriesEnabled : Bool) : Pager Unit := do
  setRetries retriesEnabled
  closePager

/-- `PeekPager.run`: the new cursor of an incremental fetch. -/
def PeekPager.run (row : Row) (turns : ℕ) : Pager (Option (Option PeekCursor)) := do
  let s ← get
  if isIncremental row = true ∧ s.run.info.partitioned = some true then throw partitionedIncremental
  else do
    let start := if isIncremental row then startAt row s.run.state.peekCursor else 1
    let now ← monotonic
    updatePager fun pager => { pager with deadline := now + seconds row.config.advanced.maxDurationSeconds }
    match ← Prog.finishing (pagerLoop row start (isIncremental row) turns)
      (endPager s.run.unreadable.retriesEnabled) with
    | none => pure none
    | some reason => do
      onPagerRun (tally fun stats => { stats with stopReason := some reason })
      let s ← get
      pure (some (if isIncremental row then newCursor row start s.run.state.peekCursor s.pager else none))

/-- The pager as one step of the run. -/
def runPeekPager (row : Row) (turns : ℕ) : Run (Option (Option PeekCursor)) :=
  Prog.embed (fun run => { run, pager := {} }) (fun s _ => s.run) (PeekPager.run row turns)

end ServiceBusExtractor
