import ServiceBusExtractor.Receiver

/-!
# Deferred messages: commit, orphans, foreign deferrals

What a destructive run does before it receives: delete what the last deferring run
deferred, and look for deferrals no state owns.

## The model

* `withTransientRetry`, `receiveDeferredBisect` — one deferred receive, retried,
  and halved until every missing number fails alone.
* `commit` — delete the stored pending set; the groups it could not lock are
  carried.
* `scan` — find the orphaned deferrals of a plain entity and defer them again.
* `probe` — report the deferrals a mode that does not defer finds.
-/

namespace ServiceBusExtractor

open Interaction

def commitMaxCount : ℕ := 250
def commitMaxBytes : ℕ := 16 * 1024 * 1024
def transientBackoffSeconds : List ℤ := [2, 4, 8]
def deferredReceiveTimeoutSeconds : ℤ := 60
def orphanPageSize : ℕ := 250
def orphanPageCap : ℕ := 20
def orphanGuardListed : ℕ := 20

/-- The errors a deferred receive is retried for. -/
def Exn.isTransient (e : Exn) : Bool :=
  e.isKind .serverBusy || e.isKind .connection || e.isKind .communication || e.isKind .operationTimeout

/-- The stored entity is gone or cannot be read any more. -/
def Exn.isStale (e : Exn) : Bool :=
  e.isKind .entityNotFound || e.isKind .authentication || e.isKind .authorization || e.isUser

/-- Sequence numbers in one deferred receive: by count and by bytes, and at least one. -/
def commitChunkSize (maxBodyBytes : ℕ) : ℕ := max 1 (min commitMaxCount (commitMaxBytes / max 1 maxBodyBytes))

/-- `itertools.batched`: the list in pieces of at most `n`, as long as there are `pieces`. -/
def batchedIn {α : Type} (n : ℕ) : ℕ → List α → List (List α)
  | 0, _ => []
  | pieces + 1, l => if l = [] then [] else l.take n :: batchedIn n pieces (l.drop n)

/-- The list in pieces of at most `n`. -/
def batched {α : Type} (n : ℕ) (l : List α) : List (List α) := batchedIn n l.length l

section Batched

variable {α : Type} {n : ℕ} {l : List α}

theorem flatten_batchedIn (hn : 0 < n) {pieces : ℕ} (h : l.length ≤ pieces) : (batchedIn n pieces l).flatten = l := by
  induction pieces generalizing l with
  | zero =>
    obtain rfl : l = [] := List.eq_nil_of_length_eq_zero (by omega)
    rfl
  | succ pieces ih =>
    rw [batchedIn]
    split
    · rename_i hl
      rw [hl]
      rfl
    · rename_i hl
      have hpos := List.length_pos_of_ne_nil hl
      rw [List.flatten_cons, ih (by simp only [List.length_drop]; omega), List.take_append_drop]

/-- The pieces together are the list. -/
theorem flatten_batched (hn : 0 < n) : (batched n l).flatten = l := flatten_batchedIn hn (Nat.le_refl _)

theorem ne_nil_of_mem_batchedIn (hn : 0 < n) {pieces : ℕ} {piece : List α} (h : piece ∈ batchedIn n pieces l) :
    piece ≠ [] := by
  induction pieces generalizing l with
  | zero => cases h
  | succ pieces ih =>
    rw [batchedIn] at h
    split at h
    · cases h
    · rename_i hl
      rcases List.mem_cons.mp h with rfl | h
      · rw [ne_eq, List.take_eq_nil_iff, not_or]
        exact ⟨by omega, hl⟩
      · exact ih h

/-- No piece is empty. -/
theorem ne_nil_of_mem_batched (hn : 0 < n) {piece : List α} (h : piece ∈ batched n l) : piece ≠ [] :=
  ne_nil_of_mem_batchedIn hn h

theorem length_le_of_mem_batchedIn {pieces : ℕ} {piece : List α} (h : piece ∈ batchedIn n pieces l) :
    piece.length ≤ n := by
  induction pieces generalizing l with
  | zero => cases h
  | succ pieces ih =>
    rw [batchedIn] at h
    split at h
    · cases h
    · rcases List.mem_cons.mp h with rfl | h
      · exact List.length_take_le n l
      · exact ih h

/-- No piece is longer than asked for. -/
theorem length_le_of_mem_batched {piece : List α} (h : piece ∈ batched n l) : piece.length ≤ n :=
  length_le_of_mem_batchedIn h

/-- A piece keeps the order of the list. -/
theorem sublist_of_mem_batched (hn : 0 < n) {piece : List α} (h : piece ∈ batched n l) : piece.Sublist l := by
  have hpiece := List.sublist_flatten_of_mem h
  rwa [flatten_batched hn] at hpiece

end Batched

theorem commitChunkSize_pos (maxBodyBytes : ℕ) : 0 < commitChunkSize maxBodyBytes := Nat.le_max_left 1 _

/-- The chunks a group is deleted in. -/
def PendingGroup.chunks (group : PendingGroup) : List (List ℤ) :=
  batched (commitChunkSize group.maxBodyBytes) (iterRanges group.ranges)

section Chunks

variable {group : PendingGroup}

theorem flatten_chunks (group : PendingGroup) : group.chunks.flatten = iterRanges group.ranges :=
  flatten_batched (commitChunkSize_pos _)

theorem covers_chunks {q : ℤ} : covers group.ranges q ↔ q ∈ group.chunks.flatten := by
  rw [flatten_chunks, mem_iterRanges]

theorem nodup_chunks (group : PendingGroup) : group.chunks.flatten.Nodup := by
  rw [flatten_chunks]
  exact (pairwise_iterRanges group.ranges).imp fun h => ne_of_lt h

theorem count_eq (group : PendingGroup) : group.count = group.chunks.flatten.length := by
  rw [flatten_chunks]
  exact countRanges_eq group.ranges

end Chunks

/-! ### One deferred receive -/

section Deferred

variable {W α : Type}

/-- Call again after each of the delays, as long as the error can be retried. -/
def withTransientRetry (retryable : Exn → Bool) (fn : Program W α) : List ℤ → Program W α
  | [] => fn
  | delay :: delays => tryCatch fn fun error =>
    if retryable error then do
      sleep (seconds delay)
      withTransientRetry retryable fn delays
    else throw error

/-- What a call retries: the transient errors and, on the first call of a receiver, a locked session. -/
def retryable (sessionLocked : Bool) (e : Exn) : Bool :=
  e.isTransient || (sessionLocked && e.isKind .sessionCannotBeLocked)

/-- What is retried is not a missing message. -/
theorem not_messageNotFound_of_retryable {e : Exn} {sessionLocked : Bool} (h : retryable sessionLocked e = true) :
    e.isKind .messageNotFound = false := by
  unfold retryable Exn.isTransient Exn.isKind at h
  unfold Exn.isKind
  cases hsdk : e.serviceBus? with
  | none => rfl
  | some error =>
    rw [hsdk] at h
    cases hkind : error.kind <;> simp_all

/-- The messages returned and the numbers the broker no longer has. -/
structure DeferredReceive where
  received : List Message
  notFound : List ℤ

/-- `receive_deferred_bisect`, with as many halvings as the list is long. -/
def bisect (receiver : Handle) (sessionLocked : Bool) : ℕ → List ℤ → Program W DeferredReceive
  | 0, _ => pure ⟨[], []⟩
  | halvings + 1, seqs =>
    if seqs = [] then pure ⟨[], []⟩
    else do
      match ← Prog.attempt (withTransientRetry (retryable sessionLocked)
        (receiveDeferredMessages receiver seqs deferredReceiveTimeoutSeconds) transientBackoffSeconds) with
      | .ok messages => pure ⟨messages, []⟩
      | .error error =>
        if error.isKind .messageNotFound then
          if seqs.length = 1 then pure ⟨[], seqs⟩
          else do
            let left ← bisect receiver sessionLocked halvings (seqs.take (seqs.length / 2))
            let right ← bisect receiver sessionLocked halvings (seqs.drop (seqs.length / 2))
            pure ⟨left.received ++ right.received, left.notFound ++ right.notFound⟩
        else throw error

def receiveDeferredBisect (receiver : Handle) (seqs : List ℤ) (sessionLocked : Bool) : Program W DeferredReceive :=
  bisect receiver sessionLocked seqs.length seqs

/-- Map an SDK error to the user's exception, as the scans do. -/
def mapServiceBusError (row : Row) (p : Program W α) : Program W α :=
  tryCatch p fun error => match error.serviceBus? with
    | some sdkError => throw (row.toUserException sdkError row.entity.path)
    | none => throw error

/-- A receiver as a context manager: entered, used, closed. -/
def withReceiver (receiver : Handle) (p : Program W α) : Program W α := do
  enterReceiverCall receiver
  Prog.ensuring p (closeReceiver receiver)

/-- `_receiver_profile`: one message of prefetch. -/
def commitProfile (row : Row) (receiveMode : ReceiveMode) (session : SessionRequest) : ReceiverProfile :=
  receiverProfile row receiveMode 1 session

/-- A peek of the row's entity on a client of its own. -/
def withPeeker (row : Row) (p : Handle → Program W α) : Program W α := do
  let client ← receiveClient row
  Prog.ensuring (do
      let peeker ← openReceiver row row.entity client (commitProfile row .peekLock .none)
      withReceiver peeker (p peeker))
    (closeClient client)

end Deferred

/-! ### The commit -/

/-- The state of a commit: the run's, and how far the group being deleted got. -/
structure CommitState where
  run : RunState
  /-- Every number of the group below it is deleted. -/
  nextSeq : ℤ := 0

/-- A step of the commit. -/
abbrev Commit (α : Type) := Program CommitState α

/-- A step of the run's collaborators, inside the commit. -/
def onCommitRun {α : Type} (p : Run α) : Commit α := Prog.embed CommitState.run (fun run c => { c with run := run }) p

/-- How many numbers the groups cover. -/
def countGroups (groups : List PendingGroup) : ℤ := (groups.map PendingGroup.count).sum

/-- `PendingCommitter._warn`: a second entity under the same key is still named in the log. -/
def commitWarn (key : WarningKey) (text : String) : Run Unit := do
  let s ← get
  if key ∈ s.stats.warnings.map Prod.fst then Prog.note (S := sdk) (.warning text) else warn key text

/-- `PendingCommitter._open_receiver`: a sub-queue has no sessions. -/
def openCommitReceiver (row : Row) (client : Handle) (ref : EntityRef) (session : Option String) : Commit Handle := do
  let request := match session with
    | some id => if ref.isSubQueue then .none else .named id
    | none => .none
  let receiver ← openReceiver row ref client (commitProfile row .receiveAndDelete request)
  tryCatch (enterReceiverCall receiver) fun error => do
    closeReceiver receiver
    throw error
  pure receiver

/-- Delete one chunk; the progress moves once the call returned. -/
def deleteChunk (receiver : Handle) (sessionLocked : Bool) (chunk : List ℤ) : Commit Unit := do
  let result ← receiveDeferredBisect receiver chunk sessionLocked
  onCommitRun (tally fun stats => { stats with
    committed := stats.committed + result.received.length
    alreadyGone := stats.alreadyGone + result.notFound.length })
  modify fun c => { c with nextSeq := chunk.getLastD 0 + 1 }

/-- Delete the chunks; only the first call retries a session held by another receiver. -/
def deleteChunks (receiver : Handle) : List (List ℤ) → Commit Unit
  | [] => pure ()
  | chunk :: rest => do
    deleteChunk receiver true chunk
    rest.forM (deleteChunk receiver false)

/-- `PendingCommitter._delete_group`. -/
def deleteGroup (row : Row) (client : Handle) (ref : EntityRef) (group : PendingGroup) : Commit Unit := do
  let receiver ← withTransientRetry (retryable true) (openCommitReceiver row client ref group.sessionId)
    transientBackoffSeconds
  Prog.ensuring (deleteChunks receiver (batched (commitChunkSize group.maxBodyBytes) (iterRanges group.ranges)))
    (closeReceiver receiver)

/-- The warning that names an entity whose deferrals are given up. -/
def staleText (ref : EntityRef) (count : ℤ) : String :=
  (s!"{count} message(s) deferred by an earlier run stay DEFERRED on '{ref.path}' because that entity is gone or no " ++
    "longer readable with these credentials; run a defer-commit row on that entity to recover them.")

/-- `PendingCommitter._drop_stale`. -/
def dropStale (ref : EntityRef) (count : ℤ) : Run Unit := do
  tally fun stats => { stats with droppedStale := stats.droppedStale + count }
  commitWarn .commitStaleEntity (staleText ref count)

/-- What a failed group does: its rest is carried, the entity is dropped, or the run ends. `some`
goes on with the carried groups, `none` leaves the entity. -/
def afterGroupFailure (row : Row) (ref : EntityRef) (group : PendingGroup) (rest carried : List PendingGroup)
    (error : Exn) : Commit (Option (List PendingGroup)) := do
  let c ← get
  let left := group.tail c.nextSeq
  if error.isKind .sessionCannotBeLocked then do
    onCommitRun (tally fun stats => { stats with carriedForward := stats.carriedForward + left.count })
    pure (some (carried ++ [left]))
  else if error.isStale then
    if ref = row.entity then
      match error.serviceBus? with
      | some sdkError => throw (row.toUserException sdkError ref.path)
      | none => throw error
    else do
      onCommitRun (dropStale ref (left.count + countGroups rest))
      pure none
  else if error.isTransient then throw (.user
    (s!"Could not delete the {countGroups carried + left.count + countGroups rest} message(s) deferred by the " ++
      s!"previous run on '{ref.path}': {row.redact error.text}. Nothing was extracted in this run and the state is " ++
      "unchanged; the next run retries."))
  else match error.serviceBus? with
    | some sdkError => throw (row.toUserException sdkError ref.path)
    | none => throw error

/-- The groups of one stored entity, one after the other; returns the carried ones. -/
def commitGroups (row : Row) (client : Handle) (ref : EntityRef) (carried : List PendingGroup) :
    List PendingGroup → Commit (List PendingGroup)
  | [] => pure carried
  | group :: rest => do
    modify fun c => { c with nextSeq := 0 }
    match ← Prog.attempt (deleteGroup row client ref group) with
    | .ok _ => commitGroups row client ref carried rest
    | .error error => do
      match ← afterGroupFailure row ref group rest carried error with
      | some carried => commitGroups row client ref carried rest
      | none => pure carried

/-- The sessions of some groups, as the warning names them. -/
def sessionNames (groups : List PendingGroup) : String :=
  ", ".intercalate (groups.map fun g => "'" ++ g.sessionId.getD "None" ++ "'")

/-- `PendingCommitter._commit_entity`. -/
def commitEntity (row : Row) (client : Handle) (pe : PendingEntity) : Commit (List PendingGroup) := do
  let carried ← commitGroups row client pe.entity [] (pe.groups.filter fun group => group.ranges ≠ [])
  Prog.when (carried ≠ []) (onCommitRun (commitWarn .commitSessionLocked
    (s!"{countGroups carried} message(s) deferred by the previous run on '{pe.entity.path}' could not be deleted " ++
      s!"because another receiver holds their session ({sessionNames carried}); " ++
      "they stay DEFERRED and are carried forward to the next run.")))
  pure carried

/-- Commit one stored entity and keep what it carries. -/
def commitNext (row : Row) (client : Handle) (carried : List PendingEntity) (pe : PendingEntity) :
    Commit (List PendingEntity) := do
  let groups ← commitEntity row client pe
  if groups = [] then pure carried else pure (carried ++ [{ pe with groups := groups }])

/-- `PendingCommitter.commit`: a client only where there is something to delete. -/
def commit (row : Row) (pending : List PendingEntity) : Commit (List PendingEntity) :=
  let work := pending.filter fun pe => pe.groups.any fun group => group.ranges ≠ []
  if work = [] then pure []
  else do
    let client ← commitClient row
    Prog.ensuring (work.foldlM (commitNext row client) []) (closeClient client)

/-- The commit as one step of the run. -/
def runCommit (row : Row) (pending : List PendingEntity) : Run (List PendingEntity) :=
  Prog.embed (fun run => { run }) (fun c _ => c.run) (commit row pending)

/-! ### The orphan scan -/

/-- The plain-entity scan stops after this many consecutive qualifying messages. -/
def kStop (batchSize prefetchCount : ℕ) : ℕ := max 100 (2 * (batchSize + prefetchCount + 1))

/-- Active, never delivered, not expired and never scheduled. -/
def isQualifying (now : Time) (message : Message) : Bool :=
  message.state == .active && message.deliveryCount.getD 0 == 0 &&
    (match message.expiresAtUtc with
      | none => true
      | some expiresAt => expiresAt > now) &&
    message.scheduledEnqueueTimeUtc == none

/-- The state of a scan: the run's, the commit client and the local variables of the page loop. -/
structure ScanState where
  run : RunState
  commitClient : Option Handle := none
  consecutive : ℕ := 0
  nextSeq : ℤ := 1

/-- A step of the scan. -/
abbrev Scan (α : Type) := Program ScanState α

/-- A step of the run's collaborators, inside the scan. -/
def onScanRun {α : Type} (p : Run α) : Scan α := Prog.embed ScanState.run (fun run s => { s with run := run }) p

/-- `OrphanScanner._best_effort`: partitioned entities and sub-queues are scanned without the early stop. -/
def bestEffort (row : Row) : Run Bool := do
  let s ← get
  if s.info.isPartitioned || row.entity.isSubQueue then do
    let kind := if s.info.isPartitioned then "partitioned entities" else "dead-letter sub-queues"
    warn .orphanBestEffort
      (s!"Orphan recovery is best-effort on {kind}: the scan of '{row.entity.path}' reads at most " ++
        s!"{orphanPageCap * orphanPageSize} messages without an early stop and can miss deferrals left by a failed " ++
        "defer-commit run.")
    pure true
  else pure false

/-- A deferred message: an orphan, unless one more delivery could exhaust it. -/
def noteDeferred (message : Message) (orphans : List ℤ) : Scan (List ℤ) := do
  modify fun s => { s with consecutive := 0 }
  let s ← get
  if (message.deliveryCount.getD 0 : ℤ) ≥ s.run.info.orphanGuardThreshold then do
    onScanRun (tally fun stats => { stats with orphansGuarded := stats.orphansGuarded ++ [message.sequenceNumber] })
    pure orphans
  else pure (orphans ++ [message.sequenceNumber])

/-- The orphans of a page, and whether the scan stops in it. -/
def scanMessages (row : Row) (now : Time) (orphans : List ℤ) : List Message → Scan (List ℤ × Bool)
  | [] => pure (orphans, false)
  | message :: rest => do
    onScanRun (modify fun s => { s with info := s.info.noteSequenceNumber message.sequenceNumber })
    if message.state = .deferred then do
      let orphans ← noteDeferred message orphans
      scanMessages row now orphans rest
    else do
      let best ← onScanRun (bestEffort row)
      if best = false ∧ isQualifying now message = true then do
        modify fun s => { s with consecutive := s.consecutive + 1 }
        let s ← get
        if s.consecutive ≥ kStop row.config.advanced.batchSize row.config.advanced.prefetchCount then
          pure (orphans, true)
        else scanMessages row now orphans rest
      else scanMessages row now orphans rest

/-- Receive a chunk of orphans and run them through the batch processor. -/
def recoverChunk (row : Row) (receiver : Handle) (seqs : List ℤ) : Scan Unit := do
  let result ← receiveDeferredBisect receiver seqs false
  Prog.when (result.received ≠ []) do
    let _ ← onScanRun (process row receiver result.received 0)
    onScanRun (tally fun stats => { stats with orphansRecovered := stats.orphansRecovered + result.received.length })

/-- The orphans of a page by partition, in chunks of the batch size. -/
def orphanChunks (row : Row) (orphans : List ℤ) : List (List ℤ) :=
  let sorted := orphans.insertionSort (· ≤ ·)
  (sorted.map partitionOf).eraseDups.flatMap fun partition =>
    batched (min commitMaxCount row.config.advanced.batchSize) (sorted.filter fun seq => partitionOf seq = partition)

/-- The open commit client, or a new one. -/
def scanCommitClient (row : Row) : Scan Handle := do
  let s ← get
  match s.commitClient with
  | some client => pure client
  | none => do
    let client ← commitClient row
    modify fun s => { s with commitClient := some client }
    pure client

/-- `OrphanScanner._recover`: the unreadable-body retries are off for its duration. -/
def recoverOrphans (row : Row) (orphans : List ℤ) : Scan Unit :=
  Prog.when (orphans ≠ []) do
    let client ← scanCommitClient row
    let s ← get
    onScanRun (updateUnreadable fun handler => { handler with retriesEnabled := false })
    Prog.ensuring (do
        let receiver ← openReceiver row row.entity client (commitProfile row .peekLock .none)
        withReceiver receiver ((orphanChunks row orphans).forM (recoverChunk row receiver)))
      (onScanRun (updateUnreadable fun handler => { handler with retriesEnabled := s.run.unreadable.retriesEnabled }))

/-- One page of the scan; `some true` once it stopped. -/
def scanPage (row : Row) (peeker : Handle) : Scan (Option Bool) := do
  let s ← get
  let _ ← onScanRun (bestEffort row)
  let page ← peekMessages peeker orphanPageSize (if s.run.info.isPartitioned then 0 else s.nextSeq)
  if page = [] then pure (some true)
  else do
    let now ← utcNow
    let (orphans, stopped) ← scanMessages row now [] page
    recoverOrphans row orphans
    if stopped then pure (some true)
    else do
      modify fun s => { s with nextSeq := lastSequenceNumber page + 1 }
      pure none

/-- Close the commit client, where one was opened. -/
def closeScanClient : Scan Unit := do
  let s ← get
  whenOpen s.commitClient fun client => do
    closeClient client
    modify fun s => { s with commitClient := none }

/-- `OrphanScanner._warn_guarded`. -/
def warnGuarded (row : Row) : Run Unit := do
  let s ← get
  let guarded := s.stats.orphansGuarded
  let listed := ", ".intercalate ((guarded.take orphanGuardListed).map fun seq => s!"{seq}")
  Prog.when (guarded ≠ []) (warn .orphanGuard
    (s!"{guarded.length} orphaned deferred message(s) on '{row.entity.path}' were not recovered because their " ++
      s!"delivery count is at least {s.info.orphanGuardThreshold} (the entity's max delivery count minus 1) and one " ++
      s!"more deferred receive could exhaust it; they stay DEFERRED. Sequence numbers (first {orphanGuardListed}): " ++
      s!"{listed}."))

/-- `OrphanScanner.scan`. -/
def scan (row : Row) : Scan Unit :=
  if row.sessions then onScanRun (warn .orphanSessions
    ("Orphan recovery is not available for session entities: deferrals of a failed defer-commit run on " ++
      s!"'{row.entity.path}' stay DEFERRED until recovered manually."))
  else do
    let finished ← Prog.ensuring
      (mapServiceBusError row (withPeeker row fun peeker => Prog.iterate (scanPage row peeker) orphanPageCap))
      closeScanClient
    onScanRun (warnGuarded row)
    Prog.when (finished = none) (onScanRun (warn .orphanScanIncomplete
      (s!"Defer-commit orphan scan incomplete on '{row.entity.path}': it stopped after {orphanPageCap} pages " ++
        s!"({orphanPageCap * orphanPageSize} messages) before the end of the entity, so deferrals of a failed run " ++
        "further back were not recovered in this run.")))

/-- The scan as one step of the run. -/
def runScan (row : Row) : Run Unit := Prog.embed (fun run => { run }) (fun s _ => s.run) (scan row)

/-! ### The foreign-deferral probe -/

/-- `ForeignDeferralProbe.probe`. -/
def probe (row : Row) : Run Unit :=
  Prog.when (row.sessions = false) do
    let s ← get
    let page ← mapServiceBusError row (withPeeker row fun peeker =>
      peekMessages peeker orphanPageSize (if s.info.isPartitioned then 0 else 1))
    let count := (page.filter fun message => message.state = .deferred).length
    Prog.when (count ≠ 0) (warn .foreignDeferrals
      (s!"{count} deferred message(s) on '{row.entity.path}' are not owned by this configuration's state; if they " ++
        "came from a failed defer-commit run of this configuration, run it once in defer-commit mode to recover them."))

end ServiceBusExtractor
