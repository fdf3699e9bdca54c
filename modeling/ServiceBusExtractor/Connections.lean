import ServiceBusExtractor.Script
import ServiceBusExtractor.Wiring

/-!
# Every run closes what it opened

A run receives, settles and peeks on receivers that are open, made for the row's
entity and for its mode, and however it ends nothing stays open.

## The model

* `InTurn row` — between two steps of the receive loop, its client and its receiver
  are open and nothing else is; `InPages row`, `InSessions row` — the same of the
  peek pager.
* `Has row receiver`, `Plugged row plugs` — the same, for the steps that do not touch
  the connection.
* `LeftClosed row` — how a program that may still be running leaves the connections.

## What is proved

`connections_closed`: of every run, in every mode.
-/

namespace ServiceBusExtractor

open Interaction

variable {row : Row} {pending : List PendingEntity} {h h' : Trace sdk}

section Closing

variable {W : Type} {w : W} {clients : List Handle} {links : List Link}

/-- A receiver that may be open is closed. -/
theorem wp_whenOpenReceiver {link : Handle → Link} (hlink : ∀ receiver, (link receiver).handle = receiver)
    {receiver : Option Handle} {Q : Except Exn Unit → W → Trace sdk → Prop}
    (hw : Wired row pending clients (receiver.toList.map link ++ links) h)
    (hQ : ∀ h', Wired row pending clients links h' → Q (.ok ()) w h') :
    Wp Issuing (whenOpen receiver closeReceiverQuietly) Q w h := by
  cases receiver with
  | none => exact wp_pure.mpr (hQ h hw)
  | some receiver =>
    have hclose := wp_closeReceiverQuietly hw hQ
    rw [hlink] at hclose
    exact hclose

/-- A client that may be open is closed. -/
theorem wp_whenOpenClient {client : Option Handle} {Q : Except Exn Unit → W → Trace sdk → Prop}
    (hw : Wired row pending (client.toList ++ clients) links h)
    (hQ : ∀ h', Wired row pending clients links h' → Q (.ok ()) w h') :
    Wp Issuing (whenOpen client closeClientQuietly) Q w h := by
  cases client with
  | none => exact wp_pure.mpr (hQ h hw)
  | some client => exact wp_closeClientQuietly hw hQ

end Closing

/-! ### The receive loop -/

/-- The client and the receiver of the loop are open, and nothing else. -/
abbrev InTurn (row : Row) (pending : List PendingEntity) : LoopState → Trace sdk → Prop :=
  Holding row pending (fun l => l.loop.client.toList) fun l => l.loop.receiver.toList.map (rowLink row)

/-- The loop has this receiver, or none. -/
def Has (row : Row) (pending : List PendingEntity) (receiver : Option Handle) (l : LoopState) (h : Trace sdk) : Prop :=
  l.loop.receiver = receiver ∧ InTurn row pending l h

/-- The loop has this receiver. -/
abbrev On (row : Row) (pending : List PendingEntity) (receiver : Handle) : LoopState → Trace sdk → Prop :=
  Has row pending (some receiver)

section Loop

variable {receiver client : Handle} {l : LoopState}

theorem On.mem (ho : On row pending receiver l h) :
    rowLink row receiver ∈ l.loop.receiver.toList.map (rowLink row) := by
  rw [ho.1]
  exact List.mem_singleton_self _

theorem keeps_onRunHas {α : Type} {p : Run α} {handle : Option Handle}
    (hp : ∀ clients links, Keeps Issuing (Beside row pending clients links) p) :
    Keeps Issuing (Has row pending handle) (onRun p) :=
  keeps_embed (fun _ => rfl) fun l s h ho =>
    (hp _ (l.loop.receiver.toList.map (rowLink row)) s h ho.2).mono fun _ _ _ hw => ⟨ho.1, hw⟩

theorem keeps_onReceiver {α : Type} {p : Run α}
    (hp : ∀ clients links, rowLink row receiver ∈ links → Keeps Issuing (Beside row pending clients links) p) :
    Keeps Issuing (On row pending receiver) (onRun p) :=
  keeps_embed (fun _ => rfl) fun _ s h ho => (hp _ _ ho.mem s h ho.2).mono fun _ _ _ hw => ⟨ho.1, hw⟩

/-- What keeps the receiver of the loop, whichever it is, keeps the loop. -/
theorem Keeps.inTurn {α : Type} {p : Loop α} (hp : ∀ handle, Keeps Issuing (Has row pending handle) p) :
    Keeps Issuing (InTurn row pending) p :=
  fun l h hw => (hp l.loop.receiver l h ⟨rfl, hw⟩).mono fun _ _ _ ho => ho.2

theorem keeps_onRunWired {α : Type} {p : Run α}
    (hp : ∀ clients links, Keeps Issuing (Beside row pending clients links) p) :
    Keeps Issuing (InTurn row pending) (onRun p) := Keeps.inTurn fun _ => keeps_onRunHas hp

theorem keeps_onReceiverNote {n : Note} :
    Keeps Issuing (On row pending receiver) (Prog.note (S := sdk) n : Loop Unit) :=
  fun _ _ ho => wp_wiredNote ho.2 fun _ hw => ⟨ho.1, hw⟩

/-- The lock of the open session is renewed. -/
theorem keeps_renewOn : Keeps Issuing (On row pending receiver) (Prog.when (row.sessions = true) (do
    let now ← utcNow
    renewSessionIfNeeded receiver now) : Loop Unit) := by
  refine keeps_ite (fun hsessions => ?_) fun _ => keeps_pure
  refine keeps_bind (fun _ _ ho => wp_wiredPerform ho.2 rfl (fun _ => trivial) fun _ _ hw => ⟨ho.1, hw⟩)
    fun now l h ho => ?_
  exact wp_wiredRenewal ho.2 hsessions ho.mem fun _ _ hw => ⟨ho.1, hw⟩

theorem keeps_receiveOn (hdestructive : row.mode.isDestructive = true) (count : ℕ) (wait : ℤ) :
    Keeps Issuing (On row pending receiver) (receive row receiver count wait) := by
  have hreceive : Keeps Issuing (On row pending receiver) (receiveMessages receiver count wait : Loop (List Message)) :=
    fun l h ho => wp_wiredCall ho.2 rfl (fun _ => ⟨hdestructive, ho.2.mem ho.mem⟩) fun _ _ hw => ⟨ho.1, hw⟩
  have harm : Keeps Issuing (On row pending receiver) (onRun armWriteAlways) :=
    keeps_onReceiver fun _ _ _ => keeps_armWired
  refine keeps_bind (keeps_modify fun _ _ ho => ho) fun _ => ?_
  refine keeps_bind hreceive fun batch => ?_
  refine keeps_bind (keeps_onReceiver fun _ _ _ => keeps_modifyWired) fun _ => ?_
  refine keeps_bind keeps_get fun l => ?_
  exact keeps_bind (keeps_when (keeps_bind harm fun _ => keeps_modify fun _ _ ho => ho)) fun _ => keeps_pure

theorem keeps_processOn (batch : List Message) (generation : ℕ) :
    Keeps Issuing (On row pending receiver) (onRun (process row receiver batch generation)) :=
  keeps_onReceiver fun _ _ hlink => keeps_processWired (fun _ => hlink) batch generation

theorem holdsLocks_of_locked (hdestructive : row.mode.isDestructive = true) (hlocked : ¬ row.mode = .receiveAndDelete) :
    row.mode.holdsLocks = true := by
  cases hmode : row.mode with
  | complete => rfl
  | deferCommit => rfl
  | receiveAndDelete => exact absurd hmode hlocked
  | peek =>
    rw [hmode] at hdestructive
    cases hdestructive

theorem keeps_drainOn (hdestructive : row.mode.isDestructive = true) :
    Keeps Issuing (On row pending receiver) (drain row receiver) := by
  refine keeps_bind keeps_renewOn fun _ => ?_
  refine keeps_bind (keeps_receiveOn hdestructive _ _) fun drained => ?_
  refine keeps_ite (fun _ => keeps_pure) fun _ => ?_
  refine keeps_ite (fun _ => ?_) fun hlocked => ?_
  · exact keeps_bind keeps_get fun _ => keeps_bind (keeps_processOn drained _) fun _ => keeps_pure
  · have hlocks := holdsLocks_of_locked hdestructive hlocked
    exact keeps_forM fun message _ => keeps_onReceiver fun _ _ hlink =>
      keeps_safeSettle stillFrame_wired (keeps_wiredCall rfl fun _ _ hw _ => ⟨hlocks, hw.mem hlink⟩)

theorem keeps_stopDrainOn (hdestructive : row.mode.isDestructive = true) (failing : Bool) :
    Keeps Issuing (On row pending receiver) (stopDrain row receiver failing) := by
  refine keeps_bind keeps_get fun l => ?_
  refine keeps_when (keeps_tryCatch (keeps_drainOn hdestructive) fun error => ?_)
  exact keeps_ite (fun _ => keeps_ite (fun _ => keeps_onReceiverNote) fun _ => keeps_throw)
    fun _ => keeps_onReceiverNote

theorem keeps_processBatchOn (hdestructive : row.mode.isDestructive = true) (batch : List Message) :
    Keeps Issuing (On row pending receiver) (processBatch row receiver batch) := by
  have hprocess : ∀ generation, Keeps Issuing (On row pending receiver)
      (processOrDrain row receiver batch generation) := by
    refine fun generation => keeps_tryCatch (keeps_processOn batch generation) fun error => ?_
    exact keeps_bind (keeps_when (keeps_stopDrainOn hdestructive true)) fun _ => keeps_throw
  have hnote : ∀ written, Keeps Issuing (On row pending receiver) (noteProgress written) :=
    fun written => keeps_bind keeps_get fun _ => keeps_when (keeps_modify fun _ _ ho => ho)
  refine keeps_bind keeps_get fun l => ?_
  refine keeps_bind (keeps_ensuring (hprocess _) (hnote _)) fun result => ?_
  refine keeps_bind (keeps_when (keeps_modify fun _ _ ho => ho)) fun _ => ?_
  exact keeps_bind (keeps_modify fun _ _ ho => ho) fun _ => keeps_pure

/-- Nothing of the loop is open. -/
def Shut (row : Row) (pending : List PendingEntity) (l : LoopState) (h : Trace sdk) : Prop :=
  l.loop.client = none ∧ l.loop.receiver = none ∧ Wired row pending [] [] h

theorem Shut.inTurn (hs : Shut row pending l h) : InTurn row pending l h := by
  obtain ⟨hclient, hreceiver, hw⟩ := hs
  rw [InTurn, Holding, hclient, hreceiver]
  exact hw

/-- Closing the loop closes its receiver and its client. -/
theorem closes_close (interrupted : Bool) :
    Closes Issuing (InTurn row pending) (Shut row pending) (close interrupted) := by
  intro l h hw
  have hopen : Wired row pending (l.loop.client.toList ++ []) (l.loop.receiver.toList.map (rowLink row) ++ []) h := by
    rw [List.append_nil, List.append_nil]
    exact hw
  refine wp_bind.mpr (wp_get.mpr (wp_bind.mpr (wp_modify.mpr (wp_bind.mpr ?_))))
  refine wp_whenOpenReceiver (fun _ => rfl) hopen fun h₁ hw₁ => ?_
  exact wp_whenOpenClient hw₁ fun h₂ hw₂ => ⟨rfl, rfl, hw₂⟩

theorem keeps_closeWired (interrupted : Bool) : Keeps Issuing (InTurn row pending) (close interrupted) :=
  fun l h hw => (closes_close interrupted l h hw).mono fun _ _ _ hs => hs.inTurn

/-- Closing a session keeps the client. -/
theorem keeps_finishSessionWired : Keeps Issuing (InTurn row pending) finishSession := by
  intro l h hw
  have hopen : Wired row pending l.loop.client.toList (l.loop.receiver.toList.map (rowLink row) ++ []) h := by
    rw [List.append_nil]
    exact hw
  refine wp_bind.mpr (wp_get.mpr (wp_bind.mpr (wp_modify.mpr ?_)))
  exact wp_whenOpenReceiver (fun _ => rfl) hopen fun _ hw₁ => hw₁

/-- The client of the loop is open once it is asked for. -/
theorem wp_ensureClient (hw : InTurn row pending l h) : Wp Issuing (ensureClient row)
    (Opened (InTurn row pending) fun client l' h' =>
      (l'.loop.client = some client ∧ l'.loop.receiver = l.loop.receiver) ∧ InTurn row pending l' h')
    l h := by
  rw [ensureClient, wp_bind, wp_get, onOk_ok]
  cases hclient : l.loop.client with
  | some client => exact wp_pure.mpr ⟨⟨hclient, rfl⟩, hw⟩
  | none =>
    have hopen : Wired row pending l.loop.client.toList (l.loop.receiver.toList.map (rowLink row)) h := hw
    rw [hclient] at hopen
    refine wp_bind.mpr (wp_dataClient hopen (fun client h₁ hw₁ => ?_) fun _ h₁ hw₁ => ?_)
    · exact wp_bind.mpr (wp_modify.mpr (wp_pure.mpr ⟨⟨rfl, rfl⟩, hw₁⟩))
    · show Wired row pending l.loop.client.toList _ h₁
      rw [hclient]
      exact hw₁

/-- The peeker of the drain check is closed again. -/
theorem keeps_receivableWired : Keeps Issuing (InTurn row pending) (receivableMessages row) := by
  refine fun l h hw => wp_bind.mpr ((wp_ensureClient hw).mono ?_)
  rintro (e | client) l₁ h₁ hend
  · exact hend
  · obtain ⟨⟨hclient, -⟩, hw₁⟩ := hend
    have hin : client ∈ l₁.loop.client.toList := by simp [hclient]
    refine wp_bind.mpr (wp_wiredPerform hw₁ rfl (fun _ => trivial) fun now h₂ hw₂ => ?_)
    refine wp_bind.mpr (wp_get.mpr
      (wp_bind.mpr (wp_openReceiver hw₂ hin meant_peek (fun peeker h₃ hw₃ hmade => ?_) fun _ _ hw₃ => hw₃)))
    refine wp_bind.mpr (wp_enterReceiver hw₃ hmade (fun h₄ hw₄ => ?_) fun _ _ hw₄ => hw₄)
    refine wp_bind.mpr (wp_ensuring.mpr (wp_wiredCall hw₄ rfl (fun _ => hw₄.mem List.mem_cons_self) fun r h₅ hw₅ => ?_))
    refine wp_closeReceiverQuietly hw₅ fun h₆ hw₆ => ?_
    cases r with
    | error e => exact hw₆
    | ok page => exact wp_pure.mpr hw₆

theorem keeps_sleepWired (duration : Time) : Keeps Issuing (InTurn row pending) (sleep duration) :=
  keeps_freePerform rfl

theorem keeps_onEmptyWired (catchUpUntil : Option Time) :
    Keeps Issuing (InTurn row pending) (onEmpty row catchUpUntil) := by
  refine keeps_ite (fun _ => keeps_bind keeps_finishSessionWired fun _ => keeps_pure) fun _ => ?_
  refine keeps_ite (fun _ => keeps_bind (keeps_sleepWired _) fun _ => keeps_pure) fun _ => ?_
  refine keeps_bind keeps_receivableWired fun remaining => ?_
  refine keeps_ite (fun _ => keeps_pure) fun _ => ?_
  refine keeps_bind (keeps_modify fun _ _ hw => hw) fun _ => ?_
  refine keeps_bind keeps_get fun l => ?_
  refine keeps_ite (fun _ => keeps_pure) fun _ => ?_
  refine keeps_bind (keeps_onRunWired fun _ _ => keeps_modifyWired) fun _ => ?_
  refine keeps_bind (keeps_closeWired false) fun _ => ?_
  refine keeps_bind (keeps_freePerform rfl) fun _ => ?_
  exact keeps_bind (keeps_sleepWired _) fun _ => keeps_pure

theorem keeps_stopCheckHas {handle : Option Handle} (catchUpUntil : Option Time) :
    Keeps Issuing (Has row pending handle) (stopCheck row catchUpUntil) := by
  have hbudget : Keeps Issuing (Has row pending handle) (overBudget row) :=
    keeps_ite (fun _ => keeps_bind (keeps_onRunHas fun _ _ => keeps_projectedState stillFrame_wired row)
      fun _ => keeps_pure)
      fun _ => keeps_pure
  have hclock : Keeps Issuing (Has row pending handle) (monotonic : Loop Time) :=
    fun l h ho => wp_wiredPerform ho.2 rfl (fun _ => trivial) fun _ _ hw => ⟨ho.1, hw⟩
  refine keeps_bind keeps_get fun l => ?_
  refine keeps_ite (fun _ => keeps_pure) fun _ => ?_
  refine keeps_bind hclock fun now => ?_
  refine keeps_ite (fun _ => keeps_pure) fun _ => ?_
  refine keeps_bind hbudget fun exceeded => ?_
  refine keeps_ite (fun _ => ?_) fun _ => ?_
  · exact keeps_bind (keeps_onRunHas fun _ _ => keeps_warn stillFrame_wired _ _) fun _ => keeps_pure
  · cases catchUpUntil with
    | none => exact keeps_pure
    | some limit => exact keeps_ite (fun _ => keeps_pure) fun _ => keeps_pure

/-- The receiver of the loop, where the loop did not have one. -/
def Reopened (row : Row) (pending : List PendingEntity) (l : LoopState) (receiver : Handle) (l' : LoopState)
    (h : Trace sdk) : Prop :=
  l'.loop.client = l.loop.client ∧ Wired row pending l.loop.client.toList [rowLink row receiver] h

theorem Reopened.on {l' : LoopState} (ha : Reopened row pending l receiver l' h) :
    On row pending receiver { l' with loop := { l'.loop with receiver := some receiver } } h := by
  obtain ⟨hclient, hw⟩ := ha
  refine ⟨rfl, ?_⟩
  rw [← hclient] at hw
  exact hw

theorem wp_openLoopReceiver {session : SessionRequest} (ho : Has row pending none l h)
    (hclient : l.loop.client = some client) :
    Wp Issuing (openLoopReceiver row client session) (Opened (Has row pending none) (Reopened row pending l)) l h := by
  obtain ⟨hnone, hw⟩ := ho
  have hin : client ∈ l.loop.client.toList := by simp [hclient]
  have hopen : Wired row pending l.loop.client.toList [] h := by
    rw [InTurn, Holding, hnone] at hw
    exact hw
  have hback : ∀ {h'}, Wired row pending l.loop.client.toList [] h' → Has row pending none l h' := by
    refine fun hw' => ⟨hnone, ?_⟩
    rw [InTurn, Holding, hnone]
    exact hw'
  refine wp_bind.mpr (wp_openReceiver hopen hin (.inl ⟨rfl, .inr rfl⟩) (fun receiver h₁ hw₁ hmade => ?_)
    fun _ _ hw₁ => hback hw₁)
  refine wp_bind.mpr (wp_enterReceiver hw₁ hmade (fun h₂ hw₂ => ?_) fun _ _ hw₂ => hback hw₂)
  exact wp_bind.mpr (wp_modify.mpr (wp_pure.mpr ⟨rfl, hw₂⟩))

/-- A loop without a receiver opens one. -/
theorem keeps_openNextWired (hdestructive : row.mode.isDestructive = true) (catchUpUntil : Option Time) :
    Closes Issuing (Has row pending none) (InTurn row pending) (openNext row catchUpUntil) := by
  rintro l h ⟨hnone, hw⟩
  refine wp_bind.mpr ((wp_ensureClient hw).mono ?_)
  rintro (e | client) l₁ h₁ hend
  · exact hend
  · obtain ⟨⟨hclient, hsame⟩, hw₁⟩ := hend
    have ho : Has row pending none l₁ h₁ := ⟨hsame.trans hnone, hw₁⟩
    refine wp_ite.mpr ⟨fun hsessions => ?_, fun _ => ?_⟩
    · have hsession : Wp Issuing (openSession row client)
          (Opened (Has row pending none) fun found => found.elim (Has row pending none) (Reopened row pending l₁)) l₁
            h₁ := by
        refine wp_bind.mpr (wp_get.mpr (wp_tryCatch.mpr (wp_bind.mpr ((wp_openLoopReceiver ho hclient).mono ?_))))
        rintro (error | receiver) l₂ h₂ hend
        · exact wp_ite.mpr ⟨fun _ => wp_pure.mpr hend, fun _ => wp_throw.mpr hend⟩
        · exact wp_pure.mpr hend
      refine wp_bind.mpr (hsession.mono ?_)
      rintro (error | _ | receiver) l₂ h₂ hend
      · exact hend.2
      · have hw₂ : InTurn row pending l₂ h₂ := hend.2
        exact keeps_ite (fun _ => keeps_pure) (fun _ => keeps_bind (keeps_sleepWired _) fun _ => keeps_pure) l₂ h₂ hw₂
      · refine wp_bind.mpr (wp_modify.mpr ?_)
        have hon : Keeps Issuing (On row pending receiver) (do
            let id ← sessionId receiver
            let l ← get
            Prog.note (S := sdk) (.sessionOpened id l.loop.seenSessions)
            if id ∈ l.loop.seenSessions then do
              stopDrain row receiver false
              pure (some StopReason.sessionRevisited)
            else do
              updateLoop fun loop => { loop with seenSessions := id :: loop.seenSessions, sessionId := some id }
              pure none) := by
          refine keeps_bind (fun l h ho => ?_) fun id => ?_
          · exact wp_wiredPerform ho.2 rfl (fun _ => ⟨hsessions, ho.2.mem ho.mem⟩) fun _ _ hw => ⟨ho.1, hw⟩
          refine keeps_bind keeps_get fun _ => ?_
          refine keeps_bind keeps_onReceiverNote fun _ => ?_
          refine keeps_ite (fun _ => ?_) fun _ => keeps_bind (keeps_modify fun _ _ ho => ho) fun _ => keeps_pure
          exact keeps_bind (keeps_stopDrainOn hdestructive false) fun _ => keeps_pure
        exact (hon _ _ (Reopened.on hend)).mono fun _ _ _ ho => ho.2
    · refine wp_bind.mpr ((wp_openLoopReceiver ho hclient).mono ?_)
      rintro (error | receiver) l₂ h₂ hend
      · exact hend.2
      · exact wp_bind.mpr (wp_modify.mpr (wp_pure.mpr (Reopened.on hend).2))

/-- What starts on a receiver and keeps it keeps the loop. -/
theorem Keeps.on {α : Type} {p : Loop α} (hp : Keeps Issuing (On row pending receiver) p) :
    Closes Issuing (On row pending receiver) (InTurn row pending) p :=
  fun l h ho => (hp l h ho).mono fun _ _ _ ho => ho.2

theorem Keeps.from_on {α : Type} {p : Loop α} (hp : Keeps Issuing (InTurn row pending) p) :
    Closes Issuing (On row pending receiver) (InTurn row pending) p :=
  fun l h ho => hp l h ho.2

theorem keeps_onWatermarkWired (hdestructive : row.mode.isDestructive = true) :
    Closes Issuing (On row pending receiver) (InTurn row pending) (onWatermark row receiver) := by
  have hraise : ∀ (l : LoopState) h, On row pending receiver l h → InTurn row pending l h := fun _ _ ho => ho.2
  refine Keeps.before_close keeps_get (fun l => ?_) hraise
  refine Keeps.before_close (keeps_when (keeps_onRunHas fun _ _ => keeps_warn stillFrame_wired _ _))
    (fun _ => ?_) hraise
  refine Keeps.before_close (keeps_stopDrainOn hdestructive false) (fun _ => Keeps.from_on ?_) hraise
  exact keeps_ite (fun _ => keeps_bind keeps_finishSessionWired fun _ => keeps_pure) fun _ => keeps_pure

theorem keeps_recycleWired : Keeps Issuing (InTurn row pending) recycle := by
  refine keeps_bind (keeps_closeWired true) fun _ => ?_
  refine keeps_bind (keeps_modify fun _ _ hw => hw) fun _ => ?_
  exact keeps_bind (keeps_onRunWired fun _ _ => keeps_modifyWired) fun _ => keeps_wiredNote

/-- A turn with an open receiver. -/
theorem closes_receiveTurn (hdestructive : row.mode.isDestructive = true) (catchUpUntil : Option Time) :
    Closes Issuing (On row pending receiver) (InTurn row pending) (receiveTurn row receiver catchUpUntil) := by
  have hraise : ∀ (l : LoopState) h, On row pending receiver l h → InTurn row pending l h := fun _ _ ho => ho.2
  refine Keeps.before_close keeps_renewOn (fun _ => Keeps.before_close keeps_get (fun l => ?_) hraise) hraise
  refine Keeps.before_close (keeps_receiveOn hdestructive _ _) (fun batch => ?_) hraise
  split
  · exact Keeps.from_on (keeps_onEmptyWired catchUpUntil)
  · refine Keeps.before_close (keeps_modify fun _ _ ho => ho) (fun _ => ?_) hraise
    refine Keeps.before_close (keeps_processBatchOn hdestructive batch) (fun result => ?_) hraise
    split
    · exact keeps_onWatermarkWired hdestructive
    · exact Keeps.from_on (keeps_bind (keeps_when keeps_recycleWired) fun _ => keeps_pure)

theorem keeps_stepWired (hdestructive : row.mode.isDestructive = true) (catchUpUntil : Option Time) :
    Keeps Issuing (InTurn row pending) (step row catchUpUntil) := by
  intro l h hw
  refine wp_bind.mpr (wp_get.mpr (wp_bind.mpr ((keeps_stopCheckHas catchUpUntil l h ⟨rfl, hw⟩).mono ?_)))
  rintro (error | _ | stop) l₁ h₁ ho
  · exact ho.2
  · rw [onOk_ok]
    dsimp only
    cases hreceiver : l.loop.receiver with
    | none =>
      rw [hreceiver] at ho
      exact keeps_openNextWired hdestructive catchUpUntil l₁ h₁ ho
    | some receiver =>
      rw [hreceiver] at ho
      exact closes_receiveTurn hdestructive catchUpUntil l₁ h₁ ho
  · refine wp_bind.mpr ?_
    cases hreceiver : l.loop.receiver with
    | none => exact wp_pure.mpr (wp_pure.mpr ho.2)
    | some receiver =>
      rw [hreceiver] at ho
      refine (keeps_stopDrainOn hdestructive false l₁ h₁ ho).mono ?_
      rintro (error | _) l₂ h₂ ho₂
      · exact ho₂.2
      · exact wp_pure.mpr ho₂.2

theorem keeps_logRecoveryWired {W : Type} {clients : W → List Handle} {links : W → List Link} (error : Exn)
    (tracker : RecoveryTracker) :
    Keeps Issuing (Holding row pending clients links) (logRecovery row error tracker : Program W Unit) :=
  keeps_bind keeps_wiredNote fun _ => keeps_wiredNote

theorem keeps_afterFailureOn (error : Exn) : Keeps Issuing (InTurn row pending) (afterFailure row error) := by
  refine keeps_ite (fun _ => keeps_finishSessionWired) fun _ => ?_
  refine keeps_bind (keeps_closeWired true) fun _ => ?_
  refine keeps_bind keeps_get fun _ => ?_
  refine keeps_bind keeps_ofExcept fun tracker => ?_
  refine keeps_bind (keeps_modify fun _ _ hw => hw) fun _ => ?_
  exact keeps_bind (keeps_onRunWired fun _ _ => keeps_modifyWired) fun _ => keeps_logRecoveryWired error tracker

theorem keeps_consumeWired (hdestructive : row.mode.isDestructive = true) (catchUpUntil : Option Time) (turns : ℕ) :
    Keeps Issuing (InTurn row pending) (consume row catchUpUntil turns) :=
  keeps_iterate (keeps_tryCatch (keeps_stepWired hdestructive catchUpUntil) fun error =>
    keeps_ite (fun _ => keeps_throw) fun _ => keeps_bind (keeps_afterFailureOn error) fun _ => keeps_pure) turns

theorem keeps_consumeAllWired (hdestructive : row.mode.isDestructive = true) (turns : ℕ) :
    Keeps Issuing (InTurn row pending) (consumeAll row turns) := by
  refine keeps_bind (keeps_consumeWired hdestructive none turns) fun stop => ?_
  cases stop with
  | none => exact keeps_pure
  | some reason =>
    refine keeps_bind keeps_get fun l => keeps_ite (fun _ => ?_) fun _ => keeps_pure
    refine keeps_bind (keeps_freePerform rfl) fun _ => ?_
    refine keeps_bind keeps_get fun _ => ?_
    exact keeps_bind (keeps_modify fun _ _ hw => hw) fun _ => keeps_consumeWired hdestructive _ turns

theorem keeps_warnRemainWired (reason : StopReason) :
    Keeps Issuing (InTurn row pending) (warnIfMessagesRemain row reason) := by
  have hcount : Keeps Issuing (InTurn row pending) (remainingByCount row reason) := by
    refine keeps_ite (fun _ => keeps_pure) fun _ => ?_
    refine keeps_ite (fun _ => keeps_pure) fun _ => ?_
    refine keeps_ite (fun _ => keeps_pure) fun _ => ?_
    refine keeps_bind (keeps_freeCall rfl) fun info => ?_
    cases info.counts with
    | none => exact keeps_pure
    | some counts => exact keeps_ite (fun _ => keeps_pure) fun _ => keeps_pure
  have htext : Keeps Issuing (InTurn row pending) (remainingText row reason) := by
    refine keeps_ite (fun _ => hcount) fun _ => ?_
    exact keeps_ite (fun _ => keeps_bind keeps_receivableWired fun _ => keeps_ite (fun _ => keeps_pure)
      fun _ => keeps_pure) fun _ => keeps_pure
  refine keeps_bind (keeps_tryCatch htext fun _ => keeps_pure) fun text => ?_
  cases text with
  | none => exact keeps_pure
  | some text => exact keeps_onRunWired fun _ _ => keeps_warn stillFrame_wired _ _

theorem keeps_runUntilStopWired (hdestructive : row.mode.isDestructive = true) (turns : ℕ) :
    Keeps Issuing (InTurn row pending) (runUntilStop row turns) := by
  refine keeps_bind (keeps_consumeAllWired hdestructive turns) fun stop => ?_
  cases stop with
  | none => exact keeps_pure
  | some reason => exact keeps_bind (keeps_warnRemainWired reason) fun _ => keeps_pure

end Loop

/-- How a program that may still be running leaves the connections it opened beside others. -/
def LeftClosed {W α : Type} (row : Row) (pending : List PendingEntity) : Except Exn (Option α) → W → Trace sdk → Prop
  | .ok none, _, h => ∃ clients links, Wired row pending clients links h
  | _, _, h => Wired row pending [] [] h

theorem Wired.leftClosed {W α : Type} {r : Except Exn (Option α)} {w : W} (hw : Wired row pending [] [] h) :
    LeftClosed row pending r w h := by
  rcases r with error | _ | a
  · exact hw
  · exact ⟨[], [], hw⟩
  · exact hw

/-- The receive loop closes what it opened. -/
theorem leftClosed_receiveLoop (hdestructive : row.mode.isDestructive = true) (turns : ℕ) {s : RunState}
    (hw : Wired row pending [] [] h) :
    Wp Issuing (runReceiveLoop row turns) (LeftClosed row pending) s h := by
  have hclose : ∀ (r : Except Exn (Option StopReason)) l h, InTurn row pending l h →
      Wp Issuing (close false) (OnOk (fun _ => LeftClosed row pending r) (LeftClosed (α := StopReason) row pending)) l
        h := by
    refine fun r l h hw => (closes_close false l h hw).mono fun r' l' h' hs => ?_
    cases r' with
    | error e => exact hs.2.2
    | ok _ => exact hs.2.2.leftClosed
  have hloop : ∀ l : LoopState, Shut row pending l h →
      Wp Issuing (ReceiveLoop.run row turns) (LeftClosed row pending) l h := by
    rintro l ⟨hclient, hreceiver, hw⟩
    refine wp_bind.mpr (wp_wiredPerform hw rfl (fun _ => trivial) fun now h₁ hw₁ =>
      wp_bind.mpr (wp_modify.mpr (wp_bind.mpr ?_)))
    have hs : Shut row pending { l with loop :=
      { l.loop with deadline := now + seconds row.config.advanced.maxDurationSeconds } } h₁ :=
      ⟨hclient, hreceiver, hw₁⟩
    refine (Wp.finishing (Q := LeftClosed row pending) (keeps_runUntilStopWired hdestructive turns _ h₁ hs.inTurn)
      (fun l h hw => ⟨_, _, hw⟩) hclose).mono ?_
    rintro (error | _ | reason) l₂ h₂ hend
    · exact hend
    · exact wp_pure.mpr hend
    · exact wp_bind.mpr (wp_embed.mpr (wp_modify.mpr (wp_pure.mpr hend)))
  refine wp_embed.mpr ((hloop _ ⟨rfl, rfl, hw⟩).mono fun r _ h' hend => ?_)
  rcases r with error | _ | a <;> exact hend

/-! ### The peek pager -/

/-- The fields of the pager that keep something open. -/
structure Plugs where
  client : Option Handle
  receiver : Option Handle
  held : List Handle
  session : Option Handle

/-- The open fields of a pager. -/
def PeekPager.plugs (pager : PeekPager) : Plugs := ⟨pager.client, pager.receiver, pager.held, pager.session⟩

/-- The receivers of a pager. -/
def Plugs.links (row : Row) (plugs : Plugs) : List Link := (plugs.receiver.toList ++ plugs.held).map (peekLink row)

/-- The client and the receivers of the pager are open, and nothing else. -/
abbrev InPages (row : Row) (pending : List PendingEntity) : PagerState → Trace sdk → Prop :=
  Holding row pending (fun s => s.pager.plugs.client.toList) fun s => s.pager.plugs.links row

/-- The pager has these, and they are open. -/
def Plugged (row : Row) (pending : List PendingEntity) (plugs : Plugs) (s : PagerState) (h : Trace sdk) : Prop :=
  s.pager.plugs = plugs ∧ InPages row pending s h

section Pages

variable {plugs : Plugs} {receiver : Handle}

theorem Plugged.mem {s : PagerState} (hp : Plugged row pending plugs s h) {link : Link}
    (hlink : link ∈ plugs.links row) :
    link ∈ (wiring h).attached := by
  obtain ⟨rfl, hw⟩ := hp
  exact hw.mem hlink

theorem keeps_onPlugged {α : Type} {p : Run α}
    (hp : ∀ clients links, Keeps Issuing (Beside row pending clients links) p) :
    Keeps Issuing (Plugged row pending plugs) (onPagerRun p) :=
  keeps_embed (fun _ => rfl) fun s r h hs => (hp _ (s.pager.plugs.links row) r h hs.2).mono fun _ _ _ hw => ⟨hs.1, hw⟩

theorem keeps_updatePlugged {change : PeekPager → PeekPager} (hchange : ∀ pager, (change pager).plugs = pager.plugs) :
    Keeps Issuing (Plugged row pending plugs) (updatePager change) := by
  refine keeps_modify fun s h hs => ⟨(hchange s.pager).trans hs.1, ?_⟩
  have hw := hs.2
  rw [InPages, Holding, ← hchange s.pager] at hw
  exact hw

theorem keeps_freePlugged {c : Call} (hc : c.isFree = true) :
    Keeps Issuing (Plugged row pending plugs) (Prog.perform (S := sdk) c : Pager _) :=
  fun _ _ hs => wp_wiredPerform hs.2 (connects_of_free hc) (fun _ => proper_of_free hc) fun _ _ hw => ⟨hs.1, hw⟩

theorem keeps_notePlugged {n : Note} :
    Keeps Issuing (Plugged row pending plugs) (Prog.note (S := sdk) n : Pager Unit) :=
  fun _ _ hs => wp_wiredNote hs.2 fun _ hw => ⟨hs.1, hw⟩

/-- What keeps the open fields, whichever they are, keeps the pager. -/
theorem Keeps.inPages {α : Type} {p : Pager α} (hp : ∀ plugs, Keeps Issuing (Plugged row pending plugs) p) :
    Keeps Issuing (InPages row pending) p :=
  fun s h hw => (hp s.pager.plugs s h ⟨rfl, hw⟩).mono fun _ _ _ hs => hs.2

theorem keeps_setRetriesPlugged (enabled : Bool) : Keeps Issuing (Plugged row pending plugs) (setRetries enabled) :=
  keeps_onPlugged fun _ _ => keeps_modifyWired

theorem keeps_selectPlugged (now : Time) (selected page : List Message) :
    Keeps Issuing (Plugged row pending plugs) (selectPage row now selected page) := by
  induction page generalizing selected with
  | nil => exact keeps_pure
  | cons message rest ih =>
    have hskip : ∀ (change : RunStats → RunStats) (note : Note), Keeps Issuing (Plugged row pending plugs) (do
        onPagerRun (tally change)
        Prog.note (S := sdk) note
        markProcessed message.sequenceNumber
        selectPage row now selected rest) := by
      intro change note
      refine keeps_bind (keeps_onPlugged fun _ _ => keeps_modifyWired) fun _ => ?_
      refine keeps_bind keeps_notePlugged fun _ => ?_
      exact keeps_bind (keeps_updatePlugged fun _ => rfl) fun _ => ih selected
    refine keeps_bind keeps_get fun s => ?_
    refine keeps_ite (fun _ => ih selected) fun _ => ?_
    refine keeps_ite (fun _ => keeps_pure) fun _ => ?_
    refine keeps_ite (fun _ => hskip _ _) fun _ => ?_
    refine keeps_ite (fun _ => hskip _ _) fun _ => ?_
    exact keeps_ite (fun _ => keeps_pure) fun _ => ih _

/-- A peeked batch is not settled, so the receiver does not matter. -/
theorem keeps_exportPlugged (hmode : row.mode = .peek) (page : List Message) :
    Keeps Issuing (Plugged row pending plugs) (exportPage row receiver page) := by
  have hlocks : ∀ clients (links : List Link) messages generation,
      Keeps Issuing (Beside row pending clients links) (process row receiver messages generation) := by
    refine fun clients links messages generation => keeps_processWired (fun hlocks => ?_) messages generation
    rw [hmode] at hlocks
    cases hlocks
  have hpage : ∀ messages, Keeps Issuing (Plugged row pending plugs) (processPage row receiver messages) := by
    intro messages
    refine keeps_bind keeps_get fun s => ?_
    refine keeps_bind (keeps_ensuring (keeps_onPlugged fun _ _ => hlocks _ _ _ _) ?_) fun result => ?_
    · exact keeps_bind keeps_get fun _ => keeps_when (keeps_updatePlugged fun _ => rfl)
    refine keeps_bind (keeps_when (keeps_updatePlugged fun _ => rfl)) fun _ => ?_
    refine keeps_bind (keeps_forM fun _ _ => keeps_when ?_) fun _ => keeps_pure
    exact keeps_bind (keeps_updatePlugged fun _ => rfl) fun _ => keeps_updatePlugged fun _ => rfl
  refine keeps_bind (keeps_freePlugged rfl) fun now => ?_
  refine keeps_bind (keeps_selectPlugged now [] page) fun (selected, stop) => ?_
  refine keeps_bind (keeps_ite (fun _ => keeps_pure) fun _ => hpage selected) fun retried => ?_
  refine keeps_bind (keeps_updatePlugged fun _ => rfl) fun _ => ?_
  refine keeps_bind keeps_get fun _ => ?_
  exact keeps_bind (keeps_when (keeps_onPlugged fun _ _ => keeps_warn stillFrame_wired _ _)) fun _ => keeps_pure

theorem keeps_stopCheckPlugged : Keeps Issuing (Plugged row pending plugs) (pagerStopCheck row) := by
  refine keeps_bind keeps_get fun _ => ?_
  refine keeps_ite (fun _ => keeps_pure) fun _ => ?_
  refine keeps_bind (keeps_freePlugged rfl) fun _ => ?_
  exact keeps_ite (fun _ => keeps_pure) fun _ => keeps_pure

/-- A page is peeked on a receiver of the pager. -/
theorem keeps_peekPlugged {count : ℕ} {start : ℤ} (hlink : peekLink row receiver ∈ plugs.links row) :
    Keeps Issuing (Plugged row pending plugs) (peekMessages receiver count start : Pager (List Message)) :=
  fun _ _ hs => wp_wiredCall hs.2 rfl (fun _ => hs.mem hlink) fun _ _ hw => ⟨hs.1, hw⟩

end Pages

section Pager

variable {plugs : Plugs} {receiver client : Handle} {s : PagerState}

/-- Receivers are closed one after the other. -/
theorem wp_closeAll {clients : List Handle} {links : List Link} {held : List Handle}
    {Q : Except Exn PUnit → PagerState → Trace sdk → Prop}
    (hw : Wired row pending clients (held.map (peekLink row) ++ links) h)
    (hQ : ∀ h', Wired row pending clients links h' → Q (.ok ⟨⟩) s h') :
    Wp Issuing (held.forM closeReceiverQuietly) Q s h := by
  induction held generalizing h with
  | nil => exact wp_pure.mpr (hQ h hw)
  | cons receiver held ih =>
    have hopen : Wired row pending clients (peekLink row receiver :: (held.map (peekLink row) ++ links)) h := hw
    have hclose : Wp Issuing (closeReceiverQuietly receiver)
        (OnOk (fun _ => Wp Issuing (held.forM closeReceiverQuietly) Q) Q) s h :=
      wp_closeReceiverQuietly hopen fun _ hw₁ => ih hw₁
    exact wp_bind.mpr hclose

/-- The session the pager is peeking, with what it has open. -/
def Peeking (row : Row) (pending : List PendingEntity) (session : Option Handle) (s : PagerState) (h : Trace sdk) :
    Prop :=
  s.pager.session = session ∧ InPages row pending s h

/-- The pager has nothing open; which session it was peeking stays. -/
def Unplugged (row : Row) (pending : List PendingEntity) (session : Option Handle) (s : PagerState) (h : Trace sdk) :
    Prop :=
  s.pager.plugs = ⟨none, none, [], session⟩ ∧ Wired row pending [] [] h

theorem Unplugged.inPages {session : Option Handle} (hu : Unplugged row pending session s h) :
    InPages row pending s h := by
  obtain ⟨hplugs, hw⟩ := hu
  rw [InPages, Holding, hplugs]
  exact hw

theorem closes_closePager (session : Option Handle) :
    Closes Issuing (Peeking row pending session) (Unplugged row pending session) closePager := by
  rintro s h ⟨rfl, hw⟩
  have hopen : Wired row pending (s.pager.client.toList ++ [])
      (s.pager.receiver.toList.map (peekLink row) ++ (s.pager.held.map (peekLink row) ++ [])) h := by
    rw [List.append_nil, List.append_nil, ← List.map_append]
    exact hw
  refine wp_bind.mpr (wp_get.mpr (wp_bind.mpr (wp_modify.mpr (wp_bind.mpr ?_))))
  refine wp_whenOpenReceiver (fun _ => rfl) hopen fun h₁ hw₁ => wp_bind.mpr (wp_closeAll hw₁ fun h₂ hw₂ => ?_)
  exact wp_whenOpenClient hw₂ fun h₃ hw₃ => ⟨rfl, hw₃⟩

/-- Only the client of the pager is another one. -/
def Reconnected (plugs : Plugs) (s : PagerState) : Prop := s.pager.plugs = { plugs with client := s.pager.client }

/-- A receiver is opened beside those of the pager. -/
theorem wp_plugReceiver {session : SessionRequest} (hp : Plugged row pending plugs s h) :
    Wp Issuing (openPager row session)
    (Opened (fun s h => Reconnected plugs s ∧ InPages row pending s h) fun receiver s h =>
      Reconnected plugs s ∧ Wired row pending s.pager.client.toList
        (peekLink row receiver :: plugs.links row) h) s h := by
  obtain ⟨rfl, hw⟩ := hp
  have hclient : Wp Issuing (pagerClient row)
      (Opened (fun s' h' => s' = s ∧ InPages row pending s h') fun client s' h' =>
      Reconnected s.pager.plugs s' ∧ s'.pager.client = some client ∧
        Wired row pending s'.pager.client.toList (s.pager.plugs.links row) h') s h := by
    rw [pagerClient, wp_bind, wp_get, onOk_ok]
    cases hclient : s.pager.client with
    | some client => exact wp_pure.mpr ⟨rfl, hclient, hw⟩
    | none =>
      have hopen : Wired row pending s.pager.client.toList (s.pager.plugs.links row) h := hw
      rw [hclient] at hopen
      refine wp_bind.mpr (wp_dataClient hopen
        (fun client h₁ hw₁ => wp_bind.mpr (wp_modify.mpr (wp_pure.mpr ⟨rfl, rfl, hw₁⟩))) ?_)
      refine fun _ h₁ hw₁ => ⟨rfl, ?_⟩
      show Wired row pending s.pager.client.toList _ h₁
      rw [hclient]
      exact hw₁
  refine wp_bind.mpr (hclient.mono ?_)
  rintro (error | client) s₁ h₁ hend
  · obtain ⟨rfl, hw₁⟩ := hend
    exact ⟨rfl, hw₁⟩
  · obtain ⟨hsame, hclient, hw₁⟩ := hend
    have hback : ∀ {h'}, Wired row pending s₁.pager.client.toList (s.pager.plugs.links row) h' →
        InPages row pending s₁ h' := by
      intro h' hw'
      rw [InPages, Holding, hsame]
      exact hw'
    have hin : client ∈ s₁.pager.client.toList := by simp [hclient]
    refine wp_bind.mpr (wp_openReceiver hw₁ hin meant_peek (fun receiver h₂ hw₂ hmade => ?_)
      fun _ _ hw₂ => ⟨hsame, hback hw₂⟩)
    refine wp_bind.mpr (wp_enterReceiver hw₂ hmade (fun h₃ hw₃ => ?_) fun _ _ hw₃ => ⟨hsame, hback hw₃⟩)
    exact wp_pure.mpr ⟨hsame, hw₃⟩

/-- The receiver of the plain pages is open. -/
theorem wp_pagePlug (hw : InPages row pending s h) :
    Wp Issuing (pageReceiver row) (Opened (InPages row pending) fun receiver s h =>
    peekLink row receiver ∈ s.pager.plugs.links row ∧ InPages row pending s h) s h := by
  rw [pageReceiver, wp_bind, wp_get, onOk_ok]
  cases hreceiver : s.pager.receiver with
  | some receiver =>
    refine wp_pure.mpr ⟨List.mem_map_of_mem (List.mem_append_left _ ?_), hw⟩
    show receiver ∈ s.pager.receiver.toList
    rw [hreceiver]
    exact List.mem_singleton_self receiver
  | none =>
    refine wp_bind.mpr ((wp_plugReceiver ⟨rfl, hw⟩).mono ?_)
    rintro (error | receiver) s₁ h₁ ⟨hsame, hw₁⟩
    · exact hw₁
    · refine wp_bind.mpr (wp_modify.mpr (wp_pure.mpr ⟨List.mem_map_of_mem List.mem_cons_self, ?_⟩))
      have hheld : s₁.pager.held = s.pager.held := congrArg Plugs.held hsame
      have hlinks : s.pager.plugs.links row = s₁.pager.held.map (peekLink row) := by
        rw [hheld, Plugs.links, PeekPager.plugs, hreceiver]
        rfl
      rw [hlinks] at hw₁
      exact hw₁

/-- What keeps the pager may start with anything open. -/
theorem Keeps.pages {α : Type} {p : Pager α} (hp : Keeps Issuing (InPages row pending) p) :
    Closes Issuing (Plugged row pending plugs) (InPages row pending) p :=
  fun s h hs => hp s h hs.2

theorem keeps_closePageReceiverWired : Keeps Issuing (InPages row pending) closePageReceiver := by
  intro s h hw
  have hopen : Wired row pending s.pager.client.toList
      (s.pager.receiver.toList.map (peekLink row) ++ s.pager.held.map (peekLink row)) h := by
    rw [← List.map_append]
    exact hw
  refine wp_bind.mpr (wp_get.mpr (wp_bind.mpr (wp_modify.mpr ?_)))
  exact wp_whenOpenReceiver (fun _ => rfl) hopen fun _ hw₁ => hw₁

theorem keeps_updatePages {change : PeekPager → PeekPager} (hchange : ∀ pager, (change pager).plugs = pager.plugs) :
    Keeps Issuing (InPages row pending) (updatePager change) := Keeps.inPages fun _ => keeps_updatePlugged hchange

theorem keeps_recoverPeeking (session : Option Handle) (error : Exn) :
    Keeps Issuing (Peeking row pending session) (recoverPager row error) := by
  intro s h hw
  have hrest : ∀ plugs, Keeps Issuing (Plugged row pending plugs) (do
      let s ← get
      let tracker ← Prog.ofExcept (s.pager.tracker.failure row error)
      updatePager fun pager => { pager with tracker := tracker }
      onPagerRun (tally fun stats => { stats with recoveries := tracker.count })
      logRecovery row error tracker) := by
    intro plugs
    refine keeps_bind keeps_get fun _ => ?_
    refine keeps_bind keeps_ofExcept fun _ => ?_
    refine keeps_bind (keeps_updatePlugged fun _ => rfl) fun _ => ?_
    refine keeps_bind (keeps_onPlugged fun _ _ => keeps_modifyWired) fun _ => ?_
    exact keeps_bind keeps_notePlugged fun _ => keeps_notePlugged
  refine wp_bind.mpr ((closes_closePager _ s h hw).mono fun r s₁ h₁ hu => ?_)
  have hkept : s₁.pager.session = session := congrArg Plugs.session hu.1
  cases r with
  | error e => exact ⟨hkept, hu.inPages⟩
  | ok _ =>
    refine (hrest s₁.pager.plugs s₁ h₁ ⟨rfl, hu.inPages⟩).mono fun _ s₂ h₂ hs => ⟨?_, hs.2⟩
    exact (congrArg Plugs.session hs.1).trans hkept

theorem keeps_recoverPages (error : Exn) : Keeps Issuing (InPages row pending) (recoverPager row error) :=
  fun s h hw => (keeps_recoverPeeking s.pager.session error s h ⟨rfl, hw⟩).mono fun _ _ _ hs => hs.2

theorem keeps_revealsPlugged (page : List Message) :
    Keeps Issuing (Plugged row pending plugs) (revealsPartitions page) := by
  refine keeps_bind keeps_get fun _ => ?_
  refine keeps_ite (fun _ => keeps_pure) fun _ => ?_
  refine keeps_bind (keeps_onPlugged fun _ _ => keeps_modifyWired) fun _ => ?_
  exact keeps_bind keeps_get fun _ => keeps_pure

theorem keeps_onPartitionsWired (incremental : Bool) :
    Keeps Issuing (InPages row pending) (onPartitions incremental) := by
  refine keeps_ite (fun _ => keeps_throw) fun _ => ?_
  refine keeps_bind (keeps_updatePages fun _ => rfl) fun _ => ?_
  refine keeps_bind (Keeps.inPages fun _ => keeps_setRetriesPlugged false) fun _ => ?_
  exact keeps_bind keeps_closePageReceiverWired fun _ => keeps_pure

/-- A page that asks for a retry closes the connection. -/
theorem keeps_afterPageWired (incremental : Bool) (page : List Message) (result : Option StopReason × List ℤ) :
    Keeps Issuing (InPages row pending) (afterPage incremental page result) := by
  have hclose : Keeps Issuing (InPages row pending) closePager :=
    fun s h hw => (closes_closePager _ s h ⟨rfl, hw⟩).mono fun _ _ _ hu => hu.inPages
  refine keeps_ite (fun _ => keeps_bind ?_ fun _ => keeps_pure) fun _ => ?_
  · refine keeps_bind hclose fun _ => ?_
    refine keeps_bind (keeps_updatePages fun _ => rfl) fun _ => ?_
    refine keeps_bind (Keeps.inPages fun _ => keeps_onPlugged fun _ _ => keeps_modifyWired) fun _ => ?_
    exact keeps_bind (Keeps.inPages fun _ => keeps_notePlugged) fun _ => keeps_updatePages fun _ => rfl
  · cases result.1 with
    | some stop => exact keeps_pure
    | none => exact keeps_bind (keeps_updatePages fun _ => rfl) fun _ => keeps_pure

/-- One pass of the page loop. -/
theorem keeps_pageStepWired (hmode : row.mode = .peek) (incremental : Bool) :
    Keeps Issuing (InPages row pending) (pageStep row incremental) := by
  refine keeps_bind (Keeps.inPages fun _ => keeps_stopCheckPlugged) fun stop => ?_
  cases stop with
  | some stop => exact keeps_pure
  | none =>
    refine fun s h hw => wp_bind.mpr ((wp_pagePlug hw).mono ?_)
    rintro (error | receiver) s₁ h₁ hend
    · exact hend
    · obtain ⟨hlink, hw₁⟩ := hend
      have hraise : ∀ s h, Plugged row pending s₁.pager.plugs s h → InPages row pending s h := fun _ _ hs => hs.2
      refine Keeps.before_close keeps_get
        (fun s => Keeps.before_close (keeps_peekPlugged hlink) (fun page => ?_) hraise) hraise
        s₁ h₁ ⟨rfl, hw₁⟩
      split
      · exact Keeps.pages keeps_pure
      · refine Keeps.before_close (keeps_revealsPlugged page) (fun reveals => ?_) hraise
        split
        · exact Keeps.pages (keeps_onPartitionsWired incremental)
        · exact Keeps.before_close (keeps_exportPlugged hmode page)
            (fun result => Keeps.pages (keeps_afterPageWired incremental page result)) hraise

theorem keeps_runPagesWired (hmode : row.mode = .peek) (start : ℤ) (incremental : Bool) (turns : ℕ) :
    Keeps Issuing (InPages row pending) (runPages row start incremental turns) := by
  refine keeps_bind keeps_get fun s => ?_
  refine keeps_bind (keeps_updatePages fun _ => rfl) fun _ => ?_
  refine keeps_bind (keeps_when (Keeps.inPages fun _ => keeps_setRetriesPlugged false)) fun _ => ?_
  refine keeps_iterate (keeps_tryCatch (keeps_pageStepWired hmode incremental)
    fun error => keeps_ite (fun _ => keeps_throw) fun _ => ?_) turns
  exact keeps_bind (keeps_recoverPages error) fun _ => keeps_pure

/-- A peek run takes messages as it peeks them. -/
theorem rowLink_peek (hmode : row.mode = .peek) (receiver : Handle) : rowLink row receiver = peekLink row receiver := by
  rw [rowLink, hmode]
  rfl

/-- Between two calls of the session loop, the session being peeked is one of the held ones. -/
def InSessions (row : Row) (pending : List PendingEntity) (s : PagerState) (h : Trace sdk) : Prop :=
  InPages row pending s h ∧ ∀ receiver, s.pager.session = some receiver → receiver ∈ s.pager.held

theorem Plugged.inSessions (hs : Plugged row pending plugs s h)
    (hheld : ∀ receiver, plugs.session = some receiver → receiver ∈ plugs.held) :
    InSessions row pending s h := by
  obtain ⟨rfl, hw⟩ := hs
  exact ⟨hw, hheld⟩

/-- What keeps the open fields keeps the sessions. -/
theorem Keeps.inSessions {α : Type} {p : Pager α} (hp : ∀ plugs, Keeps Issuing (Plugged row pending plugs) p) :
    Keeps Issuing (InSessions row pending) p :=
  fun s h hs => (hp s.pager.plugs s h ⟨rfl, hs.1⟩).mono fun _ _ _ hs' => hs'.inSessions hs.2

/-- A session is opened and held. -/
theorem closes_openSession (hmode : row.mode = .peek) (hsessions : row.sessions = true) :
    Closes Issuing (Peeking row pending none) (InSessions row pending) (openPagerSession row) := by
  rintro s h ⟨hnone, hw⟩
  have hsession : ∀ {s' : PagerState}, Reconnected s.pager.plugs s' → s'.pager.session = none :=
    fun hsame => (congrArg Plugs.session hsame).trans hnone
  have hidle : ∀ {s' : PagerState} {h'}, s'.pager.session = none → InPages row pending s' h' →
      InSessions row pending s' h' :=
    fun hnone hw => ⟨hw, fun receiver hsome => nomatch hnone.symm.trans hsome⟩
  have hnext : Wp Issuing (nextSession row)
      (Opened (InSessions row pending) fun found => found.elim (InSessions row pending)
      fun receiver s' h' => s'.pager.session = none ∧
        Wired row pending s'.pager.client.toList (peekLink row receiver :: s'.pager.plugs.links row) h') s h := by
    refine wp_tryCatch.mpr (wp_bind.mpr ((wp_plugReceiver ⟨rfl, hw⟩).mono ?_))
    rintro (error | receiver) s₁ h₁ ⟨hsame, hw₁⟩
    · exact wp_ite.mpr ⟨fun _ => wp_pure.mpr (hidle (hsession hsame) hw₁),
        fun _ => wp_throw.mpr (hidle (hsession hsame) hw₁)⟩
    · refine wp_pure.mpr ⟨hsession hsame, ?_⟩
      rw [hsame]
      exact hw₁
  refine wp_bind.mpr (hnext.mono ?_)
  rintro (error | _ | receiver) s₁ h₁ hend
  · exact hend
  · exact wp_pure.mpr hend
  · obtain ⟨hnone₁, hw₁⟩ := hend
    have hperm : (peekLink row receiver :: s₁.pager.plugs.links row).Perm
        ((s₁.pager.receiver.toList ++ (s₁.pager.held ++ [receiver])).map (peekLink row)) := by
      rw [← List.append_assoc, List.map_append]
      exact (List.perm_append_singleton _ _).symm
    have hheld : InPages row pending { s₁ with pager := { s₁.pager with held := s₁.pager.held ++ [receiver] } } h₁ :=
      hw₁.permute (.refl _) hperm
    have hlink : peekLink row receiver ∈ (s₁.pager.receiver.toList ++ (s₁.pager.held ++ [receiver])).map
        (peekLink row) :=
      hperm.mem_iff.mp List.mem_cons_self
    have hin : rowLink row receiver ∈ (wiring h₁).attached := (rowLink_peek hmode receiver).symm ▸ hheld.mem hlink
    refine wp_bind.mpr (wp_modify.mpr
      (wp_bind.mpr (wp_wiredPerform hheld rfl (fun _ => ⟨hsessions, hin⟩) fun id h₂ hw₂ => ?_)))
    refine wp_bind.mpr (wp_get.mpr (wp_bind.mpr (wp_wiredNote hw₂ fun h₃ hw₃ => wp_ite.mpr ⟨fun _ => ?_, fun _ => ?_⟩)))
    · exact wp_pure.mpr (hidle hnone₁ hw₃)
    · have hown : ∀ other, some receiver = some other → other ∈ s₁.pager.held ++ [receiver] := by
        rintro other ⟨rfl⟩
        exact List.mem_append_right _ (List.mem_singleton_self receiver)
      exact wp_bind.mpr (wp_modify.mpr (wp_pure.mpr ⟨hw₃, hown⟩))

theorem Peeking.inSessions (hp : Peeking row pending none s h) : InSessions row pending s h :=
  ⟨hp.2, fun _ hsome => nomatch hp.1.symm.trans hsome⟩

/-- The session is peeked no longer. -/
theorem InPages.leave (hw : InPages row pending s h) :
    Peeking row pending none { s with pager := { s.pager with session := none } } h :=
  ⟨rfl, hw⟩

/-- What a page of a session does to the session. -/
theorem closes_sessionPage (hmode : row.mode = .peek)
    (hheld : ∀ receiver, plugs.session = some receiver → receiver ∈ plugs.held) (page : List Message) :
    Closes Issuing (Plugged row pending plugs) (InSessions row pending) (do
      let result ← exportPage row receiver page
      match result.1 with
      | some .watermark => do
        updatePager fun pager => { pager with session := none }
        pure none
      | some stop => pure (some stop)
      | none => do
        updatePager fun pager => { pager with nextSeq := lastSequenceNumber page + 1 }
        pure none) := by
  have hkept : ∀ s h, Plugged row pending plugs s h → InSessions row pending s h := fun _ _ hs => hs.inSessions hheld
  have hnext : Keeps Issuing (Plugged row pending plugs)
      (updatePager fun pager => { pager with nextSeq := lastSequenceNumber page + 1 }) :=
    keeps_updatePlugged fun _ => rfl
  refine Keeps.before_close (keeps_exportPlugged hmode page) (fun result => ?_) hkept
  split
  · exact fun s h hs => wp_bind.mpr (wp_modify.mpr (wp_pure.mpr (InPages.leave hs.2).inSessions))
  · exact fun s h hs => wp_pure.mpr (hkept s h hs)
  · exact Keeps.before_close hnext (fun _ s h hs => wp_pure.mpr (hkept s h hs)) hkept

/-- A page of the open session. -/
theorem closes_peekSession (hmode : row.mode = .peek) (hsessions : row.sessions = true) :
    Closes Issuing (fun s h => s.pager.session = some receiver ∧ InSessions row pending s h) (InSessions row pending)
      (peekSessionPage row receiver) := by
  rintro s h ⟨hsession, hw, hheld⟩
  have hin : peekLink row receiver ∈ s.pager.plugs.links row :=
    List.mem_map_of_mem (List.mem_append_right _ (hheld receiver hsession))
  have hkept : ∀ s' h', Plugged row pending s.pager.plugs s' h' → InSessions row pending s' h' :=
    fun _ _ hs => hs.inSessions hheld
  have hclock : Keeps Issuing (Plugged row pending s.pager.plugs) (utcNow : Pager Time) := keeps_freePlugged rfl
  have hrenew : ∀ now, Keeps Issuing (Plugged row pending s.pager.plugs) (renewSessionIfNeeded receiver now) := by
    rintro now s' h' ⟨hsame, hw'⟩
    refine wp_wiredRenewal hw' hsessions ?_ fun _ _ hw'' => ⟨hsame, hw''⟩
    show rowLink row receiver ∈ s'.pager.plugs.links row
    rw [rowLink_peek hmode, hsame]
    exact hin
  have hstep : Closes Issuing (Plugged row pending s.pager.plugs) (InSessions row pending)
      (peekSessionPage row receiver) := by
    refine Keeps.before_close hclock (fun now => Keeps.before_close (hrenew now) (fun _ => ?_) hkept) hkept
    refine Keeps.before_close keeps_get
      (fun _ => Keeps.before_close (keeps_peekPlugged hin) (fun page => ?_) hkept) hkept
    split
    · exact fun s' h' hs => wp_bind.mpr (wp_modify.mpr (wp_pure.mpr (InPages.leave hs.2).inSessions))
    · exact closes_sessionPage hmode hheld page
  exact hstep s h ⟨rfl, hw⟩

/-- One turn of the session loops. -/
theorem keeps_sessionTurnWired (hmode : row.mode = .peek) (hsessions : row.sessions = true) :
    Keeps Issuing (InSessions row pending) (sessionTurn row) := by
  have hstep : Keeps Issuing (InSessions row pending) (sessionStep row) := by
    refine keeps_bind (Keeps.inSessions fun _ => keeps_stopCheckPlugged) fun stop => ?_
    cases stop with
    | some stop => exact keeps_pure
    | none =>
      intro s h hs
      rw [wp_bind, wp_get, onOk_ok]
      cases hsession : s.pager.session with
      | none => exact closes_openSession hmode hsessions s h ⟨hsession, hs.1⟩
      | some receiver => exact closes_peekSession hmode hsessions s h ⟨hsession, hs⟩
  have hafter : ∀ error, Keeps Issuing (InSessions row pending) (afterSessionFailure row error) := by
    intro error s h hs
    have hrest : Keeps Issuing (Peeking row pending none) (Prog.when (error.isKind .sessionCannotBeLocked = false) (do
        recoverPager row error
        updatePager fun pager => { pager with seen := [] })) :=
      keeps_when (keeps_bind (keeps_recoverPeeking none error) fun _ => keeps_modify fun _ _ hw => hw)
    exact wp_bind.mpr (wp_modify.mpr ((hrest _ h (InPages.leave hs.1)).mono fun _ _ _ hw => hw.inSessions))
  refine keeps_tryCatch hstep fun error => ?_
  refine keeps_ite (fun _ => keeps_throw) fun _ => ?_
  exact keeps_bind (hafter error) fun _ => keeps_pure

theorem keeps_runSessionsWired (hmode : row.mode = .peek) (hsessions : row.sessions = true) (turns : ℕ) :
    Keeps Issuing (InSessions row pending) (runSessions row turns) := by
  refine keeps_bind (Keeps.inSessions fun _ => keeps_setRetriesPlugged false) fun _ => ?_
  refine keeps_bind (Keeps.inSessions fun _ => keeps_onPlugged fun _ _ => keeps_warn stillFrame_wired _ _) fun _ => ?_
  exact keeps_iterate (keeps_sessionTurnWired hmode hsessions) turns

/-- The peek pager closes what it opened. -/
theorem leftClosed_peekPager (hmode : row.mode = .peek) (turns : ℕ) {s : RunState} (hw : Wired row pending [] [] h) :
    Wp Issuing (runPeekPager row turns) (LeftClosed row pending) s h := by
  have hclose : ∀ enabled (r : Except Exn (Option StopReason)) s h, InPages row pending s h →
      Wp Issuing (endPager enabled)
        (OnOk (fun _ => LeftClosed row pending r) (LeftClosed (α := StopReason) row pending)) s h := by
    intro enabled r s h hw
    rw [endPager, wp_bind, setRetries, onPagerRun, wp_embed, updateUnreadable, wp_modify, onOk_ok]
    refine Wp.mono (closes_closePager s.pager.session _ h ⟨rfl, hw⟩) ?_
    rintro (error | _) s' h' ⟨-, hw'⟩
    · exact hw'
    · exact hw'.leftClosed
  have hloop : ∀ start incremental, Closes Issuing (Unplugged row pending none) (InPages row pending)
      (pagerLoop row start incremental turns) := by
    intro start incremental s h hu
    refine wp_ite.mpr ⟨fun hsessions => ?_, fun _ => keeps_runPagesWired hmode start incremental turns s h hu.inPages⟩
    have hidle : InSessions row pending s h := Peeking.inSessions ⟨congrArg Plugs.session hu.1, hu.inPages⟩
    exact (keeps_runSessionsWired hmode hsessions turns s h hidle).mono fun _ _ _ hs => hs.1
  have hrun : ∀ s : PagerState, Unplugged row pending none s h →
      Wp Issuing (PeekPager.run row turns) (LeftClosed row pending) s h := by
    rintro s ⟨hplugs, hw⟩
    refine wp_bind.mpr (wp_get.mpr (wp_ite.mpr ⟨fun _ => wp_throw.mpr hw, fun _ => ?_⟩))
    refine wp_bind.mpr (wp_wiredPerform hw rfl (fun _ => trivial) fun now h₁ hw₁ =>
      wp_bind.mpr (wp_modify.mpr (wp_bind.mpr ?_)))
    have hu : Unplugged row pending none { s with pager :=
      { s.pager with deadline := now + seconds row.config.advanced.maxDurationSeconds } } h₁ :=
      ⟨hplugs, hw₁⟩
    refine (Wp.finishing (Q := LeftClosed row pending) (hloop _ _ _ h₁ hu) (fun _ _ hw => ⟨_, _, hw⟩) (hclose _)).mono
      ?_
    rintro (error | _ | reason) s₂ h₂ hend
    · exact hend
    · exact wp_pure.mpr hend
    · exact wp_bind.mpr (wp_embed.mpr (wp_modify.mpr (wp_bind.mpr (wp_get.mpr (wp_pure.mpr hend)))))
  refine wp_embed.mpr ((hrun _ ⟨rfl, hw⟩).mono fun r _ h' hend => ?_)
  rcases r with error | _ | a <;> exact hend

end Pager

/-! ### The run -/

section Run

variable {s : RunState}

/-- A run that has not committed what is pending. -/
def Started (row : Row) (pending : List PendingEntity) (s : RunState) (h : Trace sdk) : Prop :=
  s.state.pendingCommit = pending ∧ Beside row pending [] [] s h

theorem keeps_modifyStarted {change : RunState → RunState} (hstate : ∀ s, (change s).state = s.state) :
    Keeps Issuing (Started row pending) (modify change : Run Unit) := by
  refine keeps_modify fun s h hs => ⟨?_, hs.2⟩
  rw [hstate]
  exact hs.1

theorem keeps_freeStarted {α : Type} {c : Call} {result : Reply c → Except Exn α} (hc : c.isFree = true) :
    Keeps Issuing (Started row pending) (Prog.request (S := sdk) c result : Run α) :=
  fun _ _ hs => wp_wiredCall hs.2 (connects_of_free hc) (fun _ => proper_of_free hc) fun _ _ hw => ⟨hs.1, hw⟩

theorem keeps_openOutputStarted : Keeps Issuing (Started row pending) (openOutput row) := by
  refine keeps_bind keeps_get fun s => ?_
  refine keeps_bind keeps_ofExcept fun columns => ?_
  refine keeps_bind (keeps_modifyStarted fun _ => rfl) fun _ => ?_
  refine keeps_bind (keeps_modifyStarted fun _ => rfl) fun _ => ?_
  refine keeps_bind (keeps_freeStarted rfl) fun _ => ?_
  refine keeps_bind (keeps_freeStarted rfl) fun _ => ?_
  exact keeps_bind (keeps_modifyStarted fun _ => rfl) fun _ => keeps_freeStarted rfl

theorem stillFrame_started : StillFrame Issuing (Started row pending) where
  stats _ _ hs := hs
  still e s h h' he hR hs := ⟨hs.1, stillFrame_wired.still e s h h' he hR hs.2⟩

theorem keeps_startRunStarted : Keeps Issuing (Started row pending) (startRun row) := by
  have hclock : Keeps Issuing (Started row pending) (utcNow : Run Time) :=
    keeps_stillPerform stillFrame_started.still fun _ => trivial
  refine keeps_bind hclock fun t0 => ?_
  refine keeps_bind (keeps_freeStarted rfl) fun info => ?_
  refine keeps_bind (keeps_modifyStarted fun _ => rfl) fun _ => ?_
  refine keeps_bind keeps_ofExcept fun _ => ?_
  refine keeps_bind (keeps_when (keeps_warn stillFrame_started _ _)) fun _ => ?_
  exact keeps_when (keeps_modifyStarted fun _ => rfl)

theorem keeps_closeOutputWired : Keeps Issuing (Beside row pending clients links) closeOutput := by
  refine keeps_bind keeps_get fun _ => ?_
  exact keeps_when (keeps_bind (keeps_freeCall rfl) fun _ => keeps_modifyWired)

theorem keeps_finishWired : Keeps Issuing (Beside row pending clients links) (finish row) := by
  refine keeps_bind (keeps_projectedState stillFrame_wired row) fun _ => ?_
  refine keeps_bind (keeps_freeCall rfl) fun _ => ?_
  refine keeps_bind (keeps_freePerform rfl) fun _ => ?_
  refine keeps_bind keeps_modifyWired fun _ => ?_
  refine keeps_bind keeps_get fun _ => ?_
  exact keeps_when (keeps_warn stillFrame_wired _ _)

/-- A run inside the open table leaves nothing open besides it. -/
theorem leftClosed_extract (turns : ℕ) (hpending : s.state.pendingCommit = pending) (hw : Wired row pending [] [] h) :
    Wp Issuing (extract row turns) (LeftClosed row pending) s h := by
  have hwarn : ∀ key text, Keeps Issuing (Beside row pending [] []) (warn key text) :=
    fun _ _ => keeps_warn stillFrame_wired _ _
  have herror : ∀ (e : Exn) (s : RunState) h, Beside row pending [] [] s h → LeftClosed
      (α := Unit) row pending (.error e) s h := fun _ _ _ hw => hw
  refine wp_ite.mpr ⟨fun hdestructive => ?_, fun hpeek => ?_⟩
  · have hcommit : Wp Issuing (commitPending row) (fun _ => Beside row pending [] []) s h := by
      rw [commitPending, wp_bind, wp_get, onOk_ok, hpending]
      exact keeps_bind (keeps_commitWired hdestructive) (fun _ => keeps_modifyWired) s h hw
    have hscan : Keeps Issuing (Beside row pending [] []) (reconcileDeferrals row) :=
      keeps_ite (fun hmode => keeps_scanWired hmode) fun _ => keeps_probeWired
    refine wp_bind.mpr (hcommit.mono ?_)
    rintro (error | _) s₁ h₁ hw₁
    · exact herror error s₁ h₁ hw₁
    refine hscan.wp_bind hw₁ (fun _ s₂ h₂ hw₂ => wp_bind.mpr ?_) herror
    refine (keeps_when (hwarn _ _)).wp_bind hw₂ (fun _ s₃ h₃ hw₃ => ?_) fun _ _ _ hw₃ => hw₃
    refine (keeps_when (hwarn _ _)).wp_bind hw₃ (fun _ s₄ h₄ hw₄ => ?_) fun _ _ _ hw₄ => hw₄
    refine (leftClosed_receiveLoop hdestructive turns hw₄).mono ?_
    rintro (error | _ | reason) s₅ h₅ hend
    · exact hend
    · exact wp_pure.mpr hend
    · exact wp_pure.mpr hend
  · have hmode : row.mode = .peek := by
      cases hmode : row.mode with
      | peek => rfl
      | _ =>
        rw [hmode] at hpeek
        exact (hpeek rfl).elim
    refine wp_bind.mpr (wp_get.mpr ((keeps_when (hwarn _ _)).wp_bind hw (fun _ s₁ h₁ hw₁ => wp_bind.mpr ?_) herror))
    refine (leftClosed_peekPager hmode turns hw₁).mono ?_
    rintro (error | _ | cursor) s₂ h₂ hend
    · exact hend
    · exact wp_pure.mpr hend
    · exact wp_bind.mpr (wp_modify.mpr (wp_pure.mpr hend))

theorem leftClosed_run (turns : ℕ) (hpending : s.state.pendingCommit = pending) (hw : Wired row pending [] [] h) :
    Wp Issuing (Component.run row turns) (LeftClosed row pending) s h := by
  have herror : ∀ (e : Exn) (s : RunState) h, Beside row pending [] [] s h → LeftClosed
      (α := Unit) row pending (.error e) s h := fun _ _ _ hw => hw
  have houtput : ∀ (s : RunState) h, Started row pending s h →
      Wp Issuing (withOutput row (extract row turns)) (LeftClosed row pending) s h := by
    refine fun s h hs => keeps_openOutputStarted.wp_bind hs (fun _ s₁ h₁ hs₁ => ?_) fun e s₁ h₁ hs₁ =>
      herror e s₁ h₁ hs₁.2
    refine wp_bind.mpr (wp_attempt.mpr ((leftClosed_extract turns hs₁.1 hs₁.2).mono ?_))
    rintro (error | _ | _) s₂ h₂ hend
    · have hclosed : Beside row pending [] [] s₂ h₂ := hend
      exact (keeps_tryCatch keeps_closeOutputWired fun _ => keeps_pure).wp_bind hclosed
        (fun _ _ _ hw₃ => wp_throw.mpr hw₃) herror
    · exact wp_pure.mpr hend
    · have hclosed : Beside row pending [] [] s₂ h₂ := hend
      exact keeps_closeOutputWired.wp_bind hclosed (fun _ _ _ hw₃ => wp_pure.mpr hw₃) herror
  have hstart : Started row pending s h := ⟨hpending, hw⟩
  refine keeps_startRunStarted.wp_bind hstart (fun _ s₁ h₁ hs₁ => wp_bind.mpr ((houtput s₁ h₁ hs₁).mono ?_))
    fun e s₁ h₁ hs₁ => herror e s₁ h₁ hs₁.2
  rintro (error | _ | _) s₂ h₂ hend
  · exact hend
  · exact wp_pure.mpr hend
  · have hclosed : Beside row pending [] [] s₂ h₂ := hend
    exact keeps_finishWired.wp_bind hclosed (fun _ _ _ hw₃ => wp_pure.mpr hw₃) herror

end Run

/-- In every run whose handles are new, each call suits the mode of the row and uses what is open then, of the row's
entity or, where it deletes what is deferred, of a stored one; and a run that has ended, with whatever result,
leaves no client and no receiver open. -/
theorem connections_closed {row : Row} {turns : ℕ} {s s' : RunState} {es : Trace sdk} {r : Except Exn (Option Unit)}
    (hrun : Prog.Exec (Component.run row turns) s es r s') (hnew : Always NewHandle es) :
    Always (fun before e => Proper row s.state.pendingCommit (wiring before) e) es ∧
      (r ≠ .ok none → (wiring es).clients = [] ∧ (wiring es).attached = []) := by
  have hstart : Wired row s.state.pendingCommit [] [] [] :=
    ⟨.refl _, .refl _, ⟨List.nodup_nil, List.nodup_nil⟩, always_nil⟩
  have hpath : Path Issuing es [] ([] ++ es) := path_checked (by simpa using hnew)
  have hend := leftClosed_run turns rfl hstart es r s' _ hrun hpath
  rw [List.nil_append] at hend
  rcases r with error | _ | _
  · exact ⟨Wired.proper hend, fun _ => ⟨(Wired.allClients hend).eq_nil, (Wired.allLinks hend).eq_nil⟩⟩
  · obtain ⟨clients, links, hw⟩ := hend
    exact ⟨hw.proper, fun hended => (hended rfl).elim⟩
  · exact ⟨Wired.proper hend, fun _ => ⟨(Wired.allClients hend).eq_nil, (Wired.allLinks hend).eq_nil⟩⟩

/-- Two messages of another queue are to be deleted. -/
def owing : ExtractorState where
  pendingCommit := [{
    entity := { entityType := .queue, queueName := some "old" }
    groups := [{ ranges := [(1, 2)] }] }]

/-- A message is received on the second connection, after the first one failed. -/
def reconnected : Script :=
  { receives := [.error (.serviceBus { kind := .connection }), .ok [{ sequenceNumber := 1 }]] }

/-- A receiver of the stored queue, and four on the clients of the probe and of the two connections: nothing stays
open. -/
theorem connections_closed_reconnected :
    let es := scripted (Component.run completeRow 8) (.start owing) reconnected
    scriptedResult (Component.run completeRow 8) (.start owing) reconnected = .ok (some ()) ∧
      (wiring es).made.map (fun link => link.entity.path) = ["q", "q", "q", "q", "old"] ∧
      (wiring es).clients = [] ∧ (wiring es).attached = [] := by
  have hresult : scriptedResult (Component.run completeRow 8) (.start owing) reconnected = .ok (some ()) :=
    by decide +kernel
  have hnew : Always NewHandle (scripted (Component.run completeRow 8) (.start owing) reconnected) := by decide +kernel
  have hmade : (wiring (scripted (Component.run completeRow 8) (.start owing) reconnected)).made.map
      (fun link => link.entity.path) = ["q", "q", "q", "q", "old"] := by decide +kernel
  have hclosed := (connections_closed (exec_of_scriptedResult reconnected hresult) hnew).2
  exact ⟨hresult, hmade, hclosed (by rintro ⟨⟩)⟩

end ServiceBusExtractor
