import ServiceBusExtractor.Component

/-!
# What the quiet parts of a run leave alone

Most of a run opens and closes receivers, reads clocks, peeks and counts. These
parts take no message, settle none and write no row, and they change nothing but
counters and the fields of the connection. An invariant that such changes leave
alone goes through all of them.

## The model

* `Quiet e` — the event takes, settles and writes nothing.
* `Frame R I` — `I` does not depend on the counters, on the entity's metadata or
  on quiet events.
* `LoopFrame R K` — nor does `K` on the loop's connection; `InLoop I` — an invariant
  of the run, and of the loop's own armed flag, as an invariant of the loop.

## What is proved

One `keeps_` lemma for each quiet function, and `keeps_receiveLoop`: an invariant
with a frame is one of the whole loop once receiving, processing and abandoning
keep it.
-/

namespace ServiceBusExtractor

open Interaction

/-- The call takes, settles and writes nothing. -/
def Call.isQuiet : Call → Bool
  | .receiveMessages .. | .receiveDeferredMessages .. | .completeMessage .. | .deferMessage .. | .abandonMessage ..
  | .deadLetterMessage .. | .renewMessageLock .. | .writeManifest _ | .createCsv | .writeHeader _
  | .writeRows _ | .closeCsv | .writeStateFile _ => false
  | _ => true

/-- The note says that the connection is opened again. -/
def Note.reopens : Note → Bool
  | .recovery | .recycle => true
  | _ => false

/-- The note is neither about a message nor about the connection. -/
def Note.isQuiet : Note → Bool
  | .unreadable .. | .expired _ | .pendingActivation _ => false
  | note => !note.reopens

def Quiet : Event sdk → Prop
  | .call c _ => c.isQuiet = true
  | .note n => n.isQuiet = true

/-- A quiet event without the service: reading a clock, waiting, logging. -/
def Still : Event sdk → Prop
  | .call .utcNow _ | .call .monotonic _ | .call (.sleep _) _ => True
  | .call _ _ => False
  | .note n => n.isQuiet = true

theorem quiet_of_still {e : Event sdk} (he : Still e) : Quiet e := by
  rcases e with ⟨c, r⟩ | n
  · cases c <;> first | rfl | exact he.elim
  · exact he

/-- A history without limits. -/
abbrev Recorded : Event sdk → Trace sdk → Trace sdk → Prop := Logged fun _ => True

variable {B W : Type} {R : Event sdk → B → B → Prop}

/-- Quiet events keep `I`. -/
def QuietKeeps (R : Event sdk → B → B → Prop) (I : W → B → Prop) : Prop :=
  ∀ e w b b', Quiet e → R e b b' → I w b → I w b'

/-- Still events keep `I`. -/
def StillKeeps (R : Event sdk → B → B → Prop) (I : W → B → Prop) : Prop :=
  ∀ e w b b', Still e → R e b b' → I w b → I w b'

theorem QuietKeeps.still {I : W → B → Prop} (hq : QuietKeeps R I) : StillKeeps R I :=
  fun e w b b' he => hq e w b b' (quiet_of_still he)

/-- What the program itself reads of its counters while it runs: the guarded orphans, the rows written and the
fresh connections for unreadable bodies. -/
def RunStats.SameMarks (stats stats' : RunStats) : Prop :=
  stats'.orphansGuarded = stats.orphansGuarded ∧ stats'.written = stats.written ∧
    stats'.unreadableRecycles = stats.unreadableRecycles

/-- `I` does not depend on the counters that are no marks, or on still events. -/
structure StillFrame (R : Event sdk → B → B → Prop) (I : RunState → B → Prop) : Prop where
  stats : ∀ {s b} stats, s.stats.SameMarks stats → I s b → I { s with stats := stats } b
  still : StillKeeps R I

/-- `I` does not depend on the counters, on the entity's metadata or on quiet events. -/
structure Frame (R : Event sdk → B → B → Prop) (I : RunState → B → Prop) : Prop extends StillFrame R I where
  guarded : ∀ {s b} guarded, I s b → I { s with stats := { s.stats with orphansGuarded := guarded } } b := by
    first | exact fun _ h => h | exact fun _ h => { h with }
  info : ∀ {s b} info, I s b → I { s with info := info } b
  quiet : QuietKeeps R I
  still := quiet.still

/-- `I` does not depend on how often the connection was opened again. -/
structure ReopenFrame (R : Event sdk → B → B → Prop) (I : RunState → B → Prop) : Prop where
  recycled : ∀ {s b} recycles, I s b → I { s with stats := { s.stats with unreadableRecycles := recycles } } b := by
    first | exact fun _ h => h | exact fun _ h => { h with }
  reopened : ∀ n s b b', n.reopens = true → R (.note n) b b' → I s b → I s b'

/-! ### Quiet calls -/

section Calls

variable {I : W → B → Prop}

theorem keeps_quietCall {c : Call} {α : Type} {result : Reply c → Except Exn α} (hq : QuietKeeps R I)
    (hc : c.isQuiet = true) : Keeps R I (Prog.request (S := sdk) c result) :=
  keeps_request fun a w b b' hR => hq (.call c a) w b b' hc hR

theorem keeps_quietPerform {c : Call} (hq : QuietKeeps R I) (hc : c.isQuiet = true) :
    Keeps R I (Prog.perform (S := sdk) c : Program W _) :=
  keeps_perform fun a w b b' hR => hq (.call c a) w b b' hc hR

theorem keeps_quietNote {n : Note} (hq : QuietKeeps R I) (hn : n.isQuiet = true) :
    Keeps R I (Prog.note (S := sdk) n : Program W Unit) :=
  keeps_note fun w b b' hR => hq (.note n) w b b' hn hR

theorem keeps_stillPerform {c : Call} (hq : StillKeeps R I) (hc : ∀ a, Still (.call c a)) :
    Keeps R I (Prog.perform (S := sdk) c : Program W _) :=
  keeps_perform fun a w b b' hR => hq (.call c a) w b b' (hc a) hR

theorem keeps_stillNote {n : Note} (hq : StillKeeps R I) (hn : n.isQuiet = true) :
    Keeps R I (Prog.note (S := sdk) n : Program W Unit) :=
  keeps_note fun w b b' hR => hq (.note n) w b b' hn hR

theorem keeps_closeReceiverQuietly (hq : QuietKeeps R I) (receiver : Handle) :
    Keeps R I (closeReceiverQuietly receiver : Program W Unit) :=
  keeps_tryCatch (keeps_quietCall hq rfl) fun _ => keeps_pure

theorem keeps_closeClientQuietly (hq : QuietKeeps R I) (client : Handle) :
    Keeps R I (closeClientQuietly client : Program W Unit) :=
  keeps_tryCatch (keeps_quietCall hq rfl) fun _ => keeps_pure

theorem keeps_enterReceiver (hq : QuietKeeps R I) (receiver : Handle) :
    Keeps R I (enterReceiver receiver : Program W Unit) := by
  refine keeps_tryCatch (keeps_quietCall hq rfl) fun _ => ?_
  exact keeps_bind (keeps_closeReceiverQuietly hq receiver) fun _ => keeps_throw

theorem keeps_renewSessionIfNeeded (hq : QuietKeeps R I) (receiver : Handle) (now : Time) :
    Keeps R I (renewSessionIfNeeded receiver now : Program W Unit) :=
  keeps_bind (keeps_quietPerform hq rfl) fun _ => keeps_when (keeps_quietCall hq rfl)

theorem keeps_openReceiver (hq : QuietKeeps R I) {row : Row} {entity : EntityRef} {client : Handle}
    {profile : ReceiverProfile} : Keeps R I (openReceiver row entity client profile : Program W Handle) :=
  keeps_quietCall hq rfl

theorem keeps_whenOpen {handle : Option Handle} {p : Handle → Program W Unit} (hp : ∀ h, Keeps R I (p h)) :
    Keeps R I (whenOpen handle p) := by
  cases handle with
  | none => exact keeps_pure
  | some h => exact hp h

theorem keeps_logRecovery (hq : QuietKeeps R I) (hnote : ∀ w b b', R (.note .recovery) b b' → I w b → I w b')
    (row : Row) (error : Exn) (tracker : RecoveryTracker) :
    Keeps R I (logRecovery row error tracker : Program W Unit) :=
  keeps_bind (keeps_note hnote) fun _ => keeps_quietNote hq rfl

theorem keeps_withReceiver {α : Type} {receiver : Handle} (henter : Keeps R I (enterReceiverCall receiver))
    (hclose : Keeps R I (closeReceiver receiver)) {p : Program W α} (hp : Keeps R I p) :
    Keeps R I (withReceiver receiver p) := keeps_bind henter fun _ => keeps_ensuring hp hclose

theorem keeps_withPeeker {α : Type} (hq : QuietKeeps R I) (row : Row) {p : Handle → Program W α}
    (hp : ∀ h, Keeps R I (p h)) : Keeps R I (withPeeker row p) := by
  refine keeps_bind (keeps_quietCall hq rfl) fun client => keeps_ensuring ?_ (keeps_quietCall hq rfl)
  exact keeps_bind (keeps_openReceiver hq) fun peeker =>
    keeps_withReceiver (keeps_quietCall hq rfl) (keeps_quietCall hq rfl) (hp peeker)

theorem keeps_mapServiceBusError {α : Type} (row : Row) {p : Program W α} (hp : Keeps R I p) :
    Keeps R I (mapServiceBusError row p) := by
  refine keeps_tryCatch hp fun error => ?_
  cases error.serviceBus? with
  | none => exact keeps_throw
  | some e => exact keeps_throw

end Calls

/-! ### The run -/

section Run

variable {I : RunState → B → Prop}

theorem keeps_tally (hF : StillFrame R I) (change : RunStats → RunStats)
    (hsame : ∀ stats : RunStats, stats.SameMarks (change stats) := by exact fun _ => ⟨rfl, rfl, rfl⟩) :
    Keeps R I (tally change) := keeps_modify fun s _ h => hF.stats (change s.stats) (hsame s.stats) h

theorem keeps_warn (hF : StillFrame R I) (key : WarningKey) (text : String) : Keeps R I (warn key text) := by
  refine keeps_bind keeps_get fun _ => ?_
  exact keeps_when (keeps_bind (keeps_tally hF _) fun _ => keeps_stillNote hF.still rfl)

theorem raises_warn (P : Exn → Prop) (key : WarningKey) (text : String) :
    Raises R P (warn key text) := by
  refine raises_bind raises_get fun _ => ?_
  refine raises_when fun _ => ?_
  exact raises_bind raises_modify fun _ => raises_note

theorem wp_safeSettle_of (hF : StillFrame R I) {action : Run Unit} {s : RunState} {b : B}
    (ha : Wp R action (fun _ => I) s b) : Wp R (safeSettle action) (fun _ => I) s b := by
  refine wp_tryCatch.mpr (ha.mono fun r s' b' hI => ?_)
  cases r with
  | ok _ => exact hI
  | error e =>
    refine keeps_ite (fun _ => ?_) (fun _ => keeps_throw) s' b' hI
    exact keeps_bind (keeps_tally hF _) fun _ => keeps_warn hF _ _

theorem keeps_safeSettle (hF : StillFrame R I) {action : Run Unit} (ha : Keeps R I action) :
    Keeps R I (safeSettle action) :=
  fun s b hI => wp_safeSettle_of hF (ha s b hI)

theorem keeps_projectedState (hF : StillFrame R I) (row : Row) : Keeps R I (projectedState row) := by
  refine keeps_bind ?_ fun _ => keeps_bind keeps_get fun _ => keeps_pure
  refine keeps_bind keeps_get fun _ => keeps_ite (fun _ => ?_) fun _ => keeps_pure
  exact keeps_bind (keeps_stillPerform hF.still fun _ => trivial) fun _ => keeps_pure

end Run

/-! ### The batch processor -/

/-- What the unreadable-body policy does to a message. -/
def Handling : Event sdk → Prop
  | .call (.abandonMessage ..) _ | .call (.deadLetterMessage ..) _ => True
  | .note (.unreadable ..) => True
  | _ => False

/-- `I` does not depend on what the final verdicts of the unreadable-body policy change, or on what that policy does. -/
structure DisposalFrame (R : Event sdk → B → B → Prop) (I : RunState → B → Prop) : Prop extends StillFrame R I where
  disposed : ∀ {s b} left pending, I s b →
    I { s with unreadable := { s.unreadable with left := left, pending := pending } } b
  handling : ∀ e s b b', Handling e → R e b b' → I s b → I s b'

/-- `I` does not depend on the unreadable-body policy or on what that does. -/
structure HandlingFrame (R : Event sdk → B → B → Prop) (I : RunState → B → Prop) : Prop extends StillFrame R I where
  unreadable : ∀ {s b} unreadable, I s b → I { s with unreadable := unreadable } b
  handling : ∀ e s b b', Handling e → R e b b' → I s b → I s b'

/-- Mapping some message takes the one registry to the other. -/
def Maps (row : Row) (registry registry' : Option FlattenRegistry) : Prop :=
  ∃ message extractedAt, registry' = (mapRow row registry message extractedAt).2

/-- Nor on what mapping does to the flatten registry. -/
structure MapFrame (R : Event sdk → B → B → Prop) (row : Row) (I : RunState → B → Prop) : Prop
    extends HandlingFrame R I where
  registry : ∀ {s b} registry, Maps row s.registry registry → I s b → I { s with registry := registry } b
  written : ∀ {s b} written, I s b → I { s with stats := { s.stats with written := written } } b := by
    first | exact fun _ h => h | exact fun _ h => { h with }

section Process

variable {I : RunState → B → Prop} {row : Row}

theorem HandlingFrame.disposal (hM : HandlingFrame R I) : DisposalFrame R I where
  toStillFrame := hM.toStillFrame
  disposed _ _ h := hM.unreadable _ h
  handling := hM.handling

theorem keeps_handlingCall {c : Call} {α : Type} {result : Reply c → Except Exn α} (hM : DisposalFrame R I)
    (hc : ∀ a, Handling (.call c a)) : Keeps R I (Prog.request (S := sdk) c result) :=
  keeps_request fun a s b b' hR => hM.handling (.call c a) s b b' (hc a) hR

theorem keeps_updateUnreadable (hM : HandlingFrame R I) (change : UnreadableHandler → UnreadableHandler) :
    Keeps R I (updateUnreadable change) := keeps_modify fun s _ h => hM.unreadable (change s.unreadable) h

theorem keeps_countUnreadable (hM : DisposalFrame R I) (message : Message) (reason : UnreadableReason)
    (disposition : Disposition) : Keeps R I (countUnreadable message reason disposition) :=
  keeps_bind (keeps_tally hM.toStillFrame _) fun _ =>
    keeps_note fun s b b' hR => hM.handling (.note (.unreadable message disposition)) s b b' trivial hR

theorem keeps_countDisposed (hM : DisposalFrame R I) (message : Message) (reason : UnreadableReason)
    (disposition : Disposition) (detail : String) : Keeps R I (countDisposed message reason disposition detail) :=
  keeps_bind (keeps_countUnreadable hM message reason disposition) fun _ => keeps_warn hM.toStillFrame _ _

theorem keeps_disposeUnreadable (hM : DisposalFrame R I) (receiver : Handle) (message : Message)
    (error : UnreadableError) : Keeps R I (disposeUnreadable row receiver message error) := by
  have hcount := keeps_countDisposed hM message error.reason
  refine keeps_ite (fun _ => ?_) fun _ => keeps_ite (fun _ => ?_) fun _ => keeps_ite (fun _ => ?_) fun _ => ?_
  · refine keeps_bind (keeps_countUnreadable hM message error.reason .failed) fun _ => ?_
    exact keeps_bind (keeps_modify fun s _ h => hM.disposed s.unreadable.left _ h) fun _ => keeps_pure
  · exact keeps_bind (hcount .skipped _) fun _ => keeps_pure
  · refine keeps_bind (keeps_safeSettle hM.toStillFrame (keeps_handlingCall hM fun _ => trivial)) fun _ => ?_
    exact keeps_bind (hcount .deadLettered _) fun _ => keeps_pure
  · refine keeps_bind (keeps_when (keeps_warn hM.toStillFrame _ _)) fun _ => ?_
    refine keeps_bind (keeps_modify fun s _ h => hM.disposed _ s.unreadable.pending h) fun _ => ?_
    exact keeps_bind (hcount .left _) fun _ => keeps_pure

theorem keeps_handleUnreadable (hM : HandlingFrame R I) (receiver : Handle) (message : Message)
    (error : UnreadableError) (generation : ℕ) :
    Keeps R I (handleUnreadable row receiver message error generation) := by
  have hretry : Keeps R I (retryUnreadable row receiver message generation error.reason) := by
    refine keeps_bind (keeps_updateUnreadable hM _) fun _ => ?_
    refine keeps_bind (keeps_when (keeps_safeSettle hM.toStillFrame (keeps_handlingCall hM.disposal fun _ => trivial)))
      fun _ => ?_
    exact keeps_bind (keeps_countUnreadable hM.disposal message error.reason .retry) fun _ => keeps_pure
  have hshould : Keeps R I (shouldRetry row message generation) := by
    refine keeps_bind keeps_get fun _ => ?_
    refine keeps_ite (fun _ => keeps_pure) fun _ => ?_
    refine keeps_ite (fun _ => keeps_pure) fun _ => ?_
    exact keeps_ite (fun _ => keeps_bind (keeps_warn hM.toStillFrame _ _) fun _ => keeps_pure) fun _ => keeps_pure
  have hdispose : Keeps R I (disposeUnreadable row receiver message error) :=
    keeps_disposeUnreadable hM.disposal receiver message error
  refine keeps_bind keeps_get fun s => ?_
  refine keeps_ite (fun _ => keeps_pure) fun _ => ?_
  refine keeps_ite (fun _ => ?_) fun _ => hdispose
  exact keeps_bind hshould fun again => keeps_ite (fun _ => hretry) fun _ => hdispose

/-- Without a registry mapping makes none. -/
theorem mapRow_none (row : Row) (message : Message) (extractedAt : Time) :
    (mapRow row none message extractedAt).2 = none := by
  unfold mapRow
  split
  · rfl
  · rfl
  · dsimp only
    split <;> rfl

theorem Maps.none {row : Row} {registry : Option FlattenRegistry} (h : Maps row none registry) : registry = none := by
  obtain ⟨message, extractedAt, rfl⟩ := h
  exact mapRow_none row message extractedAt

theorem keeps_toRow (hregistry : ∀ {s b} registry, Maps row s.registry registry → I s b →
    I { s with registry := registry } b)
    (message : Message) (extractedAt : Time) : Keeps R I (toRow row message extractedAt) := by
  intro s b hI
  simp only [toRow, wp_bind, wp_get, onOk_ok, wp_modify, wp_ofExcept]
  exact hregistry _ ⟨message, extractedAt, rfl⟩ hI

theorem keeps_raiseAfterBatch
    (hpending : ∀ {s b}, I s b → I { s with unreadable := { s.unreadable with pending := none } } b) :
    Keeps R I raiseAfterBatch := by
  have hraise : Keeps R I raisePending := by
    refine keeps_bind keeps_get fun s => keeps_bind (keeps_modify fun _ _ h => hpending h) fun _ => ?_
    cases s.unreadable.pending with
    | none => exact keeps_pure
    | some error => exact keeps_throw
  refine keeps_bind hraise fun _ => ?_
  refine keeps_bind keeps_get fun _ => ?_
  refine keeps_bind (keeps_when keeps_throw) fun _ => ?_
  refine keeps_bind keeps_get fun _ => ?_
  exact keeps_when keeps_throw

theorem holdsLocks_of_settles (hmode : row.mode = .complete ∨ row.mode = .deferCommit) :
    row.mode.holdsLocks = true := by
  rcases hmode with hmode | hmode
  · rw [hmode]
    rfl
  · rw [hmode]
    rfl

/-- What renewing a lock and the settlers keep, settling keeps. -/
theorem keeps_settle (hF : StillFrame R I) (hrenew : ∀ receiver message, Keeps R I (renewMessageLock receiver message))
    (hcomplete : row.mode = .complete → ∀ receiver message, Keeps R I (completeSettle receiver message))
    (hdefer : row.mode = .deferCommit → ∀ receiver message bodyBytes,
      Keeps R I (deferSettle row receiver message bodyBytes))
    (receiver : Handle) (message : Message) (bodyBytes : ℕ) : Keeps R I (settle row receiver message bodyBytes) := by
  refine keeps_safeSettle hF
    (keeps_bind (keeps_when (keeps_bind (keeps_stillPerform hF.still fun _ => trivial) fun now =>
    keeps_when (hrenew receiver message))) fun _ => ?_)
  unfold modeSettle
  split
  · exact hcomplete ‹_› receiver message
  · exact hdefer ‹_› receiver message bodyBytes
  · exact keeps_tally hF _
  · exact keeps_pure

/-- What handling unreadable bodies, writing rows and settling keep, the processing of a batch keeps. -/
theorem keeps_process_of (hD : DisposalFrame R I)
    (hregistry : ∀ {s b} registry, Maps row s.registry registry → I s b → I { s with registry := registry } b)
    (hwritten : ∀ {s b} written, I s b → I { s with stats := { s.stats with written := written } } b)
    {receiver : Handle}
    {generation : ℕ} (hhandle : ∀ message error, Keeps R I (handleUnreadable row receiver message error generation))
    (hwrite : ∀ rows, Keeps R I (writeRows row rows))
    (hsettle : ∀ message bodyBytes, Keeps R I (settle row receiver message bodyBytes)) (messages : List Message) :
    Keeps R I (process row receiver messages generation) := by
  have hmap : ∀ extractedAt draft message, Keeps R I (mapMessage row receiver extractedAt generation draft
      message) := by
    refine fun extractedAt draft message => keeps_bind (keeps_tally hD.toStillFrame _) fun _ =>
      keeps_bind (keeps_toRow (I := I) hregistry message extractedAt) fun mapped => ?_
    rcases mapped with error | ⟨output, bodyBytes⟩
    · exact keeps_bind (hhandle message error) fun _ => keeps_ite (fun _ => keeps_pure) fun _ => keeps_pure
    · exact keeps_pure
  refine keeps_bind (keeps_stillPerform hD.still fun _ => trivial) fun extractedAt => ?_
  refine keeps_bind (keeps_foldlM fun draft m _ => hmap extractedAt draft m) fun draft => ?_
  refine keeps_bind (keeps_when (keeps_bind (hwrite _) fun _ => keeps_modify fun _ _ h => hwritten _ h)) fun _ => ?_
  refine keeps_bind (keeps_forM fun readable _ => hsettle readable.1 readable.2) fun _ => ?_
  exact keeps_bind (keeps_raiseAfterBatch fun h => hD.disposed _ none h) fun _ => keeps_pure

/-- What writing rows and settling keep, the processing of a batch keeps. -/
theorem keeps_process (hM : MapFrame R row I) (hwrite : ∀ rows, Keeps R I (writeRows row rows))
    (hsettle : ∀ receiver message bodyBytes, Keeps R I (settle row receiver message bodyBytes)) (receiver : Handle)
    (messages : List Message) (generation : ℕ) : Keeps R I (process row receiver messages generation) :=
  keeps_process_of hM.disposal hM.registry hM.written
    (fun message error => keeps_handleUnreadable hM.toHandlingFrame receiver message error generation) hwrite
    (hsettle receiver) messages

end Process

/-! ### The loop -/

/-- The fields of the loop that only receiving, processing and reopening change. -/
def ReceiveLoop.SameMarks (loop loop' : ReceiveLoop) : Prop :=
  loop'.taken = loop.taken ∧ loop'.armed = loop.armed ∧ loop'.highestProcessed = loop.highestProcessed ∧
    loop'.tracker = loop.tracker

/-- `K` does not depend on the run's counters and metadata, on quiet events or on the connection. -/
structure LoopFrame (R : Event sdk → B → B → Prop) (K : LoopState → B → Prop) : Prop where
  run : ∀ loop, Frame R fun s b => K ⟨s, loop⟩ b
  connection : ∀ {l b} loop, l.loop.SameMarks loop → K l b → K { l with loop := loop } b

/-- Nor on how often the connection was opened again. -/
structure ReopenLoop (R : Event sdk → B → B → Prop) (K : LoopState → B → Prop) : Prop extends LoopFrame R K where
  tracker : ∀ {l b} tracker, K l b → K { l with loop := { l.loop with tracker := tracker } } b := by exact fun _ h => h
  reopen : ∀ loop, ReopenFrame R fun s b => K ⟨s, loop⟩ b

/-- An invariant of the run that may depend on the loop's armed flag, as an invariant of the loop. -/
def InLoop (I : Bool → RunState → B → Prop) (l : LoopState) (b : B) : Prop := I l.loop.armed l.run b

theorem loopFrame_inLoop {I : Bool → RunState → B → Prop} (hF : ∀ armed, Frame R (I armed)) :
    LoopFrame R (InLoop I) where
  run loop := hF loop.armed
  connection := by
    rintro l b loop ⟨-, harmed, -⟩ hI
    show I loop.armed l.run b
    rw [harmed]
    exact hI

theorem reopenLoop_inLoop {I : Bool → RunState → B → Prop} (hF : ∀ armed, Frame R (I armed))
    (hO : ∀ armed, ReopenFrame R (I armed)) : ReopenLoop R (InLoop I) where
  toLoopFrame := loopFrame_inLoop hF
  tracker _ hI := hI
  reopen loop := hO loop.armed

section Loop

variable {K K' : LoopState → B → Prop}

theorem LoopFrame.and (hK : LoopFrame R K) (hK' : LoopFrame R K') : LoopFrame R fun l b => K l b ∧ K' l b where
  run loop := {
    stats := fun stats hsame h => ⟨(hK.run loop).stats stats hsame h.1, (hK'.run loop).stats stats hsame h.2⟩
    guarded := fun guarded h => ⟨(hK.run loop).guarded guarded h.1, (hK'.run loop).guarded guarded h.2⟩
    info := fun info h => ⟨(hK.run loop).info info h.1, (hK'.run loop).info info h.2⟩
    quiet := fun e s b b' he hR h => ⟨(hK.run loop).quiet e s b b' he hR h.1, (hK'.run loop).quiet e s b b' he hR h.2⟩ }
  connection loop hloop h := ⟨hK.connection loop hloop h.1, hK'.connection loop hloop h.2⟩

theorem loopFrame_taken (t : ℕ) : LoopFrame R fun l _ => l.loop.taken = t where
  run _ := { stats := fun _ _ h => h, info := fun _ h => h, quiet := fun _ _ _ _ _ _ h => h }
  connection _ hloop h := hloop.1.trans h

theorem keeps_onRun {α : Type} {p : Run α} (hp : ∀ loop, Keeps R (fun s b => K ⟨s, loop⟩ b) p) : Keeps R K (onRun p) :=
  keeps_embed (fun _ => rfl) fun l => hp l.loop

theorem keeps_onRun_tally (hF : ∀ loop, Frame R fun s b => K ⟨s, loop⟩ b) (change : RunStats → RunStats)
    (hsame : ∀ stats : RunStats, stats.SameMarks (change stats) := by exact fun _ => ⟨rfl, rfl, rfl⟩) :
    Keeps R K (onRun (tally change)) := keeps_onRun fun loop => keeps_tally (hF loop).toStillFrame change hsame

theorem keeps_onRun_warn (hF : ∀ loop, Frame R fun s b => K ⟨s, loop⟩ b) (key : WarningKey) (text : String) :
    Keeps R K (onRun (warn key text)) := keeps_onRun fun loop => keeps_warn (hF loop).toStillFrame key text

theorem quietKeeps_loop (hF : ∀ loop, Frame R fun s b => K ⟨s, loop⟩ b) : QuietKeeps R K :=
  fun e l b b' he hR h => (hF l.loop).quiet e l.run b b' he hR h

theorem keeps_updateLoop (hK : LoopFrame R K) {change : ReceiveLoop → ReceiveLoop}
    (h : ∀ loop : ReceiveLoop, loop.SameMarks (change loop)) : Keeps R K (updateLoop change) :=
  keeps_modify fun l _ hI => hK.connection _ (h l.loop) hI

theorem keeps_finishSession (hK : LoopFrame R K) : Keeps R K finishSession := by
  refine keeps_bind keeps_get fun _ => ?_
  exact keeps_bind (keeps_updateLoop hK fun _ => ⟨rfl, rfl, rfl, rfl⟩) fun _ => keeps_whenOpen
    fun h => keeps_closeReceiverQuietly (quietKeeps_loop hK.run) h

theorem keeps_close (hK : LoopFrame R K) (interrupted : Bool) : Keeps R K (close interrupted) := by
  have hq := quietKeeps_loop hK.run
  refine keeps_bind keeps_get fun _ => ?_
  refine keeps_bind (keeps_updateLoop hK fun _ => ⟨rfl, rfl, rfl, rfl⟩) fun _ => ?_
  refine keeps_bind (keeps_whenOpen fun h => keeps_closeReceiverQuietly hq h) fun _ => ?_
  exact keeps_whenOpen fun h => keeps_closeClientQuietly hq h

theorem keeps_ensureClient (hK : LoopFrame R K) (row : Row) : Keeps R K (ensureClient row) := by
  refine keeps_bind keeps_get fun l => ?_
  cases l.loop.client with
  | some client => exact keeps_pure
  | none =>
    refine keeps_bind (keeps_quietCall (quietKeeps_loop hK.run) rfl) fun _ => ?_
    exact keeps_bind (keeps_updateLoop hK fun _ => ⟨rfl, rfl, rfl, rfl⟩) fun _ => keeps_pure

theorem keeps_receivableMessages (hK : LoopFrame R K) (row : Row) : Keeps R K (receivableMessages row) := by
  have hq := quietKeeps_loop hK.run
  refine keeps_bind (keeps_ensureClient hK row) fun client => ?_
  refine keeps_bind (keeps_quietPerform hq rfl) fun now => ?_
  refine keeps_bind keeps_get fun l => ?_
  refine keeps_bind (keeps_openReceiver hq) fun peeker => ?_
  refine keeps_bind (keeps_enterReceiver hq peeker) fun _ => ?_
  refine keeps_bind ?_ fun page => keeps_pure
  exact keeps_ensuring (keeps_quietCall hq rfl) (keeps_closeReceiverQuietly hq peeker)

theorem keeps_retryEmptyReceive (hK : LoopFrame R K) : Keeps R K retryEmptyReceive := by
  have hq := quietKeeps_loop hK.run
  refine keeps_bind (keeps_updateLoop hK fun _ => ⟨rfl, rfl, rfl, rfl⟩) fun _ => ?_
  refine keeps_bind keeps_get fun l => ?_
  refine keeps_ite (fun _ => keeps_pure) fun _ => ?_
  refine keeps_bind (keeps_onRun_tally hK.run _) fun _ => ?_
  refine keeps_bind (keeps_close hK false) fun _ => ?_
  refine keeps_bind (keeps_quietPerform hq rfl) fun _ => ?_
  exact keeps_bind (keeps_quietPerform hq rfl) fun _ => keeps_pure

theorem keeps_onEmpty (hK : LoopFrame R K) (row : Row) (catchUpUntil : Option Time) :
    Keeps R K (onEmpty row catchUpUntil) := by
  refine keeps_ite (fun _ => keeps_bind (keeps_finishSession hK) fun _ => keeps_pure) fun _ => ?_
  refine keeps_ite (fun _ => keeps_bind (keeps_quietPerform (quietKeeps_loop hK.run) rfl) fun _ => keeps_pure)
    fun _ => ?_
  refine keeps_bind (keeps_receivableMessages hK row) fun _ => ?_
  exact keeps_ite (fun _ => keeps_pure) fun _ => keeps_retryEmptyReceive hK

theorem keeps_overBudget (hF : ∀ loop, Frame R fun s b => K ⟨s, loop⟩ b) (row : Row) : Keeps R K (overBudget row) :=
  keeps_ite (fun _ => keeps_bind (keeps_onRun fun loop => keeps_projectedState (hF loop).toStillFrame row)
    fun _ => keeps_pure)
    fun _ => keeps_pure

theorem keeps_stopCheck (hF : ∀ loop, Frame R fun s b => K ⟨s, loop⟩ b) (row : Row) (catchUpUntil : Option Time) :
    Keeps R K (stopCheck row catchUpUntil) := by
  refine keeps_bind keeps_get fun l => ?_
  refine keeps_ite (fun _ => keeps_pure) fun _ => ?_
  refine keeps_bind (keeps_quietPerform (quietKeeps_loop hF) rfl) fun now => ?_
  refine keeps_ite (fun _ => keeps_pure) fun _ => ?_
  refine keeps_bind (keeps_overBudget hF row) fun exceeded => ?_
  refine keeps_ite (fun _ => ?_) fun _ => ?_
  · exact keeps_bind (keeps_onRun_warn hF _ _) fun _ => keeps_pure
  · cases catchUpUntil with
    | none => exact keeps_pure
    | some limit => exact keeps_ite (fun _ => keeps_pure) fun _ => keeps_pure

/-- The limit has not been reached. -/
def BelowLimit (row : Row) (loop : ReceiveLoop) : Prop :=
  0 < row.config.limits.maxMessages → loop.taken < row.config.limits.maxMessages

/-- The stop check leaves the loop alone, and lets it go on only below the limit. -/
theorem wp_stopCheck (hF : ∀ loop, Frame R fun s b => K ⟨s, loop⟩ b) (row : Row) (catchUpUntil : Option Time)
    {l : LoopState} {b : B} (hI : K l b) :
    Wp R (stopCheck row catchUpUntil)
      (fun r l' b' => (K l' b' ∧ l'.loop = l.loop) ∧ (r = .ok none → BelowLimit row l.loop)) l b := by
  have hF' : ∀ loop, Frame R fun s b => K ⟨s, loop⟩ b ∧ (⟨s, loop⟩ : LoopState).loop = l.loop := fun loop => {
    stats := fun stats hsame h => ⟨(hF loop).stats stats hsame h.1, h.2⟩
    guarded := fun guarded h => ⟨(hF loop).guarded guarded h.1, h.2⟩
    info := fun info h => ⟨(hF loop).info info h.1, h.2⟩
    quiet := fun e s b b' he hR h => ⟨(hF loop).quiet e s b b' he hR h.1, h.2⟩ }
  refine (keeps_stopCheck (K := fun l' b' => K l' b' ∧ l'.loop = l.loop) hF' row catchUpUntil l b ⟨hI, rfl⟩).and ?_
  rw [stopCheck, wp_bind, wp_get, onOk_ok, wp_ite]
  refine ⟨fun _ => wp_pure.mpr (by rintro ⟨⟩), fun hlimit => Wp.of_exec fun _ _ _ _ _ _ _ hpos => ?_⟩
  by_contra hreached
  exact hlimit ⟨hpos, Nat.le_of_not_lt hreached⟩

theorem keeps_openLoopReceiver (hK : LoopFrame R K) (row : Row) (client : Handle) (session : SessionRequest) :
    Keeps R K (openLoopReceiver row client session) := by
  have hq := quietKeeps_loop hK.run
  refine keeps_bind (keeps_openReceiver hq) fun _ => ?_
  refine keeps_bind (keeps_enterReceiver hq _) fun _ => ?_
  exact keeps_bind (keeps_updateLoop hK fun _ => ⟨rfl, rfl, rfl, rfl⟩) fun _ => keeps_pure

theorem keeps_openSession (hK : LoopFrame R K) (row : Row) (client : Handle) : Keeps R K (openSession row client) := by
  refine keeps_bind keeps_get fun l => ?_
  refine keeps_tryCatch ?_ fun _ => keeps_ite (fun _ => keeps_pure) fun _ => keeps_throw
  exact keeps_bind (keeps_openLoopReceiver hK row client _) fun _ => keeps_pure

theorem keeps_recycle (hK : ReopenLoop R K) : Keeps R K recycle := by
  refine keeps_bind (keeps_close hK.toLoopFrame true) fun _ => ?_
  refine keeps_bind (keeps_modify fun _ _ hI => hK.tracker _ hI) fun _ => ?_
  exact keeps_bind (keeps_onRun fun loop => keeps_modify fun _ _ hI => (hK.reopen loop).recycled _ hI)
    fun _ => keeps_note fun l b b' => (hK.reopen l.loop).reopened .recycle l.run b b' rfl

theorem keeps_recover (hK : ReopenLoop R K) (row : Row) (error : Exn) : Keeps R K (recover row error) := by
  refine keeps_bind (keeps_close hK.toLoopFrame true) fun _ => ?_
  refine keeps_bind keeps_get fun _ => ?_
  refine keeps_bind keeps_ofExcept fun _ => ?_
  refine keeps_bind (keeps_modify fun _ _ hI => hK.tracker _ hI) fun _ => ?_
  exact keeps_bind (keeps_onRun_tally hK.run _)
    fun _ => keeps_logRecovery (quietKeeps_loop hK.run)
    (fun l b b' => (hK.reopen l.loop).reopened .recovery l.run b b' rfl) row error _

theorem keeps_afterFailure (hK : ReopenLoop R K) (row : Row) (error : Exn) : Keeps R K (afterFailure row error) :=
  keeps_ite (fun _ => keeps_finishSession hK.toLoopFrame) fun _ => keeps_recover hK row error

theorem keeps_warnIfMessagesRemain (hK : LoopFrame R K) (row : Row) (reason : StopReason) :
    Keeps R K (warnIfMessagesRemain row reason) := by
  have hcount : Keeps R K (remainingByCount row reason) := by
    refine keeps_ite (fun _ => keeps_pure) fun _ => ?_
    refine keeps_ite (fun _ => keeps_pure) fun _ => ?_
    refine keeps_ite (fun _ => keeps_pure) fun _ => ?_
    refine keeps_bind (keeps_quietCall (quietKeeps_loop hK.run) rfl) fun info => ?_
    cases info.counts with
    | none => exact keeps_pure
    | some counts => exact keeps_ite (fun _ => keeps_pure) fun _ => keeps_pure
  have htext : Keeps R K (remainingText row reason) := by
    refine keeps_ite (fun _ => hcount) fun _ => ?_
    exact keeps_ite (fun _ => keeps_bind (keeps_receivableMessages hK row) fun _ => keeps_ite (fun _ => keeps_pure)
      fun _ => keeps_pure) fun _ => keeps_pure
  refine keeps_bind (keeps_tryCatch htext fun _ => keeps_pure) fun text => ?_
  cases text with
  | none => exact keeps_pure
  | some text => exact keeps_onRun_warn hK.run _ _

end Loop

/-! ### A batch of the loop -/

section Batch

variable {row : Row}

/-- Draining before the run fails raises nothing of its own. -/
theorem raises_stopDrain_failing (P : Exn → Prop) (receiver : Handle) : Raises R P (stopDrain row receiver true) := by
  refine raises_bind raises_get fun l => ?_
  refine raises_when fun _ => ?_
  refine raises_tryCatch fun error => ?_
  exact raises_ite (fun _ => raises_ite (fun _ => raises_note) fun h => absurd rfl h) fun _ => raises_note

/-- `Okay` of the result where the batch was processed, `Err` of the error where it was not. -/
def BatchEnds (Okay : BatchResult → LoopState → B → Prop) (Err : Exn → LoopState → B → Prop) :
    Except Exn BatchResult → LoopState → B → Prop
  | .ok result, l, b => Okay result l b
  | .error e, l, b => Err e l b

/-- The loop's books once a batch is processed. -/
def ReceiveLoop.book (loop : ReceiveLoop) (batch : List Message) (result : BatchResult) : ReceiveLoop := { loop with
  taken := loop.taken + (batch.length - result.retried.length)
  highestProcessed := some (batch.foldl (fun high message => max high message.sequenceNumber)
    (loop.highestProcessed.getD 0)) }

/-- The batch made progress. -/
def LoopState.progressed (l : LoopState) : LoopState :=
  { l with loop := { l.loop with tracker := l.loop.tracker.progress } }

/-- A batch of the loop is processed, noted as progress where it wrote a row or says so itself, and booked; or it raises
what processing it raised. -/
theorem wp_processBatch_with {Okay : BatchResult → LoopState → B → Prop} {Err : Exn → LoopState → B → Prop}
    {receiver : Handle} {batch : List Message} {l : LoopState} {b : B}
    (hokay : ∀ result l' b', l.run.stats.written < l'.run.stats.written ∨ result.progressed = true → Okay result l' b' →
      Okay result l'.progressed b')
    (herr : ∀ e l' b', l.run.stats.written < l'.run.stats.written → Err e l' b' → Err e l'.progressed b')
    (hdrain : ∀ e, e.isUser = true → Keeps R (Err e) (stopDrain row receiver true))
    (hprocess : Wp R (process row receiver batch l.loop.tracker.generation)
      (fun r s b => BatchEnds Okay Err r ⟨s, l.loop⟩ b) l.run b) :
    Wp R (processBatch row receiver batch) (BatchEnds
      (fun result l' b' => ∃ l₀, Okay result l₀ b' ∧ l' = { l₀ with loop := l₀.loop.book batch result }) Err) l b := by
  have hprocessOrDrain : Wp R (processOrDrain row receiver batch l.loop.tracker.generation)
      (BatchEnds Okay Err) l b := by
    refine wp_tryCatch.mpr (wp_embed.mpr (hprocess.mono fun r s b h => ?_))
    cases r with
    | ok result => exact h
    | error e =>
      refine wp_bind.mpr ((wp_when (Q := fun r l b => r = .ok () ∧ Err e l b)).mpr
        ⟨fun huser => ?_, fun _ => ⟨rfl, h⟩⟩ |>.mono ?_)
      · refine ((raises_stopDrain_failing (fun _ => False) receiver _ b).and (hdrain e huser _ b h)).mono
          fun r l' b' h' => ?_
        cases r with
        | error e' => exact (h'.1 e' rfl).elim
        | ok _ => exact ⟨rfl, h'.2⟩
      · rintro r l' b' ⟨rfl, h'⟩
        exact wp_throw.mpr h'
  have hnote : ∀ {Q : LoopState → B → Prop},
      (∀ l' b', l.run.stats.written < l'.run.stats.written → Q l' b' → Q l'.progressed b') → ∀ l' b', Q l' b' →
      Wp R (noteProgress l.run.stats.written) (fun r l' b' => r = .ok () ∧ Q l' b') l' b' := by
    intro Q hQ l' b' hI
    rw [noteProgress, wp_bind, wp_get, onOk_ok, wp_when]
    exact ⟨fun hwritten => wp_modify.mpr ⟨rfl, hQ l' b' hwritten hI⟩, fun _ => ⟨rfl, hI⟩⟩
  rw [processBatch, wp_bind, wp_get, onOk_ok, wp_bind, wp_ensuring]
  refine hprocessOrDrain.mono fun r l₁ b₁ h₁ => ?_
  cases r with
  | error e =>
    refine (hnote (herr e) l₁ b₁ h₁).mono ?_
    rintro r' l₂ b₂ ⟨rfl, h₂⟩
    exact h₂
  | ok result =>
    refine (hnote (fun l' b' hwritten => hokay result l' b' (.inl hwritten)) l₁ b₁ h₁).mono ?_
    rintro r' l₂ b₂ ⟨rfl, h₂⟩
    have hbooked : ∀ l₃, Okay result l₃ b₂ → Wp R (do
        updateLoop fun loop => loop.book batch result
        pure result) (BatchEnds (fun result l' b' =>
          ∃ l₀, Okay result l₀ b' ∧ l' = { l₀ with loop := l₀.loop.book batch result }) Err) l₃ b₂ := by
      intro l₃ h₃
      rw [wp_bind, updateLoop, wp_modify, onOk_ok, wp_pure]
      exact ⟨l₃, h₃, rfl⟩
    rw [onOk_ok, wp_bind, wp_when]
    refine ⟨fun hprogressed => wp_modify.mpr (hbooked _ ?_), fun _ => hbooked l₂ h₂⟩
    exact hokay result l₂ b₂ (.inr hprogressed) h₂

/-- The same where the recovery tracker does not matter. -/
theorem wp_processBatch_of {Okay : BatchResult → LoopState → B → Prop} {Err : Exn → LoopState → B → Prop}
    (hokay : ∀ result, ReopenLoop R (Okay result)) (herr : ∀ e, ReopenLoop R (Err e)) {receiver : Handle}
    (hdrain : ∀ e, e.isUser = true → Keeps R (Err e) (stopDrain row receiver true)) {batch : List Message}
    {l : LoopState} {b : B}
    (hprocess : Wp R (process row receiver batch l.loop.tracker.generation)
      (fun r s b => BatchEnds Okay Err r ⟨s, l.loop⟩ b) l.run b) :
    Wp R (processBatch row receiver batch) (BatchEnds
      (fun result l' b' => ∃ l₀, Okay result l₀ b' ∧ l' = { l₀ with loop := l₀.loop.book batch result }) Err) l b :=
  wp_processBatch_with (fun result _ _ _ h => (hokay result).tracker _ h) (fun e _ _ _ h => (herr e).tracker _ h) hdrain
    hprocess

end Batch

/-! ### One step of the loop -/

/-- What a receive of the loop leaves: `K` for no messages, else what processing them needs to end in `K` or raise
with `D`. -/
def Received (R : Event sdk → B → B → Prop) (row : Row) (K : LoopState → B → Prop) (D : Exn → LoopState → B → Prop)
    (receiver : Handle) : Except Exn (List Message) → LoopState → B → Prop
  | .error e, l, b => D e l b
  | .ok batch, l, b => (batch = [] → K l b) ∧ (batch ≠ [] → Wp R (processBatch row receiver batch) (Ends K D)
      { l with loop := { l.loop with emptyRetries := 0 } } b)

/-- What an invariant `K` of the loop has to say of a stop drain and of a batch, and what `D` is left of it
where a step raises. -/
structure TurnSteps (R : Event sdk → B → B → Prop) (row : Row) (K : LoopState → B → Prop)
    (D : Exn → LoopState → B → Prop) : Prop extends ReopenLoop R K where
  raises : ∀ e l b, K l b → D e l b
  stopDrain : ∀ receiver, Upholds R K D (stopDrain row receiver false)
  batch : ∀ receiver l b, K l b → BelowLimit row l.loop →
    Wp R (receive row receiver (batchCount row l.loop.taken) l.loop.wait) (Received R row K D receiver) l b

section Turn

variable {row : Row} {K : LoopState → B → Prop} {D : Exn → LoopState → B → Prop}

theorem TurnSteps.keeps (hT : TurnSteps R row K D) {α : Type} {p : Loop α} (hp : Keeps R K p) : Upholds R K D p :=
  hp.upholds hT.raises

theorem upholds_onWatermark (hT : TurnSteps R row K D) (receiver : Handle) :
    Upholds R K D (onWatermark row receiver) := by
  refine upholds_bind upholds_get fun l => ?_
  refine upholds_bind (hT.keeps (keeps_when (keeps_onRun_warn hT.run _ _))) fun _ => ?_
  refine upholds_bind (hT.stopDrain receiver) fun _ => ?_
  refine upholds_ite (fun _ => ?_) fun _ => upholds_pure
  exact hT.keeps (keeps_bind (keeps_finishSession hT.toLoopFrame) fun _ => keeps_pure)

theorem upholds_openNext (hT : TurnSteps R row K D) (catchUpUntil : Option Time) :
    Upholds R K D (openNext row catchUpUntil) := by
  have hK := hT.toLoopFrame
  have hq := quietKeeps_loop hK.run
  refine upholds_bind (hT.keeps (keeps_ensureClient hK row)) fun client => ?_
  refine upholds_ite (fun _ => upholds_bind (hT.keeps (keeps_openSession hK row client)) fun opened => ?_) fun _ => ?_
  · cases opened with
    | none =>
      exact upholds_ite (fun _ => upholds_pure) fun _ =>
        hT.keeps (keeps_bind (keeps_quietPerform hq rfl) fun _ => keeps_pure)
    | some receiver =>
      refine upholds_bind (hT.keeps (keeps_updateLoop hK fun _ => ⟨rfl, rfl, rfl, rfl⟩)) fun _ => ?_
      refine upholds_bind (hT.keeps (keeps_quietPerform hq rfl)) fun id => ?_
      refine upholds_bind upholds_get fun l => ?_
      refine upholds_bind (hT.keeps (keeps_quietNote hq rfl)) fun _ => ?_
      refine upholds_ite (fun _ => ?_) fun _ => ?_
      · exact upholds_bind (hT.stopDrain receiver) fun _ => upholds_pure
      · exact hT.keeps (keeps_bind (keeps_updateLoop hK fun _ => ⟨rfl, rfl, rfl, rfl⟩) fun _ => keeps_pure)
  · exact hT.keeps (keeps_bind (keeps_openLoopReceiver hK row client _) fun _ =>
      keeps_bind (keeps_updateLoop hK fun _ => ⟨rfl, rfl, rfl, rfl⟩) fun _ => keeps_pure)

/-- Renewing the session before a receive changes nothing of the loop. -/
theorem wp_renewBeforeReceive (hF : ∀ loop, Frame R fun s b => K ⟨s, loop⟩ b) (receiver : Handle) {l : LoopState}
    {b : B} (hI : K l b) :
    Wp R (Prog.when (row.sessions = true) (do
      let now ← utcNow
      renewSessionIfNeeded receiver now)) (fun _ l' b' => K l' b' ∧ l' = l) l b := by
  have hq : QuietKeeps R fun l' b' => K l' b' ∧ l' = l :=
    fun e l' b b' he hR h => ⟨quietKeeps_loop hF e l' b b' he hR h.1, h.2⟩
  exact keeps_when (keeps_bind (keeps_quietPerform hq rfl) fun _ => keeps_renewSessionIfNeeded hq receiver _) l b
    ⟨hI, rfl⟩

theorem wp_receiveTurn (hT : TurnSteps R row K D) (receiver : Handle) (catchUpUntil : Option Time) {l : LoopState}
    {b : B} (hI : K l b) (hbelow : BelowLimit row l.loop) :
    Wp R (receiveTurn row receiver catchUpUntil) (Ends K D) l b := by
  refine wp_bind.mpr ((wp_renewBeforeReceive hT.run receiver hI).mono fun r l' b' h => ?_)
  obtain ⟨hI', rfl⟩ := h
  cases r with
  | error e => exact hT.raises e _ b' hI'
  | ok _ =>
    rw [onOk_ok, wp_bind, wp_get, onOk_ok, wp_bind]
    refine (hT.batch receiver l' b' hI' hbelow).mono fun r l₁ b₁ h => ?_
    cases r with
    | error e => exact h
    | ok batch =>
      obtain ⟨hempty, hbatch⟩ := h
      rw [onOk_ok, wp_ite]
      refine ⟨fun hnil => ?_, fun hne => ?_⟩
      · exact hT.keeps (keeps_onEmpty hT.toLoopFrame row catchUpUntil) l₁ b₁ (hempty hnil)
      · rw [wp_bind, updateLoop, wp_modify, onOk_ok]
        refine (hbatch hne).ends_bind fun result => upholds_ite (fun _ => upholds_onWatermark hT receiver) fun _ => ?_
        exact hT.keeps (keeps_bind (keeps_when (keeps_recycle hT.toReopenLoop)) fun _ => keeps_pure)

/-- What stop drains and batches uphold, one step of the loop upholds. -/
theorem upholds_step (hT : TurnSteps R row K D) (catchUpUntil : Option Time) :
    Upholds R K D (step row catchUpUntil) := by
  refine fun l b hI => wp_bind.mpr (wp_get.mpr (wp_bind.mpr ((wp_stopCheck hT.run row catchUpUntil hI).mono ?_)))
  rintro r l' b' ⟨⟨hI', hloop⟩, hbelow⟩
  rcases r with e | _ | stop
  · exact hT.raises e l' b' hI'
  · rw [onOk_ok]
    dsimp only
    cases l.loop.receiver with
    | none => exact upholds_openNext hT catchUpUntil l' b' hI'
    | some receiver =>
      refine wp_receiveTurn hT receiver catchUpUntil hI' ?_
      rw [hloop]
      exact hbelow rfl
  · rw [onOk_ok]
    dsimp only
    refine (upholds_bind ?_ fun _ => upholds_pure) l' b' hI'
    cases l.loop.receiver with
    | none => exact upholds_pure
    | some receiver => exact hT.stopDrain receiver

theorem TurnSteps.keeps_step (hT : TurnSteps R row K fun _ => K) (catchUpUntil : Option Time) :
    Keeps R K (step row catchUpUntil) := by
  refine fun l b hI => (upholds_step hT catchUpUntil l b hI).mono fun r l' b' h => ?_
  cases r with
  | error e => exact h
  | ok _ => exact h

theorem TurnSteps.keeps_consume (hT : TurnSteps R row K fun _ => K) (catchUpUntil : Option Time) (turns : ℕ) :
    Keeps R K (consume row catchUpUntil turns) := by
  refine keeps_iterate (keeps_tryCatch (hT.keeps_step catchUpUntil) fun error => ?_) turns
  refine keeps_ite (fun _ => keeps_throw) fun _ => ?_
  exact keeps_bind (keeps_afterFailure hT.toReopenLoop row error) fun _ => keeps_pure

theorem TurnSteps.keeps_runUntilStop (hT : TurnSteps R row K fun _ => K) (turns : ℕ) :
    Keeps R K (runUntilStop row turns) := by
  have hq := quietKeeps_loop hT.run
  have hcatch : Keeps R K (catchUp row turns) := by
    refine keeps_bind (keeps_quietPerform hq rfl) fun _ => ?_
    refine keeps_bind keeps_get fun _ => ?_
    exact keeps_bind (keeps_updateLoop hT.toLoopFrame fun _ => ⟨rfl, rfl, rfl, rfl⟩) fun _ => hT.keeps_consume _ turns
  have hall : Keeps R K (consumeAll row turns) := by
    refine keeps_bind (hT.keeps_consume none turns) fun reason => ?_
    cases reason with
    | none => exact keeps_pure
    | some reason => exact keeps_bind keeps_get fun l => keeps_ite (fun _ => hcatch) fun _ => keeps_pure
  refine keeps_bind hall fun reason => ?_
  cases reason with
  | none => exact keeps_pure
  | some reason => exact keeps_bind (keeps_warnIfMessagesRemain hT.toLoopFrame row reason) fun _ => keeps_pure

/-- What each step of the loop keeps, the whole loop keeps. -/
theorem TurnSteps.keeps_receiveLoop (hT : TurnSteps R row K fun _ => K) (turns : ℕ) :
    Keeps R K (ReceiveLoop.run row turns) := by
  have hK := hT.toLoopFrame
  refine keeps_bind (keeps_quietPerform (quietKeeps_loop hK.run) rfl) fun now => ?_
  refine keeps_bind (keeps_updateLoop hK fun _ => ⟨rfl, rfl, rfl, rfl⟩) fun _ => ?_
  refine keeps_bind (keeps_finishing (hT.keeps_runUntilStop turns) (keeps_close hK false)) fun reason => ?_
  cases reason with
  | none => exact keeps_pure
  | some reason => exact keeps_bind (keeps_onRun_tally hK.run _) fun _ => keeps_pure

end Turn

/-! ### The loop around receiving and processing -/

/-- What an invariant of the loop has to say of the three functions that are not quiet: a receive
that returns messages establishes `Ready`, which processing and abandoning them may use. -/
structure LoopSteps (R : Event sdk → B → B → Prop) (row : Row) (I : Bool → RunState → B → Prop) (Ready : B → Prop) :
    Prop where
  frame : ∀ armed, Frame R (I armed)
  reopen : ∀ armed, ReopenFrame R (I armed)
  receive : ∀ receiver count wait l b, InLoop I l b → Wp R (receive row receiver count wait)
    (fun r l b => InLoop I l b ∧ ∀ batch, r = .ok batch → batch ≠ [] → Ready b) l b
  process : ∀ armed receiver batch generation s b, I armed s b → Ready b →
    Wp R (process row receiver batch generation) (fun _ => I armed) s b
  abandon : ∀ armed receiver message, Keeps R (I armed) (abandonMessage receiver message)

section Steps

variable {I : Bool → RunState → B → Prop} {row : Row} {Ready : B → Prop}

theorem LoopSteps.loopFrame (hS : LoopSteps R row I Ready) : LoopFrame R (InLoop I) := loopFrame_inLoop hS.frame

theorem LoopSteps.reopenLoop (hS : LoopSteps R row I Ready) : ReopenLoop R (InLoop I) :=
  reopenLoop_inLoop hS.frame hS.reopen

theorem keeps_drain (hS : LoopSteps R row I Ready) (receiver : Handle) : Keeps R (InLoop I) (drain row receiver) := by
  have hq := quietKeeps_loop hS.loopFrame.run
  refine keeps_bind (keeps_when (keeps_bind (keeps_quietPerform hq rfl) fun _ =>
    keeps_renewSessionIfNeeded hq receiver _)) fun _ l b hI => wp_bind.mpr ((hS.receive _ _ _ l b hI).mono ?_)
  rintro (e | batch) l' b' ⟨hI', hready⟩
  · exact hI'
  · simp only [onOk_ok]
    split
    · exact wp_pure.mpr hI'
    · rename_i hne
      split
      · simp only [wp_bind, wp_get, onOk_ok, onRun, wp_embed]
        refine (hS.process _ _ _ _ _ _ hI' (hready batch rfl hne)).mono ?_
        rintro (e | _) s' b'' h''
        · exact h''
        · exact wp_pure.mpr h''
      · refine keeps_forM (fun m _ => keeps_onRun fun loop => ?_) l' b' hI'
        exact keeps_safeSettle (hS.frame loop.armed).toStillFrame (hS.abandon loop.armed receiver m)

theorem keeps_stopDrain (hS : LoopSteps R row I Ready) (receiver : Handle) (failing : Bool) :
    Keeps R (InLoop I) (stopDrain row receiver failing) := by
  have hq := quietKeeps_loop hS.loopFrame.run
  refine keeps_bind keeps_get fun l => ?_
  refine keeps_when (keeps_tryCatch (keeps_drain hS receiver) fun error => ?_)
  exact keeps_ite (fun _ => keeps_ite (fun _ => keeps_quietNote hq rfl) fun _ => keeps_throw)
    fun _ => keeps_quietNote hq rfl

theorem wp_processBatch (hS : LoopSteps R row I Ready) (receiver : Handle) (batch : List Message) {l : LoopState}
    {b : B} (hI : InLoop I l b) (hready : Ready b) :
    Wp R (processBatch row receiver batch) (fun _ => InLoop I) l b := by
  have hprocess : Wp R (process row receiver batch l.loop.tracker.generation)
      (fun r s b => BatchEnds (fun _ => InLoop I) (fun _ => InLoop I) r ⟨s, l.loop⟩ b) l.run b := by
    refine (hS.process _ receiver batch _ l.run b hI hready).mono fun r s b h => ?_
    cases r with
    | error e => exact h
    | ok _ => exact h
  refine (wp_processBatch_of (fun _ => hS.reopenLoop) (fun _ => hS.reopenLoop)
    (fun _ _ => keeps_stopDrain hS receiver true)
    hprocess).mono fun r l' b' h => ?_
  cases r with
  | error e => exact h
  | ok result =>
    obtain ⟨l₀, h₀, rfl⟩ := h
    exact h₀

theorem LoopSteps.turnSteps (hS : LoopSteps R row I Ready) : TurnSteps R row (InLoop I) fun _ => InLoop I where
  toReopenLoop := hS.reopenLoop
  raises _ _ _ h := h
  stopDrain receiver := (keeps_stopDrain hS receiver false).upholds fun _ _ _ h => h
  batch receiver l b hI _ := by
    refine (hS.receive receiver _ _ l b hI).mono fun r l' b' h => ?_
    obtain ⟨hI', hready⟩ := h
    cases r with
    | error e => exact hI'
    | ok batch =>
      refine ⟨fun _ => hI', fun hne => ?_⟩
      have hI₁ : InLoop I { l' with loop := { l'.loop with emptyRetries := 0 } } b' := hI'
      refine (wp_processBatch hS receiver batch hI₁ (hready batch rfl hne)).mono fun r l₁ b₁ h₁ => ?_
      cases r with
      | error e => exact h₁
      | ok _ => exact h₁

/-- What receiving, processing and abandoning keep, the whole loop keeps. -/
theorem keeps_receiveLoop (hS : LoopSteps R row I Ready) (turns : ℕ) :
    Keeps R (InLoop I) (ReceiveLoop.run row turns) := hS.turnSteps.keeps_receiveLoop turns

/-- The loop as a step of the run: it starts unarmed. -/
theorem wp_runReceiveLoop (hS : LoopSteps R row I Ready) (turns : ℕ) {s : RunState} {b : B} (hI : I false s b) :
    Wp R (runReceiveLoop row turns) (fun _ s b => ∃ armed, I armed s b) s b := by
  have hI' : InLoop I ⟨s, .start row⟩ b := hI
  exact wp_embed.mpr ((keeps_receiveLoop hS turns).wp hI' fun r l b' h' => ⟨l.loop.armed, h'⟩)

end Steps

/-! ### Deferred messages -/

/-- Deferred receives of the numbers that `asks` allows keep `I`. -/
def DeferredKeepsFor (asks : List ℤ → Prop) (R : Event sdk → B → B → Prop) (I : W → B → Prop) : Prop :=
  ∀ receiver seqs timeout, asks seqs → ∀ a w b b',
    R (.call (.receiveDeferredMessages receiver seqs timeout) a) b b' → I w b → I w b'

/-- Deferred receives keep `I`. -/
def DeferredKeeps (R : Event sdk → B → B → Prop) (I : W → B → Prop) : Prop :=
  ∀ receiver seqs timeout a w b b',
    R (.call (.receiveDeferredMessages receiver seqs timeout) a) b b' → I w b → I w b'

/-- A call for some of a chunk: the chunk itself, or what halving it leaves. -/
def PartOf (chunk seqs : List ℤ) : Prop := seqs ≠ [] ∧ seqs.Sublist chunk

/-- A call the deletion of a group may make. -/
def PendingGroup.Asks (group : PendingGroup) (seqs : List ℤ) : Prop := ∃ chunk ∈ group.chunks, PartOf chunk seqs

section Deferred

variable {I : W → B → Prop}

theorem keeps_withTransientRetry {α : Type} (hq : StillKeeps R I) {retryable : Exn → Bool} {fn : Program W α}
    (hfn : Keeps R I fn) (delays : List ℤ) : Keeps R I (withTransientRetry retryable fn delays) := by
  induction delays with
  | nil => exact hfn
  | cons delay delays ih =>
    refine keeps_tryCatch hfn fun _ => keeps_ite (fun _ => ?_) fun _ => keeps_throw
    exact keeps_bind (keeps_stillPerform hq fun _ => trivial) fun _ => ih

/-- Halving a call asks for nothing but parts of it. -/
theorem keeps_bisect (hq : StillKeeps R I) {receiver : Handle} {chunk : List ℤ}
    (hd : ∀ seqs, PartOf chunk seqs → Keeps R I (receiveDeferredMessages receiver seqs deferredReceiveTimeoutSeconds))
    (sessionLocked : Bool) (halvings : ℕ) {seqs : List ℤ} (hpart : seqs.Sublist chunk) :
    Keeps R I (bisect receiver sessionLocked halvings seqs) := by
  induction halvings generalizing seqs with
  | zero => exact keeps_pure
  | succ halvings ih =>
    refine keeps_ite (fun _ => keeps_pure) fun hne => ?_
    refine keeps_bind (keeps_attempt (keeps_withTransientRetry hq (hd seqs ⟨hne, hpart⟩) _)) fun r => ?_
    rcases r with error | messages
    · refine keeps_ite (fun _ => keeps_ite (fun _ => keeps_pure) fun _ => ?_) fun _ => keeps_throw
      refine keeps_bind (ih ((List.take_sublist _ _).trans hpart)) fun _ => ?_
      exact keeps_bind (ih ((List.drop_sublist _ _).trans hpart)) fun _ => keeps_pure
    · exact keeps_pure

theorem DeferredKeepsFor.keeps {asks : List ℤ → Prop} (hd : DeferredKeepsFor asks R I) (receiver : Handle)
    {seqs : List ℤ} (hasks : asks seqs) :
    Keeps R I (receiveDeferredMessages receiver seqs deferredReceiveTimeoutSeconds) :=
  keeps_request fun a w b b' hR => hd _ _ _ hasks a w b b' hR

theorem DeferredKeeps.keeps (hd : DeferredKeeps R I) (receiver : Handle) (seqs : List ℤ) :
    Keeps R I (receiveDeferredMessages receiver seqs deferredReceiveTimeoutSeconds) :=
  keeps_request fun a w b b' hR => hd _ _ _ a w b b' hR

end Deferred

/-- An invariant of the run as one of the commit. -/
def InCommit (I : RunState → B → Prop) (c : CommitState) (b : B) : Prop := I c.run b

/-- An invariant of the run as one of the scan. -/
def InScan (I : RunState → B → Prop) (s : ScanState) (b : B) : Prop := I s.run b

section Commit

variable {I : RunState → B → Prop} {row : Row}

theorem keeps_commitWarn (hF : StillFrame R I) (key : WarningKey) (text : String) :
    Keeps R I (commitWarn key text) := by
  refine keeps_bind keeps_get fun _ => ?_
  exact keeps_ite (fun _ => keeps_stillNote hF.still rfl) fun _ => keeps_warn hF key text

theorem keeps_onCommitRun {α : Type} {p : Run α} (hp : Keeps R I p) : Keeps R (InCommit I) (onCommitRun p) :=
  keeps_embed (fun _ => rfl) fun _ => hp

theorem quietKeeps_inCommit (hF : Frame R I) : QuietKeeps R (InCommit I) :=
  fun e c b b' he hR h => hF.quiet e c.run b b' he hR h

theorem keeps_deleteChunk (hF : Frame R I) {chunk : List ℤ} (hd : DeferredKeepsFor (PartOf chunk) R I)
    (receiver : Handle) (sessionLocked : Bool) : Keeps R (InCommit I) (deleteChunk receiver sessionLocked chunk) := by
  have hd' : DeferredKeepsFor (PartOf chunk) R (InCommit I) :=
    fun receiver seqs timeout hasks a c b b' => hd receiver seqs timeout hasks a c.run b b'
  refine keeps_bind (keeps_bisect (quietKeeps_inCommit hF).still (fun _ hpart => hd'.keeps receiver hpart) _ _
    (.refl _)) fun _ => ?_
  exact keeps_bind (keeps_onCommitRun (keeps_tally hF.toStillFrame _)) fun _ => keeps_modify fun _ _ h => h

theorem keeps_deleteChunks (hF : Frame R I) {chunks : List (List ℤ)}
    (hd : ∀ chunk ∈ chunks, DeferredKeepsFor (PartOf chunk) R I) (receiver : Handle) :
    Keeps R (InCommit I) (deleteChunks receiver chunks) := by
  cases chunks with
  | nil => exact keeps_pure
  | cons chunk rest =>
    exact keeps_bind (keeps_deleteChunk hF (hd chunk (by simp)) receiver true) fun _ =>
      keeps_forM fun chunk hchunk => keeps_deleteChunk hF (hd chunk (by simp [hchunk])) receiver false

theorem keeps_openCommitReceiver {I : CommitState → B → Prop} (hq : QuietKeeps R I) (client : Handle) (ref : EntityRef)
    (session : Option String) : Keeps R I (withTransientRetry (retryable true)
      (openCommitReceiver row client ref session) transientBackoffSeconds) := by
  refine keeps_withTransientRetry hq.still (keeps_bind (keeps_openReceiver hq) fun receiver => ?_) _
  exact keeps_bind (keeps_tryCatch (keeps_quietCall hq rfl) fun _ => keeps_bind (keeps_quietCall hq rfl)
    fun _ => keeps_throw)
    fun _ => keeps_pure

theorem keeps_deleteGroup (hF : Frame R I) {group : PendingGroup} (hd : DeferredKeepsFor group.Asks R I)
    (client : Handle) (ref : EntityRef) : Keeps R (InCommit I) (deleteGroup row client ref group) := by
  have hq := quietKeeps_inCommit hF
  refine keeps_bind (keeps_openCommitReceiver hq client ref _) fun receiver => ?_
  refine keeps_ensuring ?_ (keeps_quietCall hq rfl)
  have hchunks : ∀ chunk ∈ group.chunks, DeferredKeepsFor (PartOf chunk) R I :=
    fun chunk hchunk receiver seqs timeout hpart => hd receiver seqs timeout ⟨chunk, hchunk, hpart⟩
  exact keeps_deleteChunks hF hchunks receiver

theorem keeps_rethrow {error : Exn} {f : ServiceBusError → Exn} :
    Keeps R (InCommit I) (match error.serviceBus? with
      | some sdkError => throw (f sdkError)
      | none => throw error : Commit (Option (List PendingGroup))) := by
  cases error.serviceBus? with
  | none => exact keeps_throw
  | some _ => exact keeps_throw

theorem keeps_afterGroupFailure (hF : Frame R I) (ref : EntityRef) (group : PendingGroup)
    (rest carried : List PendingGroup) (error : Exn) :
    Keeps R (InCommit I) (afterGroupFailure row ref group rest carried error) := by
  refine keeps_bind keeps_get fun c => ?_
  refine keeps_ite (fun _ => ?_) fun _ => keeps_ite (fun _ => keeps_ite (fun _ => keeps_rethrow) fun _ => ?_)
    fun _ => keeps_ite (fun _ => keeps_throw) fun _ => keeps_rethrow
  · exact keeps_bind (keeps_onCommitRun (keeps_tally hF.toStillFrame _)) fun _ => keeps_pure
  · exact keeps_bind (keeps_onCommitRun
      (keeps_bind (keeps_tally hF.toStillFrame _) fun _ => keeps_commitWarn hF.toStillFrame _ _)) fun _ =>
      keeps_pure

theorem keeps_commitGroups (hF : Frame R I) (client : Handle) (ref : EntityRef) (carried : List PendingGroup)
    {groups : List PendingGroup} (hd : ∀ group ∈ groups, DeferredKeepsFor group.Asks R I) :
    Keeps R (InCommit I) (commitGroups row client ref carried groups) := by
  induction groups generalizing carried with
  | nil => exact keeps_pure
  | cons group rest ih =>
    have hrest : ∀ g ∈ rest, DeferredKeepsFor g.Asks R I := fun g hg => hd g (by simp [hg])
    refine keeps_bind (keeps_modify fun _ _ h => h) fun _ =>
      keeps_bind (keeps_attempt (keeps_deleteGroup hF (hd group (by simp)) client ref)) fun r => ?_
    rcases r with error | _
    · refine keeps_bind (keeps_afterGroupFailure hF ref group rest carried error) fun next => ?_
      cases next with
      | none => exact keeps_pure
      | some carried => exact ih carried hrest
    · exact ih carried hrest

/-- Deleting a pending set keeps what the deferred receives of its groups keep. -/
theorem keeps_runCommit_for (hF : Frame R I) {pending : List PendingEntity}
    (hd : ∀ pe ∈ pending, ∀ group ∈ pe.groups, DeferredKeepsFor group.Asks R I) :
    Keeps R I (runCommit row pending) := by
  have hq := quietKeeps_inCommit hF
  intro s b hI
  have hcommit : Keeps R (InCommit I) (commit row pending) := by
    refine keeps_ite (fun _ => keeps_pure) fun _ => ?_
    refine keeps_bind (keeps_quietCall hq rfl) fun client => ?_
    refine keeps_ensuring (keeps_foldlM fun carried pe hpe => ?_) (keeps_quietCall hq rfl)
    have hgroups : ∀ group ∈ pe.groups.filter fun group => group.ranges ≠ [], DeferredKeepsFor group.Asks R I :=
      fun group hgroup => hd pe (List.mem_filter.mp hpe).1 group (List.mem_filter.mp hgroup).1
    refine keeps_bind (keeps_bind (keeps_commitGroups hF client _ _ hgroups) fun _ => ?_) fun groups => ?_
    · exact keeps_bind (keeps_when (keeps_onCommitRun (keeps_commitWarn hF.toStillFrame _ _))) fun _ => keeps_pure
    · exact keeps_ite (fun _ => keeps_pure) fun _ => keeps_pure
  have hI' : InCommit I { run := s } b := hI
  exact wp_embed.mpr (hcommit.wp hI' fun _ _ _ h => h)

/-- Deleting a pending set keeps what deferred receives keep. -/
theorem keeps_runCommit (hF : Frame R I) (hd : DeferredKeeps R I) (pending : List PendingEntity) :
    Keeps R I (runCommit row pending) :=
  keeps_runCommit_for hF fun _ _ _ _ receiver seqs timeout _ => hd receiver seqs timeout

/-- The probe keeps what quiet calls keep. -/
theorem keeps_probe (hF : Frame R I) : Keeps R I (probe row) := by
  refine keeps_when (keeps_bind keeps_get fun s => keeps_bind (keeps_mapServiceBusError row
    (keeps_withPeeker hF.quiet row fun peeker => keeps_quietCall hF.quiet rfl)) fun page => ?_)
  exact keeps_when (keeps_warn hF.toStillFrame _ _)

end Commit

section Scan

variable {I : RunState → B → Prop} {row : Row}

theorem keeps_onScanRun {α : Type} {p : Run α} (hp : Keeps R I p) : Keeps R (InScan I) (onScanRun p) :=
  keeps_embed (fun _ => rfl) fun _ => hp

theorem quietKeeps_inScan (hF : Frame R I) : QuietKeeps R (InScan I) :=
  fun e s b b' he hR h => hF.quiet e s.run b b' he hR h

theorem keeps_bestEffort (hF : Frame R I) : Keeps R I (bestEffort row) := by
  refine keeps_bind keeps_get fun _ => ?_
  exact keeps_ite (fun _ => keeps_bind (keeps_warn hF.toStillFrame _ _) fun _ => keeps_pure) fun _ => keeps_pure

theorem keeps_noteDeferred (hF : Frame R I) (message : Message) (orphans : List ℤ) :
    Keeps R (InScan I) (noteDeferred message orphans) := by
  refine keeps_bind (keeps_modify fun _ _ h => h) fun _ => ?_
  refine keeps_bind keeps_get fun _ => ?_
  exact keeps_ite (fun _ => keeps_bind (keeps_onScanRun (keeps_modify fun _ _ h => hF.guarded _ h)) fun _ => keeps_pure)
    fun _ => keeps_pure

theorem keeps_scanMessages (hF : Frame R I) (now : Time) (orphans : List ℤ) (messages : List Message) :
    Keeps R (InScan I) (scanMessages row now orphans messages) := by
  induction messages generalizing orphans with
  | nil => exact keeps_pure
  | cons message rest ih =>
    refine keeps_bind (keeps_onScanRun (keeps_modify fun _ _ h => hF.info _ h)) fun _ => ?_
    refine keeps_ite (fun _ => ?_) fun _ => keeps_bind (keeps_onScanRun (keeps_bestEffort hF))
      fun best => keeps_ite (fun _ => ?_) fun _ => ih orphans
    · exact keeps_bind (keeps_noteDeferred hF message orphans) fun orphans => ih orphans
    · refine keeps_bind (keeps_modify fun _ _ h => h) fun _ => ?_
      refine keeps_bind keeps_get fun _ => ?_
      exact keeps_ite (fun _ => keeps_pure) fun _ => ih orphans

theorem keeps_scanCommitClient {K : ScanState → B → Prop} (hq : QuietKeeps R K)
    (hclient : ∀ {s b} client, K s b → K { s with commitClient := client } b) : Keeps R K (scanCommitClient row) := by
  refine keeps_bind keeps_get fun s => ?_
  cases s.commitClient with
  | some client => exact keeps_pure
  | none =>
    refine keeps_bind (keeps_quietCall hq rfl) fun client => ?_
    exact keeps_bind (keeps_modify fun _ _ h => hclient (some client) h) fun _ => keeps_pure

/-- What one receiver's deferred receives and the processing of what they return keep. -/
theorem keeps_recoverChunk {K : ScanState → B → Prop}
    (hF : ∀ s : ScanState, StillFrame R fun run b => K { s with run := run } b)
    {receiver : Handle} {chunk : List ℤ}
    (hd : ∀ seqs, PartOf chunk seqs → Keeps R K (receiveDeferredMessages receiver seqs deferredReceiveTimeoutSeconds))
    (hp : ∀ (s : ScanState) messages,
      Keeps R (fun run b => K { s with run := run } b) (process row receiver messages 0)) :
    Keeps R K (recoverChunk row receiver chunk) := by
  have hq : StillKeeps R K := fun e s b b' he hR h => (hF s).still e s.run b b' he hR h
  refine keeps_bind (keeps_bisect hq hd _ _ (.refl _)) fun result => keeps_when ?_
  exact keeps_bind (keeps_embed (fun _ => rfl) fun s => hp s _) fun _ =>
    keeps_embed (fun _ => rfl) fun s => keeps_tally (hF s) _

/-- Recovering orphans keeps what quiet calls and the recovery of its chunks keep. -/
theorem keeps_recoverOrphans_of {K : ScanState → B → Prop} {orphans : List ℤ} (hq : QuietKeeps R K)
    (hclient : ∀ {s b} client, K s b → K { s with commitClient := client } b)
    (hretries : ∀ change, Keeps R K (onScanRun (updateUnreadable change)))
    (hchunk : ∀ receiver, ∀ chunk ∈ orphanChunks row orphans, Keeps R K (recoverChunk row receiver chunk)) :
    Keeps R K (recoverOrphans row orphans) := by
  refine keeps_when ?_
  refine keeps_bind (keeps_scanCommitClient hq hclient) fun client => ?_
  refine keeps_bind keeps_get fun s => ?_
  refine keeps_bind (hretries _) fun _ => ?_
  refine keeps_ensuring (keeps_bind (keeps_openReceiver hq) fun receiver => ?_) (hretries _)
  exact keeps_withReceiver (keeps_quietCall hq rfl) (keeps_quietCall hq rfl) (keeps_forM (hchunk receiver))

/-- The same from the deferred receives of the chunks and the processing of what they return. -/
theorem keeps_recoverOrphans_for {K : ScanState → B → Prop} {orphans : List ℤ} (hq : QuietKeeps R K)
    (hclient : ∀ {s b} client, K s b → K { s with commitClient := client } b)
    (hM : ∀ s : ScanState, HandlingFrame R fun run b => K { s with run := run } b)
    (hd : ∀ chunk ∈ orphanChunks row orphans, DeferredKeepsFor (PartOf chunk) R K)
    (hp : ∀ (s : ScanState) receiver messages,
      Keeps R (fun run b => K { s with run := run } b) (process row receiver messages 0)) :
    Keeps R K (recoverOrphans row orphans) := by
  refine keeps_recoverOrphans_of hq hclient
    (fun change => keeps_embed (fun _ => rfl) fun s => keeps_updateUnreadable (hM s) change)
    fun receiver chunk hchunk => ?_
  exact keeps_recoverChunk (fun s => (hM s).toStillFrame) (fun part hpart => (hd chunk hchunk).keeps receiver hpart)
    fun s messages => hp s receiver messages

theorem keeps_recoverOrphans (hF : Frame R I) (hM : HandlingFrame R I) (hd : DeferredKeeps R I)
    (hp : ∀ receiver messages generation, Keeps R I (process row receiver messages generation)) (orphans : List ℤ) :
    Keeps R (InScan I) (recoverOrphans row orphans) :=
  keeps_recoverOrphans_for (quietKeeps_inScan hF) (fun _ h => h) (fun _ => hM)
    (fun _ _ receiver seqs timeout _ a s b b' => hd receiver seqs timeout a s.run b b')
    fun _ receiver messages => hp receiver messages 0

/-- A page of the scan keeps what the recovery of its orphans keeps. -/
theorem keeps_scanPage (hF : Frame R I) (hrecover : ∀ orphans, Keeps R (InScan I) (recoverOrphans row orphans))
    (peeker : Handle) : Keeps R (InScan I) (scanPage row peeker) := by
  have hq := quietKeeps_inScan hF
  refine keeps_bind keeps_get fun s => ?_
  refine keeps_bind (keeps_onScanRun (keeps_bestEffort hF)) fun _ => ?_
  refine keeps_bind (keeps_quietCall hq rfl) fun page => ?_
  refine keeps_ite (fun _ => keeps_pure) fun _ => ?_
  refine keeps_bind (keeps_quietPerform hq rfl) fun now => ?_
  refine keeps_bind (keeps_scanMessages hF now [] page) fun found => ?_
  refine keeps_bind (hrecover found.1) fun _ => ?_
  refine keeps_ite (fun _ => keeps_pure) fun _ => ?_
  exact keeps_bind (keeps_modify fun _ _ h => h) fun _ => keeps_pure

/-- The scan keeps what the recovery of orphans keeps. -/
theorem keeps_runScan (hF : Frame R I) (hrecover : ∀ orphans, Keeps R (InScan I) (recoverOrphans row orphans)) :
    Keeps R I (runScan row) := by
  have hq := quietKeeps_inScan hF
  have hclose : Keeps R (InScan I) closeScanClient := by
    refine keeps_bind keeps_get fun _ => keeps_whenOpen fun _ => ?_
    exact keeps_bind (keeps_quietCall hq rfl) fun _ => keeps_modify fun _ _ h => h
  have hscan : Keeps R (InScan I) (scan row) := by
    refine keeps_ite (fun _ => keeps_onScanRun (keeps_warn hF.toStillFrame _ _)) fun _ => ?_
    refine keeps_bind (keeps_ensuring
      (keeps_mapServiceBusError row
      (keeps_withPeeker hq row fun peeker => keeps_iterate (keeps_scanPage hF hrecover peeker) _)) hclose)
      fun finished => ?_
    refine keeps_bind (keeps_onScanRun (keeps_bind keeps_get fun _ => keeps_when (keeps_warn hF.toStillFrame _ _)))
      fun _ => ?_
    exact keeps_when (keeps_onScanRun (keeps_warn hF.toStillFrame _ _))
  intro s b hI
  have hI' : InScan I { run := s } b := hI
  exact wp_embed.mpr (hscan.wp hI' fun _ _ _ h => h)

end Scan

/-! ### The ends of a run -/

/-- Writing the manifest, opening and closing the CSV. -/
def FileEvent : Event sdk → Prop
  | .call (.writeManifest _) _ | .call .createCsv _ | .call .closeCsv _ => True
  | _ => False

/-- `I` does not depend on what the start of a run sets, nor on the table but for its armed flag. -/
structure TableFrame (R : Event sdk → B → B → Prop) (row : Row) (I : RunState → B → Prop) : Prop extends Frame R I where
  seed : row.config.body.bodyFormat = .jsonFlatten → ∀ {s b}, I s b →
    I { s with registry := some (.seed s.state.flattenColumns metadataColumnNames) } b
  start : ∀ {s b} t0 peekCursor, I s b → I { s with t0 := t0, peekCursor := peekCursor } b
  output : ∀ {s b} columns definition isOpen, I s b →
    I { s with output := { s.output with columns := columns, definition := definition, isOpen := isOpen } } b
  file : ∀ e s b b', FileEvent e → R e b b' → I s b → I s b'
  header : ∀ columns a s b b', fixedColumns row s.registry = .ok columns → R (.call (.writeHeader columns) a) b b' →
    I s b → I s b'

/-- Nor on what a batch does before its rows are written. -/
structure EndFrame (R : Event sdk → B → B → Prop) (row : Row) (I : RunState → B → Prop) : Prop
    extends TableFrame R row I, MapFrame R row I, ReopenFrame R I

section Ends

variable {I : RunState → B → Prop} {row : Row}

theorem keeps_startRun (hE : TableFrame R row I) : Keeps R I (startRun row) := by
  refine keeps_bind (keeps_quietPerform hE.quiet rfl) fun t0 => ?_
  refine keeps_bind (keeps_quietCall hE.quiet rfl) fun info => ?_
  refine keeps_bind (keeps_modify fun s _ h => ?_) fun _ => ?_
  · exact hE.start t0 s.state.peekCursor (hE.info info h)
  refine keeps_bind keeps_ofExcept fun _ => ?_
  refine keeps_bind (keeps_when (keeps_warn hE.toStillFrame _ _)) fun _ => ?_
  exact keeps_ite (fun hformat => keeps_modify fun _ _ h => hE.seed hformat h) fun _ => keeps_pure

theorem keeps_fileCall {c : Call} {α : Type} {result : Reply c → Except Exn α} (hE : TableFrame R row I)
    (hc : ∀ a, FileEvent (.call c a)) : Keeps R I (Prog.request (S := sdk) c result) :=
  keeps_request fun a s b b' hR => hE.file (.call c a) s b b' (hc a) hR

theorem wp_updateOutput {change : OutputTable → OutputTable} {Q : Except Exn Unit → RunState → B → Prop} {s : RunState}
    {b : B} : Wp R (updateOutput change) Q s b ↔ Q (.ok ()) { s with output := change s.output } b := wp_modify

theorem keeps_openOutput (hE : TableFrame R row I) : Keeps R I (openOutput row) := by
  intro s b hI
  rw [openOutput, wp_bind, wp_get, onOk_ok, wp_bind, wp_ofExcept]
  cases hcolumns : fixedColumns row s.registry with
  | error e => exact hI
  | ok columns =>
    let definition := createDefinition row columns s.output.writeAlwaysArmed
    let opened := { s with output := { s.output with columns := columns, definition := some definition } }
    rw [onOk_ok, wp_bind, wp_updateOutput, onOk_ok, wp_bind, wp_updateOutput, onOk_ok, writeManifest, wp_bind,
      wp_request]
    intro manifest b₁ hR₁
    have hI₁ : I opened b₁ := hE.file (.call (.writeManifest definition) manifest) opened b b₁ trivial hR₁
      (hE.output columns (some definition) s.output.isOpen hI)
    cases manifest with
    | error e => exact hI₁
    | ok _ =>
      rw [fileResult_ok, onOk_ok, wp_bind, wp_request]
      intro csv b₂ hR₂
      have hI₂ : I opened b₂ := hE.file (.call .createCsv csv) opened b₁ b₂ trivial hR₂ hI₁
      cases csv with
      | error e => exact hI₂
      | ok _ =>
        rw [fileResult_ok, onOk_ok, wp_bind, wp_updateOutput, onOk_ok, wp_request]
        intro header b₃ hR₃
        exact hE.header columns header _ b₂ b₃ hcolumns hR₃ (hE.output columns (some definition) true hI₂)

theorem keeps_closeOutput (hE : TableFrame R row I) : Keeps R I closeOutput := by
  refine keeps_bind keeps_get fun _ => ?_
  exact keeps_when (keeps_bind (keeps_fileCall hE fun _ => trivial) fun _ => keeps_modify
    fun s _ h => hE.output s.output.columns s.output.definition false h)

theorem keeps_withOutput (hE : TableFrame R row I) {p : Run (Option Unit)} (hp : Keeps R I p) :
    Keeps R I (withOutput row p) := by
  refine keeps_bind (keeps_openOutput hE) fun _ => keeps_bind (keeps_attempt hp) fun r => ?_
  rcases r with error | _ | _
  · exact keeps_bind (keeps_tryCatch (keeps_closeOutput hE) fun _ => keeps_pure) fun _ => keeps_throw
  · exact keeps_pure
  · exact keeps_bind (keeps_closeOutput hE) fun _ => keeps_pure

theorem keeps_noteThrottled (hF : Frame R I) (count : ℕ) : Keeps R I (noteThrottled count) := by
  refine keeps_bind (keeps_tally hF.toStillFrame _) fun _ => ?_
  refine keeps_bind keeps_get fun _ => ?_
  exact keeps_when (keeps_warn hF.toStillFrame _ _)

theorem keeps_consumeEntity (hF : Frame R I) {turns : ℕ} (hloop : Keeps R I (runReceiveLoop row turns)) :
    Keeps R I (consumeEntity row turns) := by
  refine keeps_bind (keeps_when (keeps_warn hF.toStillFrame _ _)) fun _ => ?_
  exact keeps_bind (keeps_when (keeps_warn hF.toStillFrame _ _)) fun _ => hloop

end Ends

end ServiceBusExtractor
