import ServiceBusExtractor.Frame

/-!
# Invariants of a whole run

An invariant that the quiet parts, a receive, the recovery of orphans and a batch
keep is one of the whole run. The two steps that are different from run to run — the
commit, which decides what the run's pending set starts with, and the one write of
the state at the end — are left to whoever uses the rules.

## The model

* `RunSteps R row I` — `I` depends on nothing but what batches and the commit change,
  and batches keep it; `PeekSteps R row I` — the same for a run that peeks.
* `BatchEvent`, `RunEvent` — what a batch and what a run may do; `Outside` — an
  invariant of the surroundings that their events keep.

## What is proved

`wp_destructiveRun` and `wp_peekRun`: from the invariant before the commit and the
one after it to how the run ends.
-/

namespace ServiceBusExtractor

open Interaction

variable {B : Type} {R : Event sdk → B → B → Prop}

/-- `I` is indifferent to the quiet parts, the ends and the table, and batches and receives keep it. -/
structure RunSteps (R : Event sdk → B → B → Prop) (row : Row) (I : RunState → B → Prop) : Prop
    extends EndFrame R row I where
  table : ∀ {s b} output settlerArmed, I s b → I { s with output := output, settlerArmed := settlerArmed } b
  receive : ∀ receiver count wait a s b b', R (.call (.receiveMessages receiver count wait) a) b b' → I s b → I s b'
  recover : ∀ orphans, Keeps R (InScan I) (recoverOrphans row orphans)
  process : ∀ receiver messages generation, Keeps R I (process row receiver messages generation)

section Arming

variable {I : RunState → B → Prop}

/-- Arming changes the table and writes a manifest. -/
theorem keeps_armWriteAlways
    (htable : ∀ {s b} output settlerArmed, I s b → I { s with output := output, settlerArmed := settlerArmed } b)
    (hmanifest : ∀ definition a s b b', R (.call (.writeManifest definition) a) b b' → I s b → I s b') :
    Keeps R I armWriteAlways := by
  refine keeps_bind keeps_get fun s => keeps_ite (fun _ => keeps_pure) fun _ => ?_
  cases s.output.definition with
  | none => exact keeps_throw
  | some definition =>
    exact keeps_bind (keeps_modify fun s _ hI => htable _ s.settlerArmed hI) fun _ => keeps_request (hmanifest _)

/-- The settler of complete mode keeps what arming and the call keep. -/
theorem keeps_completeSettle_of (hF : StillFrame R I)
    (htable : ∀ {s b} output settlerArmed, I s b → I { s with output := output, settlerArmed := settlerArmed } b)
    (hmanifest : ∀ definition a s b b', R (.call (.writeManifest definition) a) b b' → I s b → I s b')
    (hcomplete : ∀ receiver message, Keeps R I (completeMessage receiver message)) (receiver : Handle)
    (message : Message) : Keeps R I (completeSettle receiver message) := by
  refine keeps_bind keeps_get fun _ => ?_
  refine keeps_bind (keeps_when
    (keeps_bind (keeps_armWriteAlways htable hmanifest) fun _ => keeps_modify fun s _ hI => htable s.output true hI))
    fun _ => ?_
  exact keeps_bind (hcomplete receiver message) fun _ => keeps_tally hF _

end Arming

section Destructive

variable {row : Row} {I : RunState → B → Prop}

/-- The loop of a run keeps what its steps keep. -/
theorem RunSteps.loopSteps (hS : RunSteps R row I) : LoopSteps R row (fun _ => I) fun _ => True where
  frame _ := hS.toFrame
  reopen _ := hS.toReopenFrame
  receive receiver count wait := by
    have hK : LoopFrame R (InLoop fun _ => I) := loopFrame_inLoop fun _ => hS.toFrame
    intro l b hI
    refine Wp.mono ?_ fun _ _ _ h => ⟨h, fun _ _ _ => trivial⟩
    revert l b
    refine keeps_bind (keeps_updateLoop hK fun _ => ⟨rfl, rfl, rfl, rfl⟩) fun _ => ?_
    refine keeps_bind (keeps_request ?_) fun batch => ?_
    · exact fun a l b b' hR hI => hS.receive receiver count wait a l.run b b' hR hI
    · refine keeps_bind (keeps_onRun fun _ => keeps_modify fun _ _ hI => hS.info _ hI) fun _ => ?_
      refine keeps_bind keeps_get fun l => ?_
      refine keeps_bind (keeps_when ?_) fun _ => keeps_pure
      refine keeps_bind (keeps_onRun fun _ => ?_) fun _ => keeps_modify fun _ _ hI => hI
      exact keeps_armWriteAlways hS.table fun _ _ _ _ _ => hS.file _ _ _ _ trivial
  process _ receiver batch generation s b hI _ := hS.process receiver batch generation s b hI
  abandon _ _ _ := keeps_handlingCall hS.disposal fun _ => trivial

theorem keeps_runReceiveLoop (hS : RunSteps R row I) (turns : ℕ) : Keeps R I (runReceiveLoop row turns) := by
  intro s b hI
  refine (wp_runReceiveLoop hS.loopSteps turns hI).mono ?_
  rintro _ _ _ ⟨-, hI'⟩
  exact hI'

/-- What follows the commit keeps the invariant. -/
theorem keeps_afterCommit (hS : RunSteps R row I) (turns : ℕ) : Keeps R I (do
    reconcileDeferrals row
    let reason ← consumeEntity row turns
    pure (reason.map fun _ => ()) : Run (Option Unit)) := by
  refine keeps_bind ?_ fun _ => keeps_bind (keeps_consumeEntity hS.toFrame (keeps_runReceiveLoop hS turns)) fun _ =>
    keeps_pure
  refine keeps_ite (fun _ => keeps_runScan hS.toFrame hS.recover) fun _ => keeps_probe hS.toFrame

end Destructive

/-! ### The peek pager -/

/-- A peeked message is skipped. -/
def SkipNote : Event sdk → Prop
  | .note (.expired _) | .note (.pendingActivation _) => True
  | _ => False

/-- `I` is indifferent to the quiet parts and skipped messages, and batches keep it. -/
structure PageSteps (R : Event sdk → B → B → Prop) (row : Row) (I : RunState → B → Prop) : Prop
    extends Frame R I, ReopenFrame R I, HandlingFrame R I where
  skip : ∀ e s b b', SkipNote e → R e b b' → I s b → I s b'
  process : ∀ receiver messages generation, Keeps R I (process row receiver messages generation)

/-- What the pager needs of that: it settles nothing itself. -/
structure PageFrame (R : Event sdk → B → B → Prop) (row : Row) (I : RunState → B → Prop) : Prop
    extends Frame R I, ReopenFrame R I where
  unreadable : ∀ {s b} unreadable, I s b → I { s with unreadable := unreadable } b
  skip : ∀ e s b b', SkipNote e → R e b b' → I s b → I s b'
  process : ∀ receiver messages generation, Keeps R I (process row receiver messages generation)

theorem PageSteps.pageFrame {row : Row} {I : RunState → B → Prop} (hS : PageSteps R row I) : PageFrame R row I where
  toFrame := hS.toFrame
  toReopenFrame := hS.toReopenFrame
  unreadable := hS.unreadable
  skip := hS.skip
  process := hS.process

/-- `I` is indifferent to the ends too. -/
structure PeekSteps (R : Event sdk → B → B → Prop) (row : Row) (I : RunState → B → Prop) : Prop
    extends EndFrame R row I, PageSteps R row I where
  cursor : ∀ {s b} peekCursor, I s b → I { s with peekCursor := peekCursor } b

/-- An invariant of the run as one of the pager. -/
def InPager (I : RunState → B → Prop) (s : PagerState) (b : B) : Prop := I s.run b

/-- The fields of the pager that only pages, and the turn to cursor mode, change. -/
structure Books where
  processed : List ℤ
  high : Option ℤ
  outstanding : Option ℤ
  taken : ℕ
  nextSeq : ℤ
  cursorMode : Bool

/-- The books of a pager. -/
def PeekPager.books (pager : PeekPager) : Books where
  processed := pager.processed
  high := pager.high
  outstanding := pager.outstanding
  taken := pager.taken
  nextSeq := pager.nextSeq
  cursorMode := pager.cursorMode

/-- `K` does not depend on the run's counters and metadata, on quiet events or on the pager's connection. -/
structure PagerFrame (R : Event sdk → B → B → Prop) (K : PagerState → B → Prop) : Prop where
  run : ∀ pager, Frame R fun s b => K ⟨s, pager⟩ b
  reopened : ∀ n l b b', n.reopens = true → R (.note n) b b' → K l b → K l b'
  connection : ∀ {l b} pager, pager.books = l.pager.books → K l b → K { l with pager := pager } b

section Pager

variable {row : Row} {I : RunState → B → Prop} {K : PagerState → B → Prop}

theorem pagerFrame_inPager (hF : Frame R I) (hO : ReopenFrame R I) : PagerFrame R (InPager I) where
  run _ := hF
  reopened n l := hO.reopened n l.run
  connection _ _ hI := hI

theorem keeps_onPagerRun_of {α : Type} {p : Run α} (hp : ∀ pager, Keeps R (fun s b => K ⟨s, pager⟩ b) p) :
    Keeps R K (onPagerRun p) := keeps_embed (fun _ => rfl) fun l => hp l.pager

theorem quietKeeps_pager (hK : PagerFrame R K) : QuietKeeps R K :=
  fun e l b b' he hR h => (hK.run l.pager).quiet e l.run b b' he hR h

theorem keeps_connection (hK : PagerFrame R K) {change : PeekPager → PeekPager}
    (h : ∀ pager : PeekPager, (change pager).books = pager.books) : Keeps R K (updatePager change) :=
  keeps_modify fun l _ hI => hK.connection _ (h l.pager) hI

theorem keeps_pagerStopCheck (hK : PagerFrame R K) : Keeps R K (pagerStopCheck row) := by
  refine keeps_bind keeps_get fun _ => ?_
  refine keeps_ite (fun _ => keeps_pure) fun _ => ?_
  refine keeps_bind (keeps_quietPerform (quietKeeps_pager hK) rfl) fun _ => ?_
  exact keeps_ite (fun _ => keeps_pure) fun _ => keeps_pure

theorem keeps_closePager (hK : PagerFrame R K) : Keeps R K closePager := by
  have hq := quietKeeps_pager hK
  refine keeps_bind keeps_get fun _ => ?_
  refine keeps_bind (keeps_connection hK fun _ => rfl) fun _ => ?_
  refine keeps_bind (keeps_whenOpen fun h => keeps_closeReceiverQuietly hq h) fun _ => ?_
  refine keeps_bind (keeps_forM fun h _ => keeps_closeReceiverQuietly hq h) fun _ => ?_
  exact keeps_whenOpen fun h => keeps_closeClientQuietly hq h

theorem keeps_closePageReceiver (hK : PagerFrame R K) : Keeps R K closePageReceiver := by
  refine keeps_bind keeps_get fun _ => ?_
  exact keeps_bind (keeps_connection hK fun _ => rfl) fun _ => keeps_whenOpen
    fun h => keeps_closeReceiverQuietly (quietKeeps_pager hK) h

theorem keeps_recoverPager (hK : PagerFrame R K) (error : Exn) : Keeps R K (recoverPager row error) := by
  refine keeps_bind (keeps_closePager hK) fun _ => ?_
  refine keeps_bind keeps_get fun _ => ?_
  refine keeps_bind keeps_ofExcept fun _ => ?_
  refine keeps_bind (keeps_connection hK fun _ => rfl) fun _ => ?_
  exact keeps_bind (keeps_onPagerRun_of fun pager => keeps_tally (hK.run pager).toStillFrame _)
    fun _ => keeps_logRecovery (quietKeeps_pager hK) (fun l b b' => hK.reopened .recovery l b b' rfl) row error _

theorem keeps_openPager (hK : PagerFrame R K) (session : SessionRequest) : Keeps R K (openPager row session) := by
  have hq := quietKeeps_pager hK
  refine keeps_bind (keeps_bind keeps_get fun s => ?_) fun client => ?_
  · cases s.pager.client with
    | some client => exact keeps_pure
    | none =>
      refine keeps_bind (keeps_quietCall hq rfl) fun _ => ?_
      exact keeps_bind (keeps_connection hK fun _ => rfl) fun _ => keeps_pure
  refine keeps_bind (keeps_openReceiver hq) fun receiver => ?_
  exact keeps_bind (keeps_enterReceiver hq receiver) fun _ => keeps_pure

theorem keeps_pageReceiver (hK : PagerFrame R K) : Keeps R K (pageReceiver row) := by
  refine keeps_bind keeps_get fun s => ?_
  cases s.pager.receiver with
  | some receiver => exact keeps_pure
  | none =>
    refine keeps_bind (keeps_openPager hK _) fun _ => ?_
    exact keeps_bind (keeps_connection hK fun _ => rfl) fun _ => keeps_pure

end Pager

section Peek

variable {row : Row} {I : RunState → B → Prop}

theorem keeps_onPagerRun {α : Type} {p : Run α} (hp : Keeps R I p) : Keeps R (InPager I) (onPagerRun p) :=
  keeps_onPagerRun_of fun _ => hp

theorem keeps_updatePager (change : PeekPager → PeekPager) : Keeps R (InPager I) (updatePager change) :=
  keeps_modify fun _ _ h => h

theorem quietKeeps_inPager (hF : Frame R I) : QuietKeeps R (InPager I) := fun e l b b' => hF.quiet e l.run b b'

theorem keeps_selectPage (hS : PageFrame R row I) (now : Time) (selected page : List Message) :
    Keeps R (InPager I) (selectPage row now selected page) := by
  have hskip : ∀ {note : Note}, SkipNote (.note note) →
      Keeps R (InPager I) (Prog.note (S := sdk) note : Pager Unit) :=
    fun hn => keeps_note fun s b b' hR hI => hS.skip _ s.run b b' hn hR hI
  induction page generalizing selected with
  | nil => exact keeps_pure
  | cons message rest ih =>
    have hmark : ∀ {change : RunStats → RunStats} {note : Note},
        (∀ stats : RunStats, stats.SameMarks (change stats)) → SkipNote (.note note) → Keeps R (InPager I) (do
        onPagerRun (tally change)
        Prog.note (S := sdk) note
        markProcessed message.sequenceNumber
        selectPage row now selected rest) := by
      intro _ _ hsame hn
      refine keeps_bind (keeps_onPagerRun (keeps_tally hS.toStillFrame _ hsame)) fun _ => ?_
      refine keeps_bind (hskip hn) fun _ => ?_
      exact keeps_bind (keeps_updatePager _) fun _ => ih selected
    refine keeps_bind keeps_get fun s => ?_
    refine keeps_ite (fun _ => ih selected) fun _ => ?_
    refine keeps_ite (fun _ => keeps_pure) fun _ => ?_
    refine keeps_ite (fun _ => hmark (fun _ => ⟨rfl, rfl, rfl⟩) trivial) fun _ => ?_
    refine keeps_ite (fun _ => hmark (fun _ => ⟨rfl, rfl, rfl⟩) trivial) fun _ => ?_
    refine keeps_ite (fun _ => keeps_pure) fun _ => ih _

theorem keeps_processPage (hS : PageFrame R row I) (receiver : Handle) (messages : List Message) :
    Keeps R (InPager I) (processPage row receiver messages) := by
  refine keeps_bind keeps_get fun s => ?_
  refine keeps_bind (keeps_ensuring (keeps_onPagerRun (hS.process receiver messages _)) ?_) fun result => ?_
  · exact keeps_bind keeps_get fun _ => keeps_when (keeps_updatePager _)
  refine keeps_bind (keeps_when (keeps_updatePager _)) fun _ => ?_
  refine keeps_bind (keeps_forM fun message _ => ?_) fun _ => keeps_pure
  exact keeps_when (keeps_bind (keeps_updatePager _) fun _ => keeps_updatePager _)

theorem keeps_exportPage (hS : PageFrame R row I) (receiver : Handle) (page : List Message) :
    Keeps R (InPager I) (exportPage row receiver page) := by
  refine keeps_bind (keeps_quietPerform (quietKeeps_inPager hS.toFrame) rfl) fun now => ?_
  refine keeps_bind (keeps_selectPage hS now [] page) fun selected => ?_
  refine keeps_bind (keeps_ite (fun _ => keeps_pure) fun _ => keeps_processPage hS receiver _) fun retried => ?_
  refine keeps_bind (keeps_updatePager _) fun _ => ?_
  refine keeps_bind keeps_get fun _ => ?_
  exact keeps_bind (keeps_when (keeps_onPagerRun (keeps_warn hS.toStillFrame _ _))) fun _ => keeps_pure

theorem keeps_setRetries (hS : PageFrame R row I) (enabled : Bool) : Keeps R (InPager I) (setRetries enabled) :=
  keeps_onPagerRun (keeps_modify fun _ _ h => hS.unreadable _ h)

theorem keeps_pageStep (hS : PageFrame R row I) (incremental : Bool) :
    Keeps R (InPager I) (pageStep row incremental) := by
  have hF := hS.toFrame
  have hq := quietKeeps_inPager hF
  have hpager : PagerFrame R (InPager I) := pagerFrame_inPager hF hS.toReopenFrame
  have hreveals : ∀ page, Keeps R (InPager I) (revealsPartitions page) := by
    intro page
    refine keeps_bind keeps_get fun _ => ?_
    refine keeps_ite (fun _ => keeps_pure) fun _ => ?_
    refine keeps_bind (keeps_onPagerRun (keeps_modify fun _ _ h => hF.info _ h)) fun _ => ?_
    exact keeps_bind keeps_get fun _ => keeps_pure
  have hpartitions : Keeps R (InPager I) (onPartitions incremental) := by
    refine keeps_ite (fun _ => keeps_throw) fun _ => ?_
    refine keeps_bind (keeps_updatePager _) fun _ => ?_
    refine keeps_bind (keeps_setRetries hS _) fun _ => ?_
    exact keeps_bind (keeps_closePageReceiver hpager) fun _ => keeps_pure
  have hrecycle : ∀ retried, Keeps R (InPager I) (recyclePager retried) := by
    intro retried
    refine keeps_bind (keeps_closePager hpager) fun _ => ?_
    refine keeps_bind (keeps_updatePager _) fun _ => ?_
    refine keeps_bind (keeps_onPagerRun (keeps_modify fun _ _ hI => hS.recycled _ hI)) fun _ => ?_
    exact keeps_bind (keeps_note fun l b b' => hS.reopened .recycle l.run b b' rfl) fun _ => keeps_updatePager _
  have hafter : ∀ page result, Keeps R (InPager I) (afterPage incremental page result) := by
    intro page result
    refine keeps_ite (fun _ => keeps_bind (hrecycle _) fun _ => keeps_pure) fun _ => ?_
    cases result.1 with
    | some stop => exact keeps_pure
    | none => exact keeps_bind (keeps_updatePager _) fun _ => keeps_pure
  refine keeps_bind (keeps_pagerStopCheck hpager) fun stop => ?_
  cases stop with
  | some stop => exact keeps_pure
  | none =>
    refine keeps_bind (keeps_pageReceiver hpager) fun receiver => ?_
    refine keeps_bind keeps_get fun s => ?_
    refine keeps_bind (keeps_quietCall hq rfl) fun page => ?_
    refine keeps_ite (fun _ => keeps_pure) fun _ => ?_
    refine keeps_bind (hreveals page) fun reveals => ?_
    refine keeps_ite (fun _ => hpartitions) fun _ => ?_
    exact keeps_bind (keeps_exportPage hS receiver page) fun result => hafter page result

theorem keeps_pageTurn (hS : PageFrame R row I) (incremental : Bool) :
    Keeps R (InPager I) (pageTurn row incremental) := by
  refine keeps_tryCatch (keeps_pageStep hS incremental) fun error => ?_
  refine keeps_ite (fun _ => keeps_throw) fun _ => ?_
  exact keeps_bind (keeps_recoverPager (pagerFrame_inPager hS.toFrame hS.toReopenFrame) error) fun _ => keeps_pure

theorem keeps_sessionStep (hS : PageFrame R row I) : Keeps R (InPager I) (sessionStep row) := by
  have hF := hS.toFrame
  have hq := quietKeeps_inPager hF
  have hpager : PagerFrame R (InPager I) := pagerFrame_inPager hF hS.toReopenFrame
  have hopen : Keeps R (InPager I) (openPagerSession row) := by
    refine keeps_bind (keeps_tryCatch (keeps_bind (keeps_openPager hpager _) fun _ => keeps_pure)
      fun _ => keeps_ite (fun _ => keeps_pure) fun _ => keeps_throw) fun opened => ?_
    cases opened with
    | none => exact keeps_pure
    | some receiver =>
      refine keeps_bind (keeps_updatePager _) fun _ => ?_
      refine keeps_bind (keeps_quietPerform hq rfl) fun id => ?_
      refine keeps_bind keeps_get fun _ => ?_
      refine keeps_bind (keeps_quietNote hq rfl) fun _ => ?_
      refine keeps_ite (fun _ => keeps_pure) fun _ => ?_
      exact keeps_bind (keeps_updatePager _) fun _ => keeps_pure
  have hpeek : ∀ receiver, Keeps R (InPager I) (peekSessionPage row receiver) := by
    intro receiver
    refine keeps_bind (keeps_quietPerform hq rfl) fun now => ?_
    refine keeps_bind (keeps_renewSessionIfNeeded hq receiver now) fun _ => ?_
    refine keeps_bind keeps_get fun _ => ?_
    refine keeps_bind (keeps_quietCall hq rfl) fun page => ?_
    refine keeps_ite (fun _ => ?_) fun _ => keeps_bind (keeps_exportPage hS receiver page) fun result => ?_
    · exact keeps_bind (keeps_updatePager _) fun _ => keeps_pure
    · rcases result with ⟨_ | stop, _⟩
      · exact keeps_bind (keeps_updatePager _) fun _ => keeps_pure
      · cases stop <;> first
          | exact keeps_pure
          | exact keeps_bind (keeps_updatePager _) fun _ => keeps_pure
  refine keeps_bind (keeps_pagerStopCheck hpager) fun stop => ?_
  cases stop with
  | some stop => exact keeps_pure
  | none =>
    refine keeps_bind keeps_get fun s => ?_
    cases s.pager.session with
    | none => exact hopen
    | some receiver => exact hpeek receiver

theorem keeps_pagerLoop (hS : PageFrame R row I) (start : ℤ) (incremental : Bool) (turns : ℕ) :
    Keeps R (InPager I) (pagerLoop row start incremental turns) := by
  have hF := hS.toFrame
  have hpager : PagerFrame R (InPager I) := pagerFrame_inPager hF hS.toReopenFrame
  have hpages : Keeps R (InPager I) (runPages row start incremental turns) := by
    refine keeps_bind keeps_get fun _ => ?_
    refine keeps_bind (keeps_updatePager _) fun _ => ?_
    refine keeps_bind (keeps_when (keeps_setRetries hS _)) fun _ => ?_
    exact keeps_iterate (keeps_pageTurn hS incremental) turns
  have hafter : ∀ error : Exn, Keeps R (InPager I) (afterSessionFailure row error) := by
    refine fun error => keeps_bind (keeps_updatePager _) fun _ => keeps_when ?_
    exact keeps_bind (keeps_recoverPager hpager error) fun _ => keeps_updatePager _
  have hsessions : Keeps R (InPager I) (runSessions row turns) := by
    refine keeps_bind (keeps_setRetries hS _) fun _ => ?_
    refine keeps_bind (keeps_onPagerRun (keeps_warn hF.toStillFrame _ _)) fun _ => ?_
    refine keeps_iterate (keeps_tryCatch (keeps_sessionStep hS) fun error => ?_) turns
    exact keeps_ite (fun _ => keeps_throw) fun _ => keeps_bind (hafter error) fun _ => keeps_pure
  exact keeps_ite (fun _ => hsessions) fun _ => hpages

theorem keeps_endPager (hS : PageFrame R row I) (enabled : Bool) : Keeps R (InPager I) (endPager enabled) :=
  keeps_bind (keeps_setRetries hS enabled) fun _ => keeps_closePager (pagerFrame_inPager hS.toFrame hS.toReopenFrame)

/-- The pager keeps what its pages keep. -/
theorem keeps_runPeekPager (hS : PageFrame R row I) (turns : ℕ) : Keeps R I (runPeekPager row turns) := by
  have hF := hS.toFrame
  have hrun : Keeps R (InPager I) (PeekPager.run row turns) := by
    refine keeps_bind keeps_get fun s => ?_
    refine keeps_ite (fun _ => keeps_throw) fun _ => ?_
    refine keeps_bind (keeps_quietPerform (quietKeeps_inPager hF) rfl) fun now => ?_
    refine keeps_bind (keeps_updatePager _) fun _ => ?_
    refine keeps_bind (keeps_finishing (keeps_pagerLoop hS _ _ turns) (keeps_endPager hS _)) fun reason => ?_
    cases reason with
    | none => exact keeps_pure
    | some reason =>
      refine keeps_bind (keeps_onPagerRun (keeps_tally hF.toStillFrame _)) fun _ => ?_
      exact keeps_bind keeps_get fun _ => keeps_pure
  intro s b hI
  have hI' : InPager I { run := s, pager := {} } b := hI
  exact wp_embed.mpr (hrun.wp hI' fun _ _ _ h => h)

/-- The peeking part of a run keeps what the pager keeps. -/
theorem keeps_peekRun (hS : PeekSteps R row I) (turns : ℕ) : Keeps R I (peekRun row turns) := by
  refine keeps_bind keeps_get fun s => ?_
  refine keeps_bind (keeps_when (keeps_warn hS.toStillFrame _ _)) fun _ => ?_
  refine keeps_bind (keeps_runPeekPager hS.toPageSteps.pageFrame turns) fun cursor => ?_
  cases cursor with
  | none => exact keeps_pure
  | some cursor => exact keeps_bind (keeps_modify fun _ _ h => hS.cursor cursor h) fun _ => keeps_pure

end Peek

/-! ### Invariants from others -/

section And

variable {row : Row} {I J : RunState → B → Prop}

theorem EndFrame.and (hI : EndFrame R row I) (hJ : EndFrame R row J) : EndFrame R row fun s b => I s b ∧ J s b where
  stats stats hsame h := ⟨hI.stats stats hsame h.1, hJ.stats stats hsame h.2⟩
  guarded guarded h := ⟨hI.guarded guarded h.1, hJ.guarded guarded h.2⟩
  info info h := ⟨hI.info info h.1, hJ.info info h.2⟩
  quiet e s b b' he hR h := ⟨hI.quiet e s b b' he hR h.1, hJ.quiet e s b b' he hR h.2⟩
  recycled recycles h := ⟨hI.recycled recycles h.1, hJ.recycled recycles h.2⟩
  reopened n s b b' hn hR h := ⟨hI.reopened n s b b' hn hR h.1, hJ.reopened n s b b' hn hR h.2⟩
  written written h := ⟨hI.written written h.1, hJ.written written h.2⟩
  unreadable unreadable h := ⟨hI.unreadable unreadable h.1, hJ.unreadable unreadable h.2⟩
  handling e s b b' he hR h := ⟨hI.handling e s b b' he hR h.1, hJ.handling e s b b' he hR h.2⟩
  registry registry hmaps h := ⟨hI.registry registry hmaps h.1, hJ.registry registry hmaps h.2⟩
  seed hformat _ _ h := ⟨hI.seed hformat h.1, hJ.seed hformat h.2⟩
  start t0 peekCursor h := ⟨hI.start t0 peekCursor h.1, hJ.start t0 peekCursor h.2⟩
  output columns definition isOpen h :=
    ⟨hI.output columns definition isOpen h.1, hJ.output columns definition isOpen h.2⟩
  file e s b b' he hR h := ⟨hI.file e s b b' he hR h.1, hJ.file e s b b' he hR h.2⟩
  header columns a s b b' hcolumns hR h :=
    ⟨hI.header columns a s b b' hcolumns hR h.1, hJ.header columns a s b b' hcolumns hR h.2⟩

theorem RunSteps.and (hI : RunSteps R row I) (hJ : RunSteps R row J) : RunSteps R row fun s b => I s b ∧ J s b where
  toEndFrame := hI.toEndFrame.and hJ.toEndFrame
  table output settlerArmed h := ⟨hI.table output settlerArmed h.1, hJ.table output settlerArmed h.2⟩
  receive receiver count wait a s b b' hR h :=
    ⟨hI.receive receiver count wait a s b b' hR h.1, hJ.receive receiver count wait a s b b' hR h.2⟩
  recover orphans s b h := (hI.recover orphans s b h.1).and (hJ.recover orphans s b h.2)
  process receiver messages generation s b h :=
    (hI.process receiver messages generation s b h.1).and (hJ.process receiver messages generation s b h.2)

theorem PeekSteps.and (hI : PeekSteps R row I) (hJ : PeekSteps R row J) : PeekSteps R row fun s b => I s b ∧ J s b where
  toEndFrame := hI.toEndFrame.and hJ.toEndFrame
  skip e s b b' he hR h := ⟨hI.skip e s b b' he hR h.1, hJ.skip e s b b' he hR h.2⟩
  cursor peekCursor h := ⟨hI.cursor peekCursor h.1, hJ.cursor peekCursor h.2⟩
  process receiver messages generation s b h :=
    (hI.process receiver messages generation s b h.1).and (hJ.process receiver messages generation s b h.2)

end And

/-! ### Invariants of the surroundings -/

/-- What settling a message may do, waiting aside. -/
def SettleEvent : Event sdk → Prop
  | .call (.renewMessageLock ..) _ | .call (.completeMessage ..) _ | .call (.deferMessage ..) _
  | .call (.writeManifest _) _ => True
  | _ => False

/-- What the processing of a batch may do. -/
def BatchEvent : Event sdk → Prop
  | .call (.renewMessageLock ..) _ | .call (.completeMessage ..) _ | .call (.deferMessage ..) _
  | .call (.writeRows _) _ | .call (.writeManifest _) _ => True
  | e => Still e ∨ Handling e

/-- What the parts of a run beside the deferred receives, the opening of the table and the write of the state may do. -/
def RunEvent : Event sdk → Prop
  | .call (.receiveDeferredMessages ..) _ | .call (.writeHeader _) _ | .call (.writeStateFile _) _ => False
  | _ => True

/-- `J` looks at the surroundings, at the input and at the flatten registry only: what a run does to them keeps it. -/
structure Outside (R : Event sdk → B → B → Prop) (row : Row) (J : ExtractorState → Option FlattenRegistry → B → Prop) :
    Prop where
  event : ∀ e state registry b b', RunEvent e → R e b b' → J state registry b → J state registry b'
  header : ∀ columns a state registry b b', fixedColumns row registry = .ok columns →
    R (.call (.writeHeader columns) a) b b' → J state registry b → J state registry b'
  mapped : ∀ state registry registry' b, Maps row registry registry' → J state registry b → J state registry' b
  seeded : row.config.body.bodyFormat = .jsonFlatten → ∀ state registry b, J state registry b →
    J state (some (.seed state.flattenColumns metadataColumnNames)) b

section Outside

variable {row : Row} {J : ExtractorState → Option FlattenRegistry → B → Prop}

theorem batchEvent_of_still {e : Event sdk} (he : Still e) : BatchEvent e := by
  rcases e with ⟨c, r⟩ | n
  · cases c <;> first | exact .inl he | exact he.elim
  · exact .inl he

theorem batchEvent_of_handling {e : Event sdk} (he : Handling e) : BatchEvent e := by
  rcases e with ⟨c, r⟩ | n
  · cases c <;> first | exact .inr he | exact he.elim
  · exact .inr he

theorem batchEvent_of_settle {e : Event sdk} (he : SettleEvent e) : BatchEvent e := by
  rcases e with ⟨c, r⟩ | n
  · cases c <;> first | exact he | exact he.elim
  · exact he.elim

theorem runEvent_of_quiet {e : Event sdk} (he : Quiet e) : RunEvent e := by
  rcases e with ⟨c, r⟩ | n
  · cases c <;> trivial
  · trivial

theorem runEvent_of_batchEvent {e : Event sdk} (he : BatchEvent e) : RunEvent e := by
  rcases e with ⟨c, r⟩ | n
  · cases c <;> first | trivial | exact he.elim id id
  · trivial

theorem runEvent_of_file {e : Event sdk} (he : FileEvent e) : RunEvent e := by
  rcases e with ⟨c, r⟩ | n
  · cases c <;> trivial
  · trivial

/-- Writing rows keeps what the call keeps. -/
theorem keeps_writeRows_of_call {I : RunState → B → Prop}
    (hwrite : ∀ records a s b b', R (.call (.writeRows records) a) b b' → I s b → I s b') (rows : List OutputRow) :
    Keeps R I (writeRows row rows) := by
  refine keeps_bind keeps_get fun _ => ?_
  refine keeps_bind (keeps_when keeps_throw) fun _ => ?_
  exact keeps_bind keeps_ofExcept fun _ => keeps_request (hwrite _)

/-- Settling keeps what its calls keep, where the invariant does not look at the table, its arming or the pending
set. -/
theorem keeps_settle_of_calls {I : RunState → B → Prop} (hF : StillFrame R I)
    (hevent : ∀ e s b b', SettleEvent e → R e b b' → I s b → I s b')
    (htable : ∀ {s b} output settlerArmed, I s b → I { s with output := output, settlerArmed := settlerArmed } b)
    (hpending : ∀ {s b} pending, I s b → I { s with pending := pending } b) (receiver : Handle) (message : Message)
    (bodyBytes : ℕ) : Keeps R I (settle row receiver message bodyBytes) := by
  have hcall : ∀ {c : Call} {α : Type} {result : Reply c → Except Exn α}, (∀ a, SettleEvent (.call c a)) →
      Keeps R I (Prog.request (S := sdk) c result) :=
    fun hc => keeps_request fun a s b b' => hevent _ s b b' (hc a)
  refine keeps_settle hF (fun _ _ => hcall fun _ => trivial) ?_ ?_ receiver message bodyBytes
  · exact fun _ => keeps_completeSettle_of hF htable
      (fun definition a s b b' => hevent (.call (.writeManifest definition) a) s b b' trivial)
      fun _ _ => hcall fun _ => trivial
  · exact fun _ receiver message bodyBytes => keeps_bind (hcall fun _ => trivial) fun _ =>
      keeps_bind (keeps_modify fun s _ h => hpending _ h) fun _ => keeps_tally hF _

/-- A batch keeps what its events keep, where the invariant does not look at the table, its arming or the pending
set. -/
theorem keeps_process_of_calls {I : RunState → B → Prop} (hM : MapFrame R row I)
    (hevent : ∀ e s b b', BatchEvent e → R e b b' → I s b → I s b')
    (htable : ∀ {s b} output settlerArmed, I s b → I { s with output := output, settlerArmed := settlerArmed } b)
    (hpending : ∀ {s b} pending, I s b → I { s with pending := pending } b) (receiver : Handle)
    (messages : List Message)
    (generation : ℕ) : Keeps R I (process row receiver messages generation) :=
  keeps_process hM (keeps_writeRows_of_call fun records a s b b' =>
    hevent (.call (.writeRows records) a) s b b' trivial)
    (keeps_settle_of_calls hM.toStillFrame
      (fun e s b b' he => hevent e s b b' (batchEvent_of_settle he)) htable hpending)
    receiver messages generation

/-- A batch keeps what its events and the mapping keep. -/
theorem keeps_process_of_events
    (hJ : ∀ e state registry b b', BatchEvent e → R e b b' → J state registry b → J state registry b')
    (hmapped : ∀ state registry registry' b, Maps row registry registry' → J state registry b → J state registry' b)
    (receiver : Handle) (messages : List Message) (generation : ℕ) :
    Keeps R (fun s b => J s.state s.registry b) (process row receiver messages generation) := by
  have hM : MapFrame R row (fun (s : RunState) b => J s.state s.registry b) := {
    stats := fun _ _ h => h
    still := fun e s b b' he hR h => hJ e s.state s.registry b b' (batchEvent_of_still he) hR h
    unreadable := fun _ h => h
    handling := fun e s b b' he hR h => hJ e s.state s.registry b b' (batchEvent_of_handling he) hR h
    registry := fun _ hmaps h => hmapped _ _ _ _ hmaps h }
  exact keeps_process_of_calls hM (fun e s b b' => hJ e s.state s.registry b b') (fun _ _ h => h) (fun _ h => h)
    receiver messages generation

theorem Outside.endFrame (hO : Outside R row J) : EndFrame R row fun s b => J s.state s.registry b where
  stats _ _ h := h
  info _ h := h
  quiet e s b b' he hR h := hO.event e s.state s.registry b b' (runEvent_of_quiet he) hR h
  reopened n s b b' _ hR h := hO.event (.note n) s.state s.registry b b' trivial hR h
  unreadable _ h := h
  handling e s b b' he hR h :=
    hO.event e s.state s.registry b b' (runEvent_of_batchEvent (batchEvent_of_handling he)) hR h
  registry _ hmaps h := hO.mapped _ _ _ _ hmaps h
  seed hformat _ _ h := hO.seeded hformat _ _ _ h
  start _ _ h := h
  output _ _ _ h := h
  file e s b b' he hR h := hO.event e s.state s.registry b b' (runEvent_of_file he) hR h
  header columns a s b b' hcolumns hR h := hO.header columns a s.state s.registry b b' hcolumns hR h

theorem Outside.keeps_process (hO : Outside R row J) (receiver : Handle) (messages : List Message) (generation : ℕ) :
    Keeps R (fun s b => J s.state s.registry b) (process row receiver messages generation) :=
  keeps_process_of_events (fun e state registry b b' he => hO.event e state registry b b' (runEvent_of_batchEvent he))
    hO.mapped
    receiver messages generation

/-- A run keeps it, if the deferred receives of the recovery do. -/
theorem Outside.runSteps (hO : Outside R row J)
    (hrecover : ∀ orphans, Keeps R (InScan fun s b => J s.state s.registry b) (recoverOrphans row orphans)) :
    RunSteps R row fun s b => J s.state s.registry b where
  toEndFrame := hO.endFrame
  table _ _ h := h
  receive receiver count wait a s b b' hR h :=
    hO.event (.call (.receiveMessages receiver count wait) a) s.state s.registry b b' trivial hR h
  recover := hrecover
  process := hO.keeps_process

/-- A run that peeks keeps it. -/
theorem Outside.peekSteps (hO : Outside R row J) : PeekSteps R row fun s b => J s.state s.registry b where
  toEndFrame := hO.endFrame
  skip e s b b' he hR h := by
    refine hO.event e s.state s.registry b b' ?_ hR h
    rcases e with ⟨c, r⟩ | n
    · exact he.elim
    · trivial
  cursor _ h := h
  process := hO.keeps_process

end Outside

/-! ### The run around its commit -/

section Ends

variable {row : Row} {C : Type} {I₀ : RunState → B → Prop} {I₁ J : C → RunState → B → Prop}

/-- How a run ends: with its state written, or before the commit returned, or after it. -/
def RunEnds (I₀ : RunState → B → Prop) (I₁ J : C → RunState → B → Prop) (r : Except Exn (Option Unit)) (s : RunState)
    (b : B) : Prop :=
  (r = .ok (some ()) ∧ ∃ c, J c s b) ∨ (r ≠ .ok (some ()) ∧ (I₀ s b ∨ ∃ c, I₁ c s b))

/-- A run around what happens inside the open table: that takes `I₀` to some `I₁ c`, and finishing takes that to `J
c`. -/
theorem wp_componentRun (h₀ : TableFrame R row I₀) (h₁ : ∀ c, TableFrame R row (I₁ c)) {turns : ℕ}
    (hextract : ∀ s b, I₀ s b → Wp R (extract row turns)
      (fun r s b => (I₀ s b ∧ ∃ e, r = .error e) ∨ ∃ c, I₁ c s b) s b)
    (hfinish : ∀ c s b, I₁ c s b →
      Wp R (finish row) (fun r s b => (r = .ok () ∧ J c s b) ∨ ((∃ e, r = .error e) ∧ I₁ c s b)) s b)
    {s : RunState} {b : B} (hI : I₀ s b) : Wp R (Component.run row turns) (RunEnds I₀ I₁ J) s b := by
  have hclose : Keeps R (fun s b => I₀ s b ∨ ∃ c, I₁ c s b) closeOutput := by
    rintro s b (hI | ⟨c, hI⟩)
    · exact (keeps_closeOutput h₀).wp hI fun _ _ _ h => .inl h
    · exact (keeps_closeOutput (h₁ c)).wp hI fun _ _ _ h => .inr ⟨c, h⟩
  have herror : ∀ {e : Exn} {s : RunState} {b : B}, (I₀ s b ∨ ∃ c, I₁ c s b) → RunEnds I₀ I₁ J (.error e) s b :=
    fun h => .inr ⟨by rintro ⟨⟩, h⟩
  rw [Component.run]
  refine (keeps_startRun h₀).wp_bind hI (fun _ s b hI => ?_) fun e s b hI => herror (.inl hI)
  rw [withOutput, wp_bind]
  refine (keeps_openOutput h₀).wp_bind hI (fun _ s b hI => ?_) fun e s b hI => herror (.inl hI)
  rw [wp_bind, wp_attempt]
  refine (hextract s b hI).mono ?_
  rintro r s b hr
  rcases r with e | _ | _
  · have hI : I₀ s b ∨ ∃ c, I₁ c s b := hr.imp And.left id
    refine Keeps.wp_bind (keeps_tryCatch hclose fun _ => keeps_pure) hI (fun _ s b hI => ?_) fun e s b hI => herror hI
    exact wp_throw.mpr (herror hI)
  · refine wp_pure.mpr (wp_pure.mpr (.inr ⟨by rintro ⟨⟩, ?_⟩))
    exact hr.imp And.left id
  · obtain ⟨c, hI⟩ : ∃ c, I₁ c s b := by
      rcases hr with ⟨-, e, ⟨⟩⟩ | hr
      exact hr
    refine (keeps_closeOutput (h₁ c)).wp_bind hI (fun _ s b hI => ?_) fun e s b hI => herror (.inr ⟨c, hI⟩)
    refine wp_pure.mpr (wp_bind.mpr ((hfinish c s b hI).mono ?_))
    rintro r s b (⟨rfl, hJ⟩ | ⟨⟨e, rfl⟩, hI⟩)
    · exact wp_pure.mpr (.inl ⟨rfl, c, hJ⟩)
    · exact herror (.inr ⟨c, hI⟩)

/-- A run of a destructive mode: the commit takes `I₀` to some `I₁ c`. -/
theorem wp_destructiveRun (hmode : row.mode.isDestructive = true) (h₀ : EndFrame R row I₀)
    (h₁ : ∀ c, RunSteps R row (I₁ c)) (hcommit : ∀ s b, I₀ s b → Wp R (commitPending row)
      (fun r s b => (r = .ok () ∧ ∃ c, I₁ c s b) ∨ ((∃ e, r = .error e) ∧ I₀ s b)) s b)
    (hfinish : ∀ c s b, I₁ c s b →
      Wp R (finish row) (fun r s b => (r = .ok () ∧ J c s b) ∨ ((∃ e, r = .error e) ∧ I₁ c s b)) s b)
    (turns : ℕ) {s : RunState} {b : B} (hI : I₀ s b) : Wp R (Component.run row turns) (RunEnds I₀ I₁ J) s b := by
  refine wp_componentRun h₀.toTableFrame (fun c => (h₁ c).toTableFrame) (fun s b hI => ?_) hfinish hI
  rw [extract, if_pos hmode, consumeRun, wp_bind]
  refine (hcommit s b hI).mono ?_
  rintro r s' b' (⟨rfl, c, hI'⟩ | ⟨⟨e, rfl⟩, hI'⟩)
  · exact (keeps_afterCommit (h₁ c) turns).wp hI' fun _ _ _ h => .inr ⟨c, h⟩
  · exact .inl ⟨hI', e, rfl⟩

/-- A run that peeks. -/
theorem wp_peekRun {I J : RunState → B → Prop} (hmode : row.mode.isDestructive = false) (hS : PeekSteps R row I)
    (hfinish : ∀ s b, I s b → Wp R (finish row) (fun r s b => (r = .ok () ∧ J s b) ∨ ((∃ e, r = .error e) ∧ I s b)) s b)
    (turns : ℕ) {s : RunState} {b : B} (hI : I s b) :
    Wp R (Component.run row turns) (RunEnds I (fun _ : Unit => I) fun _ => J) s b := by
  refine wp_componentRun hS.toTableFrame (fun _ => hS.toTableFrame) (fun s b hI => ?_) (fun _ => hfinish) hI
  rw [extract, hmode]
  exact (keeps_peekRun hS turns).wp hI fun _ _ _ h => .inr ⟨(), h⟩

end Ends

end ServiceBusExtractor
