import ServiceBusExtractor.Script
import ServiceBusExtractor.Watch

/-!
# The deadline of the peek pager

A turn of the pager reads the clock before it opens a receiver or peeks a page, in a
plain entity and in the sessions of one alike.

## The model

* `PagesKept` — between two turns: nothing was late, and the clock was read in each of
  them.
* `Paged` — what a whole loop leaves.

## What is proved

* `wp_pageTurnWatched`, `wp_sessionTurnWatched`: a turn that goes on read the clock
  before the deadline, and was on time;
* `pages_on_time`: the pager peeks nothing late.
-/

namespace ServiceBusExtractor

open Interaction

/-! ### What leaves the watch alone -/

section Pages

variable {deadline : Time} {A : Watch → Prop} {row : Row} {n : ℕ} {s : PagerState} {w : Watch}

/-- The pager keeps its deadline. -/
def PagesBound (deadline : Time) (s : PagerState) : Prop := s.pager.deadline = deadline

theorem idles_onPagerRun {α : Type} {p : Run α} (hp : ∀ c : Prop, Idles deadline A (fun _ => c) p) :
    Idles deadline A (PagesBound deadline) (onPagerRun p) :=
  fun w₀ hA => keeps_onPagerRun_of fun pager => hp (pager.deadline = deadline) w₀ hA

theorem idles_updatePager {change : PeekPager → PeekPager} (h : ∀ pager, (change pager).deadline = pager.deadline) :
    Idles deadline A (PagesBound deadline) (updatePager change) := idles_modify fun s hs => (h s.pager).trans hs

theorem idles_setRetries (enabled : Bool) : Idles deadline A (PagesBound deadline) (setRetries enabled) :=
  idles_onPagerRun fun _ => idles_modify fun _ h => h

theorem idles_selectPage (now : Time) (selected page : List Message) :
    Idles deadline A (PagesBound deadline) (selectPage row now selected page) := by
  induction page generalizing selected with
  | nil => exact idles_pure
  | cons message rest ih =>
    have hmark : ∀ {change : RunStats → RunStats} {note : Note}, Idles deadline A (PagesBound deadline) (do
        onPagerRun (tally change)
        Prog.note (S := sdk) note
        markProcessed message.sequenceNumber
        selectPage row now selected rest) := by
      refine idles_bind (idles_onPagerRun fun _ => idles_tally _) fun _ => ?_
      refine idles_bind idles_note fun _ => ?_
      exact idles_bind (idles_updatePager fun _ => rfl) fun _ => ih selected
    refine idles_bind idles_get fun _ => ?_
    exact idles_ite (ih selected)
      (idles_ite idles_pure (idles_ite hmark (idles_ite hmark (idles_ite idles_pure (ih _)))))

theorem idles_exportPage (receiver : Handle) (page : List Message) :
    Idles deadline A (PagesBound deadline) (exportPage row receiver page) := by
  have hprocess : ∀ messages, Idles deadline A (PagesBound deadline) (processPage row receiver messages) := by
    intro messages
    refine idles_bind idles_get fun _ => ?_
    refine idles_bind (idles_ensuring (idles_onPagerRun fun _ => idles_process receiver messages _) ?_) fun _ => ?_
    · exact idles_bind idles_get fun _ => idles_when (idles_updatePager fun _ => rfl)
    refine idles_bind (idles_when (idles_updatePager fun _ => rfl)) fun _ => ?_
    refine idles_bind (idles_forM fun _ => ?_) fun _ => idles_pure
    exact idles_when (idles_bind (idles_updatePager fun _ => rfl) fun _ => idles_updatePager fun _ => rfl)
  refine idles_bind (idles_perform rfl) fun now => ?_
  refine idles_bind (idles_selectPage now [] page) fun selected => ?_
  refine idles_bind (idles_ite idles_pure (hprocess _)) fun _ => ?_
  refine idles_bind (idles_updatePager fun _ => rfl) fun _ => ?_
  refine idles_bind idles_get fun _ => ?_
  exact idles_bind (idles_when (idles_onPagerRun fun _ => idles_warn _ _)) fun _ => idles_pure

theorem idles_openPager (session : SessionRequest) :
    Idles deadline A (PagesBound deadline) (openPager row session) := by
  refine idles_bind (idles_bind idles_get fun s => ?_) fun client => ?_
  · cases s.pager.client with
    | some client => exact idles_pure
    | none =>
      refine idles_bind (idles_request rfl) fun _ => ?_
      exact idles_bind (idles_updatePager fun _ => rfl) fun _ => idles_pure
  refine idles_bind (idles_request rfl) fun receiver => ?_
  exact idles_bind (idles_enterReceiver receiver) fun _ => idles_pure

theorem idles_pageReceiver : Idles deadline A (PagesBound deadline) (pageReceiver row) := by
  refine idles_bind idles_get fun s => ?_
  cases s.pager.receiver with
  | some receiver => exact idles_pure
  | none =>
    exact idles_bind (idles_openPager _) fun _ => idles_bind (idles_updatePager fun _ => rfl) fun _ => idles_pure

theorem idles_closePager : Idles deadline A (PagesBound deadline) closePager := by
  refine idles_bind idles_get fun _ => ?_
  refine idles_bind (idles_updatePager fun _ => rfl) fun _ => ?_
  refine idles_bind (idles_whenOpen idles_closeReceiverQuietly) fun _ => ?_
  exact idles_bind (idles_forM idles_closeReceiverQuietly) fun _ => idles_whenOpen idles_closeClientQuietly

theorem idles_recoverPager (error : Exn) : Idles deadline A (PagesBound deadline) (recoverPager row error) := by
  refine idles_bind idles_closePager fun _ => ?_
  refine idles_bind idles_get fun _ => ?_
  refine idles_bind idles_ofExcept fun _ => ?_
  refine idles_bind (idles_updatePager fun _ => rfl) fun _ => ?_
  exact idles_bind (idles_onPagerRun fun _ => idles_tally _) fun _ => idles_logRecovery error _

theorem idles_afterPage (incremental : Bool) (page : List Message) (result : Option StopReason × List ℤ) :
    Idles deadline A (PagesBound deadline) (afterPage incremental page result) := by
  have hrecycle : Idles deadline A (PagesBound deadline) (recyclePager result.2) := by
    refine idles_bind idles_closePager fun _ => ?_
    refine idles_bind (idles_updatePager fun _ => rfl) fun _ => ?_
    refine idles_bind (idles_onPagerRun fun _ => idles_tally _) fun _ => ?_
    exact idles_bind idles_note fun _ => idles_updatePager fun _ => rfl
  refine idles_ite (idles_bind hrecycle fun _ => idles_pure) ?_
  cases result.1 with
  | some stop => exact idles_pure
  | none => exact idles_bind (idles_updatePager fun _ => rfl) fun _ => idles_pure

/-- What a page step does once its stop check let it go on. -/
theorem idles_pageBody (hA : ∀ w, A w → w.Fresh deadline) (incremental : Bool) :
    Idles deadline A (PagesBound deadline) (do
    let receiver ← pageReceiver row
    let s ← get
    let page ← peekMessages receiver peekPageSize (if s.pager.cursorMode then 0 else s.pager.nextSeq)
    if page = [] then pure (some .endOfEntity)
    else do
      let reveals ← revealsPartitions page
      if reveals then onPartitions incremental
      else do
        let result ← exportPage row receiver page
        afterPage incremental page result : Pager (Option StopReason)) := by
  have hreveals : ∀ page, Idles deadline A (PagesBound deadline) (revealsPartitions page) := by
    intro page
    refine idles_bind idles_get fun _ => ?_
    refine idles_ite idles_pure ?_
    refine idles_bind (idles_onPagerRun fun _ => idles_modify fun _ h => h) fun _ => ?_
    exact idles_bind idles_get fun _ => idles_pure
  have hclose : Idles deadline A (PagesBound deadline) closePageReceiver := by
    refine idles_bind idles_get fun _ => ?_
    exact idles_bind (idles_updatePager fun _ => rfl) fun _ => idles_whenOpen idles_closeReceiverQuietly
  have hpartitions : Idles deadline A (PagesBound deadline) (onPartitions incremental) := by
    refine idles_ite idles_throw ?_
    refine idles_bind (idles_updatePager fun _ => rfl) fun _ => ?_
    refine idles_bind (idles_setRetries _) fun _ => ?_
    exact idles_bind hclose fun _ => idles_pure
  refine idles_bind idles_pageReceiver fun receiver => ?_
  refine idles_bind idles_get fun _ => ?_
  refine idles_bind (idles_peekMessages hA) fun page => ?_
  refine idles_ite idles_pure (idles_bind (hreveals page) fun _ => ?_)
  refine idles_ite hpartitions ?_
  exact idles_bind (idles_exportPage receiver page) fun result => idles_afterPage incremental page result

theorem idles_openPagerSession : Idles deadline A (PagesBound deadline) (openPagerSession row) := by
  refine idles_bind (idles_tryCatch (idles_bind (idles_openPager _) fun _ => idles_pure) fun _ =>
    idles_ite idles_pure idles_throw) fun opened => ?_
  cases opened with
  | none => exact idles_pure
  | some receiver =>
    refine idles_bind (idles_updatePager fun _ => rfl) fun _ => ?_
    refine idles_bind (idles_perform rfl) fun _ => ?_
    refine idles_bind idles_get fun _ => ?_
    refine idles_bind idles_note fun _ => ?_
    exact idles_ite idles_pure (idles_bind (idles_updatePager fun _ => rfl) fun _ => idles_pure)

theorem idles_peekSessionPage (hA : ∀ w, A w → w.Fresh deadline) (receiver : Handle) :
    Idles deadline A (PagesBound deadline) (peekSessionPage row receiver) := by
  refine idles_bind (idles_perform rfl) fun now => ?_
  refine idles_bind (idles_renewSessionIfNeeded receiver now) fun _ => ?_
  refine idles_bind idles_get fun _ => ?_
  refine idles_bind (idles_peekMessages hA) fun page => ?_
  refine idles_ite (idles_bind (idles_updatePager fun _ => rfl) fun _ => idles_pure)
    (idles_bind (idles_exportPage receiver page) fun result => ?_)
  rcases result with ⟨_ | stop, _⟩
  · exact idles_bind (idles_updatePager fun _ => rfl) fun _ => idles_pure
  · cases stop <;> first
      | exact idles_pure
      | exact idles_bind (idles_updatePager fun _ => rfl) fun _ => idles_pure

/-! #### Turns -/

/-- The pager has had `n` turns, each of them begun before the deadline, and nothing was late. -/
def PagesKept (deadline : Time) (n : ℕ) (s : PagerState) (w : Watch) : Prop :=
  PagesBound deadline s ∧ w.OnTime ∧ n ≤ w.timely

/-- What the turns of the pager leave: all was on time. -/
def Paged {α : Type} (deadline : Time) (n : ℕ) : Except Exn (Option α) → PagerState → Watch → Prop
  | .ok none, s, w => PagesKept deadline n s w
  | _, s, w => PagesKept deadline 0 s w

theorem PagesKept.paged {α : Type} (h : PagesKept deadline n s w) (r : Except Exn (Option α)) :
    Paged deadline n r s w := by
  rcases r with e | _ | a
  · exact ⟨h.1, h.2.1, Nat.zero_le _⟩
  · exact h
  · exact ⟨h.1, h.2.1, Nat.zero_le _⟩

theorem Paged.bound {α : Type} {r : Except Exn (Option α)} (h : Paged deadline n r s w) : PagesBound deadline s := by
  rcases r with e | _ | a
  · exact h.1
  · exact h.1
  · exact h.1

theorem Paged.closed {α : Type} {r : Except Exn (Option α)} (h : Paged deadline n r s w) {s' : PagerState}
    (hs : PagesBound deadline s') :
    Paged deadline n r s' w ∧ ∀ e, Paged (α := α) deadline n (.error e) s' w := by
  rcases r with e | _ | a
  · exact ⟨⟨hs, h.2⟩, fun _ => ⟨hs, h.2⟩⟩
  · exact ⟨⟨hs, h.2⟩, fun _ => ⟨hs, h.2.1, Nat.zero_le _⟩⟩
  · exact ⟨⟨hs, h.2⟩, fun _ => ⟨hs, h.2⟩⟩

/-- A step of the pager goes on only from a reading before the deadline. -/
theorem wp_pagerChecked {α : Type} {f : Option StopReason → Pager α} {Q : Except Exn α → PagerState → Watch → Prop}
    (hI : PagesKept deadline n s w)
    (hstop : ∀ stop w', PagesKept deadline n s w' → Wp (Watches deadline) (f (some stop)) Q s w')
    (hgo : ∀ w', PagesKept deadline (n + 1) s w' → w'.Fresh deadline → Wp (Watches deadline) (f none) Q s w') :
    Wp (Watches deadline) (pagerStopCheck row >>= f) Q s w := by
  rw [wp_bind, pagerStopCheck, wp_bind, wp_get, onOk_ok, wp_ite]
  refine ⟨fun _ => wp_pure.mpr (hstop _ w hI), fun _ => ?_⟩
  rw [wp_bind, monotonic, wp_perform]
  rintro now _ rfl
  have hs : s.pager.deadline = deadline := hI.1
  rw [onOk_ok, wp_ite, hs]
  refine ⟨fun _ => wp_pure.mpr (hstop _ _ ⟨hI.1, hI.2.1, hI.2.2.trans (timely_le_read now)⟩), fun hearly => ?_⟩
  have hnow : now < deadline := not_le.mp hearly
  exact wp_pure.mpr (hgo _ ⟨hI.1, hI.2.1, Nat.lt_of_le_of_lt hI.2.2 (timely_lt_read hnow)⟩ hnow)

/-- A turn of the pager: a step, and what it does to go on after an exception. -/
theorem wp_turnWatched {p : Pager (Option StopReason)} {answer : Exn → Pager (Option StopReason)}
    (hstep : Wp (Watches deadline) p (fun r s w => PagesKept deadline (n + 1) s w ∨
      (∃ stop, r = .ok (some stop)) ∧ PagesKept deadline 0 s w) s w)
    (hanswer : ∀ e, Idles deadline (fun _ => True) (PagesBound deadline) (answer e)) :
    Wp (Watches deadline) (tryCatch p answer) (Paged deadline (n + 1)) s w := by
  refine wp_tryCatch.mpr (hstep.mono fun r s' w' h => ?_)
  cases r with
  | ok a =>
    rcases h with hk | ⟨⟨stop, h⟩, hk⟩
    · exact hk.paged _
    · obtain rfl := Except.ok.inj h
      exact hk
  | error e =>
    rcases h with hk | ⟨⟨stop, h⟩, -⟩
    · exact (hanswer e).always hk.1 fun r _ hs => PagesKept.paged ⟨hs, hk.2⟩ r
    · cases h

theorem wp_pageTurnWatched (incremental : Bool) (hI : PagesKept deadline n s w) :
    Wp (Watches deadline) (pageTurn row incremental) (Paged deadline (n + 1)) s w := by
  refine wp_turnWatched ?_ fun error =>
    idles_ite idles_throw (idles_bind (idles_recoverPager error) fun _ => idles_pure)
  refine wp_pagerChecked hI (fun stop w' hk => wp_pure.mpr (.inr ⟨⟨stop, rfl⟩, hk.1, hk.2.1, Nat.zero_le _⟩))
    fun w' hk hfresh => ?_
  exact (idles_pageBody (fun _ h => h) incremental).wp hfresh hk.1 fun _ _ hs => .inl ⟨hs, hk.2⟩

theorem wp_sessionTurnWatched (hI : PagesKept deadline n s w) :
    Wp (Watches deadline) (sessionTurn row) (Paged deadline (n + 1)) s w := by
  have hfailed : ∀ error, Idles deadline (fun _ => True) (PagesBound deadline) (afterSessionFailure row error) :=
    fun error => idles_bind (idles_updatePager fun _ => rfl) fun _ =>
      idles_when (idles_bind (idles_recoverPager error) fun _ => idles_updatePager fun _ => rfl)
  refine wp_turnWatched ?_ fun error => idles_ite idles_throw (idles_bind (hfailed error) fun _ => idles_pure)
  refine wp_pagerChecked hI (fun stop w' hk => wp_pure.mpr (.inr ⟨⟨stop, rfl⟩, hk.1, hk.2.1, Nat.zero_le _⟩))
    fun w' hk hfresh => ?_
  rw [wp_bind, wp_get, onOk_ok]
  cases s.pager.session with
  | none => exact idles_openPagerSession.wp hfresh hk.1 fun _ _ hs => .inl ⟨hs, hk.2⟩
  | some receiver =>
    exact (idles_peekSessionPage (fun _ h => h) receiver).wp hfresh hk.1 fun _ _ hs => .inl ⟨hs, hk.2⟩

theorem wp_turnsWatched {body : Pager (Option StopReason)} {turns : ℕ}
    (hbody : ∀ n s w, PagesKept deadline n s w → Wp (Watches deadline) body (Paged deadline (n + 1)) s w)
    (hI : PagesKept deadline 0 s w) : Wp (Watches deadline) (Prog.iterate body turns) (Paged deadline turns) s w := by
  refine Wp.iterate_counted (PagesKept deadline) (fun k s w hk => ?_) (fun s w hk => ?_) hI
  · refine (hbody k s w hk).mono fun r s' w' h => ?_
    rcases r with e | _ | reason
    · exact h
    · exact h
    · exact h
  · rw [Nat.zero_add] at hk
    exact hk

theorem wp_pagerLoopWatched (start : ℤ) (incremental : Bool) (turns : ℕ) (hI : PagesKept deadline 0 s w) :
    Wp (Watches deadline) (pagerLoop row start incremental turns) (Paged deadline turns) s w := by
  refine wp_ite.mpr ⟨fun _ => ?_, fun _ => ?_⟩
  · refine (idles_setRetries false).always_bind hI.1 (fun _ s₁ hs₁ => ?_) fun _ _ hs => ⟨hs, hI.2⟩
    refine (idles_onPagerRun fun _ => idles_warn _ _).always_bind hs₁ (fun _ s₂ hs₂ => ?_)
      fun _ _ hs => ⟨hs, hI.2⟩
    exact wp_turnsWatched (fun _ _ _ h => wp_sessionTurnWatched h) ⟨hs₂, hI.2⟩
  · rw [runPages, wp_bind, wp_get, onOk_ok]
    dsimp only
    rw [wp_bind, updatePager, wp_modify, onOk_ok]
    refine Idles.always_bind (J := PagesBound deadline) (idles_when (idles_setRetries false)) ?_ (fun _ s₂ hs₂ => ?_)
      fun _ _ hs => ⟨hs, hI.2⟩
    · exact hI.1
    · exact wp_turnsWatched (fun _ _ _ h => wp_pageTurnWatched incremental h) ⟨hs₂, hI.2⟩

/-- The pager refuses a partitioned entity, or runs from the reading that sets its deadline. -/
theorem exec_peekPagerWatched {turns : ℕ} {r : Except Exn (Option (Option PeekCursor))} {es : Trace sdk}
    {s' : PagerState} (hrun : Prog.Exec (PeekPager.run row turns) s es r s') :
    (es = [] ∧ r = .error partitionedIncremental) ∨
      ∃ t0 rest, es = .call .monotonic t0 :: rest ∧
        Paged (t0 + seconds row.config.advanced.maxDurationSeconds) turns r s'
          (watch (t0 + seconds row.config.advanced.maxDurationSeconds) { last := t0 } rest) := by
  rcases Prog.exec_bind.mp hrun with ⟨e, hget, -⟩ | ⟨es₀, rest₀, s₀, s₁, rfl, hget, hbody⟩
  · obtain ⟨-, hr, -⟩ := Prog.exec_get.mp hget
    cases hr
  · obtain ⟨rfl, hr, rfl⟩ := Prog.exec_get.mp hget
    obtain rfl := Except.ok.inj hr
    by_cases hrefused : isIncremental row = true ∧ s₀.run.info.partitioned = some true
    · rw [if_pos hrefused] at hbody
      obtain ⟨rfl, rfl, -⟩ := Prog.exec_throw.mp hbody
      exact .inl ⟨rfl, rfl⟩
    · rw [if_neg hrefused] at hbody
      right
      rcases Prog.exec_bind.mp hbody with ⟨e, hread, -⟩ | ⟨es₁, rest, t0, s₁, rfl, hread, hrest⟩
      · obtain ⟨_, -, hr, -⟩ := Prog.exec_perform.mp hread
        cases hr
      · obtain ⟨now, rfl, hnow, rfl⟩ := Prog.exec_perform.mp hread
        obtain rfl := Except.ok.inj hnow
        refine ⟨t0, rest, rfl,
          Wp.watched (Q := Paged (t0 + seconds row.config.advanced.maxDurationSeconds) turns) ?_ hrest⟩
        rw [wp_bind, updatePager, wp_modify, onOk_ok, wp_bind]
        have hend : ∀ enabled, Idles (t0 + seconds row.config.advanced.maxDurationSeconds) (fun _ => True) (PagesBound
            (t0 + seconds row.config.advanced.maxDurationSeconds)) (endPager enabled) := fun enabled =>
          idles_bind (idles_setRetries enabled) fun _ => idles_closePager
        refine Wp.mono (Idles.finishing (hend _)
          (wp_pagerLoopWatched _ _ turns ⟨rfl, ⟨rfl, rfl, rfl⟩, le_rfl⟩) (fun _ _ _ h => h.bound)
          fun _ _ _ _ h hs => h.closed hs) fun r s₂ w₂ h => ?_
        rcases r with e | _ | reason
        · exact h
        · exact wp_pure.mpr h
        · rw [onOk_ok]
          refine (idles_onPagerRun fun _ => idles_tally _).always_bind h.1 (fun _ s₃ hs₃ => ?_)
            fun _ _ hs => ⟨hs, h.2⟩
          rw [wp_bind, wp_get, onOk_ok, wp_pure]
          exact ⟨hs₃, h.2⟩

end Pages

/-- A peek pager keeps to `max_duration`: it takes no page after a reading at or past the deadline; it never sleeps for
longer than what is left, or than one poll; and where it is still going, each of its turns began with a reading before
the deadline. -/
theorem pages_on_time {row : Row} {turns : ℕ} {s s' : RunState} {es : Trace sdk}
    {r : Except Exn (Option (Option PeekCursor))} (hrun : Prog.Exec (runPeekPager row turns) s es r s') :
    (es = [] ∧ r = .error partitionedIncremental) ∨ ∃ t0 rest, es = .call .monotonic t0 :: rest ∧
      let w := watch (t0 + seconds row.config.advanced.maxDurationSeconds) { last := t0 } rest
      w.lateReceives = 0 ∧ w.latePeeks = 0 ∧ w.oversleeps = 0 ∧ (r = .ok none → turns ≤ w.timely) := by
  obtain ⟨s₁, hpager, -⟩ := Prog.exec_embed.mp hrun
  rcases exec_peekPagerWatched hpager with hrefused | ⟨t0, rest, rfl, h⟩
  · exact .inl hrefused
  · refine .inr ⟨t0, rest, rfl, ?_⟩
    rcases r with e | _ | cursor
    · exact ⟨h.2.1.1, h.2.1.2.1, h.2.1.2.2, by rintro ⟨⟩⟩
    · exact ⟨h.2.1.1, h.2.1.2.1, h.2.1.2.2, fun _ => h.2.2⟩
    · exact ⟨h.2.1.1, h.2.1.2.1, h.2.1.2.2, by rintro ⟨⟩⟩

/-- A pager that is still going after its two turns. -/
theorem pages_on_time_unfinished :
    let es := scripted (runPeekPager peekRow 2) (openedState peekRow 0)
      { peeks := [.ok [{ sequenceNumber := 1 }], .ok [{ sequenceNumber := 2 }], .ok [{ sequenceNumber := 3 }]] }
    ∃ t0 rest, es = .call .monotonic t0 :: rest ∧ 2 ≤ (watch (t0 + seconds 3000) { last := t0 } rest).timely := by
  have hrun := exec_scripted (runPeekPager peekRow 2) (openedState peekRow 0)
    { peeks := [.ok [{ sequenceNumber := 1 }], .ok [{ sequenceNumber := 2 }], .ok [{ sequenceNumber := 3 }]] }
  have hresult : scriptedResult (runPeekPager peekRow 2) (openedState peekRow 0)
      { peeks := [.ok [{ sequenceNumber := 1 }], .ok [{ sequenceNumber := 2 }], .ok [{ sequenceNumber := 3 }]] } =
      .ok none := by decide +kernel
  rw [hresult] at hrun
  rcases pages_on_time hrun with ⟨-, hrefused⟩ | ⟨t0, rest, hes, -, -, -, htimely⟩
  · cases hrefused
  · exact ⟨t0, rest, hes, htimely rfl⟩

end ServiceBusExtractor
