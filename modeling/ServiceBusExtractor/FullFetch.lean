import ServiceBusExtractor.Duplicates

/-!
# A full fetch

A full fetch never forgets what it processed, neither when it turns to cursor mode
nor when it recovers. So it writes nothing twice; and where it finds the end of the
entity it went through all of it, by number or with a receiver that shows everything
since it was opened.

## The model

* `FetchedOnce` — what was exported so far is remembered, and nothing was twice.
* `ShowsPlain entity` — a peek by number shows a beginning of the entity, unless it
  reveals partitions; `ShowsAll entity` — a peek without a number shows no page only
  after all pages.
* `GoneThrough entity` — what lies behind the next page is done.

## What is proved

* `full_fetch_once` — a full fetch writes and skips each message once, and one that
  ended at the end of the entity left none out.
-/

namespace ServiceBusExtractor

open Interaction

/-! ### Nothing twice -/

/-- Nothing was exported twice, and what was is remembered. -/
structure FetchedOnce (l : PagerState) (h : Trace sdk) : Prop where
  fresh : Fresh l.run.unreadable
  once : (exported h).Nodup
  within : ∀ n ∈ exported h, n ∈ l.pager.processed

/-- Nothing was exported twice, also where the user has to step in. -/
def RaisedOnce (e : Exn) (l : PagerState) (h : Trace sdk) : Prop := (exported h).Nodup ∧ (NotUser e → FetchedOnce l h)

section Once

variable {row : Row} {l : PagerState} {h : Trace sdk} {A : Event sdk → Prop}

theorem FetchedOnce.raised (hI : FetchedOnce l h) (e : Exn) : RaisedOnce e l h := ⟨hI.once, fun _ => hI⟩

theorem FetchedOnce.event (hI : FetchedOnce l h) {e : Event sdk} (he : exportedBy e = []) :
    FetchedOnce l (h ++ [e]) := by
  have hsame : exported (h ++ [e]) = exported h := by
    rw [exported_append, exported_eq_nil (List.forall_mem_singleton.mpr he), List.append_nil]
  exact ⟨hI.fresh, by rw [hsame]; exact hI.once, by rw [hsame]; exact hI.within⟩

theorem pagerFrame_fetchedOnce : PagerFrame (Logged A) FetchedOnce where
  run pager := {
    stats := fun _ _ hI => ⟨hI.fresh, hI.once, hI.within⟩
    info := fun _ hI => ⟨hI.fresh, hI.once, hI.within⟩
    quiet := by
      rintro e s h _ he ⟨-, rfl⟩ hI
      exact hI.event (exportedBy_of_quiet he) }
  reopened := by
    rintro n l h _ hn ⟨-, rfl⟩ hI
    refine hI.event ?_
    cases n <;> first | rfl | exact absurd hn Bool.false_ne_true
  connection := by
    intro l h pager hpager hI
    refine ⟨hI.fresh, hI.once, fun n hn => ?_⟩
    have hprocessed : pager.processed = l.pager.processed := congrArg Books.processed hpager
    rw [hprocessed]
    exact hI.within n hn

/-- The processed numbers stay, whatever else of the pager changes. -/
theorem keeps_updateUnprocessed {R : Event sdk → Trace sdk → Trace sdk → Prop} {change : PeekPager → PeekPager}
    (hchange : ∀ pager : PeekPager, (change pager).processed = pager.processed) :
    Keeps R FetchedOnce (updatePager change) := by
  refine keeps_modify fun l h hI => ⟨hI.fresh, hI.once, fun n hn => ?_⟩
  rw [hchange]
  exact hI.within n hn

theorem keeps_setRetries_once {R : Event sdk → Trace sdk → Trace sdk → Prop} (enabled : Bool) :
    Keeps R FetchedOnce (setRetries enabled) :=
  keeps_onPagerRun_of fun _ => keeps_modify fun _ _ hI => ⟨⟨hI.fresh.left, hI.fresh.user⟩, hI.once, hI.within⟩

/-- Exporting a page of distinct messages. -/
theorem upholds_exportPage (hmode : row.mode = .peek) (receiver : Handle) {page : List Message}
    (hpage : (numbers page).Nodup) :
    Upholds Recorded FetchedOnce RaisedOnce (exportPage row receiver page) := by
  intro l h hI
  refine (wp_exportPage hmode receiver hpage hI.fresh).mono ?_
  rintro r l' h' ⟨now, hexported⟩
  obtain ⟨new, hnew, honce, hin, hkept⟩ := hexported.exports hpage
  have hnodup : (exported h').Nodup := by
    rw [hnew]
    refine List.nodup_append.mpr ⟨hI.once, honce, ?_⟩
    rintro n hn _ hn' rfl
    exact (hin n hn').2 (hI.within n hn)
  have hfetched : (∀ e, r = .error e → NotUser e) → FetchedOnce l' h' := by
    refine fun hnot => ⟨hexported.1, hnodup, fun n hn => hkept hnot n ?_⟩
    rw [hnew] at hn
    exact (List.mem_append.mp hn).symm.imp id (hI.within n)
  cases r with
  | error e => exact ⟨hnodup, fun hnot => hfetched (by rintro _ ⟨⟩; exact hnot)⟩
  | ok result => exact hfetched (by rintro _ ⟨⟩)

/-- What comes after a page that was peeked. -/
theorem upholds_peekMessages {β : Type} {f : List Message → Pager β} (receiver : Handle) (count : ℕ) (start : ℤ)
    (hf : ∀ page, (numbers page).Nodup → Upholds (Logged Distinct) FetchedOnce RaisedOnce (f page)) :
    Upholds (Logged Distinct) FetchedOnce RaisedOnce (peekMessages receiver count start >>= f) := by
  intro l h hI
  rw [wp_bind, peekMessages, wp_request]
  rintro reply _ ⟨hdistinct, rfl⟩
  have hI' := hI.event (e := .call (.peekMessages receiver count start) reply) rfl
  cases reply with
  | error fault => exact hI'.raised _
  | ok page => exact hf page hdistinct _ _ hI'

end Once


/-! ### The loops -/

section Loops

variable {row : Row} {A : Event sdk → Prop}

theorem upholds_of_keeps {α : Type} {p : Pager α} (hp : Keeps (Logged A) FetchedOnce p) :
    Upholds (Logged A) FetchedOnce RaisedOnce p := hp.upholds fun e _ _ hI => hI.raised e

/-- A pass of the page loop. -/
theorem upholds_pageStep (hmode : row.mode = .peek) :
    Upholds (Logged Distinct) FetchedOnce RaisedOnce (pageStep row false) := by
  have hF : PagerFrame (Logged Distinct) FetchedOnce := pagerFrame_fetchedOnce
  have hreveals : ∀ page, Keeps (Logged Distinct) FetchedOnce (revealsPartitions page) := by
    intro page
    refine keeps_bind keeps_get fun _ => ?_
    refine keeps_ite (fun _ => keeps_pure) fun _ => ?_
    refine keeps_bind (keeps_onPagerRun_of fun pager => keeps_modify fun s _ hI => (hF.run pager).info _ hI) fun _ => ?_
    exact keeps_bind keeps_get fun _ => keeps_pure
  have hpartitions : Keeps (Logged Distinct) FetchedOnce (onPartitions false) := by
    refine keeps_ite (fun _ => keeps_throw) fun _ => ?_
    refine keeps_bind (keeps_updateUnprocessed fun _ => rfl) fun _ => ?_
    refine keeps_bind (keeps_setRetries_once false) fun _ => ?_
    exact keeps_bind (keeps_closePageReceiver hF) fun _ => keeps_pure
  have hrecycle : ∀ retried, Keeps (Logged Distinct) FetchedOnce (recyclePager retried) := by
    intro retried
    refine keeps_bind (keeps_closePager hF) fun _ => ?_
    refine keeps_bind (keeps_updateUnprocessed fun _ => rfl) fun _ => ?_
    refine keeps_bind (keeps_onPagerRun_of fun _ => keeps_modify fun _ _ hI => ?_) fun _ => ?_
    · exact ⟨hI.fresh, hI.once, hI.within⟩
    refine keeps_bind (keeps_note fun l h h' => hF.reopened .recycle l h h' rfl) fun _ => ?_
    exact keeps_updateUnprocessed fun _ => rfl
  have hafter : ∀ page result, Keeps (Logged Distinct) FetchedOnce (afterPage false page result) := by
    intro page result
    refine keeps_ite (fun _ => keeps_bind (hrecycle _) fun _ => keeps_pure) fun _ => ?_
    cases result.1 with
    | some stop => exact keeps_pure
    | none => exact keeps_bind (keeps_updateUnprocessed fun _ => rfl) fun _ => keeps_pure
  refine upholds_bind (upholds_of_keeps (keeps_pagerStopCheck hF)) fun stop => ?_
  cases stop with
  | some stop => exact upholds_pure
  | none =>
    refine upholds_bind (upholds_of_keeps (keeps_pageReceiver hF)) fun receiver => ?_
    refine upholds_bind upholds_get fun s => ?_
    refine upholds_peekMessages receiver _ _ fun page hpage => upholds_ite (fun _ => upholds_pure) fun _ => ?_
    refine upholds_bind (upholds_of_keeps (hreveals page)) fun reveals => ?_
    refine upholds_ite (fun _ => upholds_of_keeps hpartitions) fun _ => ?_
    refine upholds_bind ?_ fun result => upholds_of_keeps (hafter page result)
    exact fun l h hI => (upholds_exportPage hmode receiver hpage l h hI).limit recorded_of_logged

/-- A pass of the session loops. -/
theorem upholds_sessionStep (hmode : row.mode = .peek) :
    Upholds (Logged Distinct) FetchedOnce RaisedOnce (sessionStep row) := by
  have hF : PagerFrame (Logged Distinct) FetchedOnce := pagerFrame_fetchedOnce
  have hq := quietKeeps_pager hF
  have hopen : Keeps (Logged Distinct) FetchedOnce (openPagerSession row) := by
    refine keeps_bind (keeps_tryCatch (keeps_bind (keeps_openPager hF _) fun _ => keeps_pure)
      fun _ => keeps_ite (fun _ => keeps_pure) fun _ => keeps_throw) fun opened => ?_
    cases opened with
    | none => exact keeps_pure
    | some receiver =>
      refine keeps_bind (keeps_updateUnprocessed fun _ => rfl) fun _ => ?_
      refine keeps_bind (keeps_quietPerform hq rfl) fun id => ?_
      refine keeps_bind keeps_get fun _ => ?_
      refine keeps_bind (keeps_quietNote hq rfl) fun _ => ?_
      refine keeps_ite (fun _ => keeps_pure) fun _ => ?_
      exact keeps_bind (keeps_updateUnprocessed fun _ => rfl) fun _ => keeps_pure
  have hnext : ∀ {change : PeekPager → PeekPager} {stop : Option StopReason},
      (∀ pager : PeekPager, (change pager).processed = pager.processed) →
        Upholds (Logged Distinct) FetchedOnce RaisedOnce (do
          updatePager change
          pure stop) := fun hchange =>
    upholds_bind (upholds_of_keeps (keeps_updateUnprocessed hchange)) fun _ => upholds_pure
  refine upholds_bind (upholds_of_keeps (keeps_pagerStopCheck hF)) fun stop => ?_
  cases stop with
  | some stop => exact upholds_pure
  | none =>
    refine upholds_bind upholds_get fun s => ?_
    cases s.pager.session with
    | none => exact upholds_of_keeps hopen
    | some receiver =>
      refine upholds_bind (upholds_of_keeps (keeps_quietPerform hq rfl)) fun now => ?_
      refine upholds_bind (upholds_of_keeps (keeps_renewSessionIfNeeded hq receiver now)) fun _ => ?_
      refine upholds_bind upholds_get fun s => ?_
      refine upholds_peekMessages receiver _ _ fun page hpage => upholds_ite (fun _ => hnext fun _ => rfl) fun _ => ?_
      refine upholds_bind ?_ fun result => ?_
      · exact fun l h hI => (upholds_exportPage hmode receiver hpage l h hI).limit recorded_of_logged
      · rcases result with ⟨_ | stop, _⟩
        · exact hnext fun _ => rfl
        · cases stop <;> first
            | exact upholds_pure
            | exact hnext fun _ => rfl

/-- A turn recovers, or leaves to the user what is theirs. -/
theorem upholds_recovering {p : Pager (Option StopReason)} {recover : Exn → Pager Unit}
    (hp : Upholds (Logged A) FetchedOnce RaisedOnce p)
    (hrecover : ∀ error, Keeps (Logged A) FetchedOnce (recover error)) :
    Upholds (Logged A) FetchedOnce RaisedOnce (tryCatch p fun error =>
      if error.isUser then throw error
      else do
        recover error
        pure none) := by
  intro l h hI
  rw [wp_tryCatch]
  refine (hp l h hI).mono fun r l' h' hr => ?_
  cases r with
  | ok stop => exact hr
  | error error =>
    rw [onError_error, wp_ite]
    refine ⟨fun _ => wp_throw.mpr hr, fun hnot => ?_⟩
    have hI' : FetchedOnce l' h' := hr.2 (by simpa using hnot)
    exact upholds_bind (upholds_of_keeps (hrecover error)) (fun _ => upholds_pure) l' h' hI'

theorem upholds_pageTurn (hmode : row.mode = .peek) :
    Upholds (Logged Distinct) FetchedOnce RaisedOnce (pageTurn row false) :=
  upholds_recovering (upholds_pageStep hmode) fun error => keeps_recoverPager pagerFrame_fetchedOnce error

theorem upholds_sessionTurn (hmode : row.mode = .peek) :
    Upholds (Logged Distinct) FetchedOnce RaisedOnce (sessionTurn row) := by
  refine upholds_recovering (upholds_sessionStep hmode) fun error => ?_
  refine keeps_bind (keeps_updateUnprocessed fun _ => rfl) fun _ => ?_
  exact keeps_when (keeps_bind (keeps_recoverPager pagerFrame_fetchedOnce error) fun _ => keeps_updateUnprocessed
    fun _ => rfl)

/-- The loop of either kind of entity. -/
theorem upholds_pagerLoop (hmode : row.mode = .peek) (start : ℤ) (turns : ℕ) :
    Upholds (Logged Distinct) FetchedOnce RaisedOnce (pagerLoop row start false turns) := by
  have hF : PagerFrame (Logged Distinct) FetchedOnce := pagerFrame_fetchedOnce
  have hretries : Upholds (Logged Distinct) FetchedOnce RaisedOnce (setRetries false) :=
    upholds_of_keeps (keeps_setRetries_once false)
  refine upholds_ite (fun _ => ?_) fun _ => ?_
  · refine upholds_bind hretries fun _ => ?_
    refine upholds_bind ?_ fun _ => upholds_iterate (upholds_sessionTurn hmode) turns
    exact upholds_of_keeps (keeps_onPagerRun_of fun pager => keeps_warn (hF.run pager).toStillFrame _ _)
  · refine upholds_bind upholds_get fun s => ?_
    refine upholds_bind (upholds_of_keeps (keeps_updateUnprocessed fun _ => rfl)) fun _ => ?_
    exact upholds_bind (upholds_when hretries) fun _ => upholds_iterate (upholds_pageTurn hmode) turns

theorem pagerFrame_unrepeated : PagerFrame (Logged A) fun _ h => (exported h).Nodup where
  run _ := {
    stats := fun _ _ hI => hI
    info := fun _ hI => hI
    quiet := by
      rintro e s h _ he ⟨-, rfl⟩ hI
      rw [exported_concat (exportedBy_of_quiet he)]
      exact hI }
  reopened := by
    rintro n l h _ hn ⟨-, rfl⟩ hI
    rw [exported_concat (by cases n <;> first | rfl | exact absurd hn Bool.false_ne_true)]
    exact hI
  connection _ _ hI := hI

/-- A full fetch exports nothing twice. -/
theorem nodup_of_fullFetch {s : RunState} {turns : ℕ} {es : Trace sdk} {r : Except Exn (Option (Option PeekCursor))}
    {l' : PagerState} (hmode : row.mode = .peek) (hfull : isIncremental row = false) (hfresh : Fresh s.unreadable)
    (hrun : Prog.Exec (PeekPager.run row turns) ⟨s, {}⟩ es r l') (hdistinct : ∀ e ∈ es, Distinct e) :
    (exported es).Nodup := by
  suffices hwp : Wp (Logged Distinct) (PeekPager.run row turns) (fun _ _ h' => (exported h').Nodup) ⟨s, {}⟩ [] from
    wp_logged.mp hwp es r l' hrun hdistinct
  have hK : PagerFrame (Logged Distinct) fun _ h => (exported h).Nodup := pagerFrame_unrepeated
  have hend : ∀ enabled, Keeps (Logged Distinct) (fun _ h => (exported h).Nodup) (endPager enabled) := fun enabled =>
    keeps_bind (keeps_onPagerRun_of fun _ => keeps_modify fun _ _ hI => hI) fun _ => keeps_closePager hK
  rw [PeekPager.run, wp_bind, wp_get, onOk_ok, wp_ite]
  refine ⟨fun _ => wp_throw.mpr List.nodup_nil, fun _ => ?_⟩
  dsimp only
  rw [wp_bind, monotonic, wp_perform]
  rintro now _ ⟨-, rfl⟩
  rw [onOk_ok, wp_bind, updatePager, wp_modify, onOk_ok, wp_bind, hfull]
  have hstart : FetchedOnce
      ⟨s, { deadline := now + seconds row.config.advanced.maxDurationSeconds }⟩ [.call .monotonic now] :=
    ⟨hfresh, List.nodup_nil, by rintro n ⟨⟩⟩
  have hloop : Wp (Logged Distinct) (pagerLoop row 1 false turns) (fun _ _ h' => (exported h').Nodup)
      ⟨s, { deadline := now + seconds row.config.advanced.maxDurationSeconds }⟩ [.call .monotonic now] := by
    refine (upholds_pagerLoop hmode 1 turns _ _ hstart).mono fun r l h hI => ?_
    cases r with
    | error e => exact hI.1
    | ok stop => exact hI.once
  refine hloop.finishing (fun l h hI => wp_pure.mpr hI) fun r l h hI => (hend _ l h hI).mono fun r' l₁ h₁ hI₁ => ?_
  cases r' with
  | error e => exact hI₁
  | ok _ =>
    rcases r with e | _ | reason
    · exact hI₁
    · exact wp_pure.mpr hI₁
    · rw [onOk_ok, onOk_ok]
      dsimp only
      rw [wp_bind, onPagerRun, wp_embed, tally, wp_modify, onOk_ok, wp_bind, wp_get, onOk_ok, wp_pure]
      exact hI₁

end Loops

/-! ### Nothing left out -/

/-- A peek by number shows a beginning of what the entity has from there on, unless it shows a partition. -/
def ShowsPlain (entity : List ℤ) : Event sdk → Prop
  | .call (.peekMessages _ _ start) (.ok page) => 1 ≤ start → (∀ n ∈ numbers page, partitionOf n = 0) →
      numbers page <+: entity.filter (start ≤ ·) ∧ (page = [] → entity.filter (start ≤ ·) = [])
  | _ => True

/-- A receiver that was only peeked without a number shows no page only after it showed the whole entity. -/
def ShowsAll (entity : List ℤ) (before : Trace sdk) : Event sdk → Prop
  | .call (.peekMessages receiver _ start) (.ok page) => page = [] → start = 0 →
    (∀ p ∈ shown receiver before, p.1 = 0) →
      ∀ n ∈ entity, ∃ p ∈ shown receiver before, n ∈ numbers p.2
  | _ => True

/-- What the pager went through is done: all before the next page, or all its receiver showed. -/
structure GoneThrough (entity : List ℤ) (l : PagerState) (h : Trace sdk) : Prop where
  processed : ∀ n ∈ l.pager.processed, Done h n
  behind : l.pager.cursorMode = false → 1 ≤ l.pager.nextSeq ∧ ∀ n ∈ entity, n < l.pager.nextSeq → Done h n
  seen : l.pager.cursorMode = true → ∀ receiver, l.pager.receiver = some receiver → ∀ p ∈ shown receiver h,
    p.1 = 0 ∧ ∀ n ∈ numbers p.2, Done h n

section Coverage

variable {row : Row} {entity : List ℤ} {l l' l₁ : PagerState} {h h' h₁ : Trace sdk} {page : List Message}

theorem Done.along {n : ℤ} (hd : Done h n) (hp : h <+: h') : Done h' n := by
  obtain ⟨es, rfl⟩ := hp
  exact hd.append es

/-- A beginning of a sorted list has all up to its last number. -/
theorem mem_of_initial {ns all : List ℤ} (hsorted : all.Pairwise (· < ·)) (hp : ns <+: all) {m n : ℤ} (hm : m ∈ ns)
    (hn : n ∈ all) (hle : n ≤ m) : n ∈ ns := by
  obtain ⟨rest, rfl⟩ := hp
  rcases List.mem_append.mp hn with hn | hn
  · exact hn
  · exact absurd ((List.pairwise_append.mp hsorted).2.2 m hm n hn) (not_lt.mpr hle)

theorem choose_stop (row : Row) (t0 now : Time) (taken : ℕ) (processed : List ℤ) (selected page : List Message) :
    (choose row t0 now taken processed selected page).stop ≠ some .endOfEntity := by
  induction page generalizing processed selected with
  | nil => simp [choose]
  | cons m rest ih =>
    rw [choose]
    split
    · exact ih processed selected
    · split
      · simp
      · split
        · exact ih _ selected
        · split
          · simp
          · exact ih processed _

theorem PageExported.not_ended {now : Time} {retried : List ℤ} {stop : Option StopReason}
    (hexported : PageExported row l h page now (.ok (stop, retried)) l' h') : stop ≠ some .endOfEntity := by
  obtain ⟨-, -, pager', -, -, hok⟩ := hexported
  rw [(hok stop retried rfl).1]
  exact choose_stop _ _ _ _ _ _ _

theorem PageExported.shown_eq {now : Time} {r : Except Exn (Option StopReason × List ℤ)} {receiver : Handle}
    (hexported : PageExported row l h page now r l' h') : shown receiver h' = shown receiver h := by
  obtain ⟨-, -, pager', hexports, -⟩ := hexported
  obtain ⟨es, rfl, hes⟩ := hexports.grows
  exact shown_append fun e he => unshown_of_batch (hes e he)

/-- What is done aside leaves out nothing, where no receiver stays open. -/
theorem GoneThrough.aside (hI : GoneThrough entity l h) (ha : Aside l h l' h') (hclosed : l'.pager.receiver = none) :
    GoneThrough entity l' h' := by
  refine ⟨fun n hn => (hI.processed n (ha.processed ▸ hn)).along ha.extends, fun hexplicit => ?_,
    fun _ receiver hopen => ?_⟩
  · obtain ⟨hpos, hbehind⟩ := hI.behind (ha.cursorMode.symm.trans hexplicit)
    rw [ha.nextSeq]
    exact ⟨hpos, fun n hn hlt => (hbehind n hn hlt).along ha.extends⟩
  · rw [hclosed] at hopen
    cases hopen

/-- The page shown by number is a beginning of what is left. -/
theorem Peeked.showsPlain {receiver : Handle} (hpeeked : Peeked l h receiver page l₁ h₁)
    (hexplicit : l.pager.cursorMode = false) (hpos : 1 ≤ l.pager.nextSeq)
    (hplain : ∀ n ∈ numbers page, partitionOf n = 0) (hshows : ∀ e ∈ h₁, ShowsPlain entity e) :
    numbers page <+: entity.filter (l.pager.nextSeq ≤ ·) ∧ (page = [] → entity.filter (l.pager.nextSeq ≤ ·) = []) := by
  obtain ⟨before, -, hlast, -⟩ := hpeeked.last
  have hpage := hshows _ (by rw [hlast]; exact List.mem_append_right _ (List.mem_singleton_self _))
  simp only [ShowsPlain, hexplicit, Bool.false_eq_true, if_false] at hpage
  exact hpage hpos hplain

/-- The pages the receiver showed, with one more. -/
theorem shown_of_peeked {receiver : Handle} (hI : GoneThrough entity l h) (hpeeked : Peeked l h receiver page l₁ h₁)
    (hcursor : l.pager.cursorMode = true) :
    ∃ before, h <+: before ∧ h₁ = before ++ [.call (.peekMessages receiver peekPageSize 0)
      (.ok page)] ∧ shown receiver h₁ = shown receiver before ++ [(0, page)] ∧
        ∀ p ∈ shown receiver before, p.1 = 0 ∧ ∀ n ∈ numbers p.2, Done h n := by
  obtain ⟨before, hp, hlast, hsame⟩ := hpeeked.last
  rw [hcursor, if_pos rfl] at hlast
  refine ⟨before, hp, hlast, ?_, ?_⟩
  · rw [hlast, shown_concat, showing, if_pos rfl]
  · rcases hsame with ⟨hopen, hshown⟩ | hnone
    · rw [hshown]
      exact hI.seen hcursor receiver hopen
    · rw [hnone]
      simp

/-- What a page by number went through is done, with all before it. -/
theorem GoneThrough.exporting {receiver : Handle} {now : Time} {stop : Option StopReason}
    {retried before after : List ℤ} {l₂ : PagerState} {h₂ : Trace sdk} (hsorted : entity.Pairwise (· < ·))
    (hI : GoneThrough entity l h) (hexplicit : l.pager.cursorMode = false) (hpeeked : Peeked l h receiver page l₁ h₁)
    (hexported : PageExported row l₁ h₁ page now (.ok (stop, retried)) l₂ h₂)
    (hshown : numbers page <+: entity.filter (l.pager.nextSeq ≤ ·)) (hsplit : numbers page = before ++ after)
    (hdone : ∀ n ∈ before, n ∈ l₁.pager.processed ∨ n ∈ retried ∨ Done h₂ n) {m n : ℤ} (hm : m ∈ before)
    (hn : n ∈ entity) (hle : n ≤ m) :
    n ∈ retried ∨ Done h₂ n := by
  have hgrows : h <+: h₂ := hpeeked.aside.extends.trans hexported.extends
  by_cases hlt : n < l.pager.nextSeq
  · exact .inr (((hI.behind hexplicit).2 n hn hlt).along hgrows)
  · have hleft : n ∈ entity.filter (l.pager.nextSeq ≤ ·) := List.mem_filter.mpr ⟨hn, by simpa using hlt⟩
    have hbefore : before <+: entity.filter (l.pager.nextSeq ≤ ·) := by
      rw [hsplit] at hshown
      exact (List.prefix_append before after).trans hshown
    rcases hdone n (mem_of_initial (hsorted.filter _) hbefore hm hleft hle) with hold | hnew
    · rw [hpeeked.aside.processed] at hold
      exact .inr ((hI.processed n hold).along hgrows)
    · exact hnew

section Turns

variable {receiver : Handle} {now : Time} {stop : Option StopReason} {l₂ : PagerState} {h₂ : Trace sdk}

theorem GoneThrough.processed_peeked (hI : GoneThrough entity l h) (hpeeked : Peeked l h receiver page l₁ h₁) :
    ∀ n ∈ l₁.pager.processed, Done h₁ n := by
  intro n hn
  rw [hpeeked.aside.processed] at hn
  exact (hI.processed n hn).along hpeeked.aside.extends

theorem PageExported.cursorMode {r : Except Exn (Option StopReason × List ℤ)} (hpeeked : Peeked l h receiver page l₁ h₁)
    (hexported : PageExported row l₁ h₁ page now r l₂ h₂) : l₂.pager.cursorMode = l.pager.cursorMode := by
  rw [hexported.position.2.1, hpeeked.aside.cursorMode]

/-- An empty page ends a fetch that left out nothing. -/
theorem GoneThrough.ended (hI : GoneThrough entity l h) (hpeeked : Peeked l h receiver [] l' h')
    (hshows : ∀ e ∈ h', ShowsPlain entity e) (hall : Always (ShowsAll entity) h') : ∀ n ∈ entity, Done h' n := by
  intro n hn
  by_cases hcursor : l.pager.cursorMode = true
  · obtain ⟨before, hp, rfl, -, hseen⟩ := shown_of_peeked hI hpeeked hcursor
    obtain ⟨p, hmem, hin⟩ := (always_concat.mp hall).2 rfl rfl (fun p hp => (hseen p hp).1) n hn
    exact ((hseen p hmem).2 n hin).along (hp.trans (List.prefix_append before _))
  · have hexplicit : l.pager.cursorMode = false := by simpa using hcursor
    obtain ⟨hpos, hbehind⟩ := hI.behind hexplicit
    have hnone := (hpeeked.showsPlain hexplicit hpos (by simp) hshows).2 rfl
    refine (hbehind n hn ?_).along hpeeked.aside.extends
    by_contra hge
    have hleft : n ∈ entity.filter (l.pager.nextSeq ≤ ·) := List.mem_filter.mpr ⟨hn, by simpa using hge⟩
    rw [hnone] at hleft
    cases hleft

/-- Where the next page starts at the first number to retry, all before it is done. -/
theorem GoneThrough.retried (hsorted : entity.Pairwise (· < ·)) {retried : List ℤ} (hI : GoneThrough entity l h)
    (hmode : l.pager.cursorMode = false) (hplain : Unpartitioned l page) (hpeeked : Peeked l h receiver page l₁ h₁)
    (hexported : PageExported row l₁ h₁ page now (.ok (stop, retried)) l₂ h₂) (hshows : ∀ e ∈ h₁, ShowsPlain entity e)
    {first : ℤ} (hfirst : retried.min? = some first) :
    1 ≤ first ∧ ∀ n ∈ entity, n < first → Done h₂ n := by
  obtain ⟨hpos, -⟩ := hI.behind hmode
  have hshown := (hpeeked.showsPlain hmode hpos (hplain hmode) hshows).1
  obtain ⟨before, after, hsplit, -, hin, -, hdone⟩ := hexported.reached
  have hbefore : first ∈ before := hin first (List.min?_mem hfirst)
  have hleft := hshown.subset (by rw [hsplit]; exact List.mem_append_left after hbefore)
  refine ⟨hpos.trans (by simpa using (List.mem_filter.mp hleft).2), fun n hn hlt => ?_⟩
  rcases hI.exporting hsorted hmode hpeeked hexported hshown hsplit hdone hbefore hn (le_of_lt hlt) with hback | hd
  · exact absurd ((List.min?_eq_some_iff.mp hfirst).2 n hback) (not_le.mpr hlt)
  · exact hd

/-- Where the next page starts after this one, all before it is done. -/
theorem GoneThrough.passed (hsorted : entity.Pairwise (· < ·)) (hI : GoneThrough entity l h)
    (hmode : l.pager.cursorMode = false) (hpage : page ≠ []) (hplain : Unpartitioned l page)
    (hpeeked : Peeked l h receiver page l₁ h₁) (hexported : PageExported row l₁ h₁ page now (.ok (none, [])) l₂ h₂)
    (hshows : ∀ e ∈ h₁, ShowsPlain entity e) :
    1 ≤ lastSequenceNumber page + 1 ∧ ∀ n ∈ entity, n < lastSequenceNumber page + 1 → Done h₂ n := by
  obtain ⟨hpos, -⟩ := hI.behind hmode
  have hshown := (hpeeked.showsPlain hmode hpos (hplain hmode) hshows).1
  obtain ⟨before, after, hsplit, hend, -, -, hdone⟩ := hexported.reached
  have hafter : after = [] := hend rfl
  have hlast : lastSequenceNumber page ∈ before := by
    have hmem := lastSequenceNumber_mem hpage
    rwa [hsplit, hafter, List.append_nil] at hmem
  have hleft := (List.mem_filter.mp (hshown.subset (lastSequenceNumber_mem hpage))).2
  have hstart : l.pager.nextSeq ≤ lastSequenceNumber page := by simpa using hleft
  refine ⟨by omega, fun n hn hlt => ?_⟩
  have hdone' := hI.exporting hsorted hmode hpeeked hexported hshown hsplit hdone hlast hn (by omega)
  exact hdone'.resolve_left (by simp)

/-- All that the receiver showed is done, with the page it showed last. -/
theorem GoneThrough.seen_passed (hI : GoneThrough entity l h) (hmode : l.pager.cursorMode = true)
    (hpeeked : Peeked l h receiver page l₁ h₁) (hexported : PageExported row l₁ h₁ page now (.ok (none, [])) l₂ h₂) :
    ∀ p ∈ shown receiver h₂, p.1 = 0 ∧ ∀ n ∈ numbers p.2, Done h₂ n := by
  obtain ⟨before, after, hsplit, hend, -, -, hdone⟩ := hexported.reached
  obtain ⟨shownBefore, hp, hsame, hshown, hseen⟩ := shown_of_peeked hI hpeeked hmode
  rw [hexported.shown_eq, hshown]
  refine List.forall_mem_append.mpr ⟨fun p hmem => ⟨(hseen p hmem).1, fun n hn => ?_⟩,
    List.forall_mem_singleton.mpr ⟨rfl, fun n hn => ?_⟩⟩
  · exact ((hseen p hmem).2 n hn).along (hpeeked.aside.extends.trans hexported.extends)
  · rw [hsplit, hend rfl, List.append_nil] at hn
    rcases hdone n hn with hold | hback | hd
    · exact (hI.processed_peeked hpeeked n hold).along hexported.extends
    · cases hback
    · exact hd

end Turns

/-- A turn of a full fetch leaves out nothing. -/
theorem GoneThrough.turn (hsorted : entity.Pairwise (· < ·)) {r : Except Exn (Option StopReason)} {t : Trace sdk}
    (hI : GoneThrough entity l h) (hturned : PageTurned row false l h r l' (h ++ t))
    (hshows : ∀ e ∈ h ++ t, ShowsPlain entity e) (hall : Always (ShowsAll entity) (h ++ t)) :
    (r = .ok none → GoneThrough entity l' (h ++ t)) ∧
      (r = .ok (some .endOfEntity) → ∀ n ∈ entity, Done (h ++ t) n) := by
  generalize h ++ t = h' at hturned hshows hall ⊢
  cases hturned with
  | aside haside hne hclosed => exact ⟨fun hr => hI.aside haside (hclosed hr), fun hr => absurd hr hne⟩
  | ended hpeeked => exact ⟨by rintro ⟨⟩, fun _ => hI.ended hpeeked hshows hall⟩
  | revealed _ hpeeked haside hclosed =>
    refine ⟨fun _ => ⟨fun n hn => ?_, fun hexplicit => ?_, fun _ receiver hopen => ?_⟩, by rintro ⟨⟩⟩
    · rw [haside.processed] at hn
      exact (hI.processed_peeked hpeeked n hn).along haside.extends
    · have hcursor := haside.cursorMode
      rw [hexplicit] at hcursor
      cases hcursor
    · rw [hclosed] at hopen
      cases hopen
  | @retried receiver page now stop retried l₁ l₂ _ h₁ h₂ _ hpage hplain hpeeked hexported hretried haside hclosed =>
    refine ⟨fun _ => ⟨fun n hn => ?_, fun hexplicit => ?_, fun _ receiver hopen => ?_⟩, by rintro ⟨⟩⟩
    · rw [haside.processed] at hn
      exact (hexported.processed_done (hI.processed_peeked hpeeked) n hn).along haside.extends
    · have hmode := (hexported.cursorMode hpeeked).symm.trans (haside.cursorMode.symm.trans hexplicit)
      have hsofar : ∀ e ∈ h₁, ShowsPlain entity e :=
        fun e he => hshows e ((hexported.extends.trans haside.extends).subset he)
      obtain ⟨first, hfirst⟩ := Option.isSome_iff_exists.mp (List.isSome_min?_of_ne_nil hretried)
      have hnext : l'.pager.nextSeq = first := by
        rw [haside.nextSeq]
        show retried.min?.getD l₂.pager.nextSeq = first
        rw [hfirst]
        rfl
      obtain ⟨hpos, hbehind⟩ := hI.retried hsorted hmode hplain hpeeked hexported hsofar hfirst
      rw [hnext]
      exact ⟨hpos, fun n hn hlt => (hbehind n hn hlt).along haside.extends⟩
    · rw [hclosed] at hopen
      cases hopen
  | stopped _ _ hexported =>
    refine ⟨by rintro ⟨⟩, ?_⟩
    rintro ⟨⟩
    exact absurd rfl hexported.not_ended
  | @passed receiver page now l₁ l₂ h₁ _ hpage hplain hpeeked hexported =>
    have hprocessed := hexported.processed_done (hI.processed_peeked hpeeked)
    refine ⟨fun _ => ⟨hprocessed, fun hexplicit => ?_, fun hcursor receiver' hopen => ?_⟩, by rintro ⟨⟩⟩
    · have hmode := (hexported.cursorMode hpeeked).symm.trans hexplicit
      exact hI.passed hsorted hmode hpage hplain hpeeked hexported fun e he => hshows e (hexported.extends.subset he)
    · have hmode := (hexported.cursorMode hpeeked).symm.trans hcursor
      have hopened : l₂.pager.receiver = some receiver := hexported.position.2.2.trans hpeeked.opened
      obtain rfl : receiver' = receiver := Option.some.inj (hopen.symm.trans hopened)
      exact hI.seen_passed hmode hpeeked hexported
  | @failed receiver page now e r l₁ l₂ _ h₁ h₂ _ hpage hpeeked hexported hnot haside hstop hclosed =>
    refine ⟨fun hr => ⟨fun n hn => ?_, fun hexplicit => ?_, fun _ receiver hopen => ?_⟩, fun hr => absurd hr (hstop _)⟩
    · rw [haside.processed] at hn
      exact (hexported.processed_done (hI.processed_peeked hpeeked) n hn).along haside.extends
    · have hmode := (hexported.cursorMode hpeeked).symm.trans (haside.cursorMode.symm.trans hexplicit)
      obtain ⟨hpos, hbehind⟩ := hI.behind hmode
      rw [haside.nextSeq, hexported.position.1, hpeeked.aside.nextSeq]
      exact ⟨hpos, fun n hn hlt =>
        (hbehind n hn hlt).along (hpeeked.aside.extends.trans (hexported.extends.trans haside.extends))⟩
    · rw [hclosed hr] at hopen
      cases hopen
  | raised => exact ⟨by rintro ⟨⟩, by rintro ⟨⟩⟩

end Coverage

/-! ### Runs -/

section Run

variable {row : Row} {s : RunState} {entity : List ℤ} {l l' : PagerState} {h es : Trace sdk}

/-- Between the turns nothing was left out, whatever came before the pager. -/
theorem BetweenPages.goneThrough (hmode : row.mode = .peek) (hfull : isIncremental row = false)
    (hfresh : Fresh s.unreadable) (hsorted : entity.Pairwise (· < ·)) (hpositive : ∀ n ∈ entity, 1 ≤ n)
    (hb : BetweenPages row s l h) (es₀ : Trace sdk) (hdistinct : ∀ e ∈ h, Distinct e)
    (hshows : ∀ e ∈ es₀ ++ h, ShowsPlain entity e) (hall : Always (ShowsAll entity) (es₀ ++ h)) :
    GoneThrough entity l (es₀ ++ h) := by
  induction hb with
  | start now =>
    refine ⟨by rintro n ⟨⟩, fun _ => ⟨?_, fun n hn hlt => ?_⟩, by rintro _ receiver ⟨⟩⟩
    · rw [pageStart, hfull]
      exact le_refl 1
    · rw [pageStart, hfull] at hlt
      exact absurd (hpositive n hn) (not_le.mpr hlt)
  | @turn l l' h t hb hturn ih =>
    obtain ⟨hh, ht⟩ := List.forall_mem_append.mp hdistinct
    rw [← List.append_assoc] at hshows hall ⊢
    have hI := ih hh (fun e he => hshows e (List.mem_append_left t he)) (hall.initial (List.prefix_append _ t))
    have hturned := BetweenPages.turned (h := es₀ ++ h) hmode (hb.kept hmode hfresh hh).1 hturn ht
    rw [hfull] at hturned
    exact (hI.turn hsorted hturned hshows hall).1 rfl

/-- A pager that found the end of the entity left out nothing. -/
theorem done_of_fullFetch (hmode : row.mode = .peek) (hfull : isIncremental row = false)
    (hsessions : row.sessions = false) (hfresh : Fresh s.unreadable) (hsorted : entity.Pairwise (· < ·))
    (hpositive : ∀ n ∈ entity, 1 ≤ n) {turns : ℕ} {cursor : Option PeekCursor}
    (hrun : Prog.Exec (PeekPager.run row turns) ⟨s, {}⟩ es (.ok (some cursor)) l') (es₀ : Trace sdk)
    (hdistinct : ∀ e ∈ es, Distinct e) (hshows : ∀ e ∈ es₀ ++ es, ShowsPlain entity e)
    (hall : Always (ShowsAll entity) (es₀ ++ es)) (hend : l'.run.stats.stopReason = some .endOfEntity) :
    ∀ n ∈ entity, Done (es₀ ++ es) n := by
  rcases exec_peekPager hmode hsessions hfresh hrun hdistinct with ⟨e, ⟨⟩, -⟩ | ⟨⟨⟩, -⟩ |
    ⟨r₁, l, h, t, l₁, hb, hturn, -, haside, hstop⟩
  obtain ⟨stop, rfl, hreason, -⟩ := hstop cursor rfl
  obtain rfl := Option.some.inj (hreason.symm.trans hend)
  have hp : es₀ ++ h ++ t <+: es₀ ++ es := by
    rw [List.append_assoc]
    exact (List.prefix_append_right_inj es₀).mpr haside.extends
  obtain ⟨hh, ht⟩ := List.forall_mem_append.mp fun e he => hdistinct e (haside.extends.subset he)
  have hI := hb.goneThrough hmode hfull hfresh hsorted hpositive es₀ hh
    (fun e he => hshows e (hp.subset (List.mem_append_left t he))) (hall.initial ((List.prefix_append _ t).trans hp))
  have hturned := BetweenPages.turned (h := es₀ ++ h) hmode (hb.kept hmode hfresh hh).1 hturn ht
  rw [hfull] at hturned
  have hdone := (hI.turn hsorted hturned (fun e he => hshows e (hp.subset he)) (hall.initial hp)).2 rfl
  exact fun n hn => (hdone n hn).along hp

end Run

/-- Full fetch is exactly once: no sequence number is written as a row twice in a run, none is skipped twice as expired
or pending activation, and none is both. And where a run on a plain or partitioned entity ends at the end of the
entity, every message of it was written, skipped, or given up as unreadable. -/
theorem full_fetch_once (row : Row) (hmode : row.mode = .peek) (hfull : isIncremental row = false)
    (input : ExtractorState) (turns : ℕ) (es : Trace sdk) (r : Except Exn (Option Unit)) (s' : RunState)
    (hrun : Prog.Exec (Component.run row turns) (.start input) es r s') (hdistinct : ∀ e ∈ es, Distinct e) :
    (exported es).Nodup ∧ ∀ entity : List ℤ, row.sessions = false → entity.Pairwise (· < ·) → (∀ n ∈ entity, 1 ≤ n) →
      (∀ e ∈ es, ShowsPlain entity e) → Always (ShowsAll entity) es → r = .ok (some ()) →
      s'.stats.stopReason = some .endOfEntity → ∀ n ∈ entity, Done es n := by
  have hdestructive : row.mode.isDestructive = false := by
    rw [hmode]
    rfl
  cases exec_peekComponent hdestructive hrun with
  | unreached hnone hnot =>
    refine ⟨by rw [hnone]; exact List.nodup_nil, ?_⟩
    exact fun _ _ _ _ _ _ hr => absurd hr hnot
  | @reached es₀ es₁ es₂ s₀ _ r₁ l _ hbefore hpager hafter hend =>
    have hdistinct₁ : ∀ e ∈ es₁, Distinct e := fun e he => hdistinct e (by simp [he])
    have hfresh := hbefore.unpeeked.fresh
    refine ⟨?_, fun entity hsessions hsorted hpositive hshows hall hr hreason => ?_⟩
    · rw [exported_append, exported_append, hbefore.unpeeked.exported, hafter, List.append_nil, List.nil_append]
      exact nodup_of_fullFetch hmode hfull hfresh hpager hdistinct₁
    · obtain ⟨cursor, rfl, hstop, -⟩ := hend hr
      have hfirst : es₀ ++ es₁ <+: es₀ ++ (es₁ ++ es₂) := by
        rw [← List.append_assoc]
        exact List.prefix_append _ es₂
      have hdone := done_of_fullFetch hmode hfull hsessions hfresh hsorted hpositive hpager es₀ hdistinct₁
        (fun e he => hshows e (hfirst.subset he)) (hall.initial hfirst) (hstop ▸ hreason)
      exact fun n hn => (hdone n hn).along hfirst

instance (entity : List ℤ) : DecidablePred (ShowsPlain entity) := by
  refine decidablePages (fun _ _ _ _ => inferInstanceAs (Decidable (_ → _ → _ ∧ (_ → _)))) fun e he => ?_
  unfold ShowsPlain
  split
  · cases he
  · trivial

instance (entity : List ℤ) (before : Trace sdk) : DecidablePred (ShowsAll entity before) := by
  refine decidablePages (fun _ _ _ _ => inferInstanceAs (Decidable (_ → _ → _ → _))) fun e he => ?_
  unfold ShowsAll
  split
  · cases he
  · trivial

/-- The second page shows a partition: the entity is read again without numbers. -/
def revealedPages : Script where
  peeks := [.ok [{ sequenceNumber := 1 }, { sequenceNumber := 2 }], .ok [{ sequenceNumber := 2 ^ 48 + 5 }],
    .ok [{ sequenceNumber := 1 }, { sequenceNumber := 2 ^ 48 + 5 }], .ok [{ sequenceNumber := 2 }]]

/-- Each of the three messages is written once, and none is left out. -/
theorem full_fetch_once_three : (exported (scripted (Component.run fullFetchRow 8) (.start {}) revealedPages)).Nodup ∧
    ∀ n ∈ [1, 2, 2 ^ 48 + 5], Done (scripted (Component.run fullFetchRow 8) (.start {}) revealedPages) n := by
  have hrun : Prog.Exec (Component.run fullFetchRow 8) (.start {}) _ (.ok (some ())) _ :=
    exec_of_scriptedResult revealedPages (by decide +kernel)
  obtain ⟨honce, hdone⟩ := full_fetch_once fullFetchRow rfl rfl {} 8 _ _ _ hrun (by decide +kernel)
  exact ⟨honce, hdone [1, 2, 2 ^ 48 + 5] rfl (by decide +kernel) (by decide +kernel) (by decide +kernel)
    (by decide +kernel) rfl
    (by decide +kernel)⟩

end ServiceBusExtractor
