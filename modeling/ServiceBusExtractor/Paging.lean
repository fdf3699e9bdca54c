import ServiceBusExtractor.Pages

/-!
# The turns of the page loop

A plain entity is peeked page by page. A turn of the loop exports a page, or it
does something aside: it stops, finds the end of the entity, turns to cursor mode,
or loses the connection. This is what each turn does to the books of the pager.

## The model

* `shown receiver h` — the pages a receiver showed since it was opened.
* `Aside` — nothing was exported, and the books are what they were.
* `PageTurned` — the kinds of turns.
* `BetweenPages row s l h` — the page loop of a run in state `s` may be in state `l`
  between two turns, after the trace `h`.

## What is proved

* `wp_pageTurn` — every turn is of one of these kinds;
* `exec_peekPager` — every execution of the pager on a plain entity is between two
  turns, or went through its last one.
-/

namespace ServiceBusExtractor

open Interaction

/-! ### What a receiver showed -/

/-- The pages the receiver showed, after one more event. -/
def showing (receiver : Handle) (pages : List (ℤ × List Message)) : Event sdk → List (ℤ × List Message)
  | .call (.getReceiver ..) (.ok handle) => if handle = receiver then [] else pages
  | .call (.peekMessages handle _ start) (.ok page) => if handle = receiver then pages ++ [(start, page)] else pages
  | _ => pages

/-- The pages the receiver showed since it was opened, each with where it was asked to start. -/
def shown (receiver : Handle) (h : Trace sdk) : List (ℤ × List Message) := h.foldl (showing receiver) []

/-- The event opens no receiver and shows no page. -/
def Unshown : Event sdk → Prop
  | .call (.getReceiver ..) _ | .call (.peekMessages ..) _ => False
  | _ => True

section Shown

variable {receiver : Handle} {h es : Trace sdk}

theorem shown_concat (e : Event sdk) : shown receiver (h ++ [e]) = showing receiver (shown receiver h) e := by
  rw [shown, List.foldl_append]
  rfl

theorem showing_of_unshown {e : Event sdk} (he : Unshown e) (pages : List (ℤ × List Message)) :
    showing receiver pages e = pages := by
  rcases e with ⟨c, r⟩ | n
  · cases c <;> first | rfl | exact he.elim
  · rfl

/-- Events that show nothing leave alone what was shown. -/
theorem shown_append (hes : ∀ e ∈ es, Unshown e) : shown receiver (h ++ es) = shown receiver h := by
  induction es generalizing h with
  | nil => rw [List.append_nil]
  | cons e es ih =>
    obtain ⟨he, hes⟩ := List.forall_mem_cons.mp hes
    rw [List.append_cons, ih hes, shown_concat, showing_of_unshown he]

theorem unshown_of_batch {e : Event sdk} (he : BatchEvent e ∨ SkipNote e) : Unshown e := by
  rcases e with ⟨c, r⟩ | n
  · cases c <;> first | trivial | exact he.elim (fun h => h.elim id id) id
  · trivial

end Shown

/-! ### Turns -/

/-- The pager went on without exporting anything, and its books are what they were. -/
structure Aside (l : PagerState) (h : Trace sdk) (l' : PagerState) (h' : Trace sdk) : Prop where
  books : l'.pager.books = l.pager.books
  t0 : l'.run.t0 = l.run.t0
  fresh : Fresh l'.run.unreadable
  grows : ∃ es, h' = h ++ es ∧ ∀ e ∈ es, exportedBy e = []

/-- A page was peeked, by a receiver that was open before or opened for it. -/
structure Peeked (l : PagerState) (h : Trace sdk) (receiver : Handle) (page : List Message) (l' : PagerState)
    (h' : Trace sdk) : Prop where
  aside : Aside l h l' h'
  opened : l'.pager.receiver = some receiver
  last : ∃ before, h <+: before ∧ h' = before ++ [.call (.peekMessages receiver peekPageSize
    (if l.pager.cursorMode then 0 else l.pager.nextSeq)) (.ok page)] ∧
      ((l.pager.receiver = some receiver ∧ shown receiver before = shown receiver h) ∨ shown receiver before = [])

/-- A page peeked by number shows no partition. -/
def Unpartitioned (l : PagerState) (page : List Message) : Prop :=
  l.pager.cursorMode = false → ∀ n ∈ numbers page, partitionOf n = 0

/-- The kinds of turns of the page loop. -/
inductive PageTurned (row : Row) (incremental : Bool) (l : PagerState) (h : Trace sdk) :
    Except Exn (Option StopReason) → PagerState → Trace sdk → Prop where
  /-- It stops, or fails before it has a page, or refuses the entity. -/
  | aside {r : Except Exn (Option StopReason)} {l' : PagerState} {h' : Trace sdk} : Aside l h l' h' →
      r ≠ .ok (some .endOfEntity) → (r = .ok none → l'.pager.receiver = none) → PageTurned row incremental l h r l' h'
  /-- Nothing is left. -/
  | ended {receiver : Handle} {l' : PagerState} {h' : Trace sdk} : Peeked l h receiver [] l' h' →
      PageTurned row incremental l h (.ok (some .endOfEntity)) l' h'
  /-- The entity is partitioned: it is read again in cursor mode. -/
  | revealed {receiver : Handle} {page : List Message} {l₁ l' : PagerState} {h₁ h' : Trace sdk} : incremental = false →
      Peeked l h receiver page l₁ h₁ → Aside { l₁ with pager := { l₁.pager with cursorMode := true } } h₁ l' h' →
      l'.pager.receiver = none → PageTurned row incremental l h (.ok none) l' h'
  /-- Some bodies asked for a retry: the next page starts at the first. -/
  | retried {receiver : Handle} {page : List Message} {now : Time} {stop : Option StopReason} {retried : List ℤ}
      {l₁ l₂ l' : PagerState} {h₁ h₂ h' : Trace sdk} :
      page ≠ [] → Unpartitioned l page → Peeked l h receiver page l₁ h₁ →
      PageExported row l₁ h₁ page now (.ok (stop, retried)) l₂ h₂ → retried ≠ [] →
      Aside { l₂ with pager := { l₂.pager with nextSeq := retried.min?.getD l₂.pager.nextSeq } } h₂ l' h' →
      l'.pager.receiver = none → PageTurned row incremental l h (.ok none) l' h'
  /-- The page is the last one. -/
  | stopped {receiver : Handle} {page : List Message} {now : Time} {stop : StopReason} {l₁ l' : PagerState}
      {h₁ h' : Trace sdk} : page ≠ [] → Peeked l h receiver page l₁ h₁ →
      PageExported row l₁ h₁ page now (.ok (some stop, [])) l' h' →
        PageTurned row incremental l h (.ok (some stop)) l' h'
  /-- The next page starts after it. -/
  | passed {receiver : Handle} {page : List Message} {now : Time} {l₁ l₂ : PagerState} {h₁ h' : Trace sdk} :
      page ≠ [] → Unpartitioned l page → Peeked l h receiver page l₁ h₁ →
      PageExported row l₁ h₁ page now (.ok (none, [])) l₂ h' →
        PageTurned row incremental l h (.ok none) { l₂ with pager := { l₂.pager with
        nextSeq := lastSequenceNumber page + 1
        processed := if incremental then [] else l₂.pager.processed } } h'
  /-- Exporting it failed, and the pager may recover. -/
  | failed {receiver : Handle} {page : List Message} {now : Time} {e : Exn} {r : Except Exn (Option StopReason)}
      {l₁ l₂ l' : PagerState} {h₁ h₂ h' : Trace sdk} : page ≠ [] → Peeked l h receiver page l₁ h₁ →
      PageExported row l₁ h₁ page now (.error e) l₂ h₂ → NotUser e → Aside l₂ h₂ l' h' → (∀ stop, r ≠ .ok (some stop)) →
      (r = .ok none → l'.pager.receiver = none) → PageTurned row incremental l h r l' h'
  /-- Exporting it raised an exception of the user's. -/
  | raised {receiver : Handle} {page : List Message} {now : Time} {e : Exn} {l₁ l' : PagerState} {h₁ h' : Trace sdk} :
      page ≠ [] → Peeked l h receiver page l₁ h₁ → PageExported row l₁ h₁ page now (.error e) l' h' →
      PageTurned row incremental l h (.error e) l' h'

/-- A page shows each message once. -/
def Distinct : Event sdk → Prop
  | .call (.peekMessages ..) (.ok page) => (numbers page).Nodup
  | _ => True

/-- The page a peek returned. -/
def pageOf : Event sdk → Option (List Message)
  | .call (.peekMessages ..) (.ok page) => some page
  | _ => none

/-- A condition that asks something of the pages only is decided page by page. -/
@[reducible] def decidablePages {P : Event sdk → Prop}
    (hpage : ∀ receiver count start page, Decidable (P (.call (.peekMessages receiver count start) (.ok page))))
    (hrest : ∀ e, pageOf e = none → P e) : DecidablePred P := by
  refine decidableEvents (fun c => ?_) fun _ => .isTrue (hrest _ rfl)
  induction c using Call.casesOn with
  | peekMessages receiver count start =>
    rintro (fault | page)
    · exact .isTrue (hrest _ rfl)
    · exact hpage receiver count start page
  | _ => exact fun _ => .isTrue (hrest _ rfl)

instance : DecidablePred Distinct := by
  refine decidablePages (fun _ _ _ page => inferInstanceAs (Decidable (numbers page).Nodup)) fun e he => ?_
  unfold Distinct
  split
  · cases he
  · trivial

section Turn

variable {row : Row} {incremental : Bool} {l l₀ : PagerState} {h h₀ : Trace sdk}

theorem Aside.refl (hfresh : Fresh l.run.unreadable) : Aside l h l h :=
  ⟨rfl, rfl, hfresh, [], by simp, by simp⟩

theorem Aside.extends {l' : PagerState} {h' : Trace sdk} (ha : Aside l h l' h') : h <+: h' := by
  obtain ⟨es, rfl, -⟩ := ha.grows
  exact List.prefix_append h es

theorem Aside.processed {l' : PagerState} {h' : Trace sdk} (ha : Aside l h l' h') :
    l'.pager.processed = l.pager.processed :=
  congrArg Books.processed ha.books

theorem Aside.high {l' : PagerState} {h' : Trace sdk} (ha : Aside l h l' h') : l'.pager.high = l.pager.high :=
  congrArg Books.high ha.books

theorem Aside.outstanding {l' : PagerState} {h' : Trace sdk} (ha : Aside l h l' h') :
    l'.pager.outstanding = l.pager.outstanding := congrArg Books.outstanding ha.books

theorem Aside.taken {l' : PagerState} {h' : Trace sdk} (ha : Aside l h l' h') : l'.pager.taken = l.pager.taken :=
  congrArg Books.taken ha.books

theorem Aside.nextSeq {l' : PagerState} {h' : Trace sdk} (ha : Aside l h l' h') : l'.pager.nextSeq = l.pager.nextSeq :=
  congrArg Books.nextSeq ha.books

theorem Aside.cursorMode {l' : PagerState} {h' : Trace sdk} (ha : Aside l h l' h') :
    l'.pager.cursorMode = l.pager.cursorMode := congrArg Books.cursorMode ha.books

theorem Aside.exported_eq {l' : PagerState} {h' : Trace sdk} (ha : Aside l h l' h') : exported h' = exported h := by
  obtain ⟨es, rfl, hes⟩ := ha.grows
  rw [exported_append, exported_eq_nil hes, List.append_nil]

theorem Aside.event {e : Event sdk} (hI : Aside l₀ h₀ l h) (he : exportedBy e = []) : Aside l₀ h₀ l (h ++ [e]) := by
  obtain ⟨es, rfl, hes⟩ := hI.grows
  refine ⟨hI.books, hI.t0, hI.fresh, es ++ [e], by simp, ?_⟩
  exact List.forall_mem_append.mpr ⟨hes, List.forall_mem_singleton.mpr he⟩

/-- What is quiet stays aside. -/
theorem pagerFrame_aside : PagerFrame Recorded (Aside l₀ h₀) where
  run pager := {
    stats := fun _ _ hI => ⟨hI.books, hI.t0, hI.fresh, hI.grows⟩
    info := fun _ hI => ⟨hI.books, hI.t0, hI.fresh, hI.grows⟩
    quiet := by
      rintro e s h _ he ⟨-, rfl⟩ hI
      exact hI.event (exportedBy_of_quiet he) }
  reopened := by
    rintro n l h _ hn ⟨-, rfl⟩ hI
    refine hI.event ?_
    cases n <;> first | rfl | exact absurd hn Bool.false_ne_true
  connection pager hpager hI := ⟨hpager.trans hI.books, hI.t0, hI.fresh, hI.grows⟩

theorem raises_closeReceiverQuietly {W : Type} (P : Exn → Prop) (receiver : Handle) :
    Raises Recorded P (closeReceiverQuietly receiver : Program W Unit) := raises_tryCatch fun _ => raises_pure

theorem raises_closeClientQuietly {W : Type} (P : Exn → Prop) (client : Handle) :
    Raises Recorded P (closeClientQuietly client : Program W Unit) := raises_tryCatch fun _ => raises_pure

theorem raises_whenOpen {W : Type} {P : Exn → Prop} {handle : Option Handle} {p : Handle → Program W Unit}
    (hp : ∀ handle, Raises Recorded P (p handle)) : Raises Recorded P (whenOpen handle p) := by
  cases handle with
  | none => exact raises_pure
  | some handle => exact hp handle

/-- Closing raises nothing and leaves no receiver open. -/
theorem wp_closePager (hI : Aside l₀ h₀ l h) : Wp Recorded closePager
    (fun r l' h' => r = .ok () ∧ Aside l₀ h₀ l' h' ∧ l'.pager.receiver = none) l h := by
  have hraises : Raises Recorded (fun _ => False) closePager := by
    refine raises_bind raises_get fun s => ?_
    refine raises_bind raises_modify fun _ => ?_
    refine raises_bind (raises_whenOpen fun receiver => raises_closeReceiverQuietly _ receiver) fun _ => ?_
    refine raises_bind (raises_forM fun receiver _ => raises_closeReceiverQuietly _ receiver) fun _ => raises_whenOpen
      fun client => raises_closeClientQuietly _ client
  have hkeeps : Wp Recorded closePager (fun _ l' h' => Aside l₀ h₀ l' h' ∧ l'.pager.receiver = none) l h := by
    have hq : QuietKeeps Recorded fun l' h' => Aside l₀ h₀ l' h' ∧ l'.pager.receiver = none :=
      fun e w b b' he hR hI => ⟨quietKeeps_pager pagerFrame_aside e w b b' he hR hI.1, hI.2⟩
    rw [closePager, wp_bind, wp_get, onOk_ok, wp_bind, updatePager, wp_modify, onOk_ok]
    have hrest : Keeps Recorded (fun l' h' => Aside l₀ h₀ l' h' ∧ l'.pager.receiver = none) (do
        whenOpen l.pager.receiver closeReceiverQuietly
        l.pager.held.forM closeReceiverQuietly
        whenOpen l.pager.client closeClientQuietly) := by
      refine keeps_bind (keeps_whenOpen fun receiver => keeps_closeReceiverQuietly hq receiver) fun _ => ?_
      exact keeps_bind (keeps_forM fun receiver _ => keeps_closeReceiverQuietly hq receiver) fun _ => keeps_whenOpen
        fun client => keeps_closeClientQuietly hq client
    exact hrest _ h ⟨pagerFrame_aside.connection _ rfl hI, rfl⟩
  refine ((hraises l h).and hkeeps).mono fun r l' h' hr => ?_
  cases r with
  | error e => exact (hr.1 e rfl).elim
  | ok _ => exact ⟨rfl, hr.2⟩

/-- Recovering is aside; where it succeeds no receiver is open. -/
theorem wp_recoverPager (error : Exn) (hI : Aside l₀ h₀ l h) : Wp Recorded (recoverPager row error)
    (fun r l' h' => Aside l₀ h₀ l' h' ∧ (r = .ok () → l'.pager.receiver = none)) l h := by
  rw [recoverPager, wp_bind]
  refine (wp_closePager hI).mono ?_
  rintro _ l₁ h₁ ⟨rfl, hI₁, hnone⟩
  rw [onOk_ok, wp_bind, wp_get, onOk_ok, wp_bind, wp_ofExcept]
  cases l₁.pager.tracker.failure row error with
  | error e => exact ⟨hI₁, by rintro ⟨⟩⟩
  | ok tracker =>
    rw [onOk_ok, wp_bind, updatePager, wp_modify, onOk_ok, wp_bind, onPagerRun, wp_embed, tally, wp_modify, onOk_ok]
    have hK : Keeps Recorded (fun l' h' => Aside l₀ h₀ l' h' ∧ l'.pager.receiver = none)
        (logRecovery row error tracker) :=
      keeps_logRecovery (fun e w b b' he hR hI => ⟨quietKeeps_pager pagerFrame_aside e w b b' he hR hI.1, hI.2⟩)
        (fun w b b' hR hI => ⟨pagerFrame_aside.reopened .recovery w b b' rfl hR hI.1, hI.2⟩) row error tracker
    refine Wp.mono (hK _ _ ?_) fun r l' h' hI' => ⟨hI'.1, fun _ => hI'.2⟩
    exact ⟨⟨hI₁.books, hI₁.t0, hI₁.fresh, hI₁.grows⟩, hnone⟩

/-- The stop check changes nothing, raises nothing and never finds the end of the entity. -/
theorem wp_pagerStopCheck {Q : Except Exn (Option StopReason) → PagerState → Trace sdk → Prop}
    (hQ : ∀ stop es, (∀ e ∈ es, Still e) → stop ≠ some .endOfEntity → Q (.ok stop) l (h ++ es)) :
    Wp Recorded (pagerStopCheck row) Q l h := by
  rw [pagerStopCheck, wp_bind, wp_get, onOk_ok, wp_ite]
  refine ⟨fun _ => wp_pure.mpr ?_, fun _ => ?_⟩
  · rw [← List.append_nil h]
    exact hQ _ [] (by simp) (by decide)
  · rw [wp_bind, monotonic, wp_perform]
    rintro now _ ⟨-, rfl⟩
    rw [onOk_ok, wp_ite]
    refine ⟨fun _ => wp_pure.mpr (hQ _ _ ?_ (by decide)), fun _ => wp_pure.mpr (hQ _ _ ?_ (by decide))⟩
    · exact List.forall_mem_singleton.mpr trivial
    · exact List.forall_mem_singleton.mpr trivial

/-- A receiver that was just opened showed nothing. -/
theorem wp_openPager (session : SessionRequest) (hI : Aside l₀ h₀ l h) : Wp Recorded (openPager row session)
    (fun r l' h' => Aside l₀ h₀ l' h' ∧ ∀ receiver, r = .ok receiver → shown receiver h' = []) l h := by
  rw [openPager, wp_bind]
  have hclient : Keeps Recorded (Aside l₀ h₀) (pagerClient row) := by
    refine keeps_bind keeps_get fun s => ?_
    cases s.pager.client with
    | some client => exact keeps_pure
    | none =>
      refine keeps_bind (keeps_quietCall (quietKeeps_pager pagerFrame_aside) rfl) fun _ => ?_
      exact keeps_bind (keeps_connection pagerFrame_aside fun _ => rfl) fun _ => keeps_pure
  refine (hclient l h hI).mono fun r l₁ h₁ hI₁ => ?_
  cases r with
  | error e => exact ⟨hI₁, by rintro _ ⟨⟩⟩
  | ok client =>
    rw [onOk_ok, wp_bind, openReceiver, wp_request]
    rintro reply _ ⟨-, rfl⟩
    have hI₂ := quietKeeps_pager pagerFrame_aside (.call (.getReceiver client row.entity _) reply) l₁ h₁ _ rfl
        ⟨trivial, rfl⟩ hI₁
    cases reply with
    | error fault => cases fault <;> exact ⟨hI₂, by rintro _ ⟨⟩⟩
    | ok receiver =>
      rw [onOk_ok, wp_bind]
      have hK : Keeps Recorded (fun l' h' => Aside l₀ h₀ l' h' ∧ shown receiver h' = []) (enterReceiver receiver) := by
        have hcall : ∀ {c : Call} {result : Reply c → Except Exn Unit}, c.isQuiet = true → (∀ a, Unshown (.call c a)) →
            Keeps Recorded (fun l' h' => Aside l₀ h₀ l' h' ∧ shown receiver h' = [])
              (Prog.request (S := sdk) c result) := by
          intro c result hc hun
          refine keeps_request ?_
          rintro a w b _ ⟨-, rfl⟩ hI
          refine ⟨quietKeeps_pager pagerFrame_aside (.call c a) w b _ hc ⟨trivial, rfl⟩ hI.1, ?_⟩
          rw [shown_concat, showing_of_unshown (hun a), hI.2]
        refine keeps_tryCatch (hcall rfl fun _ => trivial) fun _ => ?_
        exact keeps_bind (keeps_tryCatch (hcall rfl fun _ => trivial) fun _ => keeps_pure) fun _ => keeps_throw
      refine Wp.mono (hK _ _ ⟨hI₂, ?_⟩) fun r l₃ h₃ hI₃ => ?_
      · rw [shown_concat, showing, if_pos rfl]
      · cases r with
        | error e => exact ⟨hI₃.1, by rintro _ ⟨⟩⟩
        | ok _ =>
          refine wp_pure.mpr ⟨hI₃.1, ?_⟩
          rintro _ ⟨⟩
          exact hI₃.2

/-- The receiver of the next page was open before, or showed nothing yet. -/
theorem wp_pageReceiver (hI : Aside l₀ h₀ l h) : Wp Recorded (pageReceiver row) (fun r l' h' => Aside l₀ h₀ l' h' ∧
    ∀ receiver, r = .ok receiver → l'.pager.receiver = some receiver ∧
      ((l.pager.receiver = some receiver ∧ h' = h) ∨ shown receiver h' = [])) l h := by
  rw [pageReceiver, wp_bind, wp_get, onOk_ok]
  cases hopen : l.pager.receiver with
  | some receiver =>
    refine wp_pure.mpr ⟨hI, ?_⟩
    rintro _ ⟨⟩
    exact ⟨hopen, .inl ⟨rfl, rfl⟩⟩
  | none =>
    rw [wp_bind]
    refine (wp_openPager .none hI).mono ?_
    rintro r l₁ h₁ ⟨hI₁, hshown⟩
    cases r with
    | error e => exact ⟨hI₁, by rintro _ ⟨⟩⟩
    | ok receiver =>
      rw [onOk_ok, wp_bind, updatePager, wp_modify, onOk_ok, wp_pure]
      refine ⟨pagerFrame_aside.connection _ rfl hI₁, ?_⟩
      rintro _ ⟨⟩
      exact ⟨rfl, .inr (hshown receiver rfl)⟩

/-- What limited histories record. -/
theorem recorded_of_logged {A : Event sdk → Prop} (e : Event sdk) (h h' : Trace sdk) (he : Logged A e h h') :
    Recorded e h h' := ⟨trivial, he.2⟩

/-- Metadata without partitions saw none on a page. -/
theorem unpartitioned_of_notes {page : List Message} {info : EntityInfo} (h : (page.foldl (fun info message =>
    info.noteSequenceNumber message.sequenceNumber) info).isPartitioned = false) :
    info.isPartitioned = false ∧ ∀ n ∈ numbers page, partitionOf n = 0 := by
  induction page generalizing info with
  | nil => exact ⟨h, by simp⟩
  | cons m rest ih =>
    obtain ⟨hone, hrest⟩ := ih h
    dsimp only at hone
    by_cases hzero : partitionOf m.sequenceNumber = 0
    · rw [info.noteSequenceNumber_of_plain hzero] at hone
      exact ⟨hone, List.forall_mem_cons.mpr ⟨hzero, hrest⟩⟩
    · simp [EntityInfo.noteSequenceNumber, EntityInfo.isPartitioned, hzero] at hone

/-- A page changes only the metadata, and shows no partition where it reveals none. -/
theorem wp_revealsPartitions {page : List Message} {Q : Except Exn Bool → PagerState → Trace sdk → Prop}
    (hQ : ∀ reveals info, (reveals = false → Unpartitioned l page) →
      Q (.ok reveals) { l with run := { l.run with info := info } } h) : Wp Recorded
        (revealsPartitions page) Q l h := by
  rw [revealsPartitions, wp_bind, wp_get, onOk_ok, wp_ite]
  refine ⟨fun hcursor => wp_pure.mpr (hQ false l.run.info fun _ hplain => ?_), fun _ => ?_⟩
  · exact absurd hcursor (by rw [hplain]; exact Bool.false_ne_true)
  · rw [wp_bind, onPagerRun, wp_embed, wp_modify, onOk_ok, wp_bind, wp_get, onOk_ok, wp_pure]
    exact hQ _ _ fun hnone _ => (unpartitioned_of_notes hnone).2

/-- A step that failed did so before it had a page, or while it exported it. -/
def PageFailed (row : Row) (l : PagerState) (h : Trace sdk) (e : Exn) (l' : PagerState) (h' : Trace sdk) : Prop :=
  Aside l h l' h' ∨ ∃ receiver page now l₁ h₁, page ≠ [] ∧ Peeked l h receiver page l₁ h₁ ∧
    PageExported row l₁ h₁ page now (.error e) l' h'

/-- How a step of the page loop ends. -/
def PageStepped (row : Row) (incremental : Bool) (l : PagerState) (h : Trace sdk) (r : Except Exn (Option StopReason))
    (l' : PagerState) (h' : Trace sdk) : Prop :=
  (∃ stop, r = .ok stop ∧ PageTurned row incremental l h r l' h') ∨ ∃ e, r = .error e ∧ PageFailed row l h e l' h'

/-- What comes after a page. -/
theorem wp_afterPage {receiver : Handle} {page : List Message} {now : Time} {stop : Option StopReason}
    {retried : List ℤ} {l₁ : PagerState} {h₁ : Trace sdk} (hpage : page ≠ [])
    (hpeeked : Peeked l₀ h₀ receiver page l₁ h₁) (hplain : Unpartitioned l₀ page)
    (hexported : PageExported row l₁ h₁ page now (.ok (stop, retried)) l h) :
    Wp Recorded (afterPage incremental page (stop, retried)) (PageStepped row incremental l₀ h₀) l h := by
  rw [afterPage, wp_ite]
  refine ⟨fun hretried => ?_, fun hnone => ?_⟩
  · rw [wp_bind, recyclePager, wp_bind]
    refine (wp_closePager (.refl hexported.1)).mono ?_
    rintro _ l₂ h₂ ⟨rfl, hI₂, hclosed⟩
    rw [onOk_ok, wp_bind, updatePager, wp_modify, onOk_ok, wp_bind, onPagerRun, wp_embed, tally, wp_modify, onOk_ok,
      wp_bind, wp_note]
    rintro _ ⟨-, rfl⟩
    rw [onOk_ok, updatePager, wp_modify, onOk_ok, wp_pure]
    have hgrows : ∃ es, h₂ ++ [.note .recycle] = h ++ es ∧ ∀ e ∈ es, exportedBy e = [] := by
      obtain ⟨es, rfl, hes⟩ := hI₂.grows
      exact ⟨es ++ [.note .recycle], by simp, List.forall_mem_append.mpr ⟨hes, List.forall_mem_singleton.mpr rfl⟩⟩
    have hsame := hI₂.nextSeq
    refine .inl ⟨_, rfl, .retried hpage hplain hpeeked hexported hretried ⟨?_, hI₂.t0, hI₂.fresh, hgrows⟩ hclosed⟩
    show { l₂.pager.books with nextSeq := retried.min?.getD l₂.pager.nextSeq } = _
    rw [hI₂.books, hsame]
    rfl
  · have hnil : retried = [] := not_not.mp hnone
    rw [hnil] at hexported
    cases stop with
    | some stop => exact wp_pure.mpr (.inl ⟨_, rfl, .stopped hpage hpeeked hexported⟩)
    | none =>
      dsimp only
      rw [wp_bind, updatePager, wp_modify, onOk_ok, wp_pure]
      exact .inl ⟨_, rfl, .passed hpage hplain hpeeked hexported⟩

/-- Turning to cursor mode, or refusing to. -/
theorem wp_onPartitions {receiver : Handle} {page : List Message} (hpeeked : Peeked l₀ h₀ receiver page l h) :
    Wp Recorded (onPartitions incremental) (PageStepped row incremental l₀ h₀) l h := by
  rw [onPartitions, wp_ite]
  refine ⟨fun _ => wp_throw.mpr (.inr ⟨_, rfl, .inl hpeeked.aside⟩), fun hfull => ?_⟩
  rw [wp_bind, updatePager, wp_modify, onOk_ok, wp_bind, setRetries, onPagerRun, wp_embed, updateUnreadable, wp_modify,
    onOk_ok,
    wp_bind, closePageReceiver, wp_bind, wp_get, onOk_ok, wp_bind, updatePager, wp_modify, onOk_ok]
  have hfresh := hpeeked.aside.fresh
  have hK : Keeps Recorded (fun l' h' => Aside { l with pager := { l.pager with cursorMode := true } } h l' h' ∧
      l'.pager.receiver = none) (whenOpen l.pager.receiver closeReceiverQuietly) :=
    keeps_whenOpen fun receiver => keeps_closeReceiverQuietly
      (fun e w b b' he hR hI => ⟨quietKeeps_pager pagerFrame_aside e w b b' he hR hI.1, hI.2⟩) receiver
  have hraises : Raises Recorded (fun _ => False) (whenOpen l.pager.receiver closeReceiverQuietly : Pager Unit) :=
    raises_whenOpen fun receiver => raises_closeReceiverQuietly _ receiver
  refine Wp.mono ((hraises _ h).and (hK _ h ⟨⟨rfl, rfl, ⟨hfresh.left, hfresh.user⟩, [], by simp, by simp⟩, rfl⟩)) ?_
  rintro r l' h' ⟨hnever, haside, hclosed⟩
  cases r with
  | error e => exact (hnever e rfl).elim
  | ok _ =>
    have hincremental : incremental = false := by simpa using hfull
    exact wp_pure.mpr (.inl ⟨_, rfl, .revealed hincremental hpeeked haside hclosed⟩)

/-- One pass of the page loop's `try`, where each page shows a message once. -/
theorem wp_pageStep (hmode : row.mode = .peek) (hfresh : Fresh l.run.unreadable) :
    Wp (Logged Distinct) (pageStep row incremental) (PageStepped row incremental l h) l h := by
  rw [pageStep, wp_bind]
  refine (wp_pagerStopCheck fun stop es hes hstop => ?_).limit recorded_of_logged
  have haside : Aside l h l (h ++ es) := by
    refine ⟨rfl, rfl, hfresh, es, rfl, fun e he => ?_⟩
    exact exportedBy_of_quiet (quiet_of_still (hes e he))
  cases stop with
  | some stop => exact wp_pure.mpr (.inl ⟨_, rfl, .aside haside (by simpa using hstop) (by rintro ⟨⟩)⟩)
  | none =>
    rw [onOk_ok]
    dsimp only
    rw [wp_bind]
    refine ((wp_pageReceiver haside).limit recorded_of_logged).mono ?_
    rintro r l₁ h₁ ⟨hI₁, hreceiver⟩
    cases r with
    | error e => exact .inr ⟨e, rfl, .inl hI₁⟩
    | ok receiver =>
      obtain ⟨hopened, hshown⟩ := hreceiver receiver rfl
      rw [onOk_ok, wp_bind, wp_get, onOk_ok, wp_bind, peekMessages, wp_request]
      rintro reply _ ⟨hdistinct, rfl⟩
      have hI₂ : ∀ info, Aside l h { l₁ with run := { l₁.run with info := info } } (h₁ ++ [.call (.peekMessages receiver
          peekPageSize (if l₁.pager.cursorMode then 0 else l₁.pager.nextSeq)) reply]) := by
        intro info
        obtain ⟨es₁, rfl, hes₁⟩ := hI₁.grows
        refine ⟨hI₁.books, hI₁.t0, hI₁.fresh, es₁ ++ [_], by rw [List.append_assoc], ?_⟩
        exact List.forall_mem_append.mpr ⟨hes₁, List.forall_mem_singleton.mpr rfl⟩
      cases reply with
      | error fault => exact .inr ⟨_, rfl, .inl (hI₂ l₁.run.info)⟩
      | ok page =>
        have hpeeked : ∀ info, Peeked l h receiver page { l₁ with run := { l₁.run with info := info } }
            (h₁ ++ [.call (.peekMessages receiver peekPageSize (if l₁.pager.cursorMode then 0 else l₁.pager.nextSeq))
              (.ok page)]) := by
          intro info
          refine ⟨hI₂ info, hopened, h₁, hI₁.extends, ?_, hshown.imp (fun hsame => ⟨hsame.1, ?_⟩) id⟩
          · rw [hI₁.cursorMode, hI₁.nextSeq]
          · rw [hsame.2]
            exact shown_append fun e he => unshown_of_batch (.inl (batchEvent_of_still (hes e he)))
        rw [sdkResult_ok, onOk_ok, wp_ite]
        refine ⟨fun hnil => ?_, fun hpage => ?_⟩
        · obtain rfl := hnil
          exact wp_pure.mpr (.inl ⟨_, rfl, .ended (hpeeked l₁.run.info)⟩)
        · rw [wp_bind]
          refine (wp_revealsPartitions fun reveals info hplain => ?_).limit recorded_of_logged
          rw [onOk_ok, wp_ite]
          refine ⟨fun _ => (wp_onPartitions (hpeeked info)).limit recorded_of_logged, fun hnone => ?_⟩
          have hunpartitioned : Unpartitioned l page := by
            intro hexplicit
            exact hplain (by simpa using hnone) (hI₁.cursorMode.trans hexplicit)
          rw [wp_bind]
          refine Wp.mono ((wp_exportPage hmode receiver hdistinct (hI₂ info).fresh).limit recorded_of_logged) ?_
          rintro r l₃ h₃ ⟨now, hexported⟩
          cases r with
          | error e => exact .inr ⟨e, rfl, .inr ⟨receiver, page, now, _, _, hpage, hpeeked info, hexported⟩⟩
          | ok result => exact (wp_afterPage hpage (hpeeked info) hunpartitioned hexported).limit recorded_of_logged

/-- Every turn of the page loop is of one of its kinds. -/
theorem wp_pageTurn (hmode : row.mode = .peek) (hfresh : Fresh l.run.unreadable) :
    Wp (Logged Distinct) (pageTurn row incremental) (PageTurned row incremental l h) l h := by
  rw [pageTurn, wp_tryCatch]
  refine (wp_pageStep hmode hfresh).mono ?_
  rintro r l₁ h₁ (⟨stop, rfl, hturned⟩ | ⟨e, rfl, hfailed⟩)
  · exact hturned
  · rw [onError_error, wp_ite]
    refine ⟨fun huser => wp_throw.mpr ?_, fun hnot => ?_⟩
    · rcases hfailed with haside | ⟨receiver, page, now, l₂, h₂, hpage, hpeeked, hexported⟩
      · exact .aside haside (by rintro ⟨⟩) (by rintro ⟨⟩)
      · exact .raised hpage hpeeked hexported
    · have hnotUser : NotUser e := by simpa using hnot
      rw [wp_bind]
      rcases hfailed with haside | ⟨receiver, page, now, l₂, h₂, hpage, hpeeked, hexported⟩
      · refine ((wp_recoverPager e haside).limit recorded_of_logged).mono ?_
        rintro r l₃ h₃ ⟨haside₃, hclosed⟩
        cases r with
        | error e' => exact .aside haside₃ (by rintro ⟨⟩) (by rintro ⟨⟩)
        | ok _ => exact wp_pure.mpr (.aside haside₃ (by rintro ⟨⟩) fun _ => hclosed rfl)
      · refine ((wp_recoverPager e (.refl hexported.1)).limit recorded_of_logged).mono ?_
        rintro r l₃ h₃ ⟨haside₃, hclosed⟩
        cases r with
        | error e' => exact .failed hpage hpeeked hexported hnotUser haside₃ (by rintro _ ⟨⟩) (by rintro ⟨⟩)
        | ok _ =>
          exact wp_pure.mpr (.failed hpage hpeeked hexported hnotUser haside₃ (by rintro _ ⟨⟩) fun _ => hclosed rfl)

theorem PageTurned.fresh {r : Except Exn (Option StopReason)} {l' : PagerState} {h' : Trace sdk}
    (ht : PageTurned row incremental l h r l' h') : Fresh l'.run.unreadable := by
  cases ht with
  | aside haside => exact haside.fresh
  | ended hpeeked => exact hpeeked.aside.fresh
  | revealed _ _ haside => exact haside.fresh
  | retried _ _ _ _ _ haside => exact haside.fresh
  | stopped _ _ hexported => exact hexported.1
  | passed _ _ _ hexported => exact hexported.1
  | failed _ _ _ _ haside => exact haside.fresh
  | raised _ _ hexported => exact hexported.1

end Turn

/-! ### The loop -/

/-- The pager of a run in state `s`, as the page loop starts. -/
def pageStart (row : Row) (s : RunState) (now : Time) : PagerState where
  run := if !isIncremental row && s.info.isPartitioned then
    { s with unreadable := { s.unreadable with retriesEnabled := false } } else s
  pager := {
    deadline := now + seconds row.config.advanced.maxDurationSeconds
    nextSeq := if isIncremental row then startAt row s.state.peekCursor else 1
    cursorMode := !isIncremental row && s.info.isPartitioned }

/-- The page loop may be in state `l` between two turns, after the trace `h`. -/
inductive BetweenPages (row : Row) (s : RunState) : PagerState → Trace sdk → Prop where
  /-- The deadline is set. -/
  | start (now : Time) : BetweenPages row s (pageStart row s now) [.call .monotonic now]
  /-- A turn without a stop. -/
  | turn {l l' : PagerState} {h es : Trace sdk} : BetweenPages row s l h →
      Prog.Exec (pageTurn row (isIncremental row)) l es (.ok none) l' → BetweenPages row s l' (h ++ es)

/-- The loop ended with a turn that stops or raises, and the pager was closed. -/
def PagesEnded (row : Row) (s : RunState) (r : Except Exn (Option (Option PeekCursor))) (l' : PagerState)
    (h' : Trace sdk) : Prop :=
  ∃ r₁ l h t l₁, BetweenPages row s l h ∧ Prog.Exec (pageTurn row (isIncremental row)) l t r₁ l₁ ∧
    PageTurned row (isIncremental row) l h r₁ l₁ (h ++ t) ∧ Aside l₁ (h ++ t) l' h' ∧ ∀ cursor, r = .ok (some cursor) →
      ∃ stop, r₁ = .ok (some stop) ∧ l'.run.stats.stopReason = some stop ∧ cursor = if isIncremental row then
        newCursor row (startAt row s.state.peekCursor) s.state.peekCursor l'.pager else none

section Loop

variable {row : Row} {s : RunState} {l : PagerState} {h : Trace sdk}

/-- The input of the run stays as it is. -/
theorem peekSteps_state (state : ExtractorState) : PeekSteps Recorded row fun s _ => s.state = state :=
  Outside.peekSteps (J := fun state' _ _ => state' = state) {
    event := fun _ _ _ _ _ _ _ hI => hI
    header := fun _ _ _ _ _ _ _ _ hI => hI
    mapped := fun _ _ _ _ _ hI => hI
    seeded := fun _ _ _ _ hI => hI }

theorem fresh_pageStart (hfresh : Fresh s.unreadable) (now : Time) : Fresh (pageStart row s now).run.unreadable := by
  unfold pageStart
  dsimp only
  split
  · exact ⟨hfresh.left, hfresh.user⟩
  · exact hfresh

theorem state_pageStart (now : Time) : (pageStart row s now).run.state = s.state := by
  unfold pageStart
  dsimp only
  split
  · rfl
  · rfl

/-- A turn, with what it is. -/
theorem BetweenPages.turned (hmode : row.mode = .peek) (hfresh : Fresh l.run.unreadable) {t : Trace sdk}
    {r : Except Exn (Option StopReason)} {l' : PagerState}
    (hturn : Prog.Exec (pageTurn row (isIncremental row)) l t r l') (hdistinct : ∀ e ∈ t, Distinct e) :
    PageTurned row (isIncremental row) l h r l' (h ++ t) :=
  wp_logged.mp (wp_pageTurn hmode hfresh) t r l' hturn hdistinct

/-- The pager is fresh between the turns, and the input what it was. -/
theorem BetweenPages.kept (hmode : row.mode = .peek) (hfresh : Fresh s.unreadable) (hb : BetweenPages row s l h)
    (hdistinct : ∀ e ∈ h, Distinct e) : Fresh l.run.unreadable ∧ l.run.state = s.state := by
  induction hb with
  | start now =>
    exact ⟨fresh_pageStart hfresh now, state_pageStart now⟩
  | @turn l l' h es hb hturn ih =>
    obtain ⟨hh, hes⟩ := List.forall_mem_append.mp hdistinct
    obtain ⟨hfresh', hstate⟩ := ih hh
    refine ⟨(turned (h := h) hmode hfresh' hturn hes).fresh, ?_⟩
    exact wp_logged.mp (keeps_pageTurn (peekSteps_state s.state).toPageSteps.pageFrame _ l [] hstate) es _ l' hturn
      fun _ _ => trivial

/-- The last turn of the page loop. -/
def LastPage (row : Row) (s : RunState) (r : Except Exn (Option StopReason)) (l' : PagerState) (h' : Trace sdk) :
    Prop :=
  ∃ l h t, BetweenPages row s l h ∧ Prog.Exec (pageTurn row (isIncremental row)) l t r l' ∧
    PageTurned row (isIncremental row) l h r l' (h ++ t) ∧ l'.run.state = s.state ∧ h' = h ++ t

/-- The turns of the page loop. -/
theorem wp_pageTurns (hmode : row.mode = .peek) (turns : ℕ) (hb : BetweenPages row s l h)
    (hfresh : Fresh l.run.unreadable) (hstate : l.run.state = s.state) :
    Wp (Logged Distinct) (Prog.iterate (pageTurn row (isIncremental row)) turns)
      (fun r l' h' => (r = .ok none ∧ BetweenPages row s l' h') ∨ (r ≠ .ok none ∧ LastPage row s r l' h')) l h := by
  refine Wp.iterate (fun l h => BetweenPages row s l h ∧ Fresh l.run.unreadable ∧ l.run.state = s.state) ?_
    (fun l' h' hI => .inl ⟨rfl, hI.1⟩) ⟨hb, hfresh, hstate⟩
  rintro l h ⟨hb, hfresh, hstate⟩
  refine wp_ran.mono ?_
  rintro r l' h' ⟨es, hturn, hpath⟩
  obtain ⟨hdistinct, rfl⟩ := path_logged.mp hpath
  have hturned := BetweenPages.turned (h := h) hmode hfresh hturn hdistinct
  have hstate' : l'.run.state = s.state :=
    wp_logged.mp (keeps_pageTurn (peekSteps_state s.state).toPageSteps.pageFrame _ l [] hstate) es _ l' hturn
      fun _ _ => trivial
  rcases r with e | _ | stop
  · exact .inr ⟨by rintro ⟨⟩, l, h, es, hb, hturn, hturned, hstate', rfl⟩
  · exact ⟨hb.turn hturn, hturned.fresh, hstate'⟩
  · exact .inr ⟨by rintro ⟨⟩, l, h, es, hb, hturn, hturned, hstate', rfl⟩

/-- The end of the pager closes it and puts the retries back. -/
theorem wp_endPager {l₀ : PagerState} {h₀ : Trace sdk} (enabled : Bool) (hI : Aside l₀ h₀ l h)
    (hstate : l.run.state = s.state) :
    Wp Recorded (endPager enabled) (fun r l' h' => r = .ok () ∧ Aside l₀ h₀ l' h' ∧ l'.run.state = s.state) l h := by
  rw [endPager, wp_bind, setRetries, onPagerRun, wp_embed, updateUnreadable, wp_modify, onOk_ok]
  have hF : Frame Recorded fun (s' : RunState) (_ : Trace sdk) => s'.state = s.state := {
    stats := fun _ _ hI => hI
    info := fun _ hI => hI
    quiet := fun _ _ _ _ _ _ hI => hI }
  have hkept : Keeps Recorded (InPager fun s' _ => s'.state = s.state) closePager :=
    keeps_closePager (pagerFrame_inPager hF { reopened := fun _ _ _ _ _ _ hI => hI })
  refine Wp.mono (Wp.and (@wp_closePager _ l₀ h h₀ ?_) (hkept _ h hstate)) ?_
  · exact ⟨hI.books, hI.t0, ⟨hI.fresh.left, hI.fresh.user⟩, hI.grows⟩
  rintro r l' h' ⟨⟨rfl, hI', -⟩, hstate'⟩
  exact ⟨rfl, hI', hstate'⟩

/-- Every execution of the pager on a plain entity: it refuses the entity, is between two turns, or has ended. -/
theorem exec_peekPager (hmode : row.mode = .peek) (hsessions : row.sessions = false) (hfresh : Fresh s.unreadable)
    {turns : ℕ} {es : Trace sdk} {r : Except Exn (Option (Option PeekCursor))} {l' : PagerState}
    (hrun : Prog.Exec (PeekPager.run row turns) ⟨s, {}⟩ es r l') (hdistinct : ∀ e ∈ es, Distinct e) :
    (∃ e, r = .error e ∧ es = []) ∨ (r = .ok none ∧ BetweenPages row s l' es) ∨ PagesEnded row s r l' es := by
  suffices hwp : Wp (Logged Distinct) (PeekPager.run row turns) (fun r l' h' => (∃ e, r = .error e ∧ h' = []) ∨
      (r = .ok none ∧ BetweenPages row s l' h') ∨ PagesEnded row s r l' h') ⟨s, {}⟩ [] from
    wp_logged.mp hwp es r l' hrun hdistinct
  rw [PeekPager.run, wp_bind, wp_get, onOk_ok, wp_ite]
  refine ⟨fun _ => wp_throw.mpr (.inl ⟨_, rfl, rfl⟩), fun _ => ?_⟩
  dsimp only
  rw [wp_bind, monotonic, wp_perform]
  rintro now _ ⟨-, rfl⟩
  rw [onOk_ok, wp_bind, updatePager, wp_modify, onOk_ok, wp_bind]
  have hloop : Wp (Logged Distinct) (pagerLoop row (if isIncremental row then startAt row s.state.peekCursor else 1)
      (isIncremental row) turns) (fun r l' h' => (r = .ok none ∧ BetweenPages row s l' h') ∨
        (r ≠ .ok none ∧ LastPage row s r l' h'))
          ⟨s, { deadline := now + seconds row.config.advanced.maxDurationSeconds }⟩
      [.call .monotonic now] := by
    rw [pagerLoop, if_neg (by rw [hsessions]; exact Bool.false_ne_true), runPages, wp_bind, wp_get, onOk_ok]
    dsimp only
    rw [wp_bind, updatePager, wp_modify, onOk_ok, wp_bind, wp_when]
    have hstart := wp_pageTurns hmode turns (.start now) (fresh_pageStart hfresh now) (state_pageStart now)
    unfold pageStart at hstart
    refine ⟨fun hcursor => ?_, fun hplain => ?_⟩
    · rw [setRetries, onPagerRun, wp_embed, updateUnreadable, wp_modify, onOk_ok]
      rw [if_pos hcursor] at hstart
      exact hstart
    · rw [onOk_ok]
      rw [if_neg hplain] at hstart
      exact hstart
  have hlast : ∀ {r l₁ h₁}, r ≠ .ok none → LastPage row s r l₁ h₁ → Wp (Logged Distinct)
      (endPager s.unreadable.retriesEnabled) (fun r' l' h' => r' = .ok () ∧ l'.run.state = s.state ∧
        ∃ l h t, BetweenPages row s l h ∧ Prog.Exec (pageTurn row (isIncremental row)) l t r l₁ ∧
          PageTurned row (isIncremental row) l h r l₁ (h ++ t) ∧ Aside l₁ (h ++ t) l' h') l₁ h₁ := by
    rintro r l₁ h₁ - ⟨l, h, t, hb, hturn, hturned, hstate, rfl⟩
    refine ((wp_endPager _ (.refl hturned.fresh) hstate).limit recorded_of_logged).mono ?_
    rintro r' l₂ h₂ ⟨rfl, haside, hstate₂⟩
    exact ⟨rfl, hstate₂, l, h, t, hb, hturn, hturned, haside⟩
  refine wp_finishing.mpr (hloop.mono ?_)
  rintro r l₁ h₁ hI
  rcases r with e | _ | stop
  · rcases hI with ⟨⟨⟩, -⟩ | ⟨hne, hended⟩
    refine (hlast hne hended).mono ?_
    rintro _ l₂ h₂ ⟨rfl, -, l, h, t, hb, hturn, hturned, haside⟩
    exact .inr (.inr ⟨_, l, h, t, l₁, hb, hturn, hturned, haside, by rintro _ ⟨⟩⟩)
  · rcases hI with ⟨-, hb⟩ | ⟨hne, -⟩
    · exact wp_pure.mpr (.inr (.inl ⟨rfl, hb⟩))
    · exact absurd rfl hne
  · rcases hI with ⟨⟨⟩, -⟩ | ⟨hne, hended⟩
    refine (hlast hne hended).mono ?_
    rintro _ l₂ h₂ ⟨rfl, hstate₂, l, h, t, hb, hturn, hturned, haside⟩
    rw [onOk_ok, onOk_ok]
    dsimp only
    rw [wp_bind, onPagerRun, wp_embed, tally, wp_modify, onOk_ok, wp_bind, wp_get, onOk_ok, wp_pure]
    refine .inr (.inr ⟨_, l, h, t, l₁, hb, hturn, hturned, ⟨haside.books, haside.t0, haside.fresh, haside.grows⟩, ?_⟩)
    rintro _ ⟨⟩
    refine ⟨stop, rfl, rfl, ?_⟩
    split
    · rw [hstate₂]
    · rfl

end Loop

end ServiceBusExtractor
