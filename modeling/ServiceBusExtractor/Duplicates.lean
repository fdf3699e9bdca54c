import ServiceBusExtractor.PeekRun
import ServiceBusExtractor.Script

/-!
# Rows written twice

An incremental fetch drops a message from a page peeked again only while its
number is remembered, and the numbers are forgotten once a page asks for no retry.
A page peeked again may be shorter than the one before it: then the numbers it
does not reach are forgotten too early.

## The model

* `InOrder` — a page goes up from where it was asked to start.
* `ReachesProcessed` — the loop goes on from no page that leaves out a processed
  number.
* `ShowsBeginning entity` — a peek shows a beginning of the entity.

## What is proved

* `incremental_writes_once` — where the loop goes on from no such page, no number is
  written or skipped twice.
-/

namespace ServiceBusExtractor

open Interaction

/-- A page shows its messages in order, from where it was asked to start. -/
def InOrder : Event sdk → Prop
  | .call (.peekMessages _ _ start) (.ok page) => (numbers page).Pairwise (· < ·) ∧ ∀ n ∈ numbers page, start ≤ n
  | _ => True

/-- The loop goes on only from pages that reach all it processed. -/
def ReachesProcessed (row : Row) (s : RunState) (es : Trace sdk) : Prop :=
  ∀ l h t l' receiver count start page, BetweenPages row s l h →
    Prog.Exec (pageTurn row (isIncremental row)) l t (.ok none) l' → h ++ t <+: es →
    .call (.peekMessages receiver count start) (.ok page) ∈ t → page ≠ [] →
    l'.pager.nextSeq = lastSequenceNumber page + 1 → ∀ n ∈ l.pager.processed, n ≤ lastSequenceNumber page

/-- Nothing was exported twice, and what was lies behind the next page or is remembered. -/
structure Unrepeated (l : PagerState) (h : Trace sdk) : Prop where
  once : (exported h).Nodup
  behind : ∀ n ∈ exported h, n < l.pager.nextSeq ∨ n ∈ l.pager.processed
  explicit : l.pager.cursorMode = false

section Turn

variable {row : Row} {s : RunState} {l l' l₁ : PagerState} {h h' h₁ es : Trace sdk} {page : List Message}

theorem distinct_of_inOrder {e : Event sdk} (he : InOrder e) : Distinct e := by
  unfold Distinct
  split
  · exact he.1.imp fun hlt => ne_of_lt hlt
  · trivial

theorem le_lastSequenceNumber (hpage : (numbers page).Pairwise (· < ·)) {n : ℤ} (hn : n ∈ numbers page) :
    n ≤ lastSequenceNumber page := by
  rcases List.eq_nil_or_concat page with rfl | ⟨before, last, rfl⟩
  · cases hn
  · have hlast : lastSequenceNumber (before.concat last) = last.sequenceNumber := by simp [lastSequenceNumber]
    rw [hlast]
    rw [List.concat_eq_append, numbers_append] at hn hpage
    rcases List.mem_append.mp hn with hn | hn
    · exact le_of_lt ((List.pairwise_append.mp hpage).2.2 n hn _ (by simp))
    · exact le_of_eq (by simpa using hn)

theorem lastSequenceNumber_mem (hpage : page ≠ []) : lastSequenceNumber page ∈ numbers page := by
  rcases List.eq_nil_or_concat page with rfl | ⟨before, last, rfl⟩
  · exact absurd rfl hpage
  · simp [lastSequenceNumber]

/-- A turn aside repeats nothing. -/
theorem Unrepeated.aside (hI : Unrepeated l h) (ha : Aside l h l' h') : Unrepeated l' h' := by
  refine ⟨by rw [ha.exported_eq]; exact hI.once, ?_, ha.cursorMode.trans hI.explicit⟩
  rw [ha.exported_eq, ha.nextSeq, ha.processed]
  exact hI.behind

/-- An explicit page goes up from the next number. -/
theorem Peeked.inOrder {receiver : Handle} (hI : Unrepeated l h) (hpeeked : Peeked l h receiver page l₁ h₁)
    (hpages : ∀ e ∈ h₁, InOrder e) : (numbers page).Pairwise (· < ·) ∧ ∀ n ∈ numbers page, l.pager.nextSeq ≤ n := by
  obtain ⟨before, -, hlast, -⟩ := hpeeked.last
  have hpage := hpages _ (by rw [hlast]; exact List.mem_append_right _ (List.mem_singleton_self _))
  rw [hI.explicit] at hpage
  exact hpage

/-- The page of a turn is in its trace. -/
theorem Peeked.mem {receiver : Handle} {t : Trace sdk} (hpeeked : Peeked l h receiver page l₁ h₁) (hp : h₁ <+: h ++ t) :
    .call (.peekMessages receiver peekPageSize (if l.pager.cursorMode then 0 else l.pager.nextSeq)) (.ok page) ∈ t := by
  obtain ⟨_, ⟨es, rfl⟩, rfl, -⟩ := hpeeked.last
  rw [List.append_assoc, List.prefix_append_right_inj] at hp
  exact hp.subset (List.mem_append_right es (List.mem_singleton_self _))

theorem PageExported.extends {now : Time} {r : Except Exn (Option StopReason × List ℤ)}
    (hexported : PageExported row l h page now r l' h') : h <+: h' := (List.prefix_append h _).trans hexported.2.1

/-- The pager goes on with explicit pages. -/
theorem PageExported.explicit {receiver : Handle} {now : Time} {r : Except Exn (Option StopReason × List ℤ)}
    (hexported : PageExported row l₁ h₁ page now r l' h') (hpeeked : Peeked l h receiver page l₁ h₁)
    (hI : Unrepeated l h) : l'.pager.cursorMode = false :=
  hexported.position.2.1.trans (hpeeked.aside.cursorMode.trans hI.explicit)

/-- Exporting the next page repeats nothing. -/
theorem Unrepeated.exporting {receiver : Handle} {now : Time} {r : Except Exn (Option StopReason × List ℤ)}
    (hI : Unrepeated l h) (hpeeked : Peeked l h receiver page l₁ h₁) (hpages : ∀ e ∈ h', InOrder e)
    (hexported : PageExported row l₁ h₁ page now r l' h') :
    (exported h').Nodup ∧ (∀ n ∈ exported h', n < l.pager.nextSeq ∨ n ∈ l.pager.processed ∨ n ∈ numbers page) ∧
      ((∀ e, r = .error e → NotUser e) → ∀ n ∈ exported h', n < l.pager.nextSeq ∨ n ∈ l'.pager.processed) := by
  obtain ⟨horder, hstart⟩ := hpeeked.inOrder hI fun e he => hpages e (hexported.extends.subset he)
  obtain ⟨new, hnew, honce, hin, hkept⟩ := hexported.exports (horder.imp fun hlt => ne_of_lt hlt)
  rw [hpeeked.aside.exported_eq] at hnew
  rw [hpeeked.aside.processed] at hin hkept
  refine ⟨?_, fun n hn => ?_, fun hnot n hn => ?_⟩
  · rw [hnew]
    refine List.nodup_append.mpr ⟨hI.once, honce, ?_⟩
    rintro n hn _ hn' rfl
    rcases hI.behind n hn with hlt | hmem
    · exact absurd (hstart n (hin n hn').1) (not_le.mpr hlt)
    · exact (hin n hn').2 hmem
  · rw [hnew] at hn
    rcases List.mem_append.mp hn with hn | hn
    · exact (hI.behind n hn).imp id .inl
    · exact .inr (.inr (hin n hn).1)
  · rw [hnew] at hn
    rcases List.mem_append.mp hn with hn | hn
    · exact (hI.behind n hn).imp id fun h => hkept hnot n (.inr h)
    · exact .inr (hkept hnot n (.inl hn))

/-- A turn of an incremental fetch repeats nothing. -/
theorem Unrepeated.turn {r : Except Exn (Option StopReason)} {t : Trace sdk} (hI : Unrepeated l h)
    (hturned : PageTurned row true l h r l' (h ++ t)) (hpages : ∀ e ∈ h ++ t, InOrder e)
    (hpasses : r = .ok none → ∀ receiver count start page, .call (.peekMessages receiver count start) (.ok page) ∈ t →
      page ≠ [] → l'.pager.nextSeq = lastSequenceNumber page + 1 →
        ∀ n ∈ l.pager.processed, n ≤ lastSequenceNumber page) :
    (exported (h ++ t)).Nodup ∧ (r = .ok none → Unrepeated l' (h ++ t)) := by
  generalize hend : h ++ t = h' at hturned hpages
  cases hturned with
  | aside haside => exact ⟨(hI.aside haside).once, fun _ => hI.aside haside⟩
  | ended hpeeked => exact ⟨(hI.aside hpeeked.aside).once, by rintro ⟨⟩⟩
  | revealed hfull => cases hfull
  | @retried receiver page now stop retried l₁ l₂ _ h₁ h₂ _ hpage _ hpeeked hexported hretried haside =>
    obtain ⟨honce, -, hkept⟩ := hI.exporting hpeeked (fun e he => hpages e (haside.extends.subset he)) hexported
    have hpages₁ : ∀ e ∈ h₁, InOrder e := fun e he => hpages e ((hexported.extends.trans haside.extends).subset he)
    have hstart : l.pager.nextSeq ≤ retried.min?.getD l₂.pager.nextSeq := by
      obtain ⟨first, hfirst⟩ := Option.isSome_iff_exists.mp (List.isSome_min?_of_ne_nil hretried)
      rw [hfirst]
      exact (hpeeked.inOrder hI hpages₁).2 first (hexported.retried first (List.min?_mem hfirst)).1
    have hmode := hexported.explicit hpeeked hI
    have hnext : Unrepeated { l₂ with pager :=
      { l₂.pager with nextSeq := retried.min?.getD l₂.pager.nextSeq } } h₂ := by
      refine ⟨honce, fun n hn => (hkept (by rintro _ ⟨⟩) n hn).imp (fun hlt => lt_of_lt_of_le hlt hstart) id, hmode⟩
    exact ⟨(hnext.aside haside).once, fun _ => hnext.aside haside⟩
  | stopped hpage hpeeked hexported => exact ⟨(hI.exporting hpeeked hpages hexported).1, by rintro ⟨⟩⟩
  | @passed receiver page now l₁ l₂ h₁ _ hpage _ hpeeked hexported =>
    obtain ⟨honce, hwhere, -⟩ := hI.exporting hpeeked hpages hexported
    obtain ⟨horder, hstart⟩ := hpeeked.inOrder hI fun e he => hpages e (hexported.extends.subset he)
    have hmem := hpeeked.mem (t := t) (by rw [hend]; exact hexported.extends)
    refine ⟨honce, fun _ => ⟨honce, fun n hn => .inl ?_, ?_⟩⟩
    · show n < lastSequenceNumber page + 1
      have hlast := hstart _ (lastSequenceNumber_mem hpage)
      rcases hwhere n hn with hlt | hmem' | hmem'
      · omega
      · have := hpasses rfl _ _ _ page hmem hpage rfl n hmem'
        omega
      · have := le_lastSequenceNumber horder hmem'
        omega
    · exact hexported.explicit hpeeked hI
  | @failed receiver page now e r l₁ l₂ _ h₁ h₂ _ hpage hpeeked hexported hnot haside =>
    obtain ⟨honce, -, hkept⟩ := hI.exporting hpeeked (fun e he => hpages e (haside.extends.subset he)) hexported
    have hnext : Unrepeated l₂ h₂ := by
      refine ⟨honce, fun n hn => (hkept ?_ n hn).imp (fun hlt => ?_) id, hexported.explicit hpeeked hI⟩
      · rintro _ ⟨⟩
        exact hnot
      · rw [hexported.position.1, hpeeked.aside.nextSeq]
        exact hlt
    exact ⟨(hnext.aside haside).once, fun _ => hnext.aside haside⟩
  | raised hpage hpeeked hexported => exact ⟨(hI.exporting hpeeked hpages hexported).1, by rintro ⟨⟩⟩

end Turn

section Run

variable {row : Row} {s : RunState} {l l' : PagerState} {h es : Trace sdk}

theorem ReachesProcessed.initial {es' : Trace sdk} (hreaches : ReachesProcessed row s es') (hp : es <+: es') :
    ReachesProcessed row s es :=
  fun l h t l' receiver count start page hb hturn hle => hreaches l h t l' receiver count start page hb hturn
    (hle.trans hp)

/-- One turn between the others. -/
theorem BetweenPages.unrepeated_turn (hmode : row.mode = .peek) (hincremental : isIncremental row = true)
    (hfresh : Fresh s.unreadable) (hb : BetweenPages row s l h) (hI : Unrepeated l h) {t : Trace sdk}
    {r : Except Exn (Option StopReason)} (hturn : Prog.Exec (pageTurn row (isIncremental row)) l t r l')
    (hpages : ∀ e ∈ h ++ t, InOrder e) (hreaches : ReachesProcessed row s (h ++ t)) :
    (exported (h ++ t)).Nodup ∧ (r = .ok none → Unrepeated l' (h ++ t)) := by
  have hdistinct : ∀ e ∈ h ++ t, Distinct e := fun e he => distinct_of_inOrder (hpages e he)
  have hfresh' := (hb.kept hmode hfresh fun e he => hdistinct e (List.mem_append_left t he)).1
  have hturned := BetweenPages.turned (h := h) hmode hfresh' hturn fun e he => hdistinct e (List.mem_append_right h he)
  rw [hincremental] at hturned
  refine hI.turn hturned hpages ?_
  rintro rfl receiver count start page hmem hpage hnext
  exact hreaches l h t l' receiver count start page hb hturn (List.prefix_refl _) hmem hpage hnext

/-- Between the turns nothing was repeated. -/
theorem BetweenPages.unrepeated (hmode : row.mode = .peek) (hincremental : isIncremental row = true)
    (hfresh : Fresh s.unreadable) (hb : BetweenPages row s l h) (hpages : ∀ e ∈ h, InOrder e)
    (hreaches : ReachesProcessed row s h) : Unrepeated l h := by
  induction hb with
  | start now =>
    refine ⟨List.nodup_nil, by simp [exported, exportedBy], ?_⟩
    rw [pageStart, hincremental]
    rfl
  | @turn l l' h es hb hturn ih =>
    have hI := ih (fun e he => hpages e (List.mem_append_left es he)) (hreaches.initial (List.prefix_append h es))
    exact (hb.unrepeated_turn hmode hincremental hfresh hI hturn hpages hreaches).2 rfl

/-- The pager repeats nothing. -/
theorem nodup_of_exec_peekPager (hmode : row.mode = .peek) (hincremental : isIncremental row = true)
    (hsessions : row.sessions = false) (hfresh : Fresh s.unreadable) {turns : ℕ}
    {r : Except Exn (Option (Option PeekCursor))} (hrun : Prog.Exec (PeekPager.run row turns) ⟨s, {}⟩ es r l')
    (hpages : ∀ e ∈ es, InOrder e) (hreaches : ReachesProcessed row s es) : (exported es).Nodup := by
  have hdistinct : ∀ e ∈ es, Distinct e := fun e he => distinct_of_inOrder (hpages e he)
  rcases exec_peekPager hmode hsessions hfresh hrun hdistinct with
    ⟨e, -, rfl⟩ | ⟨-, hb⟩ | ⟨r₁, l, h, t, l₁, hb, hturn, -, haside, -⟩
  · exact List.nodup_nil
  · exact (hb.unrepeated hmode hincremental hfresh hpages hreaches).once
  · have hp := haside.extends
    have hI := hb.unrepeated hmode hincremental hfresh
      (fun e he => hpages e (hp.subset (List.mem_append_left t he)))
        (hreaches.initial ((List.prefix_append h t).trans hp))
    rw [haside.exported_eq]
    exact (hb.unrepeated_turn hmode hincremental hfresh hI hturn (fun e he => hpages e (hp.subset he))
      (hreaches.initial hp)).1

/-- The numbers of the pages that were shown. -/
def peeked (h : Trace sdk) : List ℤ := h.flatMap fun
  | .call (.peekMessages ..) (.ok page) => numbers page
  | _ => []

theorem mem_peeked {receiver : Handle} {count : ℕ} {start : ℤ} {page : List Message} {n : ℤ}
    (hmem : .call (.peekMessages receiver count start) (.ok page) ∈ h) (hn : n ∈ numbers page) : n ∈ peeked h :=
  List.mem_flatMap.mpr ⟨_, hmem, hn⟩

theorem Peeked.shown {l₁ : PagerState} {h₁ : Trace sdk} {receiver : Handle} {page : List Message} {n : ℤ}
    (hpeeked : Peeked l h receiver page l₁ h₁) (hn : n ∈ numbers page) : n ∈ peeked h₁ := by
  obtain ⟨before, -, rfl, -⟩ := hpeeked.last
  exact mem_peeked (List.mem_append_right before (List.mem_singleton_self _)) hn

theorem peeked_along {h' : Trace sdk} {n : ℤ} (hn : n ∈ peeked h) (hp : h <+: h') : n ∈ peeked h' := by
  obtain ⟨es, rfl⟩ := hp
  rw [peeked, List.flatMap_append]
  exact List.mem_append_left _ hn

/-- A turn processes only what it was shown. -/
theorem PageTurned.processed_peeked {incremental : Bool} {r : Except Exn (Option StopReason)} {h' : Trace sdk}
    (hturned : PageTurned row incremental l h r l' h') :
    ∀ n ∈ l'.pager.processed, n ∈ l.pager.processed ∨ n ∈ peeked h' := by
  have hpage : ∀ {receiver page now r₁ l₁ l₂ h₁ h₂}, Peeked l h receiver page l₁ h₁ →
      PageExported row l₁ h₁ page now r₁ l₂ h₂ → ∀ n ∈ l₂.pager.processed, n ∈ l.pager.processed ∨ n ∈ peeked h₂ := by
    intro receiver page now r₁ l₁ l₂ h₁ h₂ hpeeked hexported n hn
    rw [← hpeeked.aside.processed]
    exact (hexported.within n hn).imp id fun hn => peeked_along (hpeeked.shown hn) hexported.extends
  intro n hn
  cases hturned with
  | aside haside => exact .inl (haside.processed ▸ hn)
  | ended hpeeked => exact .inl (hpeeked.aside.processed ▸ hn)
  | revealed _ hpeeked haside =>
    rw [haside.processed] at hn
    exact .inl (hpeeked.aside.processed ▸ hn)
  | retried _ _ hpeeked hexported _ haside =>
    rw [haside.processed] at hn
    exact (hpage hpeeked hexported n hn).imp id fun hn => peeked_along hn haside.extends
  | stopped _ hpeeked hexported => exact hpage hpeeked hexported n hn
  | passed _ _ hpeeked hexported =>
    cases incremental with
    | true => exact absurd hn List.not_mem_nil
    | false => exact hpage hpeeked hexported n hn
  | failed _ hpeeked hexported _ haside =>
    rw [haside.processed] at hn
    exact (hpage hpeeked hexported n hn).imp id fun hn => peeked_along hn haside.extends
  | raised _ hpeeked hexported => exact hpage hpeeked hexported n hn

/-- Only what was shown is processed. -/
theorem BetweenPages.processed_peeked (hmode : row.mode = .peek) (hfresh : Fresh s.unreadable)
    (hb : BetweenPages row s l h) (hdistinct : ∀ e ∈ h, Distinct e) :
    ∀ n ∈ l.pager.processed, n ∈ peeked h := by
  induction hb with
  | start now => exact fun n hn => absurd hn List.not_mem_nil
  | @turn l l' h t hb hturn ih =>
    obtain ⟨hh, ht⟩ := List.forall_mem_append.mp hdistinct
    have hturned := BetweenPages.turned (h := h) hmode (hb.kept hmode hfresh hh).1 hturn ht
    intro n hn
    rcases hturned.processed_peeked n hn with hold | hnew
    · exact peeked_along (ih hh n hold) (List.prefix_append h t)
    · exact hnew

/-- The page reaches all that was shown before it. -/
def ReachesShown (before : Trace sdk) : Event sdk → Prop
  | .call (.peekMessages ..) (.ok page) => page = [] ∨ ∀ n ∈ peeked before, n ≤ lastSequenceNumber page
  | _ => True

theorem ReachesShown.fewer {before before' : Trace sdk} {e : Event sdk} (he : ReachesShown before e)
    (hfewer : ∀ n ∈ peeked before', n ∈ peeked before) : ReachesShown before' e := by
  unfold ReachesShown at he ⊢
  split
  · exact he.imp id fun hall n hn => hall n (hfewer n hn)
  · trivial

/-- Pages that reach all that was shown before them reach all that was processed. -/
theorem reachesProcessed_of_shown (hmode : row.mode = .peek) (hfresh : Fresh s.unreadable)
    (hdistinct : ∀ e ∈ es, Distinct e) (hreach : Always ReachesShown es) : ReachesProcessed row s es := by
  intro l h t l' receiver count start page hb hturn hp hmem hpage _ n hn
  obtain ⟨rest, rfl⟩ := hp
  obtain ⟨t₁, t₂, rfl⟩ := List.append_of_mem hmem
  have hshown : n ∈ peeked h :=
    hb.processed_peeked hmode hfresh (fun e he => hdistinct e (by simp [he])) n hn
  have hlast : ReachesShown (h ++ t₁) (.call (.peekMessages receiver count start) (.ok page)) :=
    hreach (h ++ t₁) _ (t₂ ++ rest) (by simp)
  exact hlast.resolve_left hpage n (peeked_along hshown (List.prefix_append h t₁))

end Run

/-- Incremental fetch writes no duplicates: where the loop goes on only from pages that reach all it processed, no
sequence number is written as a row twice in a run, none is skipped twice as expired or pending activation, and none
is both. -/
theorem incremental_writes_once (row : Row) (hmode : row.mode = .peek) (hincremental : isIncremental row = true)
    (hsessions : row.sessions = false) (input : ExtractorState) (turns : ℕ) (es : Trace sdk)
    (r : Except Exn (Option Unit)) (s' : RunState) (hrun : Prog.Exec (Component.run row turns) (.start input) es r s')
    (hpages : ∀ e ∈ es, InOrder e)
    (hreaches : ∀ es₀ s₀ rest, ReachesPager row input es₀ s₀ → es = es₀ ++ rest → ReachesProcessed row s₀ rest) :
    (exported es).Nodup := by
  have hdestructive : row.mode.isDestructive = false := by
    rw [hmode]
    rfl
  cases exec_peekComponent hdestructive hrun with
  | unreached hnone =>
    rw [hnone]
    exact List.nodup_nil
  | @reached es₀ es₁ es₂ s₀ _ r₁ l _ hbefore hpager hafter =>
    have hfirst := (hreaches es₀ s₀ _ hbefore rfl).initial (List.prefix_append es₁ es₂)
    have hpages₁ : ∀ e ∈ es₁, InOrder e := fun e he => hpages e (by simp [he])
    rw [exported_append, exported_append, hbefore.unpeeked.exported, hafter, List.append_nil, List.nil_append]
    exact nodup_of_exec_peekPager hmode hincremental hsessions hbefore.unpeeked.fresh hpager hpages₁ hfirst

/-- A message whose body cannot be read on this connection. -/
def garbledAt (seq : ℤ) : Message where
  sequenceNumber := seq
  body := { sections := .error "bad section" }

instance : DecidablePred InOrder := by
  refine decidablePages (fun _ _ _ _ => inferInstanceAs (Decidable (_ ∧ _))) fun e he => ?_
  unfold InOrder
  split
  · cases he
  · trivial

instance (before : Trace sdk) : DecidablePred (ReachesShown before) := by
  refine decidablePages (fun _ _ _ _ => inferInstanceAs (Decidable (_ ∨ _))) fun e he => ?_
  unfold ReachesShown
  split
  · cases he
  · trivial

/-- The second message is read on a fresh connection, with the page as long as before. -/
def repeekedPage : Script where
  peeks := [.ok [{ sequenceNumber := 1 }, garbledAt 2, { sequenceNumber := 3 }],
    .ok [{ sequenceNumber := 2 }, { sequenceNumber := 3 }]]

/-- Each of the three messages is written once. -/
theorem incremental_writes_once_three :
    (exported (scripted (Component.run peekRow 8) (.start {}) repeekedPage)).Nodup := by
  have hpages : ∀ e ∈ scripted (Component.run peekRow 8) (.start {}) repeekedPage, InOrder e := by decide +kernel
  have hshown : Always ReachesShown (scripted (Component.run peekRow 8) (.start {}) repeekedPage) := by decide +kernel
  refine incremental_writes_once peekRow rfl rfl rfl {} 8 _ _ _ (exec_scripted _ _ repeekedPage) hpages ?_
  intro es₀ s₀ rest hbefore hes
  rw [hes] at hpages hshown
  refine reachesProcessed_of_shown rfl hbefore.unpeeked.fresh ?_ ?_
  · exact fun e he => distinct_of_inOrder (hpages e (List.mem_append_right es₀ he))
  · intro before e after hrest
    refine (hshown (es₀ ++ before) e after (by rw [hrest, List.append_assoc])).fewer fun n hn => ?_
    rw [peeked, List.flatMap_append]
    exact List.mem_append_right _ hn

/-- A peek shows the first messages of the entity from its start on, and none only where there is none. -/
def ShowsBeginning (entity : List ℤ) : Event sdk → Prop
  | .call (.peekMessages _ count start) (.ok page) => numbers page <+: entity.filter (start ≤ ·) ∧ page.length ≤ count ∧
      (page = [] → entity.filter (start ≤ ·) = [])
  | _ => True

instance (entity : List ℤ) : DecidablePred (ShowsBeginning entity) := by
  refine decidablePages (fun _ _ _ _ => inferInstanceAs (Decidable (_ ∧ _ ∧ (_ → _)))) fun e he => ?_
  unfold ShowsBeginning
  split
  · cases he
  · trivial

/-- The page peeked again ends before a message that was written. -/
def shortPage : Script where
  peeks := [.ok [{ sequenceNumber := 1 }, garbledAt 2, { sequenceNumber := 3 }], .ok [{ sequenceNumber := 2 }],
    .ok [{ sequenceNumber := 3 }]]

/-- A run that writes the third message twice, and ends well. -/
theorem written_twice : ∃ es s', Prog.Exec (Component.run peekRow 8) (.start {}) es (.ok (some ())) s' ∧
    (∀ e ∈ es, ShowsBeginning [1, 2, 3] e) ∧ exported es = [1, 3, 2, 3] ∧ ¬ (exported es).Nodup :=
  ⟨_, _, exec_of_scriptedResult shortPage (by decide +kernel), by decide +kernel, by decide +kernel, by decide +kernel⟩

end ServiceBusExtractor
