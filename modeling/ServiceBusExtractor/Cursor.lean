import ServiceBusExtractor.FullFetch
import ServiceBusExtractor.History

/-!
# The cursor of an incremental fetch

The cursor a run stores is the highest number it processed, short of the first body
that still waits for its retry. Each page sets that mark anew. A page peeked again
that ends too early drops it, and the numbers between that page and the highest one
are taken for processed.

## The model

* `Cut` — where a page is cut, and what of it is handed to the batch processor.
* `Behind` — the next page starts at a number that was passed, and no mark says so.
* `SoundCursor` — the cursor up to which every message is done, between two turns.
* `PeeksOf present` — what the peeks of a run show of the messages that are there all
  the time.

## What is proved

* `cursor_sound` — over any runs that are never behind, every message up to the stored
  cursor is done.
-/

namespace ServiceBusExtractor

open Interaction

/-! ### Where a page is cut -/

/-- The message is past the start of the job, and the row stops there. -/
def Late (row : Row) (t0 : Time) (m : Message) : Prop :=
  row.config.limits.stopAtJobStart = true ∧ afterWatermark m t0 = true

/-- The page is gone through up to its end, or to a message that reaches the limit or is late. -/
structure Cut (row : Row) (t0 : Time) (taken : ℕ) (processed : List ℤ) (page : List Message)
    (before after selected : List ℤ) :
    Prop where
  split : numbers page = before ++ after
  fresh : ∀ n ∈ selected, n ∈ before ∧ n ∉ processed
  within : 0 < row.config.limits.maxMessages → taken ≤ row.config.limits.maxMessages →
    taken + selected.length ≤ row.config.limits.maxMessages
  early : ∀ n ∈ selected, ∃ m ∈ page, m.sequenceNumber = n ∧ ¬ Late row t0 m
  stops : ∀ n rest, after = n :: rest → n ∉ processed ∧ ((0 < row.config.limits.maxMessages ∧
    row.config.limits.maxMessages ≤ taken + selected.length) ∨ ∃ m ∈ page, m.sequenceNumber = n ∧ Late row t0 m)

section Choice

variable {row : Row} {t0 now : Time} {taken : ℕ} {processed : List ℤ} {selected page : List Message}

/-- A choice ends within the limit. -/
theorem choose_within (hlimit : 0 < row.config.limits.maxMessages)
    (h : taken + selected.length ≤ row.config.limits.maxMessages) :
    taken + (choose row t0 now taken processed selected page).selected.length ≤ row.config.limits.maxMessages := by
  induction page generalizing processed selected with
  | nil => exact h
  | cons m rest ih =>
    rw [choose]
    split
    · exact ih h
    · split
      · exact h
      · rename_i hmore
        split
        · exact ih h
        · split
          · exact h
          · refine ih ?_
            rw [List.length_append, List.length_singleton]
            omega

/-- Nothing late is chosen. -/
theorem choose_early (h : ∀ m ∈ selected, ¬ Late row t0 m) :
    ∀ m ∈ (choose row t0 now taken processed selected page).selected, ¬ Late row t0 m := by
  induction page generalizing processed selected with
  | nil => exact h
  | cons m rest ih =>
    rw [choose]
    split
    · exact ih h
    · split
      · exact h
      · split
        · exact ih h
        · split
          · exact h
          · rename_i hearly
            exact ih (List.forall_mem_append.mpr ⟨h, List.forall_mem_singleton.mpr hearly⟩)

/-- Only what is on the page is chosen. -/
theorem choose_subset : ∀ m ∈ (choose row t0 now taken processed selected page).selected, m ∈ selected ∨ m ∈ page := by
  induction page generalizing processed selected with
  | nil => exact fun m hm => .inl hm
  | cons first rest ih =>
    intro m hm
    rw [choose] at hm
    split at hm
    · exact (ih m hm).imp id (List.mem_cons_of_mem first)
    · split at hm
      · exact .inl hm
      · split at hm
        · exact (ih m hm).imp id (List.mem_cons_of_mem first)
        · split at hm
          · exact .inl hm
          · rcases ih m hm with hm | hm
            · rcases List.mem_append.mp hm with hm | hm
              · exact .inl hm
              · exact .inr (List.mem_cons.mpr (.inl (List.mem_singleton.mp hm)))
            · exact .inr (List.mem_cons_of_mem first hm)

/-- A choice is gone through up to a message that stops it. -/
theorem choose_through : ∃ before after : List Message, page = before ++ after ∧
    (∀ m ∈ before, m.sequenceNumber ∈ processed ∨
      m.sequenceNumber ∈ numbers (choose row t0 now taken processed selected page).skipped ∨
      m ∈ (choose row t0 now taken processed selected page).selected) ∧
    (∀ m ∈ (choose row t0 now taken processed selected page).skipped, m ∈ before) ∧
    (∀ m ∈ (choose row t0 now taken processed selected page).selected, m ∈ selected ∨ m ∈ before) ∧
    ((choose row t0 now taken processed selected page).stop = none ↔ after = []) ∧
    ∀ m rest, after = m :: rest → m.sequenceNumber ∉ processed ∧ ((0 < row.config.limits.maxMessages ∧
      row.config.limits.maxMessages ≤ taken + (choose row t0 now taken processed selected page).selected.length) ∨
        Late row t0 m) := by
  induction page generalizing processed selected with
  | nil => exact ⟨[], [], rfl, by simp, by simp [choose], by simp [choose], by simp [choose], by rintro m rest ⟨⟩⟩
  | cons m rest ih =>
    by_cases hold : m.sequenceNumber ∈ processed
    · obtain ⟨before, after, rfl, hall, hskipped, hselected, hend, hstops⟩ := @ih processed selected
      rw [choose, if_pos hold]
      refine ⟨m :: before, after, rfl, List.forall_mem_cons.mpr ⟨.inl hold, hall⟩, fun m' hm' => ?_, fun m' hm' => ?_,
        hend, hstops⟩
      · exact List.mem_cons_of_mem m (hskipped m' hm')
      · exact (hselected m' hm').imp id (List.mem_cons_of_mem m)
    · by_cases hlimit : row.config.limits.maxMessages > 0 ∧ taken + selected.length ≥ row.config.limits.maxMessages
      · rw [choose, if_neg hold, if_pos hlimit]
        refine ⟨[], m :: rest, rfl, by simp, by simp, fun m' hm' => .inl hm', by simp, ?_⟩
        rintro _ _ ⟨⟩
        exact ⟨hold, .inl hlimit⟩
      · by_cases hskip : isPendingActivation m = true ∨ isExpired now m = true
        · obtain ⟨before, after, rfl, hall, hskipped, hselected, hend, hstops⟩ :=
            @ih (m.sequenceNumber :: processed) selected
          rw [choose, if_neg hold, if_neg hlimit, if_pos hskip]
          refine ⟨m :: before, after, rfl, List.forall_mem_cons.mpr ⟨.inr (.inl List.mem_cons_self), fun m' hm' => ?_⟩,
            ?_,
            fun m' hm' => (hselected m' hm').imp id (List.mem_cons_of_mem m), hend, fun m' rest' hafter => ?_⟩
          · rcases hall m' hm' with hin | hin | hin
            · rcases List.mem_cons.mp hin with heq | hin
              · rw [heq]
                exact .inr (.inl List.mem_cons_self)
              · exact .inl hin
            · exact .inr (.inl (List.mem_cons_of_mem _ hin))
            · exact .inr (.inr hin)
          · exact List.forall_mem_cons.mpr ⟨List.mem_cons_self, fun m' hm' => List.mem_cons_of_mem m (hskipped m' hm')⟩
          · obtain ⟨hnew, hwhy⟩ := hstops m' rest' hafter
            exact ⟨fun hin => hnew (List.mem_cons_of_mem _ hin), hwhy⟩
        · by_cases hlate : row.config.limits.stopAtJobStart = true ∧ afterWatermark m t0 = true
          · rw [choose, if_neg hold, if_neg hlimit, if_neg hskip, if_pos hlate]
            refine ⟨[], m :: rest, rfl, by simp, by simp, fun m' hm' => .inl hm', by simp, ?_⟩
            rintro _ _ ⟨⟩
            exact ⟨hold, .inr hlate⟩
          · obtain ⟨before, after, rfl, hall, hskipped, hselected, hend, hstops⟩ := @ih processed (selected ++ [m])
            obtain ⟨more, hmore, -⟩ := chooses_choose row t0 now taken processed (selected ++ [m]) (before ++ after)
            rw [choose, if_neg hold, if_neg hlimit, if_neg hskip, if_neg hlate]
            refine ⟨m :: before, after, rfl, List.forall_mem_cons.mpr ⟨.inr (.inr ?_), hall⟩, fun m' hm' => ?_,
              fun m' hm' => ?_,
              hend, hstops⟩
            · rw [hmore]
              simp
            · exact List.mem_cons_of_mem m (hskipped m' hm')
            · rcases hselected m' hm' with hin | hin
              · rcases List.mem_append.mp hin with hin | hin
                · exact .inl hin
                · exact .inr (List.mem_cons.mpr (.inl (List.mem_singleton.mp hin)))
              · exact .inr (List.mem_cons_of_mem m hin)

end Choice

/-! ### A page that was exported -/

/-- What is left of a page once it was exported: some of what was handed out is processed, and some stays open. -/
structure PageSettled (l : PagerState) (page : List Message) (before selected kept opened : List ℤ) (l' : PagerState) :
    Prop where
  parts : (kept ++ opened).Perm selected
  once : (numbers page).Nodup → selected.Nodup
  grows : ∀ n ∈ l.pager.processed, n ∈ l'.pager.processed
  processed : ∀ n ∈ kept, n ∈ l'.pager.processed
  through : ∀ n ∈ before, n ∈ l'.pager.processed ∨ n ∈ opened
  high : ∀ top, l'.pager.high = some top → l.pager.high = some top ∨ top ∈ before
  taken : l'.pager.taken = l.pager.taken + kept.length

/-- How a choice goes through a page: all before the cut is old, skipped or chosen. -/
structure GoesThrough (processed before after : List ℤ) (chosen : Chosen) : Prop where
  through : ∀ n ∈ before, n ∈ processed ∨ n ∈ numbers chosen.skipped ∨ n ∈ numbers chosen.selected
  skipped : ∀ n ∈ numbers chosen.skipped, n ∈ before
  stop : chosen.stop = none ↔ after = []

section Export

variable {row : Row} {l l' : PagerState} {h h' : Trace sdk} {t0 now : Time} {taken : ℕ} {processed : List ℤ}
  {page : List Message} {before after : List ℤ} {chosen : Chosen}

/-- A choice cuts its page. -/
theorem cut_choose : ∃ before after,
    Cut row t0 taken processed page before after (numbers (choose row t0 now taken processed [] page).selected) ∧
      GoesThrough processed before after (choose row t0 now taken processed [] page) := by
  have hfresh := (chooses_page row t0 now taken processed page).fresh
  have hwithin := @choose_within row t0 now taken processed [] page
  have hearly := @choose_early row t0 now taken processed [] page (by simp)
  have hsubset := @choose_subset row t0 now taken processed [] page
  obtain ⟨before, after, hpage, hall, hskipped, hselected, hend, hstops⟩ :=
    @choose_through row t0 now taken processed [] page
  generalize choose row t0 now taken processed [] page = chosen at *
  refine ⟨numbers before, numbers after, ⟨by rw [hpage, numbers_append], fun n hn => ⟨?_, ?_⟩, ?_, ?_, ?_⟩, ?_, ?_, ?_⟩
  · obtain ⟨m, hm, rfl⟩ := List.mem_map.mp hn
    exact mem_numbers ((hselected m hm).resolve_left (by simp))
  · exact hfresh n (List.mem_append_right _ hn)
  · intro hlimit hle
    have hle' := hwithin hlimit (by simpa using hle)
    simpa [numbers] using hle'
  · intro n hn
    obtain ⟨m, hm, rfl⟩ := List.mem_map.mp hn
    exact ⟨m, (hsubset m hm).resolve_left (by simp), rfl, hearly m hm⟩
  · intro n rest hafter
    obtain ⟨m, after, rfl, rfl, -⟩ := List.map_eq_cons_iff.mp hafter
    obtain ⟨hnew, hwhy⟩ := hstops m after rfl
    refine ⟨hnew, hwhy.imp (by simp [numbers]) fun hlate => ⟨m, ?_, rfl, hlate⟩⟩
    rw [hpage]
    exact List.mem_append_right before List.mem_cons_self
  · intro n hn
    obtain ⟨m, hm, rfl⟩ := List.mem_map.mp hn
    exact (hall m hm).imp id (Or.imp id mem_numbers)
  · intro n hn
    obtain ⟨m, hm, rfl⟩ := List.mem_map.mp hn
    exact mem_numbers (hskipped m hm)
  · rw [hend]
    simp [numbers]

/-- Where the batch failed, all that was handed out stays open. -/
theorem pageSettled_failed {tracker : RecoveryTracker} (hby : GoesThrough l.pager.processed before after chosen)
    (hnodup : (numbers page).Nodup → (numbers chosen.selected).Nodup)
    (hsame : l'.pager = { l.pager.markAll (numbers chosen.skipped) with tracker := tracker }) :
    PageSettled l page before (numbers chosen.selected) [] (numbers chosen.selected) l' := by
  refine ⟨by simp, hnodup, ?_, by simp, ?_, ?_, ?_⟩ <;> rw [hsame]
  · exact fun n hn => List.mem_append_right _ hn
  · intro n hn
    rcases hby.through n hn with hold | hskip | hopen
    · exact .inl (List.mem_append_right _ hold)
    · exact .inl (List.mem_append_left _ (List.mem_reverse.mpr hskip))
    · exact .inr hopen
  · exact fun top htop => (markedHigh_eq htop).imp id (hby.skipped top)
  · rfl

/-- Where it passed, only what was given back stays open. -/
theorem pageSettled_passed {tracker : RecoveryTracker} {retried : List ℤ}
    (hcut : Cut row t0 taken processed page before after (numbers chosen.selected))
    (hby : GoesThrough l.pager.processed before after chosen)
    (hnodup : (numbers page).Nodup → (numbers chosen.selected).Nodup)
    (hsame : l'.pager =
      { (l.pager.markAll (numbers chosen.skipped)).exportAll (kept retried (numbers chosen.selected)) with
        tracker := tracker, outstanding := retried.min? }) :
    PageSettled l page before (numbers chosen.selected) (kept retried (numbers chosen.selected))
      ((numbers chosen.selected).filter (· ∈ retried)) l' := by
  have hmem : ∀ n, n ∈ l'.pager.processed ↔
      n ∈ kept retried (numbers chosen.selected) ∨ n ∈ numbers chosen.skipped ∨ n ∈ l.pager.processed := by
    intro n
    rw [hsame]
    simp only [PeekPager.exportAll, PeekPager.markAll, List.mem_append, List.mem_reverse]
  refine ⟨?_, hnodup, ?_, ?_, ?_, ?_, ?_⟩
  · refine List.perm_append_comm.trans ?_
    simpa [kept] using List.filter_append_perm (fun n => decide (n ∈ retried)) (numbers chosen.selected)
  · exact fun n hn => (hmem n).mpr (.inr (.inr hn))
  · exact fun n hn => (hmem n).mpr (.inl hn)
  · intro n hn
    rcases hby.through n hn with hold | hskip | hopen
    · exact .inl ((hmem n).mpr (.inr (.inr hold)))
    · exact .inl ((hmem n).mpr (.inr (.inl hskip)))
    · by_cases hback : n ∈ retried
      · exact .inr (List.mem_filter.mpr ⟨hopen, by simpa using hback⟩)
      · exact .inl ((hmem n).mpr (.inl (mem_kept.mpr ⟨hopen, hback⟩)))
  · rw [hsame]
    intro top htop
    rcases markedHigh_eq htop with hskip | hkept
    · exact (markedHigh_eq hskip).imp id (hby.skipped top)
    · exact .inr (hcut.fresh top (mem_kept.mp hkept).1).1
  · rw [hsame]
    rfl

/-- Exporting a page cuts it, and settles what it cut. -/
theorem PageExported.cut {r : Except Exn (Option StopReason × List ℤ)}
    (hexported : PageExported row l h page now r l' h') :
    ∃ before after selected kept opened, Cut row l.run.t0 l.pager.taken l.pager.processed page before after selected ∧
      PageSettled l page before selected kept opened l' ∧
      (∀ e, r = .error e → l'.pager.outstanding = l.pager.outstanding) ∧
      ∀ stop retried, r = .ok (stop, retried) → (stop = none ↔ after = []) ∧ (∀ n ∈ opened, n ∈ retried) ∧
        (∀ n ∈ retried, n ∈ selected) ∧ l'.pager.outstanding = retried.min? := by
  obtain ⟨-, -, pager', hexports, herror, hok⟩ := hexported
  have honce := (chooses_page row l.run.t0 now l.pager.taken l.pager.processed page).once
  obtain ⟨before, after, hcut, hby⟩ := @cut_choose row l.run.t0 now l.pager.taken l.pager.processed page
  generalize choose row l.run.t0 now l.pager.taken l.pager.processed [] page = chosen at *
  have hnodup : (numbers page).Nodup → (numbers chosen.selected).Nodup :=
    fun hpage => (List.nodup_append.mp (honce hpage)).2.1
  rcases r with e | ⟨stop, retried⟩
  · obtain ⟨tracker, hpager⟩ := hexports.failed e rfl
    have hsame := (herror e rfl).trans hpager
    refine ⟨_, _, _, _, _, hcut, pageSettled_failed hby hnodup hsame, fun _ _ => ?_, by rintro stop retried ⟨⟩⟩
    rw [hsame]
    rfl
  · obtain ⟨tracker, hpager⟩ := hexports.passed retried rfl
    obtain ⟨rfl, hsame⟩ := hok stop retried rfl
    rw [hpager] at hsame
    refine ⟨_, _, _, _, _, hcut, pageSettled_passed hcut hby hnodup hsame, by rintro e ⟨⟩, ?_⟩
    rintro _ _ ⟨⟩
    refine ⟨hby.stop, fun n hn => by simpa using (List.mem_filter.mp hn).2, fun n hn => ?_, ?_⟩
    · exact ((hexports.ended _ rfl).1 n hn).1
    · rw [hsame]

end Export

/-! ### What peeks show -/

/-- A page has all numbers of the messages present that it reaches; it is empty only where none is left. -/
def ShowsPresent (present : List ℤ) : Event sdk → Prop
  | .call (.peekMessages _ _ start) (.ok page) => ∀ n ∈ present, start ≤ n →
      page ≠ [] ∧ (n ≤ lastSequenceNumber page → n ∈ numbers page)
  | _ => True

/-- The pages of a trace, each with where it was asked to start. -/
def pages (h : Trace sdk) : List (ℤ × List Message) := h.filterMap fun
  | .call (.peekMessages _ _ start) (.ok page) => some (start, page)
  | _ => none

/-- No message appears among those that were shown before. -/
def AppearsBehind (before : Trace sdk) : Event sdk → Prop
  | .call (.peekMessages ..) (.ok page) => ∀ n ∈ numbers page, ∀ p ∈ pages before,
      p.1 ≤ n → n ≤ lastSequenceNumber p.2 → n ∈ numbers p.2
  | _ => True

/-- The time at which the watermark sees a message: none while it is SCHEDULED. -/
def watermarkTime (m : Message) : Option Time := if m.state = .scheduled then none else m.enqueuedTimeUtc

/-- The times at which the watermark sees the messages. -/
abbrev Header := ℤ → Option Time

/-- The messages of a page have the times they have for good. -/
def KeepsHeader (header : Header) : Event sdk → Prop
  | .call (.peekMessages ..) (.ok page) => ∀ m ∈ page, watermarkTime m = header m.sequenceNumber
  | _ => True

/-- What the peeks of a run show, where the messages `present` are there all the time. -/
structure PeeksOf (present : List ℤ) (header : Header) (es : Trace sdk) : Prop where
  inOrder : ∀ e ∈ es, InOrder e
  shows : ∀ e ∈ es, ShowsPresent present e
  behind : Always AppearsBehind es
  lasting : ∀ e ∈ es, KeepsHeader header e

/-- The message with the number is past the start of the job, and the row stops there. -/
def Header.IsLate (header : Header) (row : Row) (t0 : Time) (n : ℤ) : Prop :=
  row.config.limits.stopAtJobStart = true ∧ ∃ t, header n = some t ∧ t0 ≤ t

/-! ### The cursor between two turns -/

/-- The next page starts at a number that was passed, and no mark says so. -/
def Behind (pager : PeekPager) : Prop := pager.outstanding = none ∧ ∃ top, pager.high = some top ∧ pager.nextSeq ≤ top

/-- The numbers up to the highest one that are not processed: they wait on a page that was shown, within the limit. -/
structure Window (row : Row) (late : ℤ → Prop) (pager : PeekPager) (h : Trace sdk) (top : ℤ) (p : ℤ × List Message)
    (waiting : List ℤ) : Prop where
  shown : p ∈ pages h
  start : p.1 ≤ pager.nextSeq
  reach : top ≤ lastSequenceNumber p.2
  all : ∀ n ∈ numbers p.2, pager.nextSeq ≤ n → n ≤ top → n ∈ pager.processed ∨ n ∈ waiting
  within : 0 < row.config.limits.maxMessages → pager.taken + waiting.length ≤ row.config.limits.maxMessages
  once : waiting.Nodup
  early : ∀ n ∈ waiting, ¬ late n

/-- All before the next page is done, and what lies between it and the highest number waits. -/
structure SoundCursor (row : Row) (present : List ℤ) (late : ℤ → Prop) (start : ℤ) (l : PagerState) (h : Trace sdk) :
    Prop where
  explicit : l.pager.cursorMode = false
  after : start ≤ l.pager.nextSeq
  processed : ∀ n ∈ l.pager.processed, Done h n
  behind : ∀ n ∈ present, start ≤ n → n < l.pager.nextSeq → Done h n
  mark : ∀ first, l.pager.outstanding = some first → l.pager.nextSeq = first
  within : 0 < row.config.limits.maxMessages → l.pager.taken ≤ row.config.limits.maxMessages
  window : ∀ top, l.pager.high = some top → l.pager.nextSeq ≤ top → ∃ p waiting, Window row late l.pager h top p waiting

section Turn

variable {row : Row} {present : List ℤ} {header : Header} {t0 : Time} {start : ℤ} {l l' l₁ : PagerState}
  {h h' h₁ : Trace sdk} {page : List Message} {receiver : Handle}

theorem pages_along (hp : h <+: h') : pages h ⊆ pages h' := (hp.filterMap _).subset

/-- The page of a turn is in the trace, with what it shows. -/
structure Shows (present : List ℤ) (header : Header) (start : ℤ) (page : List Message) (before h₁ : Trace sdk) :
    Prop where
  inOrder : (numbers page).Pairwise (· < ·) ∧ ∀ n ∈ numbers page, start ≤ n
  present : ∀ n ∈ present, start ≤ n → page ≠ [] ∧ (n ≤ lastSequenceNumber page → n ∈ numbers page)
  behind : ∀ n ∈ numbers page, ∀ p ∈ pages before, p.1 ≤ n → n ≤ lastSequenceNumber p.2 → n ∈ numbers p.2
  lasting : ∀ m ∈ page, watermarkTime m = header m.sequenceNumber
  mem : (start, page) ∈ pages h₁

theorem Peeked.shows (hpeeked : Peeked l h receiver page l₁ h₁) (hexplicit : l.pager.cursorMode = false)
    (hpeeks : PeeksOf present header h₁) :
    ∃ before, h <+: before ∧ Shows present header l.pager.nextSeq page before h₁ := by
  obtain ⟨before, hp, hlast, -⟩ := hpeeked.last
  rw [hexplicit, if_neg Bool.false_ne_true] at hlast
  obtain rfl := hlast
  have hmem := List.mem_append_right before (List.mem_singleton_self
    (Interaction.Event.call (S := sdk) (.peekMessages receiver peekPageSize l.pager.nextSeq) (.ok page)))
  refine ⟨before, hp, hpeeks.inOrder _ hmem, hpeeks.shows _ hmem, (always_concat.mp hpeeks.behind).2,
    hpeeks.lasting _ hmem, ?_⟩
  exact List.mem_filterMap.mpr ⟨_, hmem, rfl⟩

/-- The watermark looks at that time only. -/
theorem afterWatermark_iff {m : Message} : afterWatermark m t0 = true ↔ ∃ t, watermarkTime m = some t ∧ t0 ≤ t := by
  rw [afterWatermark, watermarkTime]
  by_cases hstate : m.state = .scheduled
  · simp [hstate]
  · cases htime : m.enqueuedTimeUtc with
    | none => simp [hstate]
    | some t => simp [hstate]

theorem late_iff {m : Message} (hm : watermarkTime m = header m.sequenceNumber) :
    Late row t0 m ↔ header.IsLate row t0 m.sequenceNumber := by
  rw [Header.IsLate, Late, afterWatermark_iff, hm]

/-- The cursor is sound for any pager with the same books, after any longer trace. -/
theorem SoundCursor.along {late : ℤ → Prop} (hI : SoundCursor row present late start l h)
    (hbooks : l'.pager.books = l.pager.books) (hp : h <+: h') :
    SoundCursor row present late start l' h' := by
  have hprocessed : l'.pager.processed = l.pager.processed := congrArg Books.processed hbooks
  have hhigh : l'.pager.high = l.pager.high := congrArg Books.high hbooks
  have houtstanding : l'.pager.outstanding = l.pager.outstanding := congrArg Books.outstanding hbooks
  have htaken : l'.pager.taken = l.pager.taken := congrArg Books.taken hbooks
  have hnext : l'.pager.nextSeq = l.pager.nextSeq := congrArg Books.nextSeq hbooks
  have hmode : l'.pager.cursorMode = l.pager.cursorMode := congrArg Books.cursorMode hbooks
  refine ⟨hmode.trans hI.explicit, by rw [hnext]; exact hI.after, ?_, ?_, ?_, by rw [htaken]; exact hI.within, ?_⟩
  · rw [hprocessed]
    exact fun n hn => (hI.processed n hn).along hp
  · rw [hnext]
    exact fun n hn hstart hlt => (hI.behind n hn hstart hlt).along hp
  · rw [houtstanding, hnext]
    exact hI.mark
  · intro top htop hle
    rw [hhigh] at htop
    rw [hnext] at hle
    obtain ⟨p, waiting, hw⟩ := hI.window top htop hle
    refine ⟨p, waiting, pages_along hp hw.shown, ?_, hw.reach, ?_, by rw [htaken]; exact hw.within, hw.once, hw.early⟩
    · rw [hnext]
      exact hw.start
    · rw [hnext, hprocessed]
      exact hw.all

section Page

variable {before after selected kept opened : List ℤ} {hb : Trace sdk}

/-- What the page shows up to the highest number is processed, or waits. -/
theorem Window.shows {late : ℤ → Prop} {top : ℤ} {p : ℤ × List Message} {waiting : List ℤ}
    (hw : Window row late l.pager h top p waiting) (hp : h <+: hb)
    (hshows : Shows present header l.pager.nextSeq page hb h₁) {n : ℤ} (hn : n ∈ numbers page) (hle : n ≤ top) :
    n ∈ l.pager.processed ∨ n ∈ waiting := by
  have hstart := hshows.inOrder.2 n hn
  exact hw.all n (hshows.behind n hn p (pages_along hp hw.shown) (hw.start.trans hstart) (hle.trans hw.reach)) hstart
    hle

/-- A page is cut only past the highest number. -/
theorem SoundCursor.past (hI : SoundCursor row present (header.IsLate row t0) start l h) (hp : h <+: hb)
    (hshows : Shows present header l.pager.nextSeq page hb h₁) {n : ℤ} {rest : List ℤ}
    (hcut : Cut row t0 l.pager.taken l.pager.processed page before (n :: rest) selected) (hselected : selected.Nodup)
    {top : ℤ} (htop : l.pager.high = some top) : top < n := by
  by_contra hge
  have hle : n ≤ top := not_lt.mp hge
  have hn : n ∈ numbers page := by
    rw [hcut.split]
    exact List.mem_append_right before List.mem_cons_self
  obtain ⟨p, waiting, hw⟩ := hI.window top htop ((hshows.inOrder.2 n hn).trans hle)
  obtain ⟨hnew, hwhy⟩ := hcut.stops n rest rfl
  have hwaits : n ∈ waiting := (hw.shows hp hshows hn hle).resolve_left hnew
  rcases hwhy with ⟨hpos, hlimit⟩ | ⟨m, hm, rfl, hlate⟩
  · -- what is handed out before the cut waits too, so the limit is not reached yet
    have hsorted := hshows.inOrder.1
    rw [hcut.split] at hsorted
    have hlt : ∀ q ∈ selected, q < n := fun q hq =>
      (List.pairwise_append.mp hsorted).2.2 q (hcut.fresh q hq).1 n List.mem_cons_self
    have hsub : n :: selected ⊆ waiting := by
      refine List.cons_subset.mpr ⟨hwaits, fun q hq => ?_⟩
      have hin : q ∈ numbers page := by
        rw [hcut.split]
        exact List.mem_append_left _ (hcut.fresh q hq).1
      exact (hw.shows hp hshows hin ((hlt q hq).le.trans hle)).resolve_left (hcut.fresh q hq).2
    have hnodup : (n :: selected).Nodup := List.nodup_cons.mpr ⟨fun hin => lt_irrefl n (hlt n hin), hselected⟩
    have hlength := (hnodup.subperm hsub).length_le
    have hwithin := hw.within hpos
    rw [List.length_cons] at hlength
    omega
  · exact hw.early _ hwaits ((late_iff (hshows.lasting m hm)).mp hlate)

/-- Of a page that reaches the highest number, all up to it was gone through. -/
theorem SoundCursor.mem_before (hI : SoundCursor row present (header.IsLate row t0) start l h) (hp : h <+: hb)
    (hshows : Shows present header l.pager.nextSeq page hb h₁)
    (hcut : Cut row t0 l.pager.taken l.pager.processed page before after selected) (hselected : selected.Nodup)
    {top : ℤ} (htop : l.pager.high = some top ∨ top ∈ before) {n : ℤ} (hn : n ∈ numbers page) (hle : n ≤ top) :
    n ∈ before := by
  have hsorted := hshows.inOrder.1
  rw [hcut.split] at hn hsorted
  rcases List.mem_append.mp hn with hin | hout
  · exact hin
  · cases after with
    | nil => cases hout
    | cons q rest =>
      have hlt : top < q := by
        rcases htop with hsame | hin
        · exact hI.past hp hshows hcut hselected hsame
        · exact (List.pairwise_append.mp hsorted).2.2 top hin q List.mem_cons_self
      have hqn : q ≤ n := by
        rcases List.mem_cons.mp hout with rfl | hrest
        · exact le_refl n
        · exact ((List.pairwise_cons.mp (List.pairwise_append.mp hsorted).2.1).1 n hrest).le
      omega

/-- A page ends below the highest number: what waits is what waited before, less what is processed now. -/
theorem SoundCursor.window_short (hI : SoundCursor row present (header.IsLate row t0) start l h) (hp : h <+: hb)
    (hshows : Shows present header l.pager.nextSeq page hb h₁) (hpage : page ≠ [])
    (hcut : Cut row t0 l.pager.taken l.pager.processed page before after selected) (hselected : selected.Nodup)
    (hsettled : PageSettled l page before selected kept opened l₁) (pager : PeekPager)
    (hnext : l.pager.nextSeq ≤ pager.nextSeq) (hprocessed : pager.processed = l₁.pager.processed)
    (htaken : pager.taken = l₁.pager.taken) (hfirst : h <+: h') {old top : ℤ} (hold : l.pager.high = some old)
    (hlast : ∀ n ∈ before, n ≤ old) (hshort : lastSequenceNumber page < old) (htop : top ≤ old) :
    ∃ p waiting, Window row (header.IsLate row t0) pager h' top p waiting := by
  have hstart := hshows.inOrder.2 _ (lastSequenceNumber_mem hpage)
  obtain ⟨p, waiting, hw⟩ := hI.window old hold (hstart.trans hshort.le)
  have hwaits : ∀ n ∈ selected, n ∈ waiting := by
    intro n hn
    obtain ⟨hin, hnew⟩ := hcut.fresh n hn
    have hmem : n ∈ numbers page := by
      rw [hcut.split]
      exact List.mem_append_left _ hin
    exact (hw.shows hp hshows hmem (hlast n hin)).resolve_left hnew
  refine ⟨p, waiting.filter (· ∉ pager.processed), pages_along hfirst hw.shown, hw.start.trans hnext,
    htop.trans hw.reach, fun n hn hn' hntop => ?_, fun hpos => ?_, hw.once.filter _,
    fun n hn => hw.early n (List.mem_of_mem_filter hn)⟩
  · by_cases hdone : n ∈ pager.processed
    · exact .inl hdone
    · rcases hw.all n hn (hnext.trans hn') (hntop.trans htop) with hold' | hwait
      · rw [hprocessed] at hdone
        exact absurd (hsettled.grows n hold') hdone
      · exact .inr (List.mem_filter.mpr ⟨hwait, by simpa using hdone⟩)
  · -- what the page keeps waited before, and is not among what still waits
    have hparts := List.nodup_append.mp (hsettled.parts.nodup_iff.mpr hselected)
    have hnodup : (kept ++ waiting.filter (· ∉ pager.processed)).Nodup := by
      refine List.nodup_append.mpr ⟨hparts.1, hw.once.filter _, ?_⟩
      rintro n hn _ hn' rfl
      have hout : n ∉ pager.processed := by simpa using (List.mem_filter.mp hn').2
      rw [hprocessed] at hout
      exact hout (hsettled.processed n hn)
    have hsub : kept ++ waiting.filter (· ∉ pager.processed) ⊆ waiting :=
      List.append_subset.mpr ⟨fun n hn => hwaits n (hsettled.parts.subset (List.mem_append_left _ hn)),
        fun n hn => List.mem_of_mem_filter hn⟩
    have hlength := (hnodup.subperm hsub).length_le
    have hwithin := hw.within hpos
    rw [List.length_append] at hlength
    rw [htaken, hsettled.taken]
    omega

/-- A page reaches the highest number: what waits is what of it stays open. -/
theorem SoundCursor.window_reached (hI : SoundCursor row present (header.IsLate row t0) start l h) (hp : h <+: hb)
    (hshows : Shows present header l.pager.nextSeq page hb h₁)
    (hcut : Cut row t0 l.pager.taken l.pager.processed page before after selected) (hselected : selected.Nodup)
    (hsettled : PageSettled l page before selected kept opened l₁) (pager : PeekPager)
    (hnext : l.pager.nextSeq ≤ pager.nextSeq) (hprocessed : pager.processed = l₁.pager.processed)
    (htaken : pager.taken = l₁.pager.taken) (hgrows : h₁ <+: h') {top : ℤ} (hreach : top ≤ lastSequenceNumber page)
    (htop : l.pager.high = some top ∨ top ∈ before) :
    ∃ p waiting, Window row (header.IsLate row t0) pager h' top p waiting := by
  have hsum : kept.length + opened.length = selected.length := by
    rw [← List.length_append]
    exact hsettled.parts.length_eq
  refine ⟨(l.pager.nextSeq, page), opened, pages_along hgrows hshows.mem, hnext, hreach, fun n hn hn' hntop => ?_,
    fun hpos => ?_, (List.nodup_append.mp (hsettled.parts.nodup_iff.mpr hselected)).2.1, fun n hn hlate => ?_⟩
  · rw [hprocessed]
    exact hsettled.through n (hI.mem_before hp hshows hcut hselected htop hn hntop)
  · have hwithin := hcut.within hpos (hI.within hpos)
    rw [htaken, hsettled.taken]
    omega
  · obtain ⟨m, hm, rfl, hearly⟩ := hcut.early n (hsettled.parts.subset (List.mem_append_right _ hn))
    exact hearly ((late_iff (hshows.lasting m hm)).mpr hlate)

/-- After a page, what lies between the next one and the highest number waits. -/
theorem SoundCursor.window_after (hI : SoundCursor row present (header.IsLate row t0) start l h) (hp : h <+: hb)
    (hshows : Shows present header l.pager.nextSeq page hb h₁) (hpage : page ≠ [])
    (hcut : Cut row t0 l.pager.taken l.pager.processed page before after selected)
    (hsettled : PageSettled l page before selected kept opened l₁) (pager : PeekPager)
    (hnext : l.pager.nextSeq ≤ pager.nextSeq) (hprocessed : pager.processed = l₁.pager.processed)
    (hhigh : pager.high = l₁.pager.high) (htaken : pager.taken = l₁.pager.taken) (hgrows : h₁ <+: h')
    (hfirst : h <+: h') {top : ℤ} (htop : pager.high = some top) :
    ∃ p waiting, Window row (header.IsLate row t0) pager h' top p waiting := by
  have hsorted := hshows.inOrder.1
  have hselected := hsettled.once (hsorted.imp fun hlt => ne_of_lt hlt)
  have hlast : ∀ n ∈ before, n ≤ lastSequenceNumber page := fun n hn =>
    le_lastSequenceNumber hsorted (by rw [hcut.split]; exact List.mem_append_left _ hn)
  have htop' := hsettled.high top (hhigh ▸ htop)
  by_cases hshort : ∃ old, l.pager.high = some old ∧ lastSequenceNumber page < old
  · obtain ⟨old, hold, hlt⟩ := hshort
    refine hI.window_short hp hshows hpage hcut hselected hsettled pager hnext hprocessed htaken hfirst hold
      (fun n hn => (hlast n hn).trans hlt.le) hlt ?_
    rcases htop' with hsame | hin
    · exact le_of_eq (Option.some.inj (hsame.symm.trans hold))
    · exact (hlast top hin).trans hlt.le
  · refine hI.window_reached hp hshows hcut hselected hsettled pager hnext hprocessed htaken hgrows ?_ htop'
    rcases htop' with hsame | hin
    · exact not_lt.mp fun hlt => hshort ⟨top, hsame, hlt⟩
    · exact hlast top hin

end Page

theorem PeeksOf.initial {es es' : Trace sdk} (hpeeks : PeeksOf present header es') (hp : es <+: es') :
    PeeksOf present header es :=
  ⟨fun e he => hpeeks.inOrder e (hp.subset he), fun e he => hpeeks.shows e (hp.subset he), hpeeks.behind.initial hp,
    fun e he => hpeeks.lasting e (hp.subset he)⟩

/-- A page exported from a sound cursor. -/
structure SoundPage (row : Row) (present : List ℤ) (header : Header) (t0 : Time) (start : ℤ) (l : PagerState)
    (h : Trace sdk) (page : List Message) (hb h₁ : Trace sdk) (before after selected kept opened : List ℤ)
    (l' : PagerState) (h' : Trace sdk) :
    Prop where
  sound : SoundCursor row present (header.IsLate row t0) start l h
  extends_before : h <+: hb
  extends_page : h₁ <+: h'
  extends_all : h <+: h'
  shows : Shows present header l.pager.nextSeq page hb h₁
  cut : Cut row t0 l.pager.taken l.pager.processed page before after selected
  settled : PageSettled l page before selected kept opened l'
  processed : ∀ n ∈ l'.pager.processed, Done h' n

theorem SoundCursor.exporting {now : Time} {r : Except Exn (Option StopReason × List ℤ)} {l₂ : PagerState}
    {h₂ : Trace sdk} (hI : SoundCursor row present (header.IsLate row t0) start l h) (ht0 : l.run.t0 = t0)
    (hpeeked : Peeked l h receiver page l₁ h₁) (hexported : PageExported row l₁ h₁ page now r l₂ h₂)
    (hpeeks : PeeksOf present header h₂) :
    ∃ hb before after selected kept opened,
      SoundPage row present header t0 start l₁ h page hb h₁ before after selected kept opened l₂ h₂ ∧
      (∀ e, r = .error e → l₂.pager.outstanding = l₁.pager.outstanding) ∧
      ∀ stop retried, r = .ok (stop, retried) → (stop = none ↔ after = []) ∧ (∀ n ∈ opened, n ∈ retried) ∧
        (∀ n ∈ retried, n ∈ selected) ∧ l₂.pager.outstanding = retried.min? := by
  have hI₁ : SoundCursor row present (header.IsLate row t0) start l₁ h :=
    hI.along hpeeked.aside.books (List.prefix_refl h)
  obtain ⟨hb, hp, hshows⟩ := hpeeked.shows hI.explicit (hpeeks.initial hexported.extends)
  obtain ⟨before, after, selected, kept, opened, hcut, hsettled, herror, hok⟩ := hexported.cut
  rw [← hpeeked.aside.nextSeq] at hshows
  rw [hpeeked.aside.t0, ht0] at hcut
  have hprocessed : ∀ n ∈ l₁.pager.processed, Done h₁ n := fun n hn =>
    (hI₁.processed n hn).along hpeeked.aside.extends
  exact ⟨hb, before, after, selected, kept, opened,
    ⟨hI₁, hp, hexported.extends, hpeeked.aside.extends.trans hexported.extends,
    hshows, hcut, hsettled, hexported.processed_done hprocessed⟩, herror, hok⟩

section SoundPage

variable {hb : Trace sdk} {before after selected kept opened : List ℤ}

/-- The limit holds after the page. -/
theorem SoundPage.within
    (hpage : SoundPage row present header t0 start l h page hb h₁ before after selected kept opened l' h')
    (hpos : 0 < row.config.limits.maxMessages) : l'.pager.taken ≤ row.config.limits.maxMessages := by
  have hwithin := hpage.cut.within hpos (hpage.sound.within hpos)
  have hlength := hpage.settled.parts.length_eq
  rw [List.length_append] at hlength
  rw [hpage.settled.taken]
  omega

/-- What is present up to a number the page went through is done, or stays open. -/
theorem SoundPage.done
    (hpage : SoundPage row present header t0 start l h page hb h₁ before after selected kept opened l' h')
    {m n : ℤ} (hm : m ∈ before) (hn : n ∈ present) (hstart : start ≤ n) (hle : n ≤ m) : Done h' n ∨ n ∈ opened := by
  by_cases hlt : n < l.pager.nextSeq
  · exact .inl ((hpage.sound.behind n hn hstart hlt).along hpage.extends_all)
  · have hsorted := hpage.shows.inOrder.1
    have hlast : m ≤ lastSequenceNumber page :=
      le_lastSequenceNumber hsorted (by rw [hpage.cut.split]; exact List.mem_append_left _ hm)
    have hin := (hpage.shows.present n hn (not_lt.mp hlt)).2 (hle.trans hlast)
    rw [hpage.cut.split] at hin hsorted
    rcases List.mem_append.mp hin with hin | hout
    · exact (hpage.settled.through n hin).imp (hpage.processed n) id
    · exact absurd ((List.pairwise_append.mp hsorted).2.2 m hm n hout) (not_lt.mpr hle)

end SoundPage

/-- A turn that goes on keeps the cursor sound, where the next one is not behind. -/
theorem SoundCursor.turn (hI : SoundCursor row present (header.IsLate row t0) start l h) (ht0 : l.run.t0 = t0)
    {t : Trace sdk} (hturned : PageTurned row true l h (.ok none) l' (h ++ t))
    (hpeeks : PeeksOf present header (h ++ t)) (hahead : ¬ Behind l'.pager) :
    SoundCursor row present (header.IsLate row t0) start l' (h ++ t) := by
  generalize hend : h ++ t = h' at hturned hpeeks ⊢
  have hgrows : h <+: h' := by
    rw [← hend]
    exact List.prefix_append h t
  cases hturned with
  | aside haside => exact hI.along haside.books haside.extends
  | revealed hfull => cases hfull
  | @retried receiver page now stop retried l₁ l₂ _ h₁ h₂ _ hpage _ hpeeked hexported hretried haside =>
    obtain ⟨hb, before, after, selected, kept, opened, hsound, -, hok⟩ :=
      hI.exporting ht0 hpeeked hexported (hpeeks.initial haside.extends)
    obtain ⟨-, hopened, hselected, hmark⟩ := hok stop retried rfl
    obtain ⟨first, hfirst⟩ := Option.isSome_iff_exists.mp (List.isSome_min?_of_ne_nil hretried)
    have hbefore : first ∈ before := (hsound.cut.fresh first (hselected first (List.min?_mem hfirst))).1
    have hin : first ∈ numbers page := by
      rw [hsound.cut.split]
      exact List.mem_append_left after hbefore
    have hle := hsound.shows.inOrder.2 first hin
    rw [hfirst, Option.getD_some] at haside
    refine SoundCursor.along (l := { l₂ with pager := { l₂.pager with nextSeq := first } })
      ⟨?_, hsound.sound.after.trans hle, hsound.processed, fun n hn hstart hlt => ?_,
        fun mark hmark' => ?_, hsound.within, fun top htop htop' => ?_⟩ haside.books haside.extends
    · exact hexported.position.2.1.trans hsound.sound.explicit
    · refine (hsound.done hbefore hn hstart (le_of_lt hlt)).resolve_right fun hopen => ?_
      exact absurd ((List.min?_eq_some_iff.mp hfirst).2 n (hopened n hopen)) (not_le.mpr hlt)
    · have hmark'' : l₂.pager.outstanding = some mark := hmark'
      rw [hmark, hfirst] at hmark''
      exact Option.some.inj hmark''
    · exact hsound.sound.window_after hsound.extends_before hsound.shows hpage hsound.cut hsound.settled
        { l₂.pager with nextSeq := first } hle rfl rfl rfl hsound.extends_page hsound.extends_all htop
  | @passed receiver page now l₁ l₂ h₁ _ hpage _ hpeeked hexported =>
    obtain ⟨hb, before, after, selected, kept, opened, hsound, -, hok⟩ := hI.exporting ht0 hpeeked hexported hpeeks
    obtain ⟨hafter, hopened, -, hmark⟩ := hok none [] rfl
    have hsplit := hsound.cut.split
    rw [hafter.mp rfl, List.append_nil] at hsplit
    have hlast := lastSequenceNumber_mem hpage
    have hle := hsound.shows.inOrder.2 _ hlast
    have hbefore := hlast
    rw [hsplit] at hbefore
    refine ⟨hexported.position.2.1.trans hsound.sound.explicit, ?_, by rintro n ⟨⟩, fun n hn hstart hlt => ?_,
      fun mark hmark' => ?_, hsound.within, fun top htop htop' => ?_⟩
    · have hstart := hsound.sound.after
      show start ≤ lastSequenceNumber page + 1
      omega
    · have hlt' : n < lastSequenceNumber page + 1 := hlt
      refine (hsound.done hbefore hn hstart (by omega)).resolve_right fun hopen => ?_
      exact absurd (hopened n hopen) List.not_mem_nil
    · have hmark'' : l₂.pager.outstanding = some mark := hmark'
      rw [hmark] at hmark''
      cases hmark''
    · exact absurd ⟨hmark, top, htop, htop'⟩ hahead
  | @failed receiver page now e r l₁ l₂ _ h₁ h₂ _ hpage hpeeked hexported hnot haside =>
    obtain ⟨hb, before, after, selected, kept, opened, hsound, herror, -⟩ :=
      hI.exporting ht0 hpeeked hexported (hpeeks.initial haside.extends)
    have hnext : l₂.pager.nextSeq = l₁.pager.nextSeq := hexported.position.1
    have hexplicit := hexported.position.2.1.trans hsound.sound.explicit
    refine SoundCursor.along (l := l₂) ⟨hexplicit, ?_, hsound.processed, fun n hn hstart hlt => ?_,
      fun mark hmark => ?_, hsound.within, fun top htop htop' => ?_⟩ haside.books haside.extends
    · rw [hnext]
      exact hsound.sound.after
    · rw [hnext] at hlt
      exact (hsound.sound.behind n hn hstart hlt).along hsound.extends_all
    · rw [herror e rfl] at hmark
      rw [hnext]
      exact hsound.sound.mark mark hmark
    · exact hsound.sound.window_after hsound.extends_before hsound.shows hpage hsound.cut hsound.settled l₂.pager
        (le_of_eq hnext.symm) rfl rfl rfl hsound.extends_page hsound.extends_all htop

/-- A turn that stops leaves no message out up to the cursor, where it was not behind. -/
theorem SoundCursor.stopped (hI : SoundCursor row present (header.IsLate row t0) start l h) (ht0 : l.run.t0 = t0)
    {t : Trace sdk} {stop : StopReason} (hturned : PageTurned row true l h (.ok (some stop)) l' (h ++ t))
    (hpeeks : PeeksOf present header (h ++ t)) (hahead : ¬ Behind l.pager) {top : ℤ}
    (htop : cursorHigh l'.pager = some top) :
    ∀ n ∈ present, start ≤ n → n ≤ top → Done (h ++ t) n := by
  generalize hend : h ++ t = h' at hturned hpeeks ⊢
  have hgrows : h <+: h' := by
    rw [← hend]
    exact List.prefix_append h t
  have hleft : ∀ n ∈ present, start ≤ n → n < l.pager.nextSeq → Done h' n := fun n hn hstart hlt =>
    (hI.behind n hn hstart hlt).along hgrows
  intro n hn hstart hle
  cases hturned with
  | aside haside =>
    refine hleft n hn hstart ?_
    rw [cursorHigh, haside.high, haside.outstanding] at htop
    cases hhigh : l.pager.high with
    | none =>
      rw [hhigh] at htop
      cases htop
    | some high =>
      cases hmark : l.pager.outstanding with
      | none =>
        rw [hhigh, hmark] at htop
        obtain rfl := Option.some.inj htop
        exact lt_of_le_of_lt hle (not_le.mp fun hbehind => hahead ⟨hmark, high, hhigh, hbehind⟩)
      | some first =>
        rw [hhigh, hmark] at htop
        have hmin : min high (first - 1) = top := Option.some.inj htop
        have hnext := hI.mark first hmark
        have hlow : top ≤ first - 1 := hmin ▸ min_le_right high (first - 1)
        omega
  | ended hpeeked =>
    by_contra hnot
    obtain ⟨hb, -, hshows⟩ := hpeeked.shows hI.explicit hpeeks
    have hlt : ¬ n < l.pager.nextSeq := fun hlt => hnot (hleft n hn hstart hlt)
    exact (hshows.present n hn (not_lt.mp hlt)).1 rfl
  | @stopped receiver page now _ l₁ _ h₁ _ hpage hpeeked hexported =>
    obtain ⟨hb, before, after, selected, kept, opened, hsound, -, hok⟩ := hI.exporting ht0 hpeeked hexported hpeeks
    obtain ⟨hafter, hopened, -, hmark⟩ := hok (some stop) [] rfl
    have hselected := hsound.settled.once (hsound.shows.inOrder.1.imp fun hlt => ne_of_lt hlt)
    have hhigh : l'.pager.high = some top := by
      rw [cursorHigh, hmark] at htop
      cases hhigh : l'.pager.high with
      | none =>
        rw [hhigh] at htop
        cases htop
      | some high =>
        rw [hhigh] at htop
        exact htop
    obtain ⟨cut, rest, rfl⟩ := List.exists_cons_of_ne_nil fun hnil => Option.some_ne_none stop (hafter.mpr hnil)
    have hsorted := hsound.shows.inOrder.1
    have hcutIn : cut ∈ numbers page := by
      rw [hsound.cut.split]
      exact List.mem_append_right before List.mem_cons_self
    -- the page is cut past the highest number, so all up to there is before the cut
    have hlt : top < cut := by
      rcases hsound.settled.high top hhigh with hold | hin
      · exact hsound.sound.past hsound.extends_before hsound.shows hsound.cut hselected hold
      · rw [hsound.cut.split] at hsorted
        exact (List.pairwise_append.mp hsorted).2.2 top hin cut List.mem_cons_self
    by_cases hnext : n < l.pager.nextSeq
    · exact hleft n hn hstart hnext
    · rw [← hpeeked.aside.nextSeq] at hnext
      have hlast := le_lastSequenceNumber hsorted hcutIn
      have hin := (hsound.shows.present n hn (not_lt.mp hnext)).2 (by omega)
      rw [hsound.cut.split] at hin hsorted
      rcases List.mem_append.mp hin with hin | hout
      · refine (hsound.done hin hn hstart (le_refl n)).resolve_right fun hopen => ?_
        exact absurd (hopened n hopen) List.not_mem_nil
      · have hge : cut ≤ n := by
          rcases List.mem_cons.mp hout with rfl | hrest
          · exact le_refl n
          · exact ((List.pairwise_cons.mp (List.pairwise_append.mp hsorted).2.1).1 n hrest).le
        omega
  | failed _ _ _ _ _ hstop => exact absurd rfl (hstop stop)

end Turn

/-! ### Runs -/

/-- Where the cursor of the entity stands: 0 where there is none. -/
def cursorPosition (path : String) : Option PeekCursor → ℤ
  | none => 0
  | some cursor => if cursor.entityPath = path then cursor.lastSequenceNumber else 0

/-- Between two turns the pager is never behind. -/
def NeverBehind (row : Row) (input : ExtractorState) (es : Trace sdk) : Prop :=
  ∀ es₀ s rest, ReachesPager row input es₀ s → es = es₀ ++ rest → ∀ l h, BetweenPages row s l h → h <+: rest →
    ¬ Behind l.pager

/-- The row fetches the plain entity incrementally. -/
structure FetchesFrom (path : String) (row : Row) : Prop where
  mode : row.mode = .peek
  incremental : isIncremental row = true
  plain : row.sessions = false
  entity : row.entity.path = path

section Run

variable {row : Row} {s : RunState} {present : List ℤ} {header : Header} {l l' : PagerState} {h es : Trace sdk}

theorem startAt_eq (cursor : Option PeekCursor) : startAt row cursor = cursorPosition row.entity.path cursor + 1 := by
  cases cursor with
  | none => rfl
  | some cursor =>
    rw [startAt, cursorPosition]
    split
    · rfl
    · rfl

/-- The new cursor is where the pager came, or the old one where that is not past it. -/
theorem cursorPosition_newCursor (stored : Option PeekCursor) (pager : PeekPager) :
    cursorPosition row.entity.path stored ≤
        cursorPosition row.entity.path (newCursor row (startAt row stored) stored pager) ∧
      (cursorPosition row.entity.path (newCursor row (startAt row stored) stored pager) =
          cursorPosition row.entity.path stored ∨
        cursorHigh pager = some (cursorPosition row.entity.path
          (newCursor row (startAt row stored) stored pager))) := by
  rw [newCursor]
  cases hhigh : cursorHigh pager with
  | none => exact ⟨le_refl _, .inl rfl⟩
  | some high =>
    dsimp only
    split
    · exact ⟨le_refl _, .inl rfl⟩
    · rename_i hnot
      rw [startAt_eq] at hnot
      rw [cursorPosition, if_pos rfl]
      refine ⟨?_, .inr rfl⟩
      show cursorPosition row.entity.path stored ≤ high
      omega

/-- The time the run started stays. -/
theorem pageFrame_t0 (t0 : Time) : PageFrame Recorded row fun s _ => s.t0 = t0 :=
  have hM : MapFrame Recorded row fun (s : RunState) (_ : Trace sdk) => s.t0 = t0 := {
    stats := fun _ _ hI => hI
    still := fun _ _ _ _ _ _ hI => hI
    unreadable := fun _ hI => hI
    handling := fun _ _ _ _ _ _ hI => hI
    registry := fun _ _ hI => hI }
  { stats := fun _ _ hI => hI
    info := fun _ hI => hI
    quiet := fun _ _ _ _ _ _ hI => hI
    reopened := fun _ _ _ _ _ _ hI => hI
    unreadable := fun _ hI => hI
    skip := fun _ _ _ _ _ _ hI => hI
    process := keeps_process_of_calls hM (fun _ _ _ _ _ _ hI => hI) (fun _ _ hI => hI) fun _ hI => hI }

theorem BetweenPages.t0 (hb : BetweenPages row s l h) : l.run.t0 = s.t0 := by
  induction hb with
  | start now =>
    unfold pageStart
    dsimp only
    split
    · rfl
    · rfl
  | @turn l l' h es _ hturn ih =>
    exact wp_logged.mp (keeps_pageTurn (pageFrame_t0 s.t0) _ l [] ih) es _ l' hturn fun _ _ => trivial

theorem PeeksOf.distinct (hpeeks : PeeksOf present header es) : ∀ e ∈ es, Distinct e :=
  fun e he => distinct_of_inOrder (hpeeks.inOrder e he)

/-- Between the turns the cursor is sound, whatever came before the pager. -/
theorem BetweenPages.sound (hmode : row.mode = .peek) (hincremental : isIncremental row = true)
    (hfresh : Fresh s.unreadable) (hb : BetweenPages row s l h) (es₀ : Trace sdk)
    (hpeeks : PeeksOf present header (es₀ ++ h))
    (hahead : ∀ l' h', BetweenPages row s l' h' → h' <+: h → ¬ Behind l'.pager) :
    SoundCursor row present (header.IsLate row s.t0) (startAt row s.state.peekCursor) l (es₀ ++ h) := by
  induction hb with
  | start now =>
    have hpager : (pageStart row s now).pager = {
        deadline := now + seconds row.config.advanced.maxDurationSeconds
        nextSeq := startAt row s.state.peekCursor } := by
      rw [pageStart, hincremental]
      rfl
    refine ⟨by rw [hpager], by rw [hpager], ?_, ?_, ?_, ?_, ?_⟩
    · rw [hpager]
      rintro n ⟨⟩
    · rw [hpager]
      exact fun n _ hstart hlt => absurd hstart (not_le.mpr hlt)
    · rw [hpager]
      rintro first ⟨⟩
    · rw [hpager]
      exact fun _ => Nat.zero_le _
    · rw [hpager]
      rintro top ⟨⟩
  | @turn l l' h t hb hturn ih =>
    have hbefore : h <+: h ++ t := List.prefix_append h t
    rw [← List.append_assoc] at hpeeks ⊢
    have hpeeks₀ := hpeeks.initial (List.prefix_append (es₀ ++ h) t)
    have hI := ih hpeeks₀ fun l' h' hb' hp => hahead l' h' hb' (hp.trans hbefore)
    have hdistinct : ∀ e ∈ h, Distinct e := fun e he => hpeeks₀.distinct e (List.mem_append_right es₀ he)
    have hturned := BetweenPages.turned (h := es₀ ++ h) hmode (hb.kept hmode hfresh hdistinct).1 hturn fun e he =>
      hpeeks.distinct e (List.mem_append_right _ he)
    rw [hincremental] at hturned
    exact hI.turn hb.t0 hturned hpeeks (hahead l' (h ++ t) (hb.turn hturn) (List.prefix_refl _))

/-- The cursor an incremental pager returns, whatever it was shown. -/
theorem newCursor_of_exec (hincremental : isIncremental row = true) {turns : ℕ} {cursor : Option PeekCursor}
    (hrun : Prog.Exec (PeekPager.run row turns) ⟨s, {}⟩ es (.ok (some cursor)) l') :
    cursor = newCursor row (startAt row s.state.peekCursor) s.state.peekCursor l'.pager := by
  have hS : PageFrame Recorded row fun s' _ => s'.state = s.state := (peekSteps_state s.state).toPageSteps.pageFrame
  suffices hwp : Wp Recorded (PeekPager.run row turns) (fun r l' _ => ∀ cursor, r = .ok (some cursor) →
      cursor = newCursor row (startAt row s.state.peekCursor) s.state.peekCursor l'.pager) ⟨s, {}⟩ [] from
    wp_logged.mp hwp es _ l' hrun (fun _ _ => trivial) cursor rfl
  have herror : ∀ (e : Exn) (l' : PagerState) (h' : Trace sdk), l'.run.state = s.state →
      ∀ cursor : Option PeekCursor, Except.error e = .ok (some cursor) →
        cursor = newCursor row (startAt row s.state.peekCursor) s.state.peekCursor l'.pager := by
    rintro _ _ _ _ _ ⟨⟩
  rw [PeekPager.run, wp_bind, wp_get, onOk_ok, wp_ite]
  refine ⟨fun _ => wp_throw.mpr (by rintro _ ⟨⟩), fun _ => ?_⟩
  dsimp only
  rw [wp_bind, monotonic, wp_perform]
  rintro now _ ⟨-, rfl⟩
  rw [onOk_ok, wp_bind, updatePager, wp_modify, onOk_ok]
  have hloop : Keeps Recorded (InPager fun s' _ => s'.state = s.state) (Prog.finishing
      (pagerLoop row (if isIncremental row = true then startAt row s.state.peekCursor else 1) (isIncremental row) turns)
      (endPager s.unreadable.retriesEnabled)) := keeps_finishing (keeps_pagerLoop hS _ _ turns) (keeps_endPager hS _)
  refine hloop.wp_bind ?_ (fun reason l₁ h₁ hstate => ?_) herror
  · exact rfl
  cases reason with
  | none => exact wp_pure.mpr (by rintro _ ⟨⟩)
  | some reason =>
    refine wp_bind.mpr (wp_embed.mpr (wp_modify.mpr (wp_bind.mpr (wp_get.mpr (wp_pure.mpr ?_)))))
    rintro cursor ⟨⟩
    rw [if_pos hincremental, if_pos hincremental]
    exact congrArg (fun state : ExtractorState =>
      newCursor row (startAt row s.state.peekCursor) state.peekCursor l₁.pager) hstate

/-- What is done up to the cursor the pager returns. -/
theorem done_of_exec (hmode : row.mode = .peek) (hincremental : isIncremental row = true)
    (hsessions : row.sessions = false) (hfresh : Fresh s.unreadable) {turns : ℕ} {cursor : Option PeekCursor}
    (hrun : Prog.Exec (PeekPager.run row turns) ⟨s, {}⟩ es (.ok (some cursor)) l') (es₀ : Trace sdk)
    (hpeeks : PeeksOf present header (es₀ ++ es)) (hahead : ∀ l h, BetweenPages row s l h → h <+: es → ¬ Behind l.pager)
    {top : ℤ} (htop : cursorHigh l'.pager = some top) :
    ∀ n ∈ present, startAt row s.state.peekCursor ≤ n → n ≤ top → Done (es₀ ++ es) n := by
  have hdistinct : ∀ e ∈ es, Distinct e := fun e he => hpeeks.distinct e (List.mem_append_right es₀ he)
  rcases exec_peekPager hmode hsessions hfresh hrun hdistinct with ⟨e, ⟨⟩, -⟩ | ⟨⟨⟩, -⟩ |
    ⟨r₁, l, h, t, l₁, hb, hturn, -, haside, hstop⟩
  obtain ⟨stop, rfl, -, -⟩ := hstop cursor rfl
  have hp : es₀ ++ h ++ t <+: es₀ ++ es := by
    rw [List.append_assoc]
    exact (List.prefix_append_right_inj es₀).mpr haside.extends
  have hfirst : h <+: es := (List.prefix_append h t).trans haside.extends
  obtain ⟨hh, ht⟩ := List.forall_mem_append.mp fun e he => hdistinct e (haside.extends.subset he)
  have hI := hb.sound hmode hincremental hfresh es₀ (hpeeks.initial ((List.prefix_append _ t).trans hp))
    fun l' h' hb' hle => hahead l' h' hb' (hle.trans hfirst)
  have hturned := BetweenPages.turned (h := es₀ ++ h) hmode (hb.kept hmode hfresh hh).1 hturn ht
  rw [hincremental] at hturned
  rw [cursorHigh, haside.high, haside.outstanding, ← cursorHigh] at htop
  intro n hn hstart hle
  exact (hI.stopped hb.t0 hturned (hpeeks.initial hp) (hahead l h hb hfirst) htop n hn hstart hle).along hp

end Run

section History

variable {present : List ℤ} {header : Header} {path : String}

/-- The pager of a run whose state is seen, and where it left the cursor. -/
theorem PastRun.Ran.pager {run : PastRun} {saved : ExtractorState} (hr : run.Ran) (hsaved : run.saved = some saved)
    (hrow : FetchesFrom path run.row) : ∃ (es₀ es₁ es₂ : Trace sdk) (s₀ : RunState) (turns : ℕ)
      (cursor : Option PeekCursor) (l : PagerState),
        run.trace = es₀ ++ (es₁ ++ es₂) ∧ ReachesPager run.row run.input es₀ s₀ ∧
        Prog.Exec (PeekPager.run run.row turns) ⟨s₀, {}⟩ es₁ (.ok (some cursor)) l ∧
        cursorPosition path run.input.peekCursor ≤ cursorPosition path saved.peekCursor ∧
        (cursorPosition path saved.peekCursor = cursorPosition path run.input.peekCursor ∨
          cursorHigh l.pager = some (cursorPosition path saved.peekCursor)) := by
  cases hr with
  | lost hlost _ _ =>
    rw [PastRun.Lost, hsaved] at hlost
    cases hlost
  | @imported turns s saved' hsaved' hrun hwrite =>
    obtain rfl := Option.some.inj (hsaved.symm.trans hsaved')
    have hdestructive : run.row.mode.isDestructive = false := by
      rw [hrow.mode]
      rfl
    obtain ⟨state, hwrites⟩ : ∃ state, stateWrites run.trace = [state] := by
      rcases (run_leaves hrun).2 with ⟨-, state, hwrites, -⟩ | ⟨hnot, -⟩
      · exact ⟨state, hwrites⟩
      · exact absurd rfl hnot
    generalize hes : run.trace = es at *
    cases exec_peekComponent hdestructive hrun with
    | unreached _ hnot => exact absurd rfl hnot
    | @reached es₀ es₁ es₂ s₀ _ r₁ l _ hbefore hpager hafter hend =>
      obtain ⟨cursor, rfl, -, written, hwritten, hcursor⟩ := hend rfl
      have hsame : written.peekCursor = saved.peekCursor := by
        rw [hwrites] at hwrite hwritten
        rw [List.mem_singleton.mp hwrite, List.mem_singleton.mp hwritten]
      have hnew := newCursor_of_exec hrow.incremental hpager
      have hposition := @cursorPosition_newCursor run.row s₀.state.peekCursor l.pager
      rw [← hnew, hbefore.unpeeked.state, hrow.entity, ← hcursor hrow.incremental, hsame] at hposition
      exact ⟨es₀, es₁, es₂, s₀, turns, cursor, l, rfl, hbefore, hpager, hposition⟩

/-- A run whose state is seen does not go back, whatever it was shown. -/
theorem PastRun.Ran.advances {run : PastRun} {saved : ExtractorState} (hr : run.Ran) (hsaved : run.saved = some saved)
    (hrow : FetchesFrom path run.row) :
    cursorPosition path run.input.peekCursor ≤ cursorPosition path saved.peekCursor := by
  obtain ⟨es₀, es₁, es₂, s₀, turns, cursor, l, -, -, -, hgoes, -⟩ := hr.pager hsaved hrow
  exact hgoes

/-- Where it was never behind, it left out no message up to its cursor. -/
theorem PastRun.Ran.done {run : PastRun} {saved : ExtractorState} (hr : run.Ran) (hsaved : run.saved = some saved)
    (hrow : FetchesFrom path run.row) (hpeeks : PeeksOf present header run.trace)
    (hahead : NeverBehind run.row run.input run.trace) :
    ∀ n ∈ present, cursorPosition path run.input.peekCursor < n → n ≤ cursorPosition path saved.peekCursor →
      Done run.trace n := by
  obtain ⟨es₀, es₁, es₂, s₀, turns, cursor, l, htrace, hbefore, hpager, -, hposition⟩ := hr.pager hsaved hrow
  have hfirst : es₀ ++ es₁ <+: run.trace := by
    rw [htrace, ← List.append_assoc]
    exact List.prefix_append _ es₂
  have hahead₁ : ∀ l h, BetweenPages run.row s₀ l h → h <+: es₁ → ¬ Behind l.pager := fun l h hb hp =>
    hahead es₀ s₀ _ hbefore htrace l h hb (hp.trans (List.prefix_append es₁ es₂))
  intro n hn hstart hle
  rcases hposition with hold | hhigh
  · exact absurd hle (by omega)
  · refine (done_of_exec hrow.mode hrow.incremental hrow.plain hbefore.unpeeked.fresh hpager es₀ (hpeeks.initial hfirst)
      hahead₁ hhigh n hn ?_ hle).along hfirst
    rw [startAt_eq, hbefore.unpeeked.state, hrow.entity]
    omega

end History

/-! ### Runs that are never behind -/

/-- The messages of a page are neither pending activation nor ever expire. -/
def SkipsNone : Event sdk → Prop
  | .call (.peekMessages ..) (.ok page) => ∀ m ∈ page, isPendingActivation m = false ∧ m.expiresAtUtc = none
  | _ => True

/-- The highest number was shown, and the next page starts after it or is marked. -/
structure Ahead (l : PagerState) (h : Trace sdk) : Prop where
  shown : ∀ top, l.pager.high = some top → top ∈ peeked h
  next : l.pager.outstanding = none → ∀ top, l.pager.high = some top → top < l.pager.nextSeq

section Ahead

variable {row : Row} {s : RunState} {l l' : PagerState} {h h' : Trace sdk}

theorem choose_skipped {t0 now : Time} {taken : ℕ} {processed : List ℤ} {selected page : List Message}
    (hpage : ∀ m ∈ page, isPendingActivation m = false ∧ m.expiresAtUtc = none) :
    (choose row t0 now taken processed selected page).skipped = [] := by
  induction page generalizing processed selected with
  | nil => rfl
  | cons m rest ih =>
    obtain ⟨⟨hpending, hexpires⟩, hrest⟩ := List.forall_mem_cons.mp hpage
    have hkeep : ¬ (isPendingActivation m = true ∨ isExpired now m = true) := by
      rw [isExpired, hpending, hexpires]
      simp
    rw [choose, if_neg hkeep]
    split
    · exact ih hrest
    · split
      · rfl
      · split
        · rfl
        · exact ih hrest

/-- A page that failed leaves the highest number, where it has nothing to skip. -/
theorem PageExported.high_of_failed {page : List Message} {now : Time} {e : Exn}
    (hexported : PageExported row l h page now (.error e) l' h')
    (hpage : ∀ m ∈ page, isPendingActivation m = false ∧ m.expiresAtUtc = none) : l'.pager.high = l.pager.high := by
  obtain ⟨-, -, pager', hexports, herror, -⟩ := hexported
  obtain ⟨tracker, hpager⟩ := hexports.failed e rfl
  rw [herror e rfl, hpager, choose_skipped hpage]
  rfl

/-- A page that was exported leaves the highest number among those shown. -/
theorem PageExported.high_shown {l₁ : PagerState} {h₁ : Trace sdk} {receiver : Handle} {page : List Message}
    {now : Time} {r : Except Exn (Option StopReason × List ℤ)} (hexported : PageExported row l₁ h₁ page now r l' h')
    (hpeeked : Peeked l h receiver page l₁ h₁) (hI : Ahead l h) :
    ∀ top, l'.pager.high = some top → top ∈ peeked h' := by
  obtain ⟨before, after, selected, kept, opened, hcut, hsettled, -⟩ := hexported.cut
  intro top htop
  refine peeked_along ?_ hexported.extends
  rcases hsettled.high top htop with hold | hin
  · rw [hpeeked.aside.high] at hold
    exact peeked_along (hI.shown top hold) hpeeked.aside.extends
  · refine hpeeked.shown ?_
    rw [hcut.split]
    exact List.mem_append_left after hin

/-- A turn that goes on stays ahead, where its page reaches all that was shown and has nothing to skip. -/
theorem Ahead.turn (hI : Ahead l h) (hturned : PageTurned row true l h (.ok none) l' h') (hpages : ∀ e ∈ h', InOrder e)
    (hskips : ∀ e ∈ h', SkipsNone e) (hreach : Always ReachesShown h') : Ahead l' h' := by
  cases hturned with
  | aside haside =>
    refine ⟨fun top htop => ?_, fun hmark top htop => ?_⟩
    · rw [haside.high] at htop
      exact peeked_along (hI.shown top htop) haside.extends
    · rw [haside.high] at htop
      rw [haside.outstanding] at hmark
      rw [haside.nextSeq]
      exact hI.next hmark top htop
  | revealed hfull => cases hfull
  | @retried receiver page now stop retried l₁ l₂ _ h₁ h₂ _ _ _ hpeeked hexported hretried haside =>
    obtain ⟨_, _, _, _, _, _, _, _, hok⟩ := hexported.cut
    obtain ⟨first, hfirst⟩ := Option.isSome_iff_exists.mp (List.isSome_min?_of_ne_nil hretried)
    refine ⟨fun top htop => ?_, fun hmark => ?_⟩
    · rw [haside.high] at htop
      exact peeked_along (hexported.high_shown hpeeked hI top htop) haside.extends
    · have hsome : l₂.pager.outstanding = some first := (hok stop retried rfl).2.2.2.trans hfirst
      exact absurd (haside.outstanding.symm.trans hmark) (by rw [hsome]; exact Option.some_ne_none first)
  | @passed receiver page now l₁ l₂ h₁ _ hpage _ hpeeked hexported =>
    refine ⟨hexported.high_shown hpeeked hI, fun _ top htop => ?_⟩
    obtain ⟨before, after, selected, kept, opened, hcut, hsettled, -⟩ := hexported.cut
    obtain ⟨hb, hp, hlast, -⟩ := hpeeked.last
    have hgrows := hexported.extends
    rw [hlast] at hgrows
    have hevent := hgrows.subset (List.mem_append_right hb (List.mem_singleton_self _))
    have hle : top ≤ lastSequenceNumber page := by
      rcases hsettled.high top htop with hold | hin
      · -- the highest number so far was shown before this page, so the page reaches it
        rw [hpeeked.aside.high] at hold
        have hshown := (always_concat.mp (hreach.initial hgrows)).2
        exact hshown.resolve_left hpage top (peeked_along (hI.shown top hold) hp)
      · refine le_lastSequenceNumber (hpages _ hevent).1 ?_
        rw [hcut.split]
        exact List.mem_append_left after hin
    exact lt_of_le_of_lt hle (lt_add_one (lastSequenceNumber page))
  | @failed receiver page now e r l₁ l₂ _ h₁ h₂ _ _ hpeeked hexported _ haside =>
    obtain ⟨_, _, _, _, _, _, _, herror, -⟩ := hexported.cut
    obtain ⟨hb, -, hlast, -⟩ := hpeeked.last
    have hgrows := hexported.extends.trans haside.extends
    rw [hlast] at hgrows
    have hhigh := hexported.high_of_failed
        (hskips _ (hgrows.subset (List.mem_append_right hb (List.mem_singleton_self _))))
    refine ⟨fun top htop => ?_, fun hmark top htop => ?_⟩
    · rw [haside.high] at htop
      exact peeked_along (hexported.high_shown hpeeked hI top htop) haside.extends
    · rw [haside.high, hhigh, hpeeked.aside.high] at htop
      rw [haside.outstanding, herror e rfl, hpeeked.aside.outstanding] at hmark
      rw [haside.nextSeq, hexported.position.1, hpeeked.aside.nextSeq]
      exact hI.next hmark top htop

/-- Between the turns the pager is ahead, whatever came before it. -/
theorem BetweenPages.ahead (hmode : row.mode = .peek) (hincremental : isIncremental row = true)
    (hfresh : Fresh s.unreadable) (hb : BetweenPages row s l h) (es₀ : Trace sdk) (hpages : ∀ e ∈ es₀ ++ h, InOrder e)
    (hskips : ∀ e ∈ es₀ ++ h, SkipsNone e) (hreach : Always ReachesShown (es₀ ++ h)) :
    Ahead l (es₀ ++ h) := by
  induction hb with
  | start now =>
    have hpager : (pageStart row s now).pager.high = none := by
      rw [pageStart, hincremental]
    refine ⟨fun top htop => ?_, fun _ top htop => ?_⟩
    · rw [hpager] at htop
      cases htop
    · rw [hpager] at htop
      cases htop
  | @turn l l' h t hb hturn ih =>
    rw [← List.append_assoc] at hpages hskips hreach ⊢
    have hfirst : es₀ ++ h <+: es₀ ++ h ++ t := List.prefix_append _ t
    have hI := ih (fun e he => hpages e (hfirst.subset he)) (fun e he => hskips e (hfirst.subset he))
        (hreach.initial hfirst)
    have hdistinct : ∀ e ∈ es₀ ++ h ++ t, Distinct e := fun e he => distinct_of_inOrder (hpages e he)
    have hkept := (hb.kept hmode hfresh fun e he => hdistinct e (hfirst.subset (List.mem_append_right es₀ he))).1
    have hturned := BetweenPages.turned (h := es₀ ++ h) hmode hkept hturn fun e he =>
      hdistinct e (List.mem_append_right _ he)
    rw [hincremental] at hturned
    exact hI.turn hturned hpages hskips hreach

/-- A run is never behind, where each page reaches all that was shown before it and has nothing to skip. -/
theorem neverBehind_of_reachesShown {input : ExtractorState} {es : Trace sdk} (hmode : row.mode = .peek)
    (hincremental : isIncremental row = true) (hpages : ∀ e ∈ es, InOrder e) (hskips : ∀ e ∈ es, SkipsNone e)
    (hreach : Always ReachesShown es) : NeverBehind row input es := by
  intro es₀ s rest hbefore hes l h hb hp hbehind
  have hfirst : es₀ ++ h <+: es := by
    rw [hes]
    exact (List.prefix_append_right_inj es₀).mpr hp
  have hahead := hb.ahead hmode hincremental hbefore.unpeeked.fresh es₀ (fun e he => hpages e (hfirst.subset he))
    (fun e he => hskips e (hfirst.subset he)) (hreach.initial hfirst)
  obtain ⟨hmark, top, htop, hle⟩ := hbehind
  exact absurd (hahead.next hmark top htop) (not_lt.mpr hle)

end Ahead

/-- Peek cursor soundness, over any runs that fetch a plain entity incrementally: the cursor never goes back. And where
the peeks of the runs that succeeded show the messages in order, each with the time it has for good, all of those that
are there all the time and none that appears late, and these runs were never behind, every message from the first cursor
up to the last one that was there all the time was written, skipped or given up as unreadable in one of them. -/
theorem cursor_sound {u v : ExtractorState} {runs : List PastRun} (h : History u runs v) (path : String)
    (hrows : ∀ run ∈ runs, FetchesFrom path run.row) :
    cursorPosition path u.peekCursor ≤ cursorPosition path v.peekCursor ∧
      ∀ (present : List ℤ) (header : Header), (∀ run ∈ runs, run.saved ≠ none → PeeksOf present header run.trace) →
        (∀ run ∈ runs, run.saved ≠ none → NeverBehind run.row run.input run.trace) →
        ∀ n ∈ present, cursorPosition path u.peekCursor < n → n ≤ cursorPosition path v.peekCursor →
          ∃ run ∈ runs, run.saved ≠ none ∧ Done run.trace n := by
  induction h with
  | nil => exact ⟨le_refl _, fun _ _ _ _ n _ hlt hle => absurd hle (not_le.mpr hlt)⟩
  | @cons run runs v hr _ ih =>
    obtain ⟨hgoes, hrest⟩ := ih fun run hrun => hrows run (List.mem_cons_of_mem _ hrun)
    have hrest' : ∀ (present : List ℤ) (header : Header),
        (∀ run' ∈ run :: runs, run'.saved ≠ none → PeeksOf present header run'.trace) →
        (∀ run' ∈ run :: runs, run'.saved ≠ none → NeverBehind run'.row run'.input run'.trace) →
        ∀ n ∈ present, cursorPosition path run.visible.peekCursor < n → n ≤ cursorPosition path v.peekCursor →
          ∃ run' ∈ run :: runs, run'.saved ≠ none ∧ Done run'.trace n := by
      intro present header hpeeks hahead n hn hlt hle
      obtain ⟨run', hrun', hdone⟩ := hrest present header (fun run hrun => hpeeks run (List.mem_cons_of_mem _ hrun))
        (fun run hrun => hahead run (List.mem_cons_of_mem _ hrun)) n hn hlt hle
      exact ⟨run', List.mem_cons_of_mem _ hrun', hdone⟩
    cases hsaved : run.saved with
    | none =>
      have hvisible : run.visible = run.input := by
        rw [PastRun.visible, hsaved]
        rfl
      rw [hvisible] at hgoes hrest'
      exact ⟨hgoes, hrest'⟩
    | some saved =>
      have hvisible : run.visible = saved := by
        rw [PastRun.visible, hsaved]
        rfl
      have hseen : run.saved ≠ none := by
        rw [hsaved]
        exact Option.some_ne_none saved
      have hrow := hrows run List.mem_cons_self
      rw [hvisible] at hgoes hrest'
      refine ⟨(hr.advances hsaved hrow).trans hgoes, fun present header hpeeks hahead n hn hlt hle => ?_⟩
      by_cases hhere : n ≤ cursorPosition path saved.peekCursor
      · have hdone := hr.done hsaved hrow (hpeeks run List.mem_cons_self hseen) (hahead run List.mem_cons_self hseen)
        exact ⟨run, List.mem_cons_self, hseen, hdone n hn hlt hhere⟩
      · exact hrest' present header hpeeks hahead n hn (not_le.mp hhere) hle

instance : DecidablePred SkipsNone := by
  refine decidablePages (fun _ _ _ page => inferInstanceAs (Decidable (∀ m ∈ page, _))) fun e he => ?_
  unfold SkipsNone
  split
  · cases he
  · trivial

instance (present : List ℤ) : DecidablePred (ShowsPresent present) := by
  refine decidablePages (fun _ _ _ _ => inferInstanceAs (Decidable (∀ n ∈ present, _ → _))) fun e he => ?_
  unfold ShowsPresent
  split
  · cases he
  · trivial

instance (before : Trace sdk) : DecidablePred (AppearsBehind before) := by
  refine decidablePages (fun _ _ _ page => inferInstanceAs (Decidable (∀ n ∈ numbers page, _))) fun e he => ?_
  unfold AppearsBehind
  split
  · cases he
  · trivial

instance (header : Header) : DecidablePred (KeepsHeader header) := by
  refine decidablePages (fun _ _ _ page => inferInstanceAs (Decidable (∀ m ∈ page, _))) fun e he => ?_
  unfold KeepsHeader
  split
  · cases he
  · trivial

/-- The cursor of the queue after a message. -/
def afterMessage (n : ℤ) : ExtractorState where
  peekCursor := some { entityPath := threeRow.entity.path, lastSequenceNumber := n }

/-- A run that gives the second message back once, and reaches its limit before the last one. -/
def repeekingRun : PastRun := scriptedRun threeRow {}
  { peeks := [.ok [{ sequenceNumber := 1 }, garbledAt 2, { sequenceNumber := 3 }, { sequenceNumber := 5 }],
      .ok [{ sequenceNumber := 2 }, { sequenceNumber := 3 }, { sequenceNumber := 5 }]] } (afterMessage 3)

/-- The next one, which starts after the third message. -/
def nextPeekRun : PastRun :=
  scriptedRun threeRow (afterMessage 3) { peeks := [.ok [{ sequenceNumber := 5 }]] } (afterMessage 5)

/-- The cursor goes to the third message and then to the last one, and none of the four is left out. -/
theorem cursor_sound_three : cursorPosition threeRow.entity.path (afterMessage 5).peekCursor = 5 ∧
    ∀ n ∈ [1, 2, 3, 5], ∃ run ∈ [repeekingRun, nextPeekRun], run.saved ≠ none ∧ Done run.trace n := by
  have hran : repeekingRun.Ran := ran_scriptedRun (by decide +kernel) (by decide +kernel)
  have hnext : nextPeekRun.Ran := ran_scriptedRun (by decide +kernel) (by decide +kernel)
  have hpages : ∀ run ∈ [repeekingRun, nextPeekRun], ∀ e ∈ run.trace, InOrder e := by decide +kernel
  have hshown : ∀ run ∈ [repeekingRun, nextPeekRun], ∀ e ∈ run.trace,
      ShowsPresent [1, 2, 3, 5] e ∧ KeepsHeader (fun _ => none) e ∧ SkipsNone e := by decide +kernel
  have hbehind : ∀ run ∈ [repeekingRun, nextPeekRun],
      Always AppearsBehind run.trace ∧ Always ReachesShown run.trace := by decide +kernel
  have hrow : FetchesFrom threeRow.entity.path threeRow := ⟨rfl, rfl, rfl, rfl⟩
  have hrows : ∀ run ∈ [repeekingRun, nextPeekRun], FetchesFrom threeRow.entity.path run.row :=
    List.forall_mem_cons.mpr ⟨hrow, List.forall_mem_singleton.mpr hrow⟩
  have hpeeks : ∀ run ∈ [repeekingRun, nextPeekRun], run.saved ≠ none →
      PeeksOf [1, 2, 3, 5] (fun _ => none) run.trace := fun run hrun _ =>
    ⟨hpages run hrun, fun e he => (hshown run hrun e he).1, (hbehind run hrun).1, fun e he =>
      (hshown run hrun e he).2.1⟩
  have hahead : ∀ run ∈ [repeekingRun, nextPeekRun], run.saved ≠ none → NeverBehind run.row run.input run.trace :=
    fun run hrun _ => neverBehind_of_reachesShown (hrows run hrun).mode (hrows run hrun).incremental (hpages run hrun)
      (fun e he => (hshown run hrun e he).2.2) (hbehind run hrun).2
  have hhistory : History {} [repeekingRun, nextPeekRun] (afterMessage 5) := .cons hran (.cons hnext .nil)
  obtain ⟨-, hdone⟩ := cursor_sound hhistory threeRow.entity.path hrows
  refine ⟨rfl, fun n hn => hdone [1, 2, 3, 5] (fun _ => none) hpeeks hahead n hn ?_ ?_⟩
  · revert n
    decide
  · revert n
    decide

end ServiceBusExtractor
