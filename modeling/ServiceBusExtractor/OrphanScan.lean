import ServiceBusExtractor.DeferredCalls
import ServiceBusExtractor.RunFrame

/-!
# Where the orphan scan stops

The scan reads an entity page by page, carries a count of qualifying messages from
page to page, recovers the orphans of each page and stops inside one. Where the
pages begin and end is the broker's choice; what is recovered is not.

## The model

* `StopPoint k now content before rest` — the entity in one pass: `before` lies
  before the `k`-th qualifying message since the last deferred one.
* `ShowsContent content now` — the broker shows the entity from the number it is asked
  for, in pages cut anywhere, and the clock stands still.
* `Handed row es handed` — the lists of numbers that a run handed to its recovery.

## What is proved

`scan_independent_of_page_cuts`: the numbers handed to the recovery and the guarded ones
are those of the messages before the stop point, whatever the pages.
-/

namespace ServiceBusExtractor

open Interaction

/-! ### One pass over an entity -/

/-- The qualifying messages since the last deferred one. -/
def qualifiedSince (now : Time) (before : List Message) : ℕ :=
  (before.reverse.takeWhile fun message => message.state ≠ .deferred).countP (isQualifying now)

/-- The deferred messages that one more delivery cannot exhaust. -/
def orphansOf (threshold : ℤ) (messages : List Message) : List ℤ :=
  (messages.filter fun message => message.state = .deferred ∧ (message.deliveryCount.getD 0 : ℤ) < threshold).map
    (·.sequenceNumber)

/-- The deferred messages that one more delivery could exhaust. -/
def guardedOf (threshold : ℤ) (messages : List Message) : List ℤ :=
  (messages.filter fun message => message.state = .deferred ∧ threshold ≤ (message.deliveryCount.getD 0 : ℤ)).map
    (·.sequenceNumber)

/-- The messages before the `k`-th qualifying one since the last deferred one, or all of them. -/
structure StopPoint (k : ℕ) (now : Time) (content before rest : List Message) : Prop where
  split : content = before ++ rest
  early : ∀ part, part <+: before → qualifiedSince now part < k
  stops : ∀ message ∈ rest.head?, qualifiedSince now (before ++ [message]) = k

section Pass

variable {k : ℕ} {now : Time} {threshold : ℤ} {content before before' rest rest' seen part messages : List Message}
  {message : Message}

theorem qualifiedSince_nil : qualifiedSince now [] = 0 := rfl

theorem qualifiedSince_deferred (h : message.state = .deferred) : qualifiedSince now (seen ++ [message]) = 0 := by
  simp [qualifiedSince, h]

/-- A message that is not deferred counts where it qualifies, and else leaves the count as it is. -/
theorem qualifiedSince_other (h : message.state ≠ .deferred) :
    qualifiedSince now (seen ++ [message]) = qualifiedSince now seen + if isQualifying now message then 1 else 0 := by
  simp [qualifiedSince, h, List.countP_cons]

theorem orphansOf_append :
    orphansOf threshold (before ++ rest) = orphansOf threshold before ++ orphansOf threshold rest := by
  simp [orphansOf]

theorem guardedOf_append :
    guardedOf threshold (before ++ rest) = guardedOf threshold before ++ guardedOf threshold rest := by
  simp [guardedOf]

/-- Counting early stays so, up to a message that reaches `k`. -/
theorem early_concat (hearly : ∀ part, part <+: seen → qualifiedSince now part < k)
    (h : qualifiedSince now (seen ++ [message]) < k) :
    ∀ part, part <+: seen ++ [message] → qualifiedSince now part < k := by
  intro part hpart
  rcases List.prefix_concat_iff.mp hpart with rfl | hpart
  · exact h
  · exact hearly part hpart

/-- Without a stop before it the scan ends with the entity. -/
theorem stopPoint_end (hearly : ∀ part, part <+: content → qualifiedSince now part < k) :
    StopPoint k now content content [] := ⟨(List.append_nil content).symm, hearly, by simp⟩

/-- An entity has one stop point. -/
theorem StopPoint.unique (h : StopPoint k now content before rest) (h' : StopPoint k now content before' rest') :
    before = before' := by
  -- neither part is a proper part of the other: the message after it would be early
  have hnot : ∀ {b r b' r' : List Message}, StopPoint k now content b r → StopPoint k now content b' r' →
      b <+: b' → b = b' := by
    rintro b r b' r' hb hb' ⟨more, rfl⟩
    cases more with
    | nil => exact (List.append_nil b).symm
    | cons message more =>
      have hsplit : b ++ r = b ++ (message :: (more ++ r')) := by
        rw [← hb.split, hb'.split, List.append_assoc, List.cons_append]
      have hhead : message ∈ r.head? := by
        rw [List.append_cancel_left hsplit]
        rfl
      have hpart : b ++ [message] <+: b ++ message :: more := ⟨more, by simp⟩
      exact absurd (hb'.early _ hpart) (hb.stops message hhead).not_lt
  have hprefix : before <+: content := ⟨rest, h.split.symm⟩
  have hprefix' : before' <+: content := ⟨rest', h'.split.symm⟩
  rcases List.prefix_or_prefix_of_prefix hprefix hprefix' with hle | hle
  · exact hnot h h' hle
  · exact (hnot h' h hle).symm

end Pass

/-! ### One page -/

/-- The early stop of the row's scan. -/
abbrev Row.stopAfter (row : Row) : ℕ := kStop row.config.advanced.batchSize row.config.advanced.prefetchCount

theorem Row.stopAfter_pos (row : Row) : 0 < row.stopAfter := lt_of_lt_of_le (by decide) (le_max_left 100 _)

/-- A page was looked at up to `left`: what was found there, and what the scan remembers of it. -/
structure Looked (row : Row) (now : Time) (seen page part left : List Message) (orphans : List ℤ) (s : ScanState)
    (found : List ℤ × Bool) (s' : ScanState) : Prop where
  split : page = part ++ left
  early : ∀ p, p <+: seen ++ part → qualifiedSince now p < row.stopAfter
  orphans : found.1 = orphans ++ orphansOf s.run.info.orphanGuardThreshold part
  guarded : s'.run.stats.orphansGuarded =
    s.run.stats.orphansGuarded ++ guardedOf s.run.info.orphanGuardThreshold part
  stopped : found.2 = true → ∃ message ∈ left.head?, qualifiedSince now (seen ++ part ++ [message]) = row.stopAfter
  whole : found.2 = false → left = [] ∧ s'.consecutive = qualifiedSince now (seen ++ part)
  info : s'.run.info = s.run.info
  nextSeq : s'.nextSeq = s.nextSeq

section Page

variable {B : Type} {R : Event sdk → B → B → Prop} {b : B} {row : Row} {now : Time} {seen page part left : List Message}
  {message : Message} {orphans : List ℤ} {s s₁ s' : ScanState} {found : List ℤ × Bool}

/-- On a plain entity the scan may stop early, and says nothing. -/
theorem wp_bestEffort_plain {s : RunState} (hplain : s.info.isPartitioned = false)
    (hsub : row.entity.isSubQueue = false) {Q : Except Exn Bool → RunState → B → Prop} (hQ : Q (.ok false) s b) :
    Wp R (bestEffort row) Q s b := by
  rw [bestEffort, wp_bind, wp_get, onOk_ok, hplain, hsub]
  exact wp_pure.mpr hQ

/-- Looking at nothing of a page: it is over, or its first message stops the scan. -/
theorem looked_nothing {stopped : Bool} (hearly : ∀ p, p <+: seen → qualifiedSince now p < row.stopAfter)
    (hrun : s'.run = s.run) (hnext : s'.nextSeq = s.nextSeq)
    (hstopped : stopped = true → ∃ message ∈ page.head?, qualifiedSince now (seen ++ [message]) = row.stopAfter)
    (hwhole : stopped = false → page = [] ∧ s'.consecutive = qualifiedSince now seen) :
    Looked row now seen page [] page orphans s (orphans, stopped) s' := by
  refine ⟨rfl, ?_, (List.append_nil orphans).symm, ?_, ?_, ?_, congrArg _ hrun, hnext⟩
  · rw [List.append_nil]
    exact hearly
  · rw [hrun]
    exact (List.append_nil _).symm
  · rw [List.append_nil]
    exact hstopped
  · rw [List.append_nil]
    exact hwhole

/-- Looking at the rest of a page after its first message. -/
theorem Looked.cons (h : Looked row now (seen ++ [message]) page part left
      (orphans ++ orphansOf s.run.info.orphanGuardThreshold [message]) s₁ found s')
    (hinfo : s₁.run.info = s.run.info) (hnext : s₁.nextSeq = s.nextSeq)
    (hguarded : s₁.run.stats.orphansGuarded =
      s.run.stats.orphansGuarded ++ guardedOf s.run.info.orphanGuardThreshold [message]) :
    Looked row now seen (message :: page) (message :: part) left orphans s found s' := by
  have happend : seen ++ message :: part = seen ++ [message] ++ part := by simp
  have hcons : message :: part = [message] ++ part := rfl
  refine ⟨congrArg _ h.split, ?_, ?_, ?_, ?_, ?_, h.info.trans hinfo, h.nextSeq.trans hnext⟩
  · rw [happend]
    exact h.early
  · rw [h.orphans, hinfo, hcons, orphansOf_append, List.append_assoc]
  · rw [h.guarded, hguarded, hinfo, hcons, guardedOf_append, List.append_assoc]
  · rw [happend]
    exact h.stopped
  · rw [happend]
    exact h.whole

/-- A deferred message sets the count back and is an orphan or guarded. -/
theorem wp_noteDeferred {Q : Except Exn (List ℤ) → ScanState → B → Prop} (hdeferred : message.state = .deferred)
    (hQ : ∀ s₁ : ScanState, s₁.consecutive = 0 → s₁.run.info = s.run.info → s₁.nextSeq = s.nextSeq →
      s₁.run.stats.orphansGuarded = s.run.stats.orphansGuarded ++ guardedOf s.run.info.orphanGuardThreshold [message] →
      Q (.ok (orphans ++ orphansOf s.run.info.orphanGuardThreshold [message])) s₁ b) :
    Wp R (noteDeferred message orphans) Q s b := by
  rw [noteDeferred, wp_bind, wp_modify, onOk_ok, wp_bind, wp_get, onOk_ok, wp_ite]
  refine ⟨fun hguard => ?_, fun hguard => ?_⟩
  · have horphans : orphansOf s.run.info.orphanGuardThreshold [message] = [] :=
      by simpa [orphansOf, hdeferred] using hguard
    rw [horphans, List.append_nil] at hQ
    rw [wp_bind, onScanRun, wp_embed, tally, wp_modify, onOk_ok, wp_pure]
    have hguarded : guardedOf s.run.info.orphanGuardThreshold [message] = [message.sequenceNumber] := by
      simp [guardedOf, hdeferred, show s.run.info.orphanGuardThreshold ≤ (message.deliveryCount.getD 0 : ℤ) from hguard]
    exact hQ _ rfl rfl rfl (by rw [hguarded])
  · have hbelow : (message.deliveryCount.getD 0 : ℤ) < s.run.info.orphanGuardThreshold := not_le.mp hguard
    have horphans : orphansOf s.run.info.orphanGuardThreshold [message] = [message.sequenceNumber] := by
      simp [orphansOf, hdeferred, hbelow]
    have hguarded : guardedOf s.run.info.orphanGuardThreshold [message] = [] := by simp [guardedOf, hbelow]
    rw [horphans, hguarded, List.append_nil] at hQ
    exact wp_pure.mpr (hQ _ rfl rfl rfl rfl)

/-- Looking at a page that continues what was seen. -/
theorem wp_scanMessages (hsub : row.entity.isSubQueue = false) (hplain : s.run.info.isPartitioned = false)
    (hnumbers : ∀ message ∈ page, partitionOf message.sequenceNumber = 0)
    (hcount : s.consecutive = qualifiedSince now seen)
    (hearly : ∀ p, p <+: seen → qualifiedSince now p < row.stopAfter) :
    Wp R (scanMessages row now orphans page) (fun r s' b' => b' = b ∧ ∃ found part left, r = .ok found ∧
      Looked row now seen page part left orphans s found s') s b := by
  induction page generalizing seen orphans s with
  | nil =>
    exact wp_pure.mpr ⟨rfl, _, [], [], rfl, looked_nothing hearly rfl rfl nofun fun _ => ⟨rfl, hcount⟩⟩
  | cons message page ih =>
    have hrest : ∀ message ∈ page, partitionOf message.sequenceNumber = 0 := fun m hm => hnumbers m (by simp [hm])
    -- a number of the first partition leaves the entity plain
    have hsame : ({ s with run := { s.run with
        info := s.run.info.noteSequenceNumber message.sequenceNumber } } : ScanState) = s := by
      rw [EntityInfo.noteSequenceNumber_of_plain _ (hnumbers message (by simp))]
    rw [scanMessages, wp_bind, onScanRun, wp_embed, wp_modify, onOk_ok, hsame, wp_ite]
    constructor
    · intro hdeferred
      rw [wp_bind]
      refine wp_noteDeferred hdeferred fun s₁ hzero hinfo hnext hguarded => ?_
      have hcount₁ : s₁.consecutive = qualifiedSince now (seen ++ [message]) := by
        rw [hzero, qualifiedSince_deferred hdeferred]
      have hearly₁ := early_concat hearly (show qualifiedSince now (seen ++ [message]) < row.stopAfter by
        rw [qualifiedSince_deferred hdeferred]
        exact row.stopAfter_pos)
      refine (ih (by rw [hinfo]; exact hplain) hrest hcount₁ hearly₁).mono fun r s' b' h => ?_
      obtain ⟨rfl, found, part, left, rfl, hlooked⟩ := h
      exact ⟨rfl, found, message :: part, left, rfl, hlooked.cons hinfo hnext hguarded⟩
    · intro hother
      have hnone : orphansOf s.run.info.orphanGuardThreshold [message] = [] := by simp [orphansOf, hother]
      have hguarded : s.run.stats.orphansGuarded =
          s.run.stats.orphansGuarded ++ guardedOf s.run.info.orphanGuardThreshold [message] :=
            by simp [guardedOf, hother]
      have hsince : qualifiedSince now (seen ++ [message]) =
          qualifiedSince now seen + if isQualifying now message then 1 else 0 := qualifiedSince_other hother
      rw [wp_bind, onScanRun, wp_embed]
      refine wp_bestEffort_plain hplain hsub ?_
      rw [onOk_ok, wp_ite]
      constructor
      · rintro ⟨-, hqualifies⟩
        rw [hqualifies, if_pos rfl, ← hcount] at hsince
        rw [wp_bind, wp_modify, onOk_ok, wp_bind, wp_get, onOk_ok, wp_ite]
        constructor
        · intro hreached
          have hbelow := hearly seen (List.prefix_refl _)
          refine wp_pure.mpr ⟨rfl, _, [], message :: page, rfl, looked_nothing hearly rfl rfl ?_ nofun⟩
          refine fun _ => ⟨message, rfl, ?_⟩
          rw [hsince]
          exact le_antisymm (by omega) hreached
        · intro hbelow
          have hbelow : s.consecutive + 1 < row.stopAfter := not_le.mp hbelow
          have hrestLooked := @ih (seen ++ [message]) orphans { s with consecutive := s.consecutive + 1 } hplain hrest
            hsince.symm (early_concat hearly (hsince.trans_lt hbelow))
          refine hrestLooked.mono fun r s' b' h => ?_
          obtain ⟨rfl, found, part, left, rfl, hlooked⟩ := h
          rw [← List.append_nil orphans, ← hnone] at hlooked
          exact ⟨rfl, found, message :: part, left, rfl, hlooked.cons rfl rfl hguarded⟩
      · intro hnot
        have hqualifies : isQualifying now message = false := by simpa using hnot
        rw [hqualifies, if_neg Bool.false_ne_true, Nat.add_zero, ← hcount] at hsince
        have hbelow : qualifiedSince now (seen ++ [message]) < row.stopAfter := by
          rw [hsince, hcount]
          exact hearly seen (List.prefix_refl _)
        refine (ih hplain hrest hsince.symm (early_concat hearly hbelow)).mono fun r s' b' h => ?_
        obtain ⟨rfl, found, part, left, rfl, hlooked⟩ := h
        rw [← List.append_nil orphans, ← hnone] at hlooked
        exact ⟨rfl, found, message :: part, left, rfl, hlooked.cons rfl rfl hguarded⟩

end Page

/-! ### The pages of an entity -/

/-- The messages of a plain entity, as the broker numbers them. -/
structure PlainContent (content : List Message) : Prop where
  ascending : content.Pairwise fun message message' => message.sequenceNumber < message'.sequenceNumber
  positive : ∀ message ∈ content, 1 ≤ message.sequenceNumber
  plain : ∀ message ∈ content, message.sequenceNumber < 2 ^ 48

/-- What is left of an entity from a sequence number on. -/
def fromNumber (content : List Message) (start : ℤ) : List Message :=
  content.filter fun message => start ≤ message.sequenceNumber

/-- A page starts with the first message that is asked for, and is empty at the end only; the clock stands still. -/
def ShowsContent (content : List Message) (now : Time) : Event sdk → Prop
  | .call (.peekMessages _ _ start) (.ok page) =>
    page <+: fromNumber content start ∧ (page = [] → fromNumber content start = [])
  | .call .utcNow time => time = now
  | _ => True

/-- The lists of numbers that were handed to the recovery, each of them recovered; beside it no deferred message is
asked for. -/
inductive Handed (row : Row) : Trace sdk → List (List ℤ) → Prop where
  | nil : Handed row [] []
  | other {es handed e} (h : Handed row es handed) (he : deferredNumbers e = none) : Handed row (es ++ [e]) handed
  | recover {es handed orphans s es' s'} (h : Handed row es handed) (hne : orphans ≠ [])
      (hexec : Prog.Exec (recoverOrphans row orphans) s es' (.ok ()) s') : Handed row (es ++ es') (handed ++ [orphans])

/-- The books of a scan that passed `before`. -/
structure ScanBooks (row : Row) (info : EntityInfo) (guarded : List ℤ) (before : List Message) (s : ScanState)
    (h : Trace sdk) : Prop where
  entity : s.run.info = info
  guarded : s.run.stats.orphansGuarded = guarded ++ guardedOf info.orphanGuardThreshold before
  handed : ∃ handed, Handed row h handed ∧ handed.flatten = orphansOf info.orphanGuardThreshold before

/-- Between two pages. -/
structure Between (row : Row) (content : List Message) (now : Time) (info : EntityInfo) (guarded : List ℤ)
    (seen : List Message) (s : ScanState) (h : Trace sdk) : Prop extends ScanBooks row info guarded seen s h where
  split : content = seen ++ fromNumber content s.nextSeq
  early : ∀ p, p <+: seen → qualifiedSince now p < row.stopAfter
  consecutive : s.consecutive = qualifiedSince now seen

section Pages

variable {row : Row} {content seen before page rest : List Message} {now : Time} {info : EntityInfo}
  {guarded orphans : List ℤ} {s s' : ScanState} {h : Trace sdk} {peeker : Handle}

theorem PlainContent.partitionOf_eq (hcontent : PlainContent content) {message : Message} (hm : message ∈ content) :
    partitionOf message.sequenceNumber = 0 := by
  have hpos := hcontent.positive message hm
  exact Int.ediv_eq_zero_of_lt (by omega) (hcontent.plain message hm)

/-- The number after a page leaves what comes after it. -/
theorem fromNumber_after (hcontent : PlainContent content) (hsplit : content = seen ++ page ++ rest)
    (hpage : page ≠ []) :
    fromNumber content (lastSequenceNumber page + 1) = rest := by
  obtain ⟨shown, last, rfl⟩ := List.eq_nil_or_concat page |>.resolve_left hpage
  have hlast : lastSequenceNumber (shown.concat last) = last.sequenceNumber := by simp [lastSequenceNumber]
  have hascending := hcontent.ascending
  rw [hsplit, List.concat_eq_append, ← List.append_assoc, List.append_assoc, List.singleton_append] at hascending
  obtain ⟨-, hafter, hbefore⟩ := List.pairwise_append.mp hascending
  rw [hlast, hsplit, fromNumber, List.filter_append, List.concat_eq_append, ← List.append_assoc]
  have hpassed : (seen ++ shown ++ [last]).filter
      (fun message => last.sequenceNumber + 1 ≤ message.sequenceNumber) = [] := by
    refine List.filter_eq_nil_iff.mpr fun message hm => ?_
    rw [decide_eq_true_eq, not_le]
    rcases List.mem_append.mp hm with hm | hm
    · have hlt := hbefore message hm last (by simp)
      omega
    · obtain rfl := List.mem_singleton.mp hm
      omega
  have hleft : rest.filter (fun message => last.sequenceNumber + 1 ≤ message.sequenceNumber) = rest := by
    refine List.filter_eq_self.mpr fun message hm => ?_
    rw [decide_eq_true_eq]
    exact (List.pairwise_cons.mp hafter).1 message hm
  rw [hpassed, hleft, List.nil_append]

/-- Recovering orphans leaves the scan's own variables alone. -/
theorem keeps_scanVariables {B : Type} {R : Event sdk → B → B → Prop} {n : ℤ} {c : ℕ} :
    Keeps R (fun (s : ScanState) _ => s.run.info = info ∧ s.run.stats.orphansGuarded = guarded ∧ s.nextSeq = n ∧
      s.consecutive = c) (recoverOrphans row orphans) := by
  have hM : ∀ s : ScanState, MapFrame R row fun run _ => run.info = info ∧ run.stats.orphansGuarded = guarded ∧
      s.nextSeq = n ∧ s.consecutive = c := fun s => {
    stats := fun stats hsame hI => ⟨hI.1, hsame.1.trans hI.2.1, hI.2.2⟩
    still := fun _ _ _ _ _ _ hI => hI
    unreadable := fun _ hI => hI
    handling := fun _ _ _ _ _ _ hI => hI
    registry := fun _ _ hI => hI }
  exact keeps_recoverOrphans_for (fun _ _ _ _ _ _ hI => hI) (fun _ hI => hI) (fun s => (hM s).toHandlingFrame)
    (fun _ _ _ _ _ _ _ _ _ _ _ hI => hI) fun s receiver messages =>
      keeps_process_of_calls (hM s) (fun _ _ _ _ _ _ hI => hI) (fun _ _ hI => hI) (fun _ hI => hI) receiver messages 0

/-- The recovery of what a page added to the books. -/
theorem wp_recoverOrphans {A : Event sdk → Prop} {handed : List (List ℤ)} (hhanded : Handed row h handed) :
    Wp (Logged A) (recoverOrphans row orphans) (fun r s' h' => (s'.run.info = s.run.info ∧
      s'.run.stats.orphansGuarded = s.run.stats.orphansGuarded ∧ s'.nextSeq = s.nextSeq ∧
        s'.consecutive = s.consecutive) ∧
      (r = .ok () → ∃ handed', Handed row h' handed' ∧ handed'.flatten = handed.flatten ++ orphans)) s h := by
  refine ((keeps_scanVariables s h ⟨rfl, rfl, rfl, rfl⟩).and ?_)
  by_cases hne : orphans = []
  · subst hne
    exact wp_pure.mpr fun _ => ⟨handed, hhanded, (List.append_nil _).symm⟩
  · refine wp_ran.mono fun r s' h' hran hr => ?_
    obtain ⟨es, hexec, hpath⟩ := hran
    obtain ⟨-, rfl⟩ := path_logged.mp hpath
    subst hr
    exact ⟨_, hhanded.recover hne hexec, by simp⟩

/-- One page of the scan takes it to its stop point, or to the next page. -/
theorem wp_scanPage (hcontent : PlainContent content) (hsub : row.entity.isSubQueue = false)
    (hplain : info.isPartitioned = false) (hb : Between row content now info guarded seen s h) :
    Wp (Logged (ShowsContent content now)) (scanPage row peeker) (fun r s' h' =>
      (∀ stop, r = .ok (some stop) → ∃ before rest, StopPoint row.stopAfter now content before rest ∧
        ScanBooks row info guarded before s' h') ∧
      (r = .ok none → ∃ seen, Between row content now info guarded seen s' h')) s h := by
  have hplain' : s.run.info.isPartitioned = false := by
    rw [hb.entity]
    exact hplain
  obtain ⟨handed, hhanded, hflatten⟩ := hb.handed
  rw [scanPage, wp_bind, wp_get, onOk_ok, wp_bind, onScanRun, wp_embed]
  refine wp_bestEffort_plain hplain' hsub ?_
  rw [onOk_ok, wp_bind, hplain', if_neg Bool.false_ne_true, peekMessages, wp_request]
  rintro reply h₁ ⟨hshown, rfl⟩
  have hhanded₁ := hhanded.other (e := .call (.peekMessages peeker orphanPageSize s.nextSeq) reply) rfl
  cases reply with
  | error fault => cases fault <;> exact ⟨nofun, nofun⟩
  | ok page =>
    obtain ⟨⟨after, hrest⟩, hend⟩ := hshown
    rw [sdkResult, Except.mapError, onOk_ok, wp_ite]
    constructor
    · intro hnil
      have hseen : content = seen := by
        have hsplit := hb.split
        rwa [hend hnil, List.append_nil] at hsplit
      subst hseen
      refine wp_pure.mpr ⟨fun stop _ =>
        ⟨_, [], stopPoint_end hb.early, hb.entity, hb.guarded, handed, hhanded₁, hflatten⟩, ?_⟩
      rintro ⟨⟩
    · intro hpage
      have hcontentSplit : content = seen ++ page ++ after := by
        rw [List.append_assoc, hrest]
        exact hb.split
      have hnumbers : ∀ message ∈ page, partitionOf message.sequenceNumber = 0 := by
        intro message hm
        refine hcontent.partitionOf_eq ?_
        rw [hcontentSplit]
        simp [hm]
      rw [wp_bind, utcNow, wp_perform]
      rintro time h₂ ⟨rfl, rfl⟩
      have hhanded₂ := hhanded₁.other (e := .call .utcNow time) rfl
      rw [onOk_ok, wp_bind]
      refine (wp_scanMessages hsub hplain' hnumbers hb.consecutive hb.early).mono fun r s₁ h₃ hpageLooked => ?_
      obtain ⟨rfl, found, part, left, rfl, hlooked⟩ := hpageLooked
      have hfound : found.1 = orphansOf info.orphanGuardThreshold part := by
        rw [← hb.entity]
        exact hlooked.orphans
      rw [onOk_ok, wp_bind]
      refine (wp_recoverOrphans hhanded₂).mono fun r s₂ h₄ hrecovered => ?_
      obtain ⟨⟨hinfo, hguarded, hnext, hcount⟩, hhanded₃⟩ := hrecovered
      cases r with
      | error e => exact ⟨nofun, nofun⟩
      | ok _ =>
        obtain ⟨handed', hhanded', hflatten'⟩ := hhanded₃ rfl
        have hbooks : ScanBooks row info guarded (seen ++ part) s₂ h₄ := by
          refine ⟨(hinfo.trans hlooked.info).trans hb.entity, ?_, handed', hhanded', ?_⟩
          · rw [hguarded, hlooked.guarded, hb.guarded, hb.entity, guardedOf_append, List.append_assoc]
          · rw [hflatten', hflatten, hfound, orphansOf_append]
        rw [onOk_ok, wp_ite]
        constructor
        · intro hstopped
          obtain ⟨message, hhead, hreached⟩ := hlooked.stopped hstopped
          refine wp_pure.mpr ⟨fun stop _ => ⟨seen ++ part, left ++ after, ⟨?_, hlooked.early, ?_⟩, hbooks⟩, nofun⟩
          · rw [hcontentSplit, hlooked.split]
            simp
          · intro message' hhead'
            rw [List.head?_append, hhead] at hhead'
            obtain rfl : message = message' := Option.some.inj hhead'
            exact hreached
        · intro hgoing
          obtain ⟨rfl, hsince⟩ := hlooked.whole (by simpa using hgoing)
          obtain rfl : page = part := hlooked.split.trans (List.append_nil part)
          rw [wp_bind, wp_modify, onOk_ok, wp_pure]
          refine ⟨nofun, fun _ => ⟨seen ++ page, { hbooks with
            split := ?_, early := hlooked.early, consecutive := hcount.trans hsince }⟩⟩
          exact hcontentSplit.trans (congrArg _ (fromNumber_after hcontent hcontentSplit hpage).symm)

/-- The scan of an entity from its start. -/
theorem wp_scanPages (hcontent : PlainContent content) (hsub : row.entity.isSubQueue = false) {run : RunState}
    (hplain : run.info.isPartitioned = false) : Wp (Logged (ShowsContent content now))
      (Prog.iterate (scanPage row peeker) orphanPageCap) (fun r s' h' => ∀ stop, r = .ok (some stop) →
        ∃ before rest, StopPoint row.stopAfter now content before rest ∧
          ScanBooks row run.info run.stats.orphansGuarded before s' h') { run } [] := by
  refine Wp.iterate (fun s h => ∃ seen, Between row content now run.info run.stats.orphansGuarded seen s h) ?_ ?_ ?_
  · rintro s h ⟨seen, hb⟩
    refine (wp_scanPage hcontent hsub hplain hb).mono fun r s' h' hpage => ?_
    rcases r with e | _ | stop
    · rintro stop ⟨⟩
    · exact hpage.2 rfl
    · exact hpage.1
  · rintro s h - stop ⟨⟩
  · have hall : fromNumber content 1 = content := by
      refine List.filter_eq_self.mpr fun message hm => ?_
      simpa using hcontent.positive message hm
    refine ⟨[], ⟨rfl, (List.append_nil _).symm, [], .nil, rfl⟩, ?_, ?_, rfl⟩
    · rw [List.nil_append]
      exact hall.symm
    · intro p hp
      obtain rfl := List.prefix_nil.mp hp
      rw [qualifiedSince_nil]
      exact row.stopAfter_pos

end Pages

/-! ### The calls of the recovery -/

/-- A call of the recovery: some numbers of one partition, no more than a batch. -/
structure RecoveryCall (row : Row) (seqs : List ℤ) : Prop where
  nonempty : seqs ≠ []
  count : seqs.length ≤ min commitMaxCount row.config.advanced.batchSize
  partition : ∃ partition, ∀ q ∈ seqs, partitionOf q = partition

section Calls

variable {row : Row} {orphans chunk seqs : List ℤ} {receiver peeker : Handle} {s : ScanState} {h : Trace sdk}
  {e : Event sdk}

theorem Row.chunkSize_pos (row : Row) : 0 < min commitMaxCount row.config.advanced.batchSize :=
  lt_min (by decide) row.config.advanced.batchSize_bounds.1

theorem mem_orphanChunks (hchunk : chunk ∈ orphanChunks row orphans) : ∃ partition,
    chunk ∈ batched (min commitMaxCount row.config.advanced.batchSize)
      ((orphans.insertionSort (· ≤ ·)).filter fun seq => partitionOf seq = partition) := by
  obtain ⟨partition, -, hpiece⟩ := List.mem_flatMap.mp hchunk
  exact ⟨partition, hpiece⟩

theorem recoveryCall_of_part (hchunk : chunk ∈ orphanChunks row orphans) (hpart : PartOf chunk seqs) :
    RecoveryCall row seqs := by
  obtain ⟨hne, hsublist⟩ := hpart
  obtain ⟨partition, hpiece⟩ := mem_orphanChunks hchunk
  refine ⟨hne, hsublist.length_le.trans (length_le_of_mem_batched hpiece), partition, fun q hq => ?_⟩
  have hmem := (sublist_of_mem_batched row.chunkSize_pos hpiece).subset (hsublist.subset hq)
  exact of_decide_eq_true (List.mem_filter.mp hmem).2

theorem deferredNumbers_of_batchEvent (he : BatchEvent e) : deferredNumbers e = none := by
  rcases e with ⟨c, r⟩ | n
  · cases c <;> first | rfl | exact he.elim False.elim False.elim
  · rfl

/-- A batch asks for no deferred message. -/
theorem keeps_deferredCalls_process {calls : List (List ℤ)} (messages : List Message) :
    Keeps Recorded (fun _ h => deferredCalls h = calls) (process row receiver messages 0) := by
  refine keeps_process_of_events
    (J := fun _ _ h => deferredCalls h = calls) ?_ (fun _ _ _ _ _ hI => hI) receiver messages 0
  rintro e state registry h _ he ⟨-, rfl⟩ hI
  rw [deferredCalls_concat, deferredNumbers_of_batchEvent he, hI]
  exact List.append_nil calls

/-- Every call of a recovery is for some numbers of one partition. -/
theorem keeps_recoveryCalls : Keeps Recorded (InScan fun _ h => ∀ seqs ∈ deferredCalls h, RecoveryCall row seqs)
    (recoverOrphans row orphans) := by
  have hnone : ∀ (e : Event sdk) h h', deferredNumbers e = none → Recorded e h h' →
      (∀ seqs ∈ deferredCalls h, RecoveryCall row seqs) → ∀ seqs ∈ deferredCalls h', RecoveryCall row seqs := by
    rintro e h _ he ⟨-, rfl⟩ hI seqs hseqs
    rw [deferredCalls_concat, he, Option.toList_none, List.append_nil] at hseqs
    exact hI seqs hseqs
  have hbatch : ∀ e (s : RunState) h h', BatchEvent e → Recorded e h h' →
      (∀ seqs ∈ deferredCalls h, RecoveryCall row seqs) → ∀ seqs ∈ deferredCalls h', RecoveryCall row seqs :=
    fun e _ h h' he => hnone e h h' (deferredNumbers_of_batchEvent he)
  have hM : MapFrame Recorded row fun _ h => ∀ seqs ∈ deferredCalls h, RecoveryCall row seqs := {
    stats := fun _ _ hI => hI
    still := fun e s h h' he => hbatch e s h h' (batchEvent_of_still he)
    unreadable := fun _ hI => hI
    handling := fun e s h h' he => hbatch e s h h' (batchEvent_of_handling he)
    registry := fun _ _ hI => hI }
  refine keeps_recoverOrphans_for (fun e s h h' he => hnone e h h' (deferredNumbers_of_quiet he)) (fun _ hI => hI)
    (fun _ => hM.toHandlingFrame) ?_ fun s receiver messages =>
      keeps_process_of_calls hM hbatch (fun _ _ hI => hI) (fun _ hI => hI) receiver messages 0
  rintro chunk hchunk receiver seqs timeout hpart reply s h _ ⟨-, rfl⟩ hI seqs' hseqs'
  rw [deferredCalls_concat] at hseqs'
  rcases List.mem_append.mp hseqs' with hseqs' | hseqs'
  · exact hI seqs' hseqs'
  · obtain rfl : seqs' = seqs := List.mem_singleton.mp hseqs'
    exact recoveryCall_of_part hchunk hpart

/-- A chunk whose calls do not fail takes one call. -/
theorem wp_recoverChunk_once (hne : chunk ≠ []) : Wp Recorded (recoverChunk row receiver chunk)
    (fun _ _ h' => NoneFailed h' → deferredCalls h' = deferredCalls h ++ [chunk]) s h := by
  obtain ⟨halvings, hlen⟩ : ∃ halvings, chunk.length = halvings + 1 :=
    Nat.exists_eq_succ_of_ne_zero (List.length_pos_of_ne_nil hne).ne'
  rw [recoverChunk, receiveDeferredBisect, hlen, wp_bind]
  refine (wp_bisect_once false halvings hne).mono fun r s₁ h₁ hcalls => ?_
  cases r with
  | error _ => exact hcalls
  | ok result =>
    have hrest : Keeps Recorded (fun (_ : ScanState) h => deferredCalls h = deferredCalls h₁)
        (Prog.when (result.received ≠ []) do
          let _ ← onScanRun (process row receiver result.received 0)
          onScanRun (tally fun stats => { stats with
            orphansRecovered := stats.orphansRecovered + result.received.length })) :=
      keeps_when (keeps_bind (keeps_embed (fun _ => rfl) fun _ => keeps_deferredCalls_process _) fun _ =>
        keeps_embed (fun _ => rfl) fun _ => keeps_modify fun _ _ hI => hI)
    rw [onOk_ok]
    refine ((hrest s₁ h₁ rfl).and wp_extends).mono fun r s₂ h₂ hend hnone => ?_
    obtain ⟨hsame, hp⟩ := hend
    rw [hsame]
    exact hcalls (hnone.initial hp)

/-- A recovery whose calls do not fail takes one call for each chunk. -/
theorem wp_recoverOrphans_once : Wp Recorded (recoverOrphans row orphans)
    (fun r _ h' => r = .ok () → NoneFailed h' →
      deferredCalls h' = deferredCalls h ++ orphanChunks row orphans) s h := by
  by_cases hnil : orphans = []
  · subst hnil
    exact wp_pure.mpr fun _ _ => (List.append_nil _).symm
  have hchunks : ∀ chunk ∈ orphanChunks row orphans, chunk ≠ [] := fun chunk hchunk =>
    ne_nil_of_mem_batched row.chunkSize_pos (mem_orphanChunks hchunk).choose_spec
  rw [recoverOrphans, Prog.when, if_pos hnil, wp_bind]
  refine (keeps_scanCommitClient keeps_deferredCalls (fun _ hI => hI)).wp rfl fun r s₁ h₁ hclient => ?_
  cases r with
  | error e =>
    intro hr
    cases hr
  | ok client =>
    rw [onOk_ok, wp_bind, wp_get, onOk_ok, wp_bind, onScanRun, wp_embed, updateUnreadable, wp_modify, onOk_ok,
      wp_ensuring,
      wp_bind]
    refine (keeps_openReceiver keeps_deferredCalls).wp hclient fun r s₂ h₂ hopened => ?_
    cases r with
    | error e =>
      rw [onOk_error, onScanRun, wp_embed, updateUnreadable, wp_modify]
      intro hr
      cases hr
    | ok receiver =>
      rw [onOk_ok, withReceiver, wp_bind]
      refine (keeps_quietCall keeps_deferredCalls rfl).wp hopened fun r s₃ h₃ hentered => ?_
      cases r with
      | error e =>
        rw [onOk_error, onScanRun, wp_embed, updateUnreadable, wp_modify]
        intro hr
        cases hr
      | ok _ =>
        rw [onOk_ok, wp_ensuring]
        refine (wp_forM_once fun chunk hchunk s h => wp_recoverChunk_once (hchunks chunk hchunk)).mono
          fun r s₄ h₄ hcalls => ?_
        refine ((keeps_quietCall keeps_deferredCalls rfl s₄ h₄ rfl).and wp_extends).mono fun r' s₅ h₅ hclosed => ?_
        obtain ⟨hclosed, hp⟩ := hclosed
        rw [onScanRun, wp_embed, updateUnreadable, wp_modify]
        intro hr hnone
        obtain rfl : r = .ok () := by
          cases r' with
          | ok _ => exact hr
          | error e => cases hr
        rw [hclosed, hcalls rfl (hnone.initial hp), hentered]

/-- The calls of the recoveries, where none failed. -/
theorem Handed.calls {es : Trace sdk} {handed : List (List ℤ)} (hhanded : Handed row es handed)
    (hnone : NoneFailed es) :
    deferredCalls es = handed.flatMap (orphanChunks row) := by
  induction hhanded with
  | nil => rfl
  | other h he ih =>
    rw [deferredCalls_concat, he, ih (hnone.initial (List.prefix_append _ _))]
    exact List.append_nil _
  | recover h hne hexec ih =>
    rename_i es handed orphans s es' s'
    have hlast := wp_logged.mp (wp_recoverOrphans_once (s := s) (h := es)) es' (.ok ()) s' hexec
        (fun _ _ => trivial) rfl hnone
    rw [hlast, ih (hnone.initial (List.prefix_append _ _)), List.flatMap_append, List.flatMap_singleton]

/-- The chunks of ascending numbers of one partition are those numbers. -/
theorem flatten_orphanChunks (hascending : orphans.Pairwise (· < ·)) (hplain : ∀ q ∈ orphans, partitionOf q = 0) :
    (orphanChunks row orphans).flatten = orphans := by
  have hsorted : orphans.insertionSort (· ≤ ·) = orphans :=
    List.Pairwise.insertionSort_eq (hascending.imp fun h => h.le)
  have hall : orphans.filter (fun seq => partitionOf seq = 0) = orphans :=
    List.filter_eq_self.mpr fun q hq => decide_eq_true (hplain q hq)
  have hpartitions : orphans ≠ [] → (orphans.map partitionOf).eraseDups = [0] := by
    intro hne
    have hzeros : orphans.map partitionOf = List.replicate orphans.length 0 := List.map_eq_replicate_iff.mpr hplain
    obtain ⟨n, hn⟩ := Nat.exists_eq_succ_of_ne_zero (List.length_pos_of_ne_nil hne).ne'
    rw [hzeros, hn, List.replicate_succ, List.eraseDups_cons, List.filter_eq_nil_iff.mpr]
    · rfl
    · simp
  by_cases hnil : orphans = []
  · subst hnil
    rfl
  · rw [orphanChunks, hsorted, hpartitions hnil, List.flatMap_singleton, hall, flatten_batched row.chunkSize_pos]

theorem flatten_chunks_of_handed {handed : List (List ℤ)} (hascending : handed.flatten.Pairwise (· < ·))
    (hplain : ∀ q ∈ handed.flatten, partitionOf q = 0) :
    (handed.flatMap (orphanChunks row)).flatten = handed.flatten := by
  induction handed with
  | nil => rfl
  | cons orphans handed ih =>
    rw [List.flatten_cons] at hascending hplain
    obtain ⟨hfirst, hrest, -⟩ := List.pairwise_append.mp hascending
    rw [List.flatMap_cons, List.flatten_append, List.flatten_cons,
      flatten_orphanChunks hfirst fun q hq => hplain q (List.mem_append_left _ hq),
      ih hrest fun q hq => hplain q (List.mem_append_right _ hq)]

end Calls

/-- Whatever the pages, the recovery gets the orphans before the stop point, each once, and the guarded list the other
deferred messages before it; and every call is for some numbers of one partition. -/
theorem scan_independent_of_page_cuts {row : Row} {content : List Message} {now : Time} {peeker : Handle}
    {run : RunState} {es : Trace sdk} {r : Except Exn (Option Bool)} {s' : ScanState} (hcontent : PlainContent content)
    (hsub : row.entity.isSubQueue = false) (hplain : run.info.isPartitioned = false)
    (hexec : Prog.Exec (Prog.iterate (scanPage row peeker) orphanPageCap) { run } es r s')
    (hshown : ∀ e ∈ es, ShowsContent content now e) :
    (∀ seqs ∈ deferredCalls es, RecoveryCall row seqs) ∧
    ∀ stop, r = .ok (some stop) → ∃ before rest,
      StopPoint (kStop row.config.advanced.batchSize row.config.advanced.prefetchCount) now content before rest ∧
      (∀ before' rest', StopPoint (kStop row.config.advanced.batchSize row.config.advanced.prefetchCount) now content
        before' rest' → before' = before) ∧
      (∃ handed, Handed row es handed ∧ handed.flatten = orphansOf run.info.orphanGuardThreshold before ∧
        handed.flatten.Nodup) ∧
      (NoneFailed es → (deferredCalls es).flatten = orphansOf run.info.orphanGuardThreshold before) ∧
      s'.run.stats.orphansGuarded = run.stats.orphansGuarded ++ guardedOf run.info.orphanGuardThreshold before := by
  constructor
  · have hF : Frame Recorded fun _ h => ∀ seqs ∈ deferredCalls h, RecoveryCall row seqs := {
      stats := fun _ _ hI => hI
      info := fun _ hI => hI
      quiet := by
        rintro e s h _ he ⟨-, rfl⟩ hI seqs hseqs
        rw [deferredCalls_concat, deferredNumbers_of_quiet he, Option.toList_none, List.append_nil] at hseqs
        exact hI seqs hseqs }
    have hkeeps := keeps_iterate (keeps_scanPage hF (fun _ => keeps_recoveryCalls) peeker) orphanPageCap
    exact wp_logged.mp (hkeeps { run } [] (by simp [InScan, deferredCalls])) es r s' hexec fun _ _ => trivial
  · intro stop hr
    obtain ⟨before, rest, hstop, hbooks⟩ :=
      wp_logged.mp (wp_scanPages hcontent hsub hplain) es r s' hexec hshown stop hr
    obtain ⟨handed, hhanded, hflatten⟩ := hbooks.handed
    rw [List.nil_append] at hhanded
    have hbefore : ∀ message ∈ before, message ∈ content := by
      rw [hstop.split]
      exact fun message hm => List.mem_append_left _ hm
    have hascending : handed.flatten.Pairwise (· < ·) := by
      have hpassed := hcontent.ascending
      rw [hstop.split] at hpassed
      rw [hflatten, orphansOf, List.pairwise_map]
      exact (List.pairwise_append.mp hpassed).1.sublist List.filter_sublist
    have hzero : ∀ q ∈ handed.flatten, partitionOf q = 0 := by
      rw [hflatten]
      intro q hq
      obtain ⟨message, hm, rfl⟩ := List.mem_map.mp hq
      exact hcontent.partitionOf_eq (hbefore message (List.mem_filter.mp hm).1)
    refine ⟨before, rest, hstop, fun _ _ h => h.unique hstop, ⟨handed, hhanded, hflatten, hascending.imp fun h => h.ne⟩,
      ?_,
      hbooks.guarded⟩
    intro hnone
    rw [hhanded.calls hnone, flatten_chunks_of_handed hascending hzero, hflatten]

/-- An entity with two deferred messages, of which one is guarded. -/
def scannedContent : List Message :=
  [{ sequenceNumber := 1, state := .deferred }, { sequenceNumber := 2 },
    { sequenceNumber := 3, state := .deferred, deliveryCount := some 9 }]

/-- Its broker cuts pages of one message each. -/
def oneByOne : (c : Call) → Script → Reply c × Script
  | .peekMessages _ _ start, s => (.ok ((fromNumber scannedContent start).take 1), s)
  | .utcNow, s => (0, s)
  | c, s => Script.answer c s

theorem showsContent_oneByOne (c : Call) (s : Script) : ShowsContent scannedContent 0 (.call c (oneByOne c s).1) := by
  cases c <;> try trivial
  refine ⟨List.take_prefix _ _, fun hnil => ?_⟩
  rcases List.take_eq_nil_iff.mp hnil with hone | hnil
  · cases hone
  · exact hnil

/-- A scan of it: its trace, and how it ends. -/
def oneByOneScan : Trace sdk × (Except Exn (Option Bool) × ScanState) × Script :=
  simulate oneByOne (Prog.iterate (scanPage deferRow 1) orphanPageCap { run := openedState deferRow 0 })
    { deferredReceives := [.ok (scannedContent.take 1)] }

theorem exec_oneByOneScan :
    Prog.Exec (Prog.iterate (scanPage deferRow 1) orphanPageCap) { run := openedState deferRow 0 }
    oneByOneScan.1 (.ok (some true)) oneByOneScan.2.1.2 := by
  have hresult : oneByOneScan.2.1.1 = .ok (some true) := by decide +kernel
  rw [← hresult]
  exact @runs_simulate sdk _ Script oneByOne _ _

theorem showsContent_oneByOneScan : ∀ e ∈ oneByOneScan.1, ShowsContent scannedContent 0 e :=
  @forall_simulate sdk _ Script oneByOne _ showsContent_oneByOne (fun _ => trivial) _ _

/-- The one orphan is recovered, and the other deferred message guarded. -/
theorem scan_independent_of_page_cuts_two : (deferredCalls oneByOneScan.1).flatten = [1] ∧
    oneByOneScan.2.1.2.run.stats.orphansGuarded = [3] := by
  have hcontent : PlainContent scannedContent := ⟨by decide, by decide, by decide⟩
  have hnone : NoneFailed oneByOneScan.1 := by
    unfold NoneFailed
    decide +kernel
  -- no message of the entity stops the scan
  have hend : StopPoint (kStop deferRow.config.advanced.batchSize deferRow.config.advanced.prefetchCount) 0
      scannedContent
      scannedContent [] := stopPoint_end fun part hpart => by
    have hall : ∀ part ∈ scannedContent.inits, qualifiedSince 0 part < 100 := by decide
    exact (hall part ((List.mem_inits _ _).mpr hpart)).trans_le (le_max_left 100 _)
  obtain ⟨before, rest, -, hunique, -, hcalls, hguarded⟩ :=
    (scan_independent_of_page_cuts hcontent rfl rfl exec_oneByOneScan showsContent_oneByOneScan).2 true rfl
  obtain rfl := hunique _ _ hend
  exact ⟨hcalls hnone, hguarded⟩

end ServiceBusExtractor
