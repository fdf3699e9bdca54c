import ServiceBusExtractor.WriteBeforeSettle

/-!
# One page of a peek

The pager hands what is left of a page to the batch processor, which writes the
readable messages and leaves the others to the policy. This is what becomes of the
messages of one page, number by number.

## The model

* `exported h` — the numbers written, or skipped as expired or pending activation;
  `givenUp h` — those given up as unreadable; `givenBack h` — those that asked for a
  retry; `Done h n` — the number is one of the first two.
* `choose` — what a page still has to export, as a function.
* `PeekPager.markAll` — the books of the pager after some numbers.

## What is proved

* `wp_process_peek` — a batch writes, judges or gives back each of its messages, and
  one that fails with anything but a `UserException` wrote nothing;
* `wp_exportPage` — what exporting a page does to the books and to the trace.
-/

namespace ServiceBusExtractor

open Interaction

/-- The sequence numbers of some messages. -/
def numbers (messages : List Message) : List ℤ := messages.map Message.sequenceNumber

@[simp] theorem numbers_nil : numbers [] = [] := rfl

@[simp] theorem numbers_cons (m : Message) (messages : List Message) :
    numbers (m :: messages) = m.sequenceNumber :: numbers messages := rfl

@[simp] theorem numbers_append (ms ms' : List Message) : numbers (ms ++ ms') = numbers ms ++ numbers ms' :=
  List.map_append

theorem mem_numbers {messages : List Message} {m : Message} (hm : m ∈ messages) : m.sequenceNumber ∈ numbers messages :=
  List.mem_map.mpr ⟨m, hm, rfl⟩

/-- The number of a row. -/
def Record.number (record : Record) : ℤ := record.metadata.sequenceNumber

/-- The numbers the event writes as rows, or skips. -/
def exportedBy : Event sdk → List ℤ
  | .call (.writeRows records) (.ok _) => records.map Record.number
  | .note (.expired m) | .note (.pendingActivation m) => [m.sequenceNumber]
  | _ => []

/-- The numbers written as rows, or skipped as expired or pending activation. -/
def exported (h : Trace sdk) : List ℤ := h.flatMap exportedBy

/-- The number the event gives up as unreadable. -/
def givenUpBy : Event sdk → Option ℤ
  | .note (.unreadable m disposition) => if disposition = .retry then none else some m.sequenceNumber
  | _ => none

/-- The numbers given up as unreadable. -/
def givenUp (h : Trace sdk) : List ℤ := h.filterMap givenUpBy

/-- The number the event gives back for a retry. -/
def givenBackBy : Event sdk → Option ℤ
  | .note (.unreadable m .retry) => some m.sequenceNumber
  | _ => none

/-- The numbers that asked for a retry. -/
def givenBack (h : Trace sdk) : List ℤ := h.filterMap givenBackBy

/-- The message with the number was written, skipped or given up. -/
def Done (h : Trace sdk) (n : ℤ) : Prop := n ∈ exported h ∨ n ∈ givenUp h

section Traces

variable {h es : Trace sdk} {n : ℤ}

@[simp] theorem exported_nil : exported [] = [] := rfl

@[simp] theorem exported_append (h es : Trace sdk) : exported (h ++ es) = exported h ++ exported es :=
  List.flatMap_append

@[simp] theorem givenUp_append (h es : Trace sdk) : givenUp (h ++ es) = givenUp h ++ givenUp es := List.filterMap_append

@[simp] theorem givenBack_append (h es : Trace sdk) : givenBack (h ++ es) = givenBack h ++ givenBack es :=
  List.filterMap_append

theorem exported_eq_nil (hes : ∀ e ∈ es, exportedBy e = []) : exported es = [] := List.flatMap_eq_nil_iff.mpr hes

theorem Done.append (hd : Done h n) (es : Trace sdk) : Done (h ++ es) n := by
  rw [Done, exported_append, givenUp_append]
  exact hd.imp (List.mem_append_left _) (List.mem_append_left _)

theorem Done.prepend (hd : Done es n) (h : Trace sdk) : Done (h ++ es) n := by
  rw [Done, exported_append, givenUp_append]
  exact hd.imp (List.mem_append_right _) (List.mem_append_right _)

theorem exportedBy_of_quiet {e : Event sdk} (he : Quiet e) : exportedBy e = [] := by
  rcases e with ⟨c, r⟩ | n
  · cases c <;> first | rfl | exact absurd he Bool.false_ne_true
  · cases n <;> first | rfl | exact absurd he Bool.false_ne_true

theorem exportedBy_of_handles {e : Event sdk} (he : Handles e) : exportedBy e = [] := by
  rcases e with ⟨c, r⟩ | n
  · cases c <;> first | rfl | exact he.elim False.elim False.elim
  · cases n <;> first | rfl | exact he.elim (fun h => absurd h Bool.false_ne_true) False.elim

end Traces

/-! ### A batch of a peek -/

/-- Nothing was left, and what waits to be raised is the user's. -/
structure Fresh (handler : UnreadableHandler) : Prop where
  left : handler.left = []
  user : ∀ e, handler.pending = some e → e.isUser = true

/-- The trace went on with what only hands messages to the policy. -/
def Judges (h : Trace sdk) (s : RunState) (h' : Trace sdk) : Prop :=
  Fresh s.unreadable ∧ ∃ es, h' = h ++ es ∧ ∀ e ∈ es, Handles e

section Batch

variable {row : Row} {s : RunState} {h h₀ : Trace sdk} {m : Message}

theorem Judges.concat (hI : Judges h₀ s h) {e : Event sdk} (he : Handles e) : Judges h₀ s (h ++ [e]) := by
  obtain ⟨hfresh, es, rfl, hes⟩ := hI
  refine ⟨hfresh, es ++ [e], by rw [List.append_assoc], ?_⟩
  exact List.forall_mem_append.mpr ⟨hes, List.forall_mem_singleton.mpr he⟩

theorem stillFrame_judges : StillFrame Recorded (Judges h₀) where
  stats _ _ hI := hI
  still := by
    rintro e s h₁ _ he ⟨-, rfl⟩ hI
    exact hI.concat (.inl he)

/-- The message was judged: it is given back, or given up. -/
structure JudgedAs (h₀ : Trace sdk) (m : Message) (action : UnreadableAction) (s : RunState) (h : Trace sdk) :
    Prop where
  judges : Judges h₀ s h
  back : action = .retry → m.sequenceNumber ∈ givenBack h
  up : action ≠ .retry → m.sequenceNumber ∈ givenUp h

theorem stillFrame_judgedAs (action : UnreadableAction) : StillFrame Recorded (JudgedAs h₀ m action) where
  stats _ _ hI := ⟨hI.judges, hI.back, hI.up⟩
  still := by
    rintro e s h₁ _ he ⟨-, rfl⟩ hI
    refine ⟨hI.judges.concat (.inl he), fun hback => ?_, fun hup => ?_⟩
    · rw [givenBack_append]
      exact List.mem_append_left _ (hI.back hback)
    · rw [givenUp_append]
      exact List.mem_append_left _ (hI.up hup)

/-- Counting a verdict is what judges the message. -/
theorem wp_countUnreadable_judgedAs (reason : UnreadableReason) (disposition : Disposition) (action : UnreadableAction)
    (hsame : disposition = .retry ↔ action = .retry) (hI : Judges h₀ s h) :
    Wp Recorded (countUnreadable m reason disposition) (fun r s h => r = .ok () ∧ JudgedAs h₀ m action s h) s h := by
  rw [countUnreadable, wp_bind, tally, wp_modify, onOk_ok, wp_note]
  rintro _ ⟨-, rfl⟩
  refine ⟨rfl, hI.concat (.inr trivial), fun hback => ?_, fun hup => ?_⟩
  · rw [hsame.mpr hback, givenBack_append]
    exact List.mem_append_right _ (List.mem_singleton_self _)
  · have hretry : disposition ≠ .retry := fun h => hup (hsame.mp h)
    rw [givenUp_append]
    exact List.mem_append_right _ (by simp [givenUp, givenUpBy, hretry])

theorem wp_warn_judgedAs {action : UnreadableAction} (key : WarningKey) (text : String)
    (hI : JudgedAs h₀ m action s h) :
    Wp Recorded (warn key text) (fun r s h => r = .ok () ∧ JudgedAs h₀ m action s h) s h := by
  refine ((raises_warn (fun _ => False) key text s h).and
    (keeps_warn (stillFrame_judgedAs action) key text s h hI)).mono fun r s' h' hr => ?_
  cases r with
  | error e => exact (hr.1 e rfl).elim
  | ok _ => exact ⟨rfl, hr.2⟩

/-- Where nothing holds the messages, the policy gives the message up or back, and raises nothing. -/
theorem wp_handleUnreadable_peek (hmode : row.mode = .peek) (receiver : Handle) (error : UnreadableError)
    (generation : ℕ) (hI : Judges h₀ s h) :
    Wp Recorded (handleUnreadable row receiver m error generation)
      (fun r s h => ∃ action, r = .ok action ∧ JudgedAs h₀ m action s h) s h := by
  have hlocks : row.mode.holdsLocks = false := by
    rw [hmode]
    rfl
  have hdispose : ∀ s h, Judges h₀ s h → Wp Recorded (disposeUnreadable row receiver m error)
      (fun r s h => ∃ action, r = .ok action ∧ JudgedAs h₀ m action s h) s h := by
    intro s h hI
    rw [disposeUnreadable, if_pos (c := row.mode.holdsLocks = false) hlocks, wp_ite]
    refine ⟨fun _ => ?_, fun _ => ?_⟩
    · rw [failUnreadable, wp_bind]
      refine (wp_countUnreadable_judgedAs error.reason .failed .failed (by decide) hI).mono ?_
      rintro r s₁ h₁ ⟨rfl, hI₁⟩
      rw [onOk_ok, wp_bind, updateUnreadable, wp_modify, onOk_ok, wp_pure]
      refine ⟨.failed, rfl, ⟨⟨hI₁.judges.1.left, fun e he => ?_⟩, hI₁.judges.2⟩, hI₁.back, hI₁.up⟩
      obtain rfl := Option.some.inj he
      cases hp : s₁.unreadable.pending with
      | none => rfl
      | some e => exact hI₁.judges.1.user e hp
    · rw [skipUnreadable, wp_bind, countDisposed, wp_bind]
      refine (wp_countUnreadable_judgedAs error.reason .skipped .skipped (by decide) hI).mono ?_
      rintro r s₁ h₁ ⟨rfl, hI₁⟩
      rw [onOk_ok]
      refine (wp_warn_judgedAs _ _ hI₁).mono ?_
      rintro r s₂ h₂ ⟨rfl, hI₂⟩
      exact wp_pure.mpr ⟨.skipped, rfl, hI₂⟩
  have hshould : Wp Recorded (shouldRetry row m generation)
      (fun r s h => (∃ again, r = .ok again) ∧ Judges h₀ s h) s h := by
    have hwarn : ∀ {key text s h}, Judges h₀ s h →
        Wp Recorded (do warn key text; pure false : Run Bool)
          (fun r s h => (∃ again, r = .ok again) ∧ Judges h₀ s h) s h := by
      intro key text s h hI
      refine wp_bind.mpr (((raises_warn (fun _ => False) key text s h).and
        (keeps_warn stillFrame_judges key text s h hI)).mono fun r s' h' hr => ?_)
      cases r with
      | error e => exact (hr.1 e rfl).elim
      | ok _ => exact wp_pure.mpr ⟨⟨false, rfl⟩, hr.2⟩
    rw [shouldRetry, wp_bind, wp_get, onOk_ok, wp_ite]
    refine ⟨fun _ => wp_pure.mpr ⟨⟨_, rfl⟩, hI⟩, fun _ => wp_ite.mpr ⟨fun _ => wp_pure.mpr ⟨⟨_, rfl⟩, hI⟩, fun _ => ?_⟩⟩
    exact wp_ite.mpr ⟨fun _ => hwarn hI, fun _ => wp_pure.mpr ⟨⟨_, rfl⟩, hI⟩⟩
  rw [handleUnreadable, wp_bind, wp_get, onOk_ok, if_neg (by rw [hI.1.left]; exact List.not_mem_nil), wp_ite]
  refine ⟨fun _ => wp_bind.mpr (hshould.mono ?_), fun _ => hdispose s h hI⟩
  rintro r s₁ h₁ ⟨⟨again, rfl⟩, hI₁⟩
  rw [onOk_ok, wp_ite]
  refine ⟨fun _ => ?_, fun _ => hdispose s₁ h₁ hI₁⟩
  rw [retryUnreadable, wp_bind, updateUnreadable, wp_modify, onOk_ok, wp_bind, wp_when]
  refine ⟨fun hholds => absurd hholds (by rw [hlocks]; exact Bool.false_ne_true), fun _ => ?_⟩
  rw [onOk_ok, wp_bind]
  have hremembered : Judges h₀ { s₁ with unreadable :=
      if (s₁.unreadable.firstFailure.lookup m.sequenceNumber).isSome then s₁.unreadable
      else { s₁.unreadable with firstFailure := s₁.unreadable.firstFailure ++ [(m.sequenceNumber, generation)] } }
        h₁ := by
    refine ⟨?_, hI₁.2⟩
    dsimp only
    split
    · exact hI₁.1
    · exact ⟨hI₁.1.left, hI₁.1.user⟩
  refine (wp_countUnreadable_judgedAs error.reason .retry .retry (by decide) hremembered).mono ?_
  rintro r s₂ h₂ ⟨rfl, hI₂⟩
  exact wp_pure.mpr ⟨.retry, rfl, hI₂⟩

/-- The numbers of some rows. -/
def rowNumbers (rows : List OutputRow) : List ℤ := rows.map fun output => output.metadata.sequenceNumber

/-- Mapping went through the messages so far: each has a row, was given back or was given up. -/
structure Drafted (h₀ : Trace sdk) (done : List Message) (draft : Draft) (s : RunState) (h : Trace sdk) : Prop where
  judges : Judges h₀ s h
  once : (rowNumbers draft.rows ++ draft.retried).Nodup
  within : ∀ n ∈ rowNumbers draft.rows ++ draft.retried, n ∈ numbers done
  back : ∀ n ∈ draft.retried, n ∈ givenBack h
  all : ∀ n ∈ numbers done, n ∈ rowNumbers draft.rows ∨ n ∈ draft.retried ∨ n ∈ givenUp h

theorem Drafted.start (hI : Judges h₀ s h) : Drafted h₀ [] {} s h :=
  ⟨hI, List.nodup_nil, by simp [rowNumbers], by simp, by simp⟩

/-- One more message is in the draft. -/
theorem Drafted.next {done : List Message} {draft draft' : Draft} {s' : RunState} {h' : Trace sdk}
    (hd : Drafted h₀ done draft s h) (hjudges : Judges h₀ s' h') (hgrows : h <+: h')
    (hm : m.sequenceNumber ∉ numbers done)
    (hnext : (rowNumbers draft'.rows = rowNumbers draft.rows ++ [m.sequenceNumber] ∧ draft'.retried = draft.retried) ∨
      (draft'.rows = draft.rows ∧ draft'.retried = draft.retried ++ [m.sequenceNumber] ∧
        m.sequenceNumber ∈ givenBack h') ∨
      (draft'.rows = draft.rows ∧ draft'.retried = draft.retried ∧ m.sequenceNumber ∈ givenUp h')) :
    Drafted h₀ (done ++ [m]) draft' s' h' := by
  obtain ⟨es, rfl⟩ := hgrows
  have hfresh : m.sequenceNumber ∉ rowNumbers draft.rows ++ draft.retried := fun h => hm (hd.within _ h)
  have hrows : m.sequenceNumber ∉ rowNumbers draft.rows := fun h => hfresh (List.mem_append_left _ h)
  have hback : ∀ n ∈ draft.retried, n ∈ givenBack (h ++ es) := by
    intro n hn
    rw [givenBack_append]
    exact List.mem_append_left _ (hd.back n hn)
  have hup : ∀ n ∈ givenUp h, n ∈ givenUp (h ++ es) := by
    intro n hn
    rw [givenUp_append]
    exact List.mem_append_left _ hn
  have hwithin : ∀ n, n ∈ rowNumbers draft.rows ++ draft.retried → n ∈ numbers (done ++ [m]) := by
    intro n hn
    rw [numbers_append]
    exact List.mem_append_left _ (hd.within n hn)
  have hlast : m.sequenceNumber ∈ numbers (done ++ [m]) := by simp
  have hall : ∀ n ∈ numbers (done ++ [m]), n = m.sequenceNumber ∨ n ∈ numbers done := by
    intro n hn
    rw [numbers_append] at hn
    exact (List.mem_append.mp hn).symm.imp (by simp) id
  rcases hnext with ⟨hr, ht⟩ | ⟨hr, ht, hn⟩ | ⟨hr, ht, hn⟩
  · refine ⟨hjudges, ?_, ?_, by rw [ht]; exact hback, ?_⟩
    · rw [hr, ht, List.append_assoc]
      have hmiddle := @List.nodup_middle _ m.sequenceNumber (rowNumbers draft.rows)
      exact hmiddle.mpr (List.nodup_cons.mpr ⟨hfresh, hd.once⟩)
    · rw [hr, ht]
      intro n hn
      rw [List.append_assoc, List.mem_append, List.singleton_append, List.mem_cons] at hn
      rcases hn with hn | rfl | hn
      · exact hwithin n (List.mem_append_left _ hn)
      · exact hlast
      · exact hwithin n (List.mem_append_right _ hn)
    · rw [hr, ht]
      intro n hn
      rcases hall n hn with rfl | hn
      · exact .inl (by simp)
      · exact (hd.all n hn).imp (List.mem_append_left _) (Or.imp id (hup n))
  · refine ⟨hjudges, ?_, ?_, ?_, ?_⟩
    · rw [hr, ht, ← List.append_assoc]
      exact hd.once.append (List.nodup_singleton _) (by simpa using hfresh)
    · rw [hr, ht, ← List.append_assoc]
      intro n hn
      rcases List.mem_append.mp hn with hn | hn
      · exact hwithin n hn
      · rw [List.mem_singleton.mp hn]
        exact hlast
    · rw [ht]
      intro q hq
      rcases List.mem_append.mp hq with hq | hq
      · exact hback q hq
      · rw [List.mem_singleton.mp hq]
        exact hn
    · rw [hr, ht]
      intro q hq
      rcases hall q hq with rfl | hq
      · exact .inr (.inl (by simp))
      · exact (hd.all q hq).imp id (Or.imp (List.mem_append_left _) (hup q))
  · refine ⟨hjudges, by rw [hr, ht]; exact hd.once, by rw [hr, ht]; exact hwithin, by rw [ht]; exact hback, ?_⟩
    rw [hr, ht]
    intro q hq
    rcases hall q hq with rfl | hq
    · exact .inr (.inr hn)
    · exact (hd.all q hq).imp id (Or.imp id (hup q))

/-- Mapping one message. -/
theorem wp_mapMessage_peek (hmode : row.mode = .peek) (receiver : Handle) (t : Time) (generation : ℕ)
    {done : List Message} {draft : Draft} (hd : Drafted h₀ done draft s h) (hm : m.sequenceNumber ∉ numbers done) :
    Wp Recorded (mapMessage row receiver t generation draft m) (fun r s h => Judges h₀ s h ∧
      ∀ draft', r = .ok draft' → Drafted h₀ (done ++ [m]) draft' s h) s h := by
  rw [mapMessage, wp_bind, tally, wp_modify, onOk_ok, wp_bind, toRow, wp_bind, wp_get, onOk_ok]
  dsimp only
  rw [wp_bind, wp_modify, onOk_ok, wp_ofExcept]
  cases hmap : (mapRow row s.registry m t).1 with
  | error e => exact ⟨⟨hd.judges.1, hd.judges.2⟩, by rintro _ ⟨⟩⟩
  | ok mapped =>
    rw [onOk_ok]
    rcases mapped with error | ⟨output, bodyBytes⟩
    · have hhandle := fun s' (hI : Judges h₀ s' h) =>
        (wp_handleUnreadable_peek (m := m) hmode receiver error generation hI).and wp_extends
      refine wp_bind.mpr (Wp.mono (hhandle _ ?_) ?_)
      · exact ⟨hd.judges.1, hd.judges.2⟩
      rintro r s' h' ⟨⟨action, rfl, hI⟩, hgrows⟩
      rw [onOk_ok, wp_ite]
      refine ⟨fun hretry => wp_pure.mpr ⟨hI.judges, ?_⟩, fun hother => wp_pure.mpr ⟨hI.judges, ?_⟩⟩
      · rintro _ ⟨⟩
        exact hd.next hI.judges hgrows hm (.inr (.inl ⟨rfl, rfl, hI.back hretry⟩))
      · rintro _ ⟨⟩
        exact hd.next hI.judges hgrows hm (.inr (.inr ⟨rfl, rfl, hI.up hother⟩))
    · obtain ⟨encoded, -, rfl⟩ := output_of_mapRow hmap
      refine wp_pure.mpr ⟨⟨hd.judges.1, hd.judges.2⟩, ?_⟩
      rintro _ ⟨⟩
      refine hd.next ⟨hd.judges.1, hd.judges.2⟩ (List.prefix_refl h) hm (.inl ⟨?_, rfl⟩)
      simp [rowNumbers, messageMetadata]

/-- Mapping a whole batch of distinct messages. -/
theorem wp_mapBatch_peek (hmode : row.mode = .peek) (receiver : Handle) (t : Time) (generation : ℕ)
    {messages : List Message} (hnodup : (numbers messages).Nodup) (hI : Judges h₀ s h) :
    Wp Recorded (messages.foldlM (mapMessage row receiver t generation) {}) (fun r s h => Judges h₀ s h ∧
      ∀ draft, r = .ok draft → Drafted h₀ messages draft s h) s h := by
  refine Wp.foldlM (fun left draft s h => ∃ done, messages = done ++ left ∧ Drafted h₀ done draft s h) ?_ ?_
    ⟨[], rfl, .start hI⟩
  · rintro m left draft s' h' ⟨done, rfl, hd⟩
    have hm : m.sequenceNumber ∉ numbers done := by
      rw [numbers_append, numbers_cons] at hnodup
      exact fun hmem => (List.nodup_append.mp hnodup).2.2 _ hmem _ List.mem_cons_self rfl
    refine (wp_mapMessage_peek hmode receiver t generation hd hm).mono ?_
    rintro r s₁ h₁ ⟨hjudges, hnext⟩
    cases r with
    | error e => exact ⟨hjudges, by rintro _ ⟨⟩⟩
    | ok draft' => exact ⟨done ++ [m], by simp, hnext draft' rfl⟩
  · rintro draft s' h' ⟨done, heq, hd⟩
    rw [List.append_nil] at heq
    refine ⟨hd.judges, ?_⟩
    rintro _ ⟨⟩
    rw [heq]
    exact hd

/-- A record has the metadata of its row. -/
theorem metadata_of_rowRecord {registry : Option FlattenRegistry} {output : OutputRow} {record : Record}
    (h : rowRecord row registry output = .ok record) : record.metadata = output.metadata := by
  unfold rowRecord at h
  split at h
  · split at h
    · cases h
    · dsimp only at h
      split at h
      · cases h
      · cases h
        rfl
  · cases h
    rfl

/-- The records of some rows have their numbers. -/
theorem numbers_of_mapM {registry : Option FlattenRegistry} {rows : List OutputRow} {records : List Record}
    (h : rows.mapM (rowRecord row registry) = .ok records) : records.map Record.number = rowNumbers rows := by
  induction rows generalizing records with
  | nil =>
    cases h
    rfl
  | cons output rows ih =>
    rw [List.mapM_cons] at h
    cases hr : rowRecord row registry output with
    | error e =>
      rw [hr] at h
      cases h
    | ok record =>
      cases hrs : rows.mapM (rowRecord row registry) with
      | error e =>
        rw [hr, hrs] at h
        cases h
      | ok records' =>
        rw [hr, hrs] at h
        cases h
        rw [List.map_cons, ih hrs, Record.number, metadata_of_rowRecord hr]
        rfl

/-- Nothing is settled where nothing holds the messages. -/
theorem wp_settle_peek (hmode : row.mode = .peek) (receiver : Handle) (m : Message) (bodyBytes : ℕ)
    {Q : Except Exn Unit → RunState → Trace sdk → Prop} (hQ : Q (.ok ()) s h) :
    Wp Recorded (settle row receiver m bodyBytes) Q s h := by
  have hlocks : row.mode.holdsLocks ≠ true := by
    rw [hmode]
    exact Bool.false_ne_true
  rw [settle, safeSettle, wp_tryCatch, wp_bind, wp_when]
  refine ⟨fun hholds => absurd hholds hlocks, fun _ => ?_⟩
  rw [onOk_ok, modeSettle, hmode]
  exact wp_pure.mpr hQ

/-- How a batch of a peek ends: its rows are written before anything is raised but a `UserException`, and each message
of a batch that ended well was written, given up or given back. -/
structure PeekBatch (h₀ : Trace sdk) (messages : List Message) (r : Except Exn BatchResult) (s : RunState)
    (h : Trace sdk) : Prop where
  fresh : Fresh s.unreadable
  grows : ∃ es, h = h₀ ++ es ∧ ∀ e ∈ es, BatchEvent e
  written : ∃ written, exported h = exported h₀ ++ written ∧ written.Nodup ∧ (∀ n ∈ written, n ∈ numbers messages) ∧
    (∀ e, r = .error e → NotUser e → written = []) ∧ ∀ result, r = .ok result → ∀ n ∈ written, n ∉ result.retried
  ended : ∀ result, r = .ok result → (∀ n ∈ result.retried, n ∈ numbers messages ∧ n ∈ givenBack h) ∧
    ∀ n ∈ numbers messages, n ∈ result.retried ∨ Done h n

/-- What is raised before the rows are written. -/
theorem Judges.peekBatch {messages : List Message} (hI : Judges h₀ s h) (e : Exn) :
    PeekBatch h₀ messages (.error e) s h := by
  obtain ⟨hfresh, es, rfl, hes⟩ := hI
  refine ⟨hfresh, ⟨es, rfl, fun e he => ?_⟩, ⟨[], ?_, List.nodup_nil, by simp, fun _ _ _ => rfl, by rintro _ ⟨⟩⟩,
    by rintro _ ⟨⟩⟩
  · exact (hes e he).elim batchEvent_of_still batchEvent_of_handling
  · rw [exported_append, exported_eq_nil fun e he => exportedBy_of_handles (hes e he)]

/-- What a batch raises at its end is the user's, where the verdict that waits is. -/
theorem wp_raiseAfterBatch_peek (hfresh : Fresh s.unreadable) : Wp Recorded raiseAfterBatch
    (fun r s' h' => h' = h ∧ Fresh s'.unreadable ∧ ∀ e, r = .error e → e.isUser = true) s h := by
  rw [raiseAfterBatch, raisePending, wp_bind, wp_bind, wp_get, onOk_ok, wp_bind, updateUnreadable, wp_modify, onOk_ok]
  have hleft : Fresh { s.unreadable with pending := none } := ⟨hfresh.left, by rintro _ ⟨⟩⟩
  cases hp : s.unreadable.pending with
  | some error =>
    refine wp_throw.mpr ⟨rfl, hleft, ?_⟩
    rintro _ ⟨⟩
    exact hfresh.user error hp
  | none =>
    dsimp only
    rw [wp_pure, onOk_ok, wp_bind, wp_get, onOk_ok, wp_bind, wp_when]
    refine ⟨fun _ => wp_throw.mpr ⟨rfl, hleft, ?_⟩, fun _ => ?_⟩
    · rintro _ ⟨⟩
      rfl
    · rw [onOk_ok, checkAbortShare, wp_bind, wp_get, onOk_ok, wp_when]
      refine ⟨fun _ => wp_throw.mpr ⟨rfl, hleft, ?_⟩, fun _ => ⟨rfl, hleft, ?_⟩⟩
      · rintro _ ⟨⟩
        rfl
      · rintro _ ⟨⟩

/-- The end of a batch whose rows are written. -/
theorem wp_settleAndRaise_peek (hmode : row.mode = .peek) (receiver : Handle) {messages : List Message} {draft : Draft}
    {result : BatchResult} (hretried : result.retried = draft.retried) (hd : Drafted h₀ messages draft s h)
    {writing : Trace sdk} (hwriting : ∀ e ∈ writing, BatchEvent e) (hwritten : exported writing = rowNumbers draft.rows)
    {s' : RunState} (hsame : s'.unreadable = s.unreadable) : Wp Recorded (do
      draft.readable.forM fun readable => settle row receiver readable.1 readable.2
      raiseAfterBatch
      pure result) (PeekBatch h₀ messages) s' (h ++ writing) := by
  obtain ⟨hfresh, es, hgrows, hes⟩ := hd.judges
  have hback : ∀ n ∈ givenBack h, n ∈ givenBack (h ++ writing) := by
    intro n hn
    rw [givenBack_append]
    exact List.mem_append_left _ hn
  have hrows : exported (h ++ writing) = exported h₀ ++ rowNumbers draft.rows := by
    rw [exported_append, hwritten, hgrows, exported_append,
      exported_eq_nil fun e he => exportedBy_of_handles (hes e he),
      List.append_nil]
  have hend : ∀ (r : Except Exn BatchResult)
      (s₁ : RunState), Fresh s₁.unreadable → (∀ e, r = .error e → e.isUser = true) →
      (∀ result', r = .ok result' → result' = result) → PeekBatch h₀ messages r s₁ (h ++ writing) := by
    intro r s₁ hfresh₁ huser hresult
    refine ⟨hfresh₁, ⟨es ++ writing, by rw [hgrows, List.append_assoc], ?_⟩,
      ⟨rowNumbers draft.rows, hrows, ?_, ?_, ?_, ?_⟩, ?_⟩
    · refine List.forall_mem_append.mpr ⟨fun e he => ?_, hwriting⟩
      exact (hes e he).elim batchEvent_of_still batchEvent_of_handling
    · exact (List.nodup_append.mp hd.once).1
    · exact fun n hn => hd.within n (List.mem_append_left _ hn)
    · intro e he hnot
      rw [NotUser, huser e he] at hnot
      exact absurd hnot.symm Bool.false_ne_true
    · intro result' hr n hn
      rw [hresult result' hr, hretried]
      exact fun hn' => (List.nodup_append.mp hd.once).2.2 n hn n hn' rfl
    · intro result' hr
      rw [hresult result' hr, hretried]
      refine ⟨fun n hn => ⟨hd.within n (List.mem_append_right _ hn), hback n (hd.back n hn)⟩, fun n hn => ?_⟩
      rcases hd.all n hn with hn | hn | hn
      · refine .inr (.inl ?_)
        rw [hrows]
        exact List.mem_append_right _ hn
      · exact .inl hn
      · refine .inr (.inr ?_)
        rw [givenUp_append]
        exact List.mem_append_left _ hn
  rw [wp_bind]
  refine Wp.forM (fun _ s₁ h₁ => s₁ = s' ∧ h₁ = h ++ writing) ?_ ?_ ⟨rfl, rfl⟩
  · rintro readable left s₁ h₁ ⟨rfl, rfl⟩
    exact wp_settle_peek hmode receiver _ _ ⟨rfl, rfl⟩
  · rintro s₁ h₁ ⟨rfl, rfl⟩
    rw [onOk_ok, wp_bind]
    refine (wp_raiseAfterBatch_peek (by rw [hsame]; exact hfresh)).mono ?_
    rintro r s₂ h₂ ⟨rfl, hfresh₂, huser⟩
    cases r with
    | error e =>
      refine hend _ s₂ hfresh₂ (fun e' he' => ?_) (by rintro _ ⟨⟩)
      cases he'
      exact huser e rfl
    | ok _ =>
      refine wp_pure.mpr (hend _ s₂ hfresh₂ (by rintro _ ⟨⟩) ?_)
      rintro _ ⟨⟩
      rfl

/-- One batch of a peek. -/
theorem wp_process_peek (hmode : row.mode = .peek) (receiver : Handle) (messages : List Message) (generation : ℕ)
    (hnodup : (numbers messages).Nodup) (hfresh : Fresh s.unreadable) :
    Wp Recorded (process row receiver messages generation) (PeekBatch h messages) s h := by
  rw [process, wp_bind, utcNow, wp_perform]
  rintro t _ ⟨-, rfl⟩
  have hstart : Judges h s (h ++ [.call .utcNow t]) := ⟨hfresh, [.call .utcNow t], rfl, by
    rintro e he
    rw [List.mem_singleton.mp he]
    exact .inl trivial⟩
  rw [onOk_ok, wp_bind]
  refine (wp_mapBatch_peek hmode receiver t generation hnodup hstart).mono ?_
  rintro r s₁ h₁ ⟨hjudges, hdraft⟩
  cases r with
  | error e => exact hjudges.peekBatch e
  | ok draft =>
    have hd := hdraft draft rfl
    rw [onOk_ok, wp_bind, wp_when]
    refine ⟨fun _ => ?_, fun hnone => ?_⟩
    · rw [wp_bind]
      refine (wp_writeRows draft.rows s₁ h₁).mono ?_
      rintro r s₂ h₂ ⟨rfl, ⟨rfl, e, rfl, -⟩ | ⟨records, reply, rfl, ⟨registry, hrecords⟩, rfl⟩⟩
      · exact hjudges.peekBatch e
      · cases reply with
        | error f =>
          obtain ⟨hfresh₁, es, rfl, hes⟩ := hjudges
          refine ⟨hfresh₁, ⟨es ++ [_], (List.append_assoc ..), ?_⟩, ⟨[], ?_, List.nodup_nil, by simp, fun _ _ _ => rfl,
            by rintro _ ⟨⟩⟩, by rintro _ ⟨⟩⟩
          · refine List.forall_mem_append.mpr ⟨fun e he => ?_, List.forall_mem_singleton.mpr trivial⟩
            exact (hes e he).elim batchEvent_of_still batchEvent_of_handling
          · rw [exported_append, exported_append, exported_eq_nil fun e he => exportedBy_of_handles (hes e he)]
            simp [exported, exportedBy]
        | ok _ =>
          rw [fileResult_ok, onOk_ok, tally, wp_modify, onOk_ok]
          refine wp_settleAndRaise_peek hmode receiver rfl hd ?_ ?_ rfl
          · exact List.forall_mem_singleton.mpr trivial
          · simpa [exported, exportedBy] using numbers_of_mapM hrecords
    · rw [onOk_ok, ← List.append_nil h₁]
      refine wp_settleAndRaise_peek hmode receiver rfl hd (by simp) ?_ rfl
      rw [not_not.mp hnone]
      rfl

end Batch

/-! ### What a page still has to export -/

/-- The messages of a page that are skipped, those that are exported, and the stop that ends the page. -/
structure Chosen where
  skipped : List Message
  selected : List Message
  stop : Option StopReason

/-- What is left of a page once the processed numbers are dropped. -/
def choose (row : Row) (t0 now : Time) (taken : ℕ) : List ℤ → List Message → List Message → Chosen
  | _, selected, [] => ⟨[], selected, none⟩
  | processed, selected, m :: rest =>
    if m.sequenceNumber ∈ processed then choose row t0 now taken processed selected rest
    else if row.config.limits.maxMessages > 0 ∧ taken + selected.length ≥ row.config.limits.maxMessages then
      ⟨[], selected, some .maxMessages⟩
    else if isPendingActivation m = true ∨ isExpired now m = true then
      let rest := choose row t0 now taken (m.sequenceNumber :: processed) selected rest
      { rest with skipped := m :: rest.skipped }
    else if row.config.limits.stopAtJobStart = true ∧ afterWatermark m t0 = true then ⟨[], selected, some .watermark⟩
    else choose row t0 now taken processed (selected ++ [m]) rest

/-- The highest number, once some more are processed. -/
def markedHigh (high : Option ℤ) (seqs : List ℤ) : Option ℤ :=
  seqs.foldl (fun high seq => some (match high with
    | none => seq
    | some high => max high seq)) high

/-- The books of the pager, once some more numbers are processed. -/
def PeekPager.markAll (pager : PeekPager) (seqs : List ℤ) : PeekPager :=
  { pager with processed := seqs.reverse ++ pager.processed, high := markedHigh pager.high seqs }

@[simp] theorem markedHigh_nil (high : Option ℤ) : markedHigh high [] = high := rfl

theorem markedHigh_append (high : Option ℤ) (seqs seqs' : List ℤ) :
    markedHigh high (seqs ++ seqs') = markedHigh (markedHigh high seqs) seqs' := List.foldl_append

@[simp] theorem PeekPager.markAll_nil (pager : PeekPager) : pager.markAll [] = pager := rfl

theorem PeekPager.markAll_append (pager : PeekPager) (seqs seqs' : List ℤ) :
    pager.markAll (seqs ++ seqs') = (pager.markAll seqs).markAll seqs' := by
  simp only [markAll, List.reverse_append, List.append_assoc, markedHigh_append]

theorem PeekPager.markAll_cons (pager : PeekPager) (seq : ℤ) (seqs : List ℤ) :
    pager.markAll (seq :: seqs) = (pager.markAll [seq]).markAll seqs := pager.markAll_append [seq] seqs

section Books

variable {high : Option ℤ} {seqs : List ℤ} {n top : ℤ}

theorem markedHigh_cons (seq : ℤ) : markedHigh high (seq :: seqs) = markedHigh (markedHigh high [seq]) seqs :=
  markedHigh_append high [seq] seqs

/-- And it is one of them, or what it was. -/
theorem markedHigh_eq (h : markedHigh high seqs = some top) : high = some top ∨ top ∈ seqs := by
  induction seqs generalizing high with
  | nil => exact .inl h
  | cons seq seqs ih =>
    rw [markedHigh_cons] at h
    rcases ih h with hone | hmem
    · cases high with
      | none => exact .inr (by rw [← Option.some.inj hone]; exact List.mem_cons_self)
      | some high =>
        have htop : max high seq = top := Option.some.inj hone
        rcases max_choice high seq with hmax | hmax
        · exact .inl (by rw [← htop, hmax])
        · exact .inr (by rw [← htop, hmax]; exact List.mem_cons_self)
    · exact .inr (List.mem_cons_of_mem _ hmem)

end Books

/-- What a choice is: the page is gone through in order up to the stop, and each number so far is processed, skipped or
selected. -/
structure Chooses (processed page skipped selected : List ℤ) (stop : Option StopReason) : Prop where
  through : ∃ before after, page = before ++ after ∧ (∀ n ∈ skipped ++ selected, n ∈ before) ∧
    (∀ n ∈ before, n ∈ processed ∨ n ∈ skipped ++ selected) ∧ (stop = none → after = [])
  fresh : ∀ n ∈ skipped ++ selected, n ∉ processed
  once : page.Nodup → (skipped ++ selected).Nodup

section Choice

variable {processed page skipped selected : List ℤ} {stop : Option StopReason} {n : ℤ}

theorem Chooses.stopped (page : List ℤ) (stop : Option StopReason) (h : stop = none → page = []) :
    Chooses processed page [] [] stop :=
  ⟨⟨[], page, rfl, by simp, by simp, h⟩, by simp, fun _ => List.nodup_nil⟩

theorem Chooses.drop (hc : Chooses processed page skipped selected stop) (hn : n ∈ processed) :
    Chooses processed (n :: page) skipped selected stop := by
  obtain ⟨before, after, rfl, hin, hthrough, hstop⟩ := hc.through
  refine ⟨⟨n :: before, after, rfl, fun q hq => List.mem_cons_of_mem n (hin q hq), ?_, hstop⟩, hc.fresh, ?_⟩
  · exact List.forall_mem_cons.mpr ⟨.inl hn, hthrough⟩
  · exact fun hpage => hc.once (List.nodup_cons.mp hpage).2

theorem Chooses.skip (hc : Chooses (n :: processed) page skipped selected stop) (hn : n ∉ processed) :
    Chooses processed (n :: page) (n :: skipped) selected stop := by
  obtain ⟨before, after, rfl, hin, hthrough, hstop⟩ := hc.through
  refine ⟨⟨n :: before, after, rfl, ?_, ?_, hstop⟩, ?_, fun hpage => ?_⟩
  · exact List.forall_mem_cons.mpr ⟨List.mem_cons_self, fun q hq => List.mem_cons_of_mem n (hin q hq)⟩
  · refine List.forall_mem_cons.mpr ⟨.inr List.mem_cons_self, fun q hq => ?_⟩
    rcases hthrough q hq with h | h
    · rcases List.mem_cons.mp h with rfl | h
      · exact .inr List.mem_cons_self
      · exact .inl h
    · exact .inr (List.mem_cons_of_mem n h)
  · refine List.forall_mem_cons.mpr ⟨hn, fun q hq hq' => hc.fresh q hq (List.mem_cons_of_mem n hq')⟩
  · refine List.nodup_cons.mpr ⟨fun hmem => hc.fresh n hmem List.mem_cons_self, hc.once (List.nodup_cons.mp hpage).2⟩

theorem Chooses.select (hc : Chooses processed page skipped selected stop) (hn : n ∉ processed) :
    Chooses processed (n :: page) skipped (n :: selected) stop := by
  obtain ⟨before, after, rfl, hin, hthrough, hstop⟩ := hc.through
  have hmem : ∀ q, q ∈ skipped ++ n :: selected ↔ q = n ∨ q ∈ skipped ++ selected := by
    intro q
    simp only [List.mem_append, List.mem_cons]
    exact or_left_comm
  refine ⟨⟨n :: before, after, rfl, fun q hq => ?_, ?_, hstop⟩, fun q hq => ?_, fun hpage => ?_⟩
  · exact List.mem_cons.mpr (((hmem q).mp hq).imp id (hin q))
  · refine List.forall_mem_cons.mpr ⟨.inr ((hmem n).mpr (.inl rfl)), fun q hq => ?_⟩
    exact (hthrough q hq).imp id fun h => (hmem q).mpr (.inr h)
  · rcases (hmem q).mp hq with rfl | hq
    · exact hn
    · exact hc.fresh q hq
  · have hnot : n ∉ skipped ++ selected := fun h => (List.nodup_cons.mp hpage).1 (List.mem_append_left after (hin n h))
    exact List.nodup_middle.mpr (List.nodup_cons.mpr ⟨hnot, hc.once (List.nodup_cons.mp hpage).2⟩)

/-- The choice is one. -/
theorem chooses_choose (row : Row) (t0 now : Time) (taken : ℕ) (processed : List ℤ) (selected page : List Message) :
    ∃ more, (choose row t0 now taken processed selected page).selected = selected ++ more ∧
      Chooses processed (numbers page) (numbers (choose row t0 now taken processed selected page).skipped)
        (numbers more)
        (choose row t0 now taken processed selected page).stop := by
  induction page generalizing processed selected with
  | nil => exact ⟨[], by simp [choose], .stopped _ _ fun _ => rfl⟩
  | cons m rest ih =>
    rw [choose, numbers_cons]
    split
    · obtain ⟨more, hmore, hc⟩ := ih processed selected
      exact ⟨more, hmore, hc.drop ‹_›⟩
    · split
      · exact ⟨[], by simp, .stopped _ _ (by simp)⟩
      · split
        · obtain ⟨more, hmore, hc⟩ := ih (m.sequenceNumber :: processed) selected
          exact ⟨more, hmore, hc.skip ‹_›⟩
        · split
          · exact ⟨[], by simp, .stopped _ _ (by simp)⟩
          · obtain ⟨more, hmore, hc⟩ := ih processed (selected ++ [m])
            exact ⟨m :: more, by rw [hmore]; simp, hc.select ‹_›⟩

/-- The choice of a whole page. -/
theorem chooses_page (row : Row) (t0 now : Time) (taken : ℕ) (processed : List ℤ) (page : List Message) :
    Chooses processed (numbers page) (numbers (choose row t0 now taken processed [] page).skipped)
      (numbers (choose row t0 now taken processed [] page).selected)
        (choose row t0 now taken processed [] page).stop := by
  obtain ⟨more, hmore, hc⟩ := chooses_choose row t0 now taken processed [] page
  rw [hmore]
  exact hc

end Choice

section Select

variable {row : Row} {s : PagerState} {h : Trace sdk}

/-- Selecting a page is choosing what is left of it; what is skipped is processed and noted. -/
theorem wp_selectPage (now : Time) (selected page : List Message) : Wp Recorded (selectPage row now selected page)
    (fun r s' h' =>
      let chosen := choose row s.run.t0 now s.pager.taken s.pager.processed selected page
      r = .ok (chosen.selected, chosen.stop) ∧
        (∃ stats, s' = ⟨{ s.run with stats := stats }, s.pager.markAll (numbers chosen.skipped)⟩) ∧
        ∃ es, h' = h ++ es ∧ exported es = numbers chosen.skipped ∧ ∀ e ∈ es, SkipNote e) s h := by
  induction page generalizing selected s h with
  | nil => exact wp_pure.mpr ⟨rfl, ⟨_, rfl⟩, [], by simp, rfl, by simp⟩
  | cons m rest ih =>
    have hskip : ∀ {change : RunStats → RunStats} {note : Note}, SkipNote (.note note) →
        exportedBy (.note note) = [m.sequenceNumber] →
        Wp Recorded (do
          onPagerRun (tally change)
          Prog.note (S := sdk) note
          markProcessed m.sequenceNumber
          selectPage row now selected rest) (fun r s' h' =>
            let chosen := choose row s.run.t0 now s.pager.taken (m.sequenceNumber :: s.pager.processed) selected rest
            r = .ok (chosen.selected, chosen.stop) ∧
              (∃ stats, s' = ⟨{ s.run with stats := stats },
                s.pager.markAll (m.sequenceNumber :: numbers chosen.skipped)⟩) ∧
              ∃ es, h' = h ++ es ∧ exported es = m.sequenceNumber :: numbers chosen.skipped ∧
                ∀ e ∈ es, SkipNote e) s h := by
      intro change note hnote hone
      rw [wp_bind, onPagerRun, wp_embed, tally, wp_modify, onOk_ok, wp_bind, wp_note]
      rintro _ ⟨-, rfl⟩
      rw [onOk_ok, wp_bind, markProcessed, updatePager, wp_modify, onOk_ok]
      refine (ih selected).mono ?_
      rintro r s' h' ⟨hr, ⟨stats, hs'⟩, es, rfl, hes, hnotes⟩
      refine ⟨hr, ⟨stats, ?_⟩, .note note :: es, by simp, ?_, ?_⟩
      · rw [hs', PeekPager.markAll_cons]
        rfl
      · rw [exported, List.flatMap_cons, hone, ← exported, hes]
        rfl
      · exact List.forall_mem_cons.mpr ⟨hnote, hnotes⟩
    rw [selectPage, wp_bind, wp_get, onOk_ok, wp_ite, choose]
    refine ⟨fun hold => ?_, fun hnew => ?_⟩
    · rw [if_pos hold]
      exact ih selected
    · rw [if_neg hnew, wp_ite]
      refine ⟨fun hlimit => ?_, fun hlimit => ?_⟩
      · rw [if_pos hlimit]
        exact wp_pure.mpr ⟨rfl, ⟨_, rfl⟩, [], by simp, rfl, by simp⟩
      · rw [if_neg hlimit, wp_ite]
        refine ⟨fun hpending => ?_, fun hpending => wp_ite.mpr ⟨fun hexpired => ?_, fun hexpired => ?_⟩⟩
        · rw [if_pos (.inl hpending)]
          exact hskip trivial rfl
        · rw [if_pos (.inr hexpired)]
          exact hskip trivial rfl
        · rw [if_neg (not_or.mpr ⟨hpending, hexpired⟩), wp_ite]
          refine ⟨fun hstop => ?_, fun hstop => ?_⟩
          · rw [if_pos hstop]
            exact wp_pure.mpr ⟨rfl, ⟨_, rfl⟩, [], by simp, rfl, by simp⟩
          · rw [if_neg hstop]
            exact ih (selected ++ [m])

end Select

/-! ### Exporting a page -/

/-- The numbers that did not ask for a retry. -/
def kept (retried numbers : List ℤ) : List ℤ := numbers.filter fun n => n ∉ retried

@[simp] theorem kept_nil (retried : List ℤ) : kept retried [] = [] := rfl

theorem kept_append (retried ns ns' : List ℤ) : kept retried (ns ++ ns') = kept retried ns ++ kept retried ns' :=
  List.filter_append ns ns'

theorem mem_kept {retried ns : List ℤ} {n : ℤ} : n ∈ kept retried ns ↔ n ∈ ns ∧ n ∉ retried := by
  simp [kept]

/-- The books once some numbers are exported. -/
def PeekPager.exportAll (pager : PeekPager) (seqs : List ℤ) : PeekPager :=
  { pager.markAll seqs with taken := pager.taken + seqs.length }

theorem PeekPager.exportAll_concat (pager : PeekPager) (seqs : List ℤ) (seq : ℤ) : pager.exportAll (seqs ++ [seq]) =
    { (pager.exportAll seqs).markAll [seq] with taken := pager.taken + seqs.length + 1 } := by
  rw [exportAll, markAll_append, List.length_append]
  rfl

/-- What became of a page: some numbers were skipped, and some handed to the batch processor. -/
structure Exports (h₀ : Trace sdk) (pager : PeekPager) (skipped selected : List ℤ) (r : Except Exn (List ℤ))
    (pager' : PeekPager) (h : Trace sdk) : Prop where
  grows : ∃ es, h = h₀ ++ es ∧ ∀ e ∈ es, BatchEvent e ∨ SkipNote e
  written : ∃ written, exported h = exported h₀ ++ (skipped ++ written) ∧ written.Nodup ∧
    (∀ n ∈ written, n ∈ selected) ∧
    (∀ e, r = .error e → NotUser e → written = []) ∧ ∀ retried, r = .ok retried → ∀ n ∈ written, n ∉ retried
  ended : ∀ retried, r = .ok retried → (∀ n ∈ retried, n ∈ selected ∧ n ∈ givenBack h) ∧
    ∀ n ∈ selected, n ∈ retried ∨ Done h n
  passed : ∀ retried, r = .ok retried → ∃ tracker,
    pager' = { (pager.markAll skipped).exportAll (kept retried selected) with tracker := tracker }
  failed : ∀ e, r = .error e → ∃ tracker, pager' = { pager.markAll skipped with tracker := tracker }

section Export

variable {row : Row} {l : PagerState} {h h₀ : Trace sdk}

theorem Exports.concat {pager pager' : PeekPager} {skipped selected : List ℤ} {r : Except Exn (List ℤ)}
    (he : Exports h₀ pager skipped selected r pager' h) {e : Event sdk} (hstill : Still e) :
    Exports h₀ pager skipped selected r pager' (h ++ [e]) := by
  obtain ⟨es, rfl, hes⟩ := he.grows
  obtain ⟨written, hwritten, hrest⟩ := he.written
  refine ⟨⟨es ++ [e], by simp, ?_⟩, ⟨written, ?_, hrest⟩, fun retried hr => ?_, he.passed, he.failed⟩
  · exact List.forall_mem_append.mpr ⟨hes, List.forall_mem_singleton.mpr (.inl (batchEvent_of_still hstill))⟩
  · have hone : exported [e] = [] :=
      exported_eq_nil (List.forall_mem_singleton.mpr (exportedBy_of_quiet (quiet_of_still hstill)))
    rw [exported_append, hwritten, hone, List.append_nil]
  · obtain ⟨hback, hall⟩ := he.ended retried hr
    refine ⟨fun n hn => ⟨(hback n hn).1, ?_⟩, fun n hn => (hall n hn).imp id fun hd => hd.append [e]⟩
    rw [givenBack_append]
    exact List.mem_append_left _ (hback n hn).2

/-- Skipping first. -/
theorem Exports.skipping {es : Trace sdk} {pager pager' : PeekPager} {skipped selected : List ℤ}
    {r : Except Exn (List ℤ)} (hes : exported es = skipped) (hnotes : ∀ e ∈ es, BatchEvent e ∨ SkipNote e)
    (he : Exports (h₀ ++ es) (pager.markAll skipped) [] selected r pager' h) :
    Exports h₀ pager skipped selected r pager' h := by
  obtain ⟨es', rfl, hes'⟩ := he.grows
  obtain ⟨written, hwritten, hrest⟩ := he.written
  refine ⟨⟨es ++ es', by simp, List.forall_mem_append.mpr ⟨hnotes, hes'⟩⟩, ⟨written, ?_, hrest⟩, he.ended, he.passed,
    he.failed⟩
  rw [hwritten, exported_append, hes, List.nil_append, List.append_assoc]

/-- The numbers that did not ask for a retry are exported. -/
theorem wp_markExported (retried : List ℤ) (messages : List Message) :
    Wp Recorded (messages.forM (markExported retried))
    (fun r l' h' => r = .ok () ∧ h' = h ∧ l' = { l with pager := l.pager.exportAll (kept retried (numbers messages)) })
      l h := by
  refine Wp.forM (fun left l' h' => h' = h ∧ ∃ done, messages = done ++ left ∧
    l' = { l with pager := l.pager.exportAll (kept retried (numbers done)) }) ?_ ?_ ⟨rfl, [], rfl, rfl⟩
  · rintro m left _ _ ⟨rfl, done, rfl, rfl⟩
    rw [markExported, wp_when]
    have hlast : kept retried (numbers (done ++ [m])) = kept retried
        (numbers done) ++ kept retried [m.sequenceNumber] := by
      rw [numbers_append, kept_append]
      rfl
    refine ⟨fun hnew => ?_, fun hold => ⟨rfl, done ++ [m], by simp, ?_⟩⟩
    · rw [wp_bind, markProcessed, updatePager, wp_modify, onOk_ok, updatePager, wp_modify]
      refine ⟨rfl, done ++ [m], by simp, ?_⟩
      have hone : kept retried [m.sequenceNumber] = [m.sequenceNumber] := by simp [kept, hnew]
      rw [hlast, hone, PeekPager.exportAll_concat]
      rfl
    · have hnone : kept retried [m.sequenceNumber] = [] := by
        simp only [kept, List.filter_cons, hold, decide_false, List.filter_nil]
        rfl
      rw [hlast, hnone, List.append_nil]
  · rintro _ _ ⟨rfl, done, hdone, rfl⟩
    rw [List.append_nil] at hdone
    rw [hdone]
    exact ⟨rfl, rfl, rfl⟩

/-- Only the tracker of the pager changes. -/
def SameButTracker (pager pager' : PeekPager) : Prop := ∃ tracker, pager' = { pager with tracker := tracker }

theorem wp_progress (change : RecoveryTracker → RecoveryTracker) (c : Prop) [Decidable c] {pager : PeekPager}
    (hpager : SameButTracker pager l.pager) :
    Wp Recorded (Prog.when c (updatePager fun pager => { pager with tracker := change pager.tracker }))
      (fun r l' h' => r = .ok () ∧ l'.run = l.run ∧ h' = h ∧ SameButTracker pager l'.pager) l h := by
  obtain ⟨tracker, hpager⟩ := hpager
  rw [wp_when]
  refine ⟨fun _ => wp_modify.mpr ⟨rfl, rfl, rfl, change l.pager.tracker, ?_⟩, fun _ => ⟨rfl, rfl, rfl, tracker, hpager⟩⟩
  show { l.pager with tracker := change l.pager.tracker } = _
  rw [hpager]

/-- Handing what was selected to the processor. -/
theorem wp_processPage (hmode : row.mode = .peek) (receiver : Handle) (messages : List Message)
    (hnodup : (numbers messages).Nodup) (hfresh : Fresh l.run.unreadable) :
    Wp Recorded (processPage row receiver messages)
      (fun r l' h' => Fresh l'.run.unreadable ∧ Exports h l.pager [] (numbers messages) r l'.pager h') l h := by
  rw [processPage, wp_bind, wp_get, onOk_ok, wp_bind, wp_ensuring, onPagerRun, wp_embed]
  refine (wp_process_peek hmode receiver messages _ hnodup hfresh).mono fun r s₁ h₁ hbatch => ?_
  have hnote : ∀ {p : PagerState} {h : Trace sdk}, SameButTracker l.pager p.pager →
      Wp Recorded (notePagerProgress l.run.stats.written)
        (fun r l' h' => r = .ok () ∧ l'.run = p.run ∧ h' = h ∧ SameButTracker l.pager l'.pager) p h := by
    intro p h hp
    rw [notePagerProgress, wp_bind, wp_get, onOk_ok]
    exact wp_progress RecoveryTracker.progress _ hp
  refine Wp.mono (hnote ⟨l.pager.tracker, rfl⟩) ?_
  rintro _ l₂ h₂ ⟨rfl, hrun₂, rfl, hpager₂⟩
  have hgrows : ∃ es, h₂ = h ++ es ∧ ∀ e ∈ es, BatchEvent e ∨ SkipNote e := by
    obtain ⟨es, hes, hevents⟩ := hbatch.grows
    exact ⟨es, hes, fun e he => .inl (hevents e he)⟩
  cases r with
  | error e =>
    refine ⟨by rw [hrun₂]; exact hbatch.fresh, hgrows, ?_, by rintro _ ⟨⟩, by rintro _ ⟨⟩, fun _ _ => hpager₂⟩
    obtain ⟨written, hwritten, honce, hin, herror, -⟩ := hbatch.written
    refine ⟨written, hwritten, honce, hin, fun e' he' hnot => ?_, by rintro _ ⟨⟩⟩
    cases he'
    exact herror e rfl hnot
  | ok result =>
    dsimp only
    rw [onOk_ok, wp_bind]
    refine (wp_progress RecoveryTracker.progress _ hpager₂).mono ?_
    rintro _ l₃ h₃ ⟨rfl, hrun₃, rfl, tracker, hpager₃⟩
    rw [onOk_ok, wp_bind]
    refine (wp_markExported result.retried messages).mono ?_
    rintro _ _ h₄ ⟨rfl, rfl, rfl⟩
    refine wp_pure.mpr ⟨by rw [hrun₃, hrun₂]; exact hbatch.fresh, hgrows, ?_, ?_, ?_, by rintro _ ⟨⟩⟩
    · obtain ⟨written, hwritten, honce, hin, -, hnot⟩ := hbatch.written
      refine ⟨written, hwritten, honce, hin, by rintro _ ⟨⟩, ?_⟩
      rintro _ ⟨⟩
      exact hnot result rfl
    · rintro _ ⟨⟩
      exact hbatch.ended result rfl
    · rintro _ ⟨⟩
      refine ⟨tracker, ?_⟩
      show l₃.pager.exportAll _ = _
      rw [hpager₃]
      rfl

theorem wp_processSelected (hmode : row.mode = .peek) (receiver : Handle) (messages : List Message)
    (hnodup : (numbers messages).Nodup) (hfresh : Fresh l.run.unreadable) :
    Wp Recorded (processSelected row receiver messages)
      (fun r l' h' => Fresh l'.run.unreadable ∧ Exports h l.pager [] (numbers messages) r l'.pager h') l h := by
  rw [processSelected, wp_ite]
  refine ⟨fun hnone => wp_pure.mpr
    ⟨hfresh, ⟨[], by simp, by simp⟩, ⟨[], by simp, by simp, by simp, by simp, by simp⟩, ?_, ?_,
    by rintro _ ⟨⟩⟩, fun _ => wp_processPage hmode receiver messages hnodup hfresh⟩
  · rintro _ ⟨⟩
    simp [hnone]
  · rintro _ ⟨⟩
    exact ⟨l.pager.tracker, by rw [hnone]; rfl⟩

/-- A warning leaves the pager alone. -/
theorem wp_warnPager {I : RunState → Trace sdk → Prop} (hI : StillFrame Recorded I) (c : Prop) [Decidable c]
    (key : WarningKey) (text : String) (hl : I l.run h) : Wp Recorded (Prog.when c (onPagerRun (warn key text)))
      (fun r l' h' => r = .ok () ∧ l'.pager = l.pager ∧ I l'.run h') l h := by
  rw [wp_when]
  refine ⟨fun _ => ?_, fun _ => ⟨rfl, rfl, hl⟩⟩
  rw [onPagerRun, wp_embed]
  refine ((raises_warn (fun _ => False) key text l.run h).and (keeps_warn hI key text l.run h hl)).mono
    fun r s' h' hr => ?_
  cases r with
  | error e => exact (hr.1 e rfl).elim
  | ok _ => exact ⟨rfl, rfl, hr.2⟩

/-- What exporting a page does, for the time `now` it is read at. -/
def PageExported (row : Row) (l : PagerState) (h₀ : Trace sdk) (page : List Message) (now : Time)
    (r : Except Exn (Option StopReason × List ℤ)) (l' : PagerState) (h : Trace sdk) : Prop :=
  let chosen := choose row l.run.t0 now l.pager.taken l.pager.processed [] page
  Fresh l'.run.unreadable ∧ h₀ ++ [.call .utcNow now] <+: h ∧ ∃ pager', Exports h₀ l.pager (numbers chosen.skipped)
    (numbers chosen.selected) (r.map Prod.snd) pager' h ∧ (∀ e, r = .error e → l'.pager = pager') ∧
      ∀ stop retried, r = .ok (stop, retried) → stop = chosen.stop ∧
        l'.pager = { pager' with outstanding := retried.min? }

/-- Exporting a page of distinct messages. -/
theorem wp_exportPage (hmode : row.mode = .peek) (receiver : Handle) {page : List Message}
    (hnodup : (numbers page).Nodup) (hfresh : Fresh l.run.unreadable) :
    Wp Recorded (exportPage row receiver page)
      (fun r l' h' => ∃ now, PageExported row l h page now r l' h') l h := by
  rw [exportPage, wp_bind, utcNow, wp_perform]
  rintro now _ ⟨-, rfl⟩
  rw [onOk_ok, wp_bind]
  refine (wp_selectPage now [] page).mono ?_
  rintro _ _ h₁ ⟨rfl, ⟨stats, rfl⟩, es, rfl, hes, hnotes⟩
  rw [onOk_ok]
  dsimp only
  rw [wp_bind]
  have hchoice := chooses_page row l.run.t0 now l.pager.taken l.pager.processed page
  have hselected : (numbers (choose row l.run.t0 now l.pager.taken l.pager.processed [] page).selected).Nodup :=
    (List.nodup_append.mp (hchoice.once hnodup)).2.1
  have hskipping : ∀ {r pager' h₂}, Exports (h ++ [.call .utcNow now] ++ es)
      (l.pager.markAll (numbers (choose row l.run.t0 now l.pager.taken l.pager.processed [] page).skipped)) []
      (numbers (choose row l.run.t0 now l.pager.taken l.pager.processed [] page).selected) r pager' h₂ →
      Exports h l.pager (numbers (choose row l.run.t0 now l.pager.taken l.pager.processed [] page).skipped)
        (numbers (choose row l.run.t0 now l.pager.taken l.pager.processed [] page).selected) r pager' h₂ := by
    intro r pager' h₂ he
    rw [List.append_assoc] at he
    refine he.skipping ?_ ?_
    · rw [exported_append, hes]
      rfl
    · refine List.forall_mem_append.mpr
        ⟨List.forall_mem_singleton.mpr (.inl (.inl trivial)), fun e he => .inr (hnotes e he)⟩
  refine ((wp_processSelected hmode receiver _ hselected (l := ⟨{ l.run with stats := stats }, _⟩) hfresh).and
    wp_extends).mono ?_
  rintro r l₂ h₂ ⟨⟨hfresh₂, he⟩, hgrows⟩
  have hclock : h ++ [.call .utcNow now] <+: h₂ := (List.prefix_append _ es).trans hgrows
  cases r with
  | error e =>
    refine ⟨now, hfresh₂, hclock, l₂.pager, hskipping he, fun _ _ => rfl, by rintro _ _ ⟨⟩⟩
  | ok retried =>
    rw [onOk_ok, wp_bind, updatePager, wp_modify, onOk_ok, wp_bind, wp_get, onOk_ok]
    have hwarn : StillFrame Recorded fun run h' => Fresh run.unreadable ∧ h ++ [.call .utcNow now] <+: h' ∧
        Exports h l.pager (numbers (choose row l.run.t0 now l.pager.taken l.pager.processed [] page).skipped)
          (numbers (choose row l.run.t0 now l.pager.taken l.pager.processed [] page).selected)
            (.ok retried) l₂.pager h' :=
      { stats := fun _ _ hI => hI
        still := by
          rintro e s h₁ _ he ⟨-, rfl⟩ ⟨hfresh, hclock, hexports⟩
          exact ⟨hfresh, hclock.trans (List.prefix_append _ _), hexports.concat he⟩ }
    rw [wp_bind]
    refine Wp.mono (wp_warnPager hwarn _ _ _ ⟨hfresh₂, hclock, hskipping he⟩) ?_
    rintro _ l₃ h₃ ⟨rfl, hpager, hfresh₃, hclock₃, hexports⟩
    refine wp_pure.mpr ⟨now, hfresh₃, hclock₃, l₂.pager, hexports, by rintro _ ⟨⟩, ?_⟩
    rintro _ _ ⟨⟩
    exact ⟨rfl, hpager⟩

/-- Exporting a page leaves alone where the pager is. -/
theorem PageExported.position {page : List Message} {now : Time} {r : Except Exn (Option StopReason × List ℤ)}
    {l' : PagerState} (hexported : PageExported row l h₀ page now r l' h) : l'.pager.nextSeq = l.pager.nextSeq ∧
      l'.pager.cursorMode = l.pager.cursorMode ∧ l'.pager.receiver = l.pager.receiver := by
  obtain ⟨-, -, pager', hexports, herror, hok⟩ := hexported
  rcases r with e | ⟨stop, retried⟩
  · obtain ⟨tracker, hpager⟩ := hexports.failed e rfl
    rw [herror e rfl, hpager]
    exact ⟨rfl, rfl, rfl⟩
  · obtain ⟨tracker, hpager⟩ := hexports.passed retried rfl
    rw [(hok stop retried rfl).2, hpager]
    exact ⟨rfl, rfl, rfl⟩

/-- The bodies that ask for a retry are of the page, and were given back. -/
theorem PageExported.retried {page : List Message} {now : Time} {stop : Option StopReason} {retried : List ℤ}
    {l' : PagerState} (hexported : PageExported row l h₀ page now (.ok (stop, retried)) l' h) :
    ∀ n ∈ retried, n ∈ numbers page ∧ n ∈ givenBack h := by
  obtain ⟨-, -, pager', hexports, -⟩ := hexported
  obtain ⟨before, after, hpage, hbefore, -⟩ :=
    (chooses_page row l.run.t0 now l.pager.taken l.pager.processed page).through
  intro n hn
  obtain ⟨hselected, hback⟩ := (hexports.ended retried rfl).1 n hn
  refine ⟨?_, hback⟩
  rw [hpage]
  exact List.mem_append_left _ (hbefore n (List.mem_append_right _ hselected))

/-- Only what is on the page is processed. -/
theorem PageExported.within {page : List Message} {now : Time} {r : Except Exn (Option StopReason × List ℤ)}
    {l' : PagerState} (hexported : PageExported row l h₀ page now r l' h) :
    ∀ n ∈ l'.pager.processed, n ∈ l.pager.processed ∨ n ∈ numbers page := by
  obtain ⟨-, -, pager', hexports, herror, hok⟩ := hexported
  obtain ⟨before, after, hpage, hbefore, -⟩ :=
    (chooses_page row l.run.t0 now l.pager.taken l.pager.processed page).through
  have hskipped : ∀ n ∈ numbers (choose row l.run.t0 now l.pager.taken l.pager.processed [] page).skipped,
      n ∈ numbers page := fun n hn => by
    rw [hpage]
    exact List.mem_append_left _ (hbefore n (List.mem_append_left _ hn))
  have hselected : ∀ n ∈ numbers (choose row l.run.t0 now l.pager.taken l.pager.processed [] page).selected,
      n ∈ numbers page := fun n hn => by
    rw [hpage]
    exact List.mem_append_left _ (hbefore n (List.mem_append_right _ hn))
  intro n hn
  rcases r with e | ⟨stop, retried⟩
  · obtain ⟨tracker, hpager⟩ := hexports.failed e rfl
    rw [herror e rfl, hpager] at hn
    simp only [PeekPager.markAll, List.mem_append, List.mem_reverse] at hn
    exact hn.symm.imp id (hskipped n)
  · obtain ⟨tracker, hpager⟩ := hexports.passed retried rfl
    rw [(hok stop retried rfl).2, hpager] at hn
    simp only [PeekPager.exportAll, PeekPager.markAll, List.mem_append, List.mem_reverse] at hn
    rcases hn with hn | hn | hn
    · exact .inr (hselected n (mem_kept.mp hn).1)
    · exact .inr (hskipped n hn)
    · exact .inl hn

/-- What exporting a page exports is new, and processed unless the user has to step in. -/
theorem PageExported.exports {page : List Message} {now : Time} {r : Except Exn (Option StopReason × List ℤ)}
    {l' : PagerState} (hexported : PageExported row l h₀ page now r l' h) (hnodup : (numbers page).Nodup) :
    ∃ new, exported h = exported h₀ ++ new ∧ new.Nodup ∧ (∀ n ∈ new, n ∈ numbers page ∧ n ∉ l.pager.processed) ∧
      ((∀ e, r = .error e → NotUser e) → ∀ n, n ∈ new ∨ n ∈ l.pager.processed → n ∈ l'.pager.processed) := by
  obtain ⟨-, -, pager', hexports, herror, hok⟩ := hexported
  have hchoice := chooses_page row l.run.t0 now l.pager.taken l.pager.processed page
  revert hexports hchoice
  generalize numbers (choose row l.run.t0 now l.pager.taken l.pager.processed [] page).skipped = skipped
  generalize numbers (choose row l.run.t0 now l.pager.taken l.pager.processed [] page).selected = selected
  intro hexports hchoice
  obtain ⟨written, hwritten, honce, hin, hfailed, hkept⟩ := hexports.written
  obtain ⟨before, after, hpage, hbefore, -, -⟩ := hchoice.through
  obtain ⟨hskipped, -, hdisjoint⟩ := List.nodup_append.mp (hchoice.once hnodup)
  have hchosen : ∀ n ∈ skipped ++ written, n ∈ skipped ++ selected := by
    intro n hn
    exact (List.mem_append.mp hn).elim (List.mem_append_left _) fun hn => List.mem_append_right _ (hin n hn)
  refine ⟨skipped ++ written, hwritten, ?_, fun n hn => ⟨?_, hchoice.fresh n (hchosen n hn)⟩, fun hnot n hn => ?_⟩
  · exact List.nodup_append.mpr ⟨hskipped, honce, fun a ha b hb => hdisjoint a ha b (hin b hb)⟩
  · rw [hpage]
    exact List.mem_append_left _ (hbefore n (hchosen n hn))
  · rcases r with e | ⟨stop, retried⟩
    · obtain ⟨tracker, hpager⟩ := hexports.failed e rfl
      rw [herror e rfl, hpager]
      have hnone : written = [] := hfailed e rfl (hnot e rfl)
      simpa [PeekPager.markAll, hnone] using hn
    · obtain ⟨tracker, hpager⟩ := hexports.passed retried rfl
      rw [(hok stop retried rfl).2, hpager]
      have hnew : n ∈ written → n ∈ kept retried selected := fun hn => mem_kept.mpr ⟨hin n hn, hkept retried rfl n hn⟩
      simp only [PeekPager.exportAll, PeekPager.markAll, List.mem_append, List.mem_reverse] at hn ⊢
      rcases hn with (hn | hn) | hn
      · exact .inr (.inl hn)
      · exact .inl (hnew hn)
      · exact .inr (.inr hn)

/-- A page that was exported is gone through up to its stop: each number so far was processed before, asked for a retry,
or is done. -/
theorem PageExported.reached {page : List Message} {now : Time} {stop : Option StopReason} {retried : List ℤ}
    {l' : PagerState} (hexported : PageExported row l h₀ page now (.ok (stop, retried)) l' h) :
    ∃ before after, numbers page = before ++ after ∧ (stop = none → after = []) ∧ (∀ n ∈ retried, n ∈ before) ∧
      (∀ n ∈ l'.pager.processed, n ∈ l.pager.processed ∨ n ∈ before) ∧
      ∀ n ∈ before, n ∈ l.pager.processed ∨ n ∈ retried ∨ Done h n := by
  obtain ⟨-, -, pager', hexports, -, hok⟩ := hexported
  have hchoice := chooses_page row l.run.t0 now l.pager.taken l.pager.processed page
  obtain ⟨before, after, hpage, hbefore, hthrough, hstop⟩ := hchoice.through
  obtain ⟨written, hwritten, -⟩ := hexports.written
  obtain ⟨hback, hall⟩ := hexports.ended retried rfl
  obtain ⟨tracker, hpager⟩ := hexports.passed retried rfl
  refine ⟨before, after, hpage, ?_, fun n hn => ?_, fun n hn => ?_, fun n hn => ?_⟩
  · rw [(hok stop retried rfl).1]
    exact hstop
  · exact hbefore n (List.mem_append_right _ (hback n hn).1)
  · rw [(hok stop retried rfl).2, hpager] at hn
    simp only [PeekPager.exportAll, PeekPager.markAll, List.mem_append, List.mem_reverse] at hn
    rcases hn with hn | hn | hn
    · exact .inr (hbefore n (List.mem_append_right _ (mem_kept.mp hn).1))
    · exact .inr (hbefore n (List.mem_append_left _ hn))
    · exact .inl hn
  · rcases hthrough n hn with hold | hnew
    · exact .inl hold
    · rcases List.mem_append.mp hnew with hskipped | hselected
      · refine .inr (.inr (.inl ?_))
        rw [hwritten]
        exact List.mem_append_right _ (List.mem_append_left _ hskipped)
      · exact .inr (hall n hselected)

/-- What is processed is done, unless the user has to step in. -/
theorem PageExported.processed_done {page : List Message} {now : Time} {r : Except Exn (Option StopReason × List ℤ)}
    {l' : PagerState} (hexported : PageExported row l h₀ page now r l' h) (hdone : ∀ n ∈ l.pager.processed, Done h₀ n) :
    ∀ n ∈ l'.pager.processed, Done h n := by
  obtain ⟨-, -, pager', hexports, herror, hok⟩ := hexported
  obtain ⟨written, hwritten, -⟩ := hexports.written
  obtain ⟨es, rfl, -⟩ := hexports.grows
  have hskipped : ∀ n ∈ numbers (choose row l.run.t0 now l.pager.taken l.pager.processed [] page).skipped,
      Done (h₀ ++ es) n := fun n hn => by
    refine .inl ?_
    rw [hwritten]
    exact List.mem_append_right _ (List.mem_append_left _ hn)
  intro n hn
  rcases r with e | ⟨stop, retried⟩
  · obtain ⟨tracker, hpager⟩ := hexports.failed e rfl
    rw [herror e rfl, hpager] at hn
    simp only [PeekPager.markAll, List.mem_append, List.mem_reverse] at hn
    exact hn.elim (hskipped n) fun hn => (hdone n hn).append es
  · obtain ⟨tracker, hpager⟩ := hexports.passed retried rfl
    rw [(hok stop retried rfl).2, hpager] at hn
    simp only [PeekPager.exportAll, PeekPager.markAll, List.mem_append, List.mem_reverse] at hn
    rcases hn with hn | hn | hn
    · obtain ⟨hselected, hnot⟩ := mem_kept.mp hn
      exact ((hexports.ended retried rfl).2 n hselected).resolve_left hnot
    · exact hskipped n hn
    · exact (hdone n hn).append es

end Export

end ServiceBusExtractor
