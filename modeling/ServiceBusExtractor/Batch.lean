import ServiceBusExtractor.Frame

/-!
# One batch

The receive loop, the stop drain, the orphan recovery and the peek pager hand
their messages to one function. This is what it does to a batch, whatever the
broker and the disk answer.

## The model

* `judge` — what mapping each message of a batch gives, with the flatten registry
  passed from one message to the next; `rowOf?`, `readable?` and `unreadable?`
  read one verdict.
* `attempted`, `verdictOf` — the settle attempts and the unreadable verdicts of a
  trace.

## What is proved

`process_spec`: the rows of a batch are written in one call, in order; then the
readable messages are settled, in order and once each; and a batch that ends, or
raises an error of its own, went through both to the end.
-/

namespace ServiceBusExtractor

open Interaction

/-! ### Verdicts -/

/-- A message of a batch and what mapping it gave. -/
abbrev Judged := Message × Except Exn Mapped

/-- What mapping each message of a batch gives. -/
def judge (row : Row) (extractedAt : Time) : Option FlattenRegistry → List Message → List Judged
  | _, [] => []
  | registry, message :: rest =>
    (message, (mapRow row registry message extractedAt).1) ::
      judge row extractedAt (mapRow row registry message extractedAt).2 rest

/-- The row of a readable message. -/
def rowOf? : Judged → Option OutputRow
  | (_, .ok (.ok (output, _))) => some output
  | _ => none

/-- A readable message and the size of its body. -/
def readable? : Judged → Option (Message × ℕ)
  | (message, .ok (.ok (_, bodyBytes))) => some (message, bodyBytes)
  | _ => none

/-- A message whose body is unreadable. -/
def unreadable? : Judged → Option Message
  | (message, .ok (.error _)) => some message
  | _ => none

section Verdicts

variable {m : Message} {output : OutputRow} {bodyBytes : ℕ} {unreadable : UnreadableError} {e : Exn}

@[simp] theorem rowOf?_readable : rowOf? (m, .ok (.ok (output, bodyBytes))) = some output := rfl

@[simp] theorem rowOf?_unreadable : rowOf? (m, .ok (.error unreadable)) = none := rfl

@[simp] theorem rowOf?_error : rowOf? (m, .error e) = none := rfl

@[simp] theorem readable?_readable : readable? (m, .ok (.ok (output, bodyBytes))) = some (m, bodyBytes) := rfl

@[simp] theorem readable?_unreadable : readable? (m, .ok (.error unreadable)) = none := rfl

@[simp] theorem readable?_error : readable? (m, .error e) = none := rfl

@[simp] theorem unreadable?_readable : unreadable? (m, .ok (.ok (output, bodyBytes))) = none := rfl

@[simp] theorem unreadable?_unreadable : unreadable? (m, .ok (.error unreadable)) = some m := rfl

@[simp] theorem unreadable?_error : unreadable? (m, .error e) = none := rfl

end Verdicts

/-- The message a settler works on: a settle call, or a lock renewal that failed before it. -/
def attempted : Event sdk → Option Message
  | .call (.completeMessage _ message) _ | .call (.deferMessage _ message) _ => some message
  | .call (.renewMessageLock _ message) (.error _) => some message
  | _ => none

/-- The message judged unreadable. -/
def verdictOf : Event sdk → Option Message
  | .note (.unreadable message _) => some message
  | _ => none

/-- The event writes rows, returned or raised. -/
def WritesRows : Event sdk → Prop
  | .call (.writeRows _) _ => True
  | _ => False

/-- The body of some message with the number was judged unreadable. -/
def Noted (q : ℤ) (h : Trace sdk) : Prop := ∃ m ∈ h.filterMap verdictOf, m.sequenceNumber = q

/-- Every number the policy remembers as left has been judged. -/
def LeftNoted (s : RunState) (h : Trace sdk) : Prop := ∀ q ∈ s.unreadable.left, Noted q h

/-- What only hands messages to the unreadable-body policy, beside still events. -/
def Handles (e : Event sdk) : Prop := Still e ∨ Handling e

/-- The second history goes on from the first one with such events. -/
def Handled (h h' : Trace sdk) : Prop := ∃ es, h' = h ++ es ∧ ∀ e ∈ es, Handles e

theorem Noted.append {q : ℤ} {h : Trace sdk} (hn : Noted q h) (es : Trace sdk) : Noted q (h ++ es) := by
  obtain ⟨m, hm, hq⟩ := hn
  refine ⟨m, ?_, hq⟩
  rw [List.filterMap_append]
  exact List.mem_append_left _ hm

theorem LeftNoted.append {s : RunState} {h : Trace sdk} (hl : LeftNoted s h) (es : Trace sdk) :
    LeftNoted s (h ++ es) := fun q hq => (hl q hq).append es

theorem Handled.refl {h : Trace sdk} : Handled h h := ⟨[], by simp, by simp⟩

theorem Handled.concat {h h' : Trace sdk} (hh : Handled h h') {e : Event sdk} (he : Handles e) :
    Handled h (h' ++ [e]) := by
  obtain ⟨es, rfl, hes⟩ := hh
  refine ⟨es ++ [e], by simp, ?_⟩
  intro e' he'
  rcases List.mem_append.mp he' with h' | h'
  · exact hes e' h'
  · obtain rfl := List.mem_singleton.mp h'
    exact he

theorem not_writesRows_of_handles {e : Event sdk} (he : Handles e) : ¬ WritesRows e := by
  rcases e with ⟨c, r⟩ | n
  · cases c <;> simp_all [Handles, Still, Handling, WritesRows]
  · exact id

theorem attempted_of_handles {e : Event sdk} (he : Handles e) : attempted e = none := by
  rcases e with ⟨c, r⟩ | n
  · cases c <;> simp_all [Handles, Still, Handling, attempted]
  · rfl

/-! ### Errors -/

section Errors

variable {R : Event sdk → Trace sdk → Trace sdk → Prop} {row : Row}

/-- An error that is not the user's to fix. -/
abbrev NotUser (e : Exn) : Prop := e.isUser = false

theorem raises_sdkCall {W α : Type} {B : Type} {R : Event sdk → B → B → Prop} {c : Call}
    {result : Reply c → Except Exn α} (h : ∀ a e, result a = .error e → NotUser e) :
    Raises R NotUser (Prog.request (S := sdk) c result : Program W α) :=
  raises_request fun a _ _ _ => h a

theorem notUser_sdkResult {α : Type} (r : Except Fault α) (e : Exn) (h : sdkResult r = .error e) : NotUser e := by
  cases r with
  | error f => cases h; rfl
  | ok a => cases h

theorem raises_safeSettle {B : Type} {R : Event sdk → B → B → Prop} {P : Exn → Prop} {action : Run Unit}
    (h : ∀ s b, Wp R action (fun r _ _ => ∀ e, r = .error e → e.isSettlementFailure = true ∨ P e) s b) :
    Raises R P (safeSettle action) := by
  intro s b
  refine wp_tryCatch.mpr ((h s b).mono fun r s' b' hr => ?_)
  cases r with
  | ok a => rintro _ ⟨⟩
  | error e =>
    by_cases hs : e.isSettlementFailure = true
    · refine wp_ite.mpr ⟨fun _ => ?_, fun hn => absurd hs hn⟩
      exact raises_bind raises_modify (fun _ => raises_warn P _ _) s' b'
    · refine wp_ite.mpr ⟨fun h => absurd h hs, fun _ => raises_throw ?_ s' b'⟩
      exact (hr e rfl).resolve_left hs

end Errors

/-! ### The unreadable-body policy -/

section Unreadable

variable {row : Row} {m : Message}

/-- Every number the policy remembers as left has been judged, but for the message at hand. -/
def LeftNotedBut (m : Message) (s : RunState) (h : Trace sdk) : Prop :=
  ∀ q ∈ s.unreadable.left, q = m.sequenceNumber ∨ Noted q h

/-- The same, and the message at hand has been judged. -/
def LeftAndNoted (m : Message) (s : RunState) (h : Trace sdk) : Prop :=
  LeftNotedBut m s h ∧ Noted m.sequenceNumber h

theorem LeftNotedBut.append {s : RunState} {h : Trace sdk} (hl : LeftNotedBut m s h) (es : Trace sdk) :
    LeftNotedBut m s (h ++ es) := by
  intro q hq
  rcases hl q hq with h' | h'
  · exact .inl h'
  · exact .inr (h'.append es)

theorem LeftAndNoted.leftNoted {s : RunState} {h : Trace sdk} (hl : LeftAndNoted m s h) : LeftNoted s h := by
  intro q hq
  rcases hl.1 q hq with rfl | h'
  · exact hl.2
  · exact h'

theorem frame_leftNotedBut : StillFrame Recorded (LeftNotedBut m) where
  stats _ _ hI := hI
  still := by
    rintro e s h _ _ ⟨-, rfl⟩ hI
    exact hI.append [e]

theorem frame_leftAndNoted : StillFrame Recorded (LeftAndNoted m) where
  stats _ _ hI := hI
  still := by
    rintro e s h _ _ ⟨-, rfl⟩ hI
    exact ⟨hI.1.append [e], hI.2.append [e]⟩

theorem keeps_safeSettle_leftNotedBut {c : Call} {result : Reply c → Except Exn Unit} :
    Keeps Recorded (LeftNotedBut m) (safeSettle (Prog.request (S := sdk) c result)) := by
  refine keeps_safeSettle frame_leftNotedBut (keeps_request ?_)
  rintro r s h _ ⟨-, rfl⟩ hI
  exact hI.append _

theorem wp_countUnreadable (reason : UnreadableReason) (disposition : Disposition) {s : RunState} {h : Trace sdk}
    (hI : LeftNotedBut m s h) :
    Wp Recorded (countUnreadable m reason disposition) (fun _ => LeftAndNoted m) s h := by
  rw [countUnreadable, wp_bind, tally, wp_modify, onOk_ok, wp_note]
  rintro _ ⟨-, rfl⟩
  exact ⟨hI.append _, m, by simp [verdictOf], rfl⟩

theorem wp_countDisposed (reason : UnreadableReason) (disposition : Disposition) (detail : String) {s : RunState}
    {h : Trace sdk} (hI : LeftNotedBut m s h) :
    Wp Recorded (countDisposed m reason disposition detail) (fun _ => LeftAndNoted m) s h := by
  refine wp_bind.mpr ((wp_countUnreadable reason disposition hI).mono fun r s' h' hI' => ?_)
  cases r with
  | error e => exact hI'
  | ok _ => exact keeps_warn frame_leftAndNoted _ _ s' h' hI'

/-- A final verdict or a retry: the message has been judged. -/
theorem wp_disposeUnreadable (receiver : Handle) (error : UnreadableError) {s : RunState} {h : Trace sdk}
    (hI : LeftNotedBut m s h) :
    Wp Recorded (disposeUnreadable row receiver m error) (fun r s h => ∀ a, r = .ok a → LeftAndNoted m s h) s h := by
  have hend : ∀ {p : Run Unit} {action : UnreadableAction} {s : RunState} {h : Trace sdk},
      Wp Recorded p (fun _ => LeftAndNoted m) s h →
      Wp Recorded (do p; pure action) (fun r s h => ∀ a, r = .ok a → LeftAndNoted m s h) s h := by
    intro p action s h hp
    refine wp_bind.mpr (hp.mono fun r s' h' hI' => ?_)
    cases r with
    | error e => rintro _ ⟨⟩
    | ok _ => exact wp_pure.mpr fun _ _ => hI'
  have hthen : ∀ {p q : Run Unit} {action : UnreadableAction} {s : RunState} {h : Trace sdk},
      Keeps Recorded (LeftNotedBut m) p → (∀ s h, LeftNotedBut m s h → Wp Recorded q (fun _ => LeftAndNoted m) s h) →
      LeftNotedBut m s h →
      Wp Recorded (do p; q; pure action) (fun r s h => ∀ a, r = .ok a → LeftAndNoted m s h) s h := by
    intro p q action s h hp hq hI
    refine hp.wp_bind hI (fun _ s' h' hI' => hend (hq s' h' hI')) ?_
    rintro e s' h' - _ ⟨⟩
  refine wp_ite.mpr ⟨fun _ => ?_, fun _ => wp_ite.mpr ⟨fun _ => ?_, fun _ => wp_ite.mpr ⟨fun _ => ?_, fun _ => ?_⟩⟩⟩
  · refine wp_bind.mpr ((wp_countUnreadable error.reason .failed hI).mono fun r s' h' hI' => ?_)
    cases r with
    | error e => rintro _ ⟨⟩
    | ok _ => exact wp_bind.mpr (wp_modify.mpr (wp_pure.mpr fun _ _ => hI'))
  · exact hend (wp_countDisposed error.reason .skipped _ hI)
  · exact hthen keeps_safeSettle_leftNotedBut (fun s h => wp_countDisposed error.reason .deadLettered _) hI
  · refine (keeps_when (keeps_warn frame_leftNotedBut _ _)).wp_bind hI ?_ ?_
    · intro _ s' h' hI'
      refine hthen (keeps_modify ?_) (fun s h => wp_countDisposed error.reason .left _) hI'
      intro s h hI q hq
      rcases List.mem_cons.mp hq with rfl | hq
      · exact .inl rfl
      · exact hI q hq
    · rintro e s' h' - _ ⟨⟩

/-- Whatever the policy does, it has judged the message once it returns. -/
theorem wp_handleUnreadable (receiver : Handle) (error : UnreadableError) (generation : ℕ) {s : RunState}
    {h : Trace sdk} (hl : LeftNoted s h) :
    Wp Recorded (handleUnreadable row receiver m error generation)
      (fun r s h => ∀ a, r = .ok a → LeftNoted s h ∧ Noted m.sequenceNumber h) s h := by
  have hI : LeftNotedBut m s h := fun q hq => .inr (hl q hq)
  have hdispose : ∀ {s h}, LeftNotedBut m s h → Wp Recorded (disposeUnreadable row receiver m error)
      (fun r s h => ∀ a, r = .ok a → LeftNoted s h ∧ Noted m.sequenceNumber h) s h := by
    intro s h hI
    refine (wp_disposeUnreadable receiver error hI).mono fun r s' h' hr a ha => ?_
    exact ⟨(hr a ha).leftNoted, (hr a ha).2⟩
  have hshould : Keeps Recorded (LeftNotedBut m) (shouldRetry row m generation) := by
    refine keeps_bind keeps_get fun _ => ?_
    refine keeps_ite (fun _ => keeps_pure) fun _ => ?_
    refine keeps_ite (fun _ => keeps_pure) fun _ => ?_
    exact keeps_ite (fun _ => keeps_bind (keeps_warn frame_leftNotedBut _ _) fun _ => keeps_pure) fun _ => keeps_pure
  have hretry : ∀ {s h}, LeftNotedBut m s h → Wp Recorded (retryUnreadable row receiver m generation error.reason)
      (fun r s h => ∀ a, r = .ok a → LeftNoted s h ∧ Noted m.sequenceNumber h) s h := by
    intro s h hI
    have hnone : ∀ (e : Exn) (s' : RunState) (h' : Trace sdk), LeftNotedBut m s' h' →
        ∀ a : UnreadableAction, Except.error e = .ok a → LeftNoted s' h' ∧ Noted m.sequenceNumber h' := by
      rintro e s' h' - _ ⟨⟩
    refine Keeps.wp_bind (keeps_modify ?_) hI (fun _ s₁ h₁ hI₁ => ?_) hnone
    · intro s h hI q hq
      dsimp only at hq
      split at hq
      · exact hI q hq
      · exact hI q hq
    · refine (keeps_when keeps_safeSettle_leftNotedBut).wp_bind hI₁ (fun _ s₂ h₂ hI₂ => ?_) hnone
      refine wp_bind.mpr ((wp_countUnreadable error.reason .retry hI₂).mono fun r s₃ h₃ hI₃ => ?_)
      cases r with
      | error e => rintro _ ⟨⟩
      | ok _ => exact wp_pure.mpr fun _ _ => ⟨hI₃.leftNoted, hI₃.2⟩
  refine wp_bind.mpr (wp_get.mpr
    (wp_ite.mpr ⟨fun hleft => ?_, fun _ => wp_ite.mpr ⟨fun _ => ?_, fun _ => hdispose hI⟩⟩))
  · exact wp_pure.mpr fun _ _ => ⟨hl, hl _ hleft⟩
  · refine hshould.wp_bind hI (fun again s₁ h₁ hI₁ => ?_) ?_
    · exact wp_ite.mpr ⟨fun _ => hretry hI₁, fun _ => hdispose hI₁⟩
    · rintro e s' h' - _ ⟨⟩

/-- The policy leaves the registry alone and only makes its own events. -/
theorem keeps_handleUnreadable_handled (receiver : Handle) (error : UnreadableError) (generation : ℕ)
    (registry : Option FlattenRegistry) (h₀ : Trace sdk) :
    Keeps Recorded (fun s h => s.registry = registry ∧ Handled h₀ h)
      (handleUnreadable row receiver m error generation) := by
  refine keeps_handleUnreadable ?_ receiver m error generation
  exact {
    stats := fun _ _ hI => hI
    still := by
      rintro e s h _ he ⟨-, rfl⟩ hI
      exact ⟨hI.1, hI.2.concat (.inl he)⟩
    unreadable := fun _ hI => hI
    handling := by
      rintro e s h _ he ⟨-, rfl⟩ hI
      exact ⟨hI.1, hI.2.concat (.inr he)⟩ }

/-- No error of the policy is the user's to fix. -/
theorem raises_handleUnreadable (receiver : Handle) (error : UnreadableError) (generation : ℕ) :
    Raises Recorded NotUser (handleUnreadable row receiver m error generation) := by
  have hsafe : ∀ {p : Run Unit}, Raises Recorded NotUser p → Raises Recorded NotUser (safeSettle p) := by
    intro p hp
    exact raises_safeSettle fun s h => (hp s h).mono fun r _ _ hr e he => .inr (hr e he)
  have hcount : ∀ reason disposition, Raises Recorded NotUser (countUnreadable m reason disposition) :=
    fun _ _ => raises_bind raises_modify fun _ => raises_note
  have hdisposed : ∀ reason disposition detail, Raises Recorded NotUser (countDisposed m reason disposition detail) :=
    fun _ _ _ => raises_bind (hcount _ _) fun _ => raises_warn _ _ _
  have hdispose : Raises Recorded NotUser (disposeUnreadable row receiver m error) := by
    refine raises_ite (fun _ => ?_) fun _ => raises_ite (fun _ => ?_) fun _ => raises_ite (fun _ => ?_) fun _ => ?_
    · exact raises_bind (hcount _ _) fun _ => raises_bind raises_modify fun _ => raises_pure
    · exact raises_bind (hdisposed _ _ _) fun _ => raises_pure
    · refine raises_bind (hsafe (raises_sdkCall notUser_sdkResult)) fun _ => ?_
      exact raises_bind (hdisposed _ _ _) fun _ => raises_pure
    · refine raises_bind (raises_when fun _ => raises_warn _ _ _) fun _ => ?_
      refine raises_bind raises_modify fun _ => ?_
      exact raises_bind (hdisposed _ _ _) fun _ => raises_pure
  have hshould : Raises Recorded NotUser (shouldRetry row m generation) := by
    refine raises_bind raises_get fun _ => ?_
    refine raises_ite (fun _ => raises_pure) fun _ => ?_
    refine raises_ite (fun _ => raises_pure) fun _ => ?_
    exact raises_ite (fun _ => raises_bind (raises_warn _ _ _) fun _ => raises_pure) fun _ => raises_pure
  have hretry : Raises Recorded NotUser (retryUnreadable row receiver m generation error.reason) := by
    refine raises_bind raises_modify fun _ => ?_
    refine raises_bind (raises_when fun _ => hsafe (raises_sdkCall notUser_sdkResult)) fun _ => ?_
    exact raises_bind (hcount _ _) fun _ => raises_pure
  refine raises_bind raises_get fun s => ?_
  refine raises_ite (fun _ => raises_pure) fun _ => ?_
  refine raises_ite (fun _ => ?_) fun _ => hdispose
  exact raises_bind hshould fun again => raises_ite (fun _ => hretry) fun _ => hdispose

/-- What the policy does to a message, as one specification. -/
theorem wp_handleUnreadable_spec (receiver : Handle) (error : UnreadableError) (generation : ℕ) (s : RunState)
    (h : Trace sdk) : Wp Recorded (handleUnreadable row receiver m error generation) (fun r s' h' =>
      (s'.registry = s.registry ∧ Handled h h') ∧ (∀ e, r = .error e → NotUser e) ∧
        (LeftNoted s h → ∀ a, r = .ok a → LeftNoted s' h' ∧ Noted m.sequenceNumber h')) s h := by
  refine (keeps_handleUnreadable_handled receiver error generation s.registry h s h ⟨rfl, .refl⟩).and
    ((raises_handleUnreadable receiver error generation s h).and ?_)
  by_cases hl : LeftNoted s h
  · exact (wp_handleUnreadable receiver error generation hl).mono fun r s' h' hr _ => hr
  · exact Wp.of_exec fun _ _ _ _ _ _ h' => absurd h' hl

end Unreadable

/-! ### Mapping a batch -/

section Mapping

variable {row : Row}

/-- No error of mapping but those of the unreadable bodies is the user's. -/
theorem notUser_mapRow {registry : Option FlattenRegistry} {m : Message} {t : Time} {e : Exn}
    (h : (mapRow row registry m t).1 = .error e) : NotUser e := by
  unfold mapRow at h
  split at h
  · cases h
  · cases h
    rfl
  · split at h
    · cases h
    · split at h
      · cases h
        rfl
      · dsimp only at h
        split at h
        · cases h
        · cases h
        · rename_i e' _ _
          cases h
          cases e' <;> rfl

theorem wp_toRow (m : Message) (t : Time) {s : RunState} {h : Trace sdk}
    {Q : Except Exn Mapped → RunState → Trace sdk → Prop} :
    Wp Recorded (toRow row m t) Q s h ↔
      Q (mapRow row s.registry m t).1 { s with registry := (mapRow row s.registry m t).2 } h := by
  rw [toRow, wp_bind, wp_get, onOk_ok]
  dsimp only
  rw [wp_bind, wp_modify, onOk_ok, wp_ofExcept]

/-- What one message adds to a draft. -/
structure MapStep (row : Row) (t : Time) (m : Message) (draft draft' : Draft) (s s' : RunState) (h h' : Trace sdk) :
    Prop where
  registry : s'.registry = (mapRow row s.registry m t).2
  rows : draft'.rows = draft.rows ++ (rowOf? (m, (mapRow row s.registry m t).1)).toList
  readable : draft'.readable = draft.readable ++ (readable? (m, (mapRow row s.registry m t).1)).toList
  noted : LeftNoted s h → LeftNoted s' h' ∧
    ∀ m' ∈ unreadable? (m, (mapRow row s.registry m t).1), Noted m'.sequenceNumber h'

theorem wp_mapMessage (receiver : Handle) (t : Time) (generation : ℕ) (draft : Draft) (m : Message) {s : RunState}
    {h : Trace sdk} : Wp Recorded (mapMessage row receiver t generation draft m) (fun r s' h' => Handled h h' ∧
      (∀ e, r = .error e → NotUser e) ∧ ∀ draft', r = .ok draft' → MapStep row t m draft draft' s s' h h') s h := by
  rw [mapMessage, wp_bind, tally, wp_modify, onOk_ok, wp_bind, wp_toRow]
  dsimp only
  cases hmap : (mapRow row s.registry m t).1 with
  | error e =>
    refine ⟨.refl, ?_, ?_⟩
    · rintro _ ⟨⟩
      exact notUser_mapRow hmap
    · rintro _ ⟨⟩
  | ok mapped =>
    rw [onOk_ok]
    rcases mapped with error | ⟨output, bodyBytes⟩
    · rw [wp_bind]
      refine (wp_handleUnreadable_spec receiver error generation _ h).mono ?_
      rintro r s' h' ⟨⟨hreg, hh⟩, hr, hn⟩
      cases r with
      | error e =>
        refine ⟨hh, fun e' he => hr e' (by cases he; rfl), ?_⟩
        rintro _ ⟨⟩
      | ok action =>
        have hstep : ∀ draft' : Draft, draft'.rows = draft.rows → draft'.readable = draft.readable →
            MapStep row t m draft draft' s s' h h' := by
          intro draft' hrows hreadable
          refine ⟨hreg, by rw [hmap, hrows]; simp [rowOf?], by rw [hmap, hreadable]; simp [readable?], fun hl => ?_⟩
          obtain ⟨hl', hm⟩ := hn hl action rfl
          refine ⟨hl', ?_⟩
          rw [hmap]
          rintro _ ⟨⟩
          exact hm
        refine wp_ite.mpr ⟨fun _ => wp_pure.mpr ⟨hh, ?_, ?_⟩, fun _ => wp_pure.mpr ⟨hh, ?_, ?_⟩⟩
        all_goals rintro _ ⟨⟩
        · exact hstep _ rfl rfl
        · exact hstep _ rfl rfl
    · refine wp_pure.mpr ⟨.refl, ?_, ?_⟩
      · rintro _ ⟨⟩
      · rintro _ ⟨⟩
        exact ⟨rfl, by rw [hmap]; rfl, by rw [hmap]; rfl, fun hl => ⟨hl, by rw [hmap]; rintro _ ⟨⟩⟩⟩

/-- Where the mapping of a batch stands. -/
structure MapInv (row : Row) (t : Time) (messages : List Message) (s₀ : RunState) (h₀ : Trace sdk) (left : List Message)
    (draft : Draft) (s : RunState) (h : Trace sdk) : Prop where
  handled : Handled h₀ h
  rows : draft.rows ++ (judge row t s.registry left).filterMap rowOf? =
    (judge row t s₀.registry messages).filterMap rowOf?
  readable : draft.readable ++ (judge row t s.registry left).filterMap readable? =
    (judge row t s₀.registry messages).filterMap readable?
  noted : LeftNoted s₀ h₀ → LeftNoted s h ∧ ∀ m ∈ (judge row t s₀.registry messages).filterMap unreadable?,
    Noted m.sequenceNumber h ∨ m ∈ (judge row t s.registry left).filterMap unreadable?

theorem Handled.trans {h₁ h₂ h₃ : Trace sdk} (h₁₂ : Handled h₁ h₂) (h₂₃ : Handled h₂ h₃) : Handled h₁ h₃ := by
  obtain ⟨es, rfl, hes⟩ := h₁₂
  obtain ⟨es', rfl, hes'⟩ := h₂₃
  refine ⟨es ++ es', by simp, fun e he => ?_⟩
  exact (List.mem_append.mp he).elim (hes e) (hes' e)

theorem Noted.of_handled {q : ℤ} {h h' : Trace sdk} (hn : Noted q h) (hh : Handled h h') : Noted q h' := by
  obtain ⟨es, rfl, -⟩ := hh
  exact hn.append es

theorem filterMap_cons_toList {α β : Type} (f : α → Option β) (a : α) (as : List α) :
    (a :: as).filterMap f = (f a).toList ++ as.filterMap f := by
  cases h : f a <;> simp [h]

theorem MapInv.step {t : Time} {messages left : List Message} {s₀ s s' : RunState} {h₀ h h' : Trace sdk}
    {draft draft' : Draft} {m : Message} (hI : MapInv row t messages s₀ h₀ (m :: left) draft s h) (hh : Handled h h')
    (hstep : MapStep row t m draft draft' s s' h h') : MapInv row t messages s₀ h₀ left draft' s' h' where
  handled := hI.handled.trans hh
  rows := by
    rw [hstep.rows, hstep.registry, ← hI.rows, judge, filterMap_cons_toList, List.append_assoc]
  readable := by
    rw [hstep.readable, hstep.registry, ← hI.readable, judge, filterMap_cons_toList, List.append_assoc]
  noted hl := by
    obtain ⟨hs, hall⟩ := hI.noted hl
    obtain ⟨hs', hm⟩ := hstep.noted hs
    refine ⟨hs', fun m' hm' => ?_⟩
    rcases hall m' hm' with hn | hleft
    · exact .inl (hn.of_handled hh)
    · rw [judge, filterMap_cons_toList, List.mem_append, Option.mem_toList] at hleft
      rcases hleft with hthis | hlater
      · exact .inl (hm m' hthis)
      · rw [hstep.registry]
        exact .inr hlater

/-- Mapping a batch: the draft holds the rows and the readable messages of the verdicts, in order. -/
theorem wp_mapBatch (receiver : Handle) (t : Time) (generation : ℕ) (messages : List Message) (s : RunState)
    (h : Trace sdk) : Wp Recorded (messages.foldlM (mapMessage row receiver t generation) {}) (fun r s' h' =>
      (∀ e, r = .error e → NotUser e ∧ Handled h h') ∧ ∀ draft, r = .ok draft →
        MapInv row t messages s h [] draft s' h')
    s h := by
  refine Wp.foldlM (MapInv row t messages s h) ?_ ?_ ?_
  · intro m left draft s' h' hI
    refine (wp_mapMessage receiver t generation draft m).mono ?_
    rintro r s'' h'' ⟨hh, hr, hstep⟩
    cases r with
    | error e =>
      refine ⟨?_, ?_⟩
      · rintro _ ⟨⟩
        exact ⟨hr e rfl, hI.handled.trans hh⟩
      · rintro _ ⟨⟩
    | ok draft' => exact hI.step hh (hstep draft' rfl)
  · intro draft s' h' hI
    refine ⟨?_, ?_⟩
    · rintro _ ⟨⟩
    · rintro _ ⟨⟩
      exact hI
  · exact ⟨.refl, by simp, by simp, fun hl => ⟨hl, fun m hm => .inr hm⟩⟩

end Mapping

/-! ### Writing and settling -/

section Settling

variable {row : Row} {m : Message}

/-- The second history goes on from the first one with settle attempts for exactly `ms`, and no write. -/
def Tries (ms : List Message) (h h' : Trace sdk) : Prop :=
  ∃ es, h' = h ++ es ∧ (∀ e ∈ es, ¬ WritesRows e) ∧ es.filterMap attempted = ms

theorem Tries.refl {h : Trace sdk} : Tries [] h h := ⟨[], by simp, by simp, rfl⟩

theorem Tries.trans {ms₁ ms₂ : List Message} {h₁ h₂ h₃ : Trace sdk} (h₁₂ : Tries ms₁ h₁ h₂) (h₂₃ : Tries ms₂ h₂ h₃) :
    Tries (ms₁ ++ ms₂) h₁ h₃ := by
  obtain ⟨es, rfl, hes, rfl⟩ := h₁₂
  obtain ⟨es', rfl, hes', rfl⟩ := h₂₃
  refine ⟨es ++ es', by simp, fun e he => ?_, List.filterMap_append⟩
  exact (List.mem_append.mp he).elim (hes e) (hes' e)

theorem Tries.event {h : Trace sdk} {e : Event sdk} (he : ¬ WritesRows e) :
    Tries (attempted e).toList h (h ++ [e]) := by
  refine ⟨[e], rfl, by simpa using he, ?_⟩
  cases ha : attempted e <;> simp [ha]

/-- An event without an attempt. -/
theorem Tries.idle {ms : List Message} {h h' : Trace sdk} (ht : Tries ms h h') {e : Event sdk} (he : ¬ WritesRows e)
    (ha : attempted e = none) : Tries ms h (h' ++ [e]) := by
  have := ht.trans (Tries.event he)
  rwa [ha, Option.toList_none, List.append_nil] at this

/-- The attempts of the settler of the mode for a message. -/
def attempts (row : Row) (m : Message) : List Message := if row.mode.holdsLocks then [m] else []

/-- How a settle may end: with its attempt, or raising before it. -/
structure SettleEnd (row : Row) (m : Message) (r : Except Exn Unit) (h h' : Trace sdk) : Prop where
  tries : Tries (attempts row m) h h' ∨ (Tries [] h h' ∧ ∃ e, r = .error e)
  raised : ∀ e, r = .error e → NotUser e

/-- The failures `safeSettle` counts come from the attempt itself. -/
def Swallows (row : Row) (m : Message) (r : Except Exn Unit) (h h' : Trace sdk) : Prop :=
  SettleEnd row m r h h' ∧ ∀ e, r = .error e → e.isSettlementFailure = true → Tries (attempts row m) h h'

theorem wp_safeSettle {action : Run Unit} {s : RunState} {h₀ h : Trace sdk}
    (ha : Wp Recorded action (fun r _ h' => Swallows row m r h₀ h') s h) :
    Wp Recorded (safeSettle action) (fun r _ h' => SettleEnd row m r h₀ h') s h := by
  refine wp_tryCatch.mpr (ha.mono fun r s' h' hr => ?_)
  cases r with
  | ok _ => exact hr.1
  | error e =>
    rw [onError_error, wp_ite]
    refine ⟨fun hs => ?_, fun _ => wp_throw.mpr hr.1⟩
    have ht : Tries (attempts row m) h₀ h' := hr.2 e rfl hs
    rw [wp_bind, tally, wp_modify, onOk_ok, warn, wp_bind, wp_get, onOk_ok, wp_when]
    constructor
    · intro _
      rw [wp_bind, tally, wp_modify, onOk_ok, wp_note]
      rintro _ ⟨-, rfl⟩
      refine ⟨.inl (ht.idle id rfl), ?_⟩
      rintro _ ⟨⟩
    · intro _
      refine ⟨.inl ht, ?_⟩
      rintro _ ⟨⟩

/-- Arming attempts nothing, and what it raises is no settlement failure. -/
theorem wp_armWriteAlways_tries (s : RunState) (h : Trace sdk) : Wp Recorded armWriteAlways (fun r _ h' =>
    Tries [] h h' ∧ ∀ e, r = .error e → NotUser e ∧ e.isSettlementFailure = false) s h := by
  rw [armWriteAlways, wp_bind, wp_get, onOk_ok, wp_ite]
  refine ⟨fun _ => wp_pure.mpr ⟨.refl, by rintro _ ⟨⟩⟩, fun _ => ?_⟩
  cases s.output.definition with
  | none =>
    refine wp_throw.mpr ⟨.refl, ?_⟩
    rintro _ ⟨⟩
    exact ⟨rfl, rfl⟩
  | some definition =>
    dsimp only
    rw [wp_bind, updateOutput, wp_modify, onOk_ok, writeManifest, wp_request]
    rintro r _ ⟨-, rfl⟩
    refine ⟨Tries.refl.idle id rfl, ?_⟩
    rcases r with e | _
    · rintro _ ⟨⟩
      exact ⟨rfl, rfl⟩
    · rintro _ ⟨⟩

/-- A settle call is the attempt. -/
theorem swallows_settleCall {c : Call} {r : Except Fault Unit} {h₀ h : Trace sdk} {reply : Reply c} (ht : Tries [] h₀ h)
    (hmode : row.mode.holdsLocks = true) (hc : ¬ WritesRows (.call c reply)) (ha : attempted (.call c reply) = some m) :
    Swallows row m (sdkResult r) h₀ (h ++ [.call c reply]) := by
  have htries : Tries (attempts row m) h₀ (h ++ [.call c reply]) := by
    have h' := ht.trans (Tries.event hc)
    rw [ha] at h'
    rw [attempts, if_pos hmode]
    exact h'
  exact ⟨⟨.inl htries, notUser_sdkResult r⟩, fun _ _ _ => htries⟩

theorem swallows_raise {e : Exn} {h₀ h : Trace sdk} (ht : Tries [] h₀ h)
    (he : NotUser e ∧ e.isSettlementFailure = false) : Swallows row m (.error e) h₀ h := by
  refine ⟨⟨.inr ⟨ht, e, rfl⟩, ?_⟩, ?_⟩
  · rintro _ ⟨⟩
    exact he.1
  · rintro _ ⟨⟩ hs
    rw [he.2] at hs
    exact absurd hs Bool.false_ne_true

/-- A tally after the settle call changes nothing of it. -/
theorem wp_settleThen (c : Call) (result : Reply c → Except Fault Unit) {after : Run Unit}
    (hafter : ∀ s h, Wp Recorded after (fun r _ h' => r = .ok () ∧ h' = h) s h) (hmode : row.mode.holdsLocks = true)
    (hc : ∀ reply, ¬ WritesRows (.call c reply)) (ha : ∀ reply, attempted (.call c reply) = some m) {s : RunState}
    {h₀ h : Trace sdk} (ht : Tries [] h₀ h) :
    Wp Recorded (do Prog.request (S := sdk) c (fun reply => sdkResult (result reply)); after)
      (fun r _ h' => Swallows row m r h₀ h') s h := by
  rw [wp_bind, wp_request]
  rintro reply _ ⟨-, rfl⟩
  have hsw := swallows_settleCall (r := result reply) ht hmode (hc reply) (ha reply)
  cases hres : result reply with
  | error f =>
    rw [hres] at hsw
    exact hsw
  | ok _ =>
    rw [hres] at hsw
    refine (hafter s _).mono ?_
    rintro _ s' _ ⟨rfl, rfl⟩
    exact hsw

theorem wp_modeSettle (receiver : Handle) (bodyBytes : ℕ) {s : RunState} {h₀ h : Trace sdk} (ht : Tries [] h₀ h) :
    Wp Recorded (modeSettle row receiver m bodyBytes) (fun r _ h' => Swallows row m r h₀ h') s h := by
  have hidle : row.mode.holdsLocks = false → Swallows row m (.ok ()) h₀ h := by
    intro hmode
    have hnone : attempts row m = [] := by simp [attempts, hmode]
    refine ⟨⟨.inl (by rw [hnone]; exact ht), ?_⟩, ?_⟩ <;> rintro _ ⟨⟩
  have htally : ∀ (change : RunStats → RunStats) s h,
      Wp Recorded (tally change) (fun r _ h' => r = .ok () ∧ h' = h) s h :=
    fun change s h => wp_modify.mpr ⟨rfl, rfl⟩
  unfold modeSettle
  cases hmode : row.mode with
  | complete =>
    have hlocks : row.mode.holdsLocks = true := by rw [hmode]; rfl
    have hcomplete : ∀ s h, Tries [] h₀ h → Wp Recorded (do
        completeMessage receiver m
        tally fun stats => { stats with completed := stats.completed + 1 })
          (fun r _ h' => Swallows row m r h₀ h') s h :=
      fun s h ht => wp_settleThen (.completeMessage receiver m) id (htally _) hlocks (fun _ => id) (fun _ => rfl) ht
    dsimp only
    rw [completeSettle, wp_bind, wp_get, onOk_ok, wp_bind, wp_when]
    refine ⟨fun _ => ?_, fun _ => hcomplete s h ht⟩
    rw [wp_bind]
    refine (wp_armWriteAlways_tries s h).mono fun r s' h' hr => ?_
    have ht' : Tries [] h₀ h' := ht.trans hr.1
    cases r with
    | error e => exact swallows_raise ht' (hr.2 e rfl)
    | ok _ =>
      rw [onOk_ok, wp_modify]
      exact hcomplete _ h' ht'
  | deferCommit =>
    have hlocks : row.mode.holdsLocks = true := by rw [hmode]; rfl
    refine wp_settleThen (.deferMessage receiver m) id (fun s h => ?_) hlocks (fun _ => id) (fun _ => rfl) ht
    exact wp_bind.mpr (wp_modify.mpr (htally _ _ h))
  | receiveAndDelete =>
    refine (htally _ s h).mono ?_
    rintro _ s' _ ⟨rfl, rfl⟩
    exact hidle (by rw [hmode]; rfl)
  | peek => exact wp_pure.mpr (hidle (by rw [hmode]; rfl))

/-- Settling a message attempts it once, or raises before that. -/
theorem wp_settle (receiver : Handle) (bodyBytes : ℕ) (s : RunState) (h : Trace sdk) :
    Wp Recorded (settle row receiver m bodyBytes) (fun r _ h' => SettleEnd row m r h h') s h := by
  refine wp_safeSettle ?_
  rw [wp_bind, wp_when]
  refine ⟨fun hlocks => ?_, fun _ => wp_modeSettle receiver bodyBytes .refl⟩
  rw [wp_bind, utcNow, wp_perform]
  rintro now _ ⟨-, rfl⟩
  have ht : Tries [] h (h ++ [.call .utcNow now]) := Tries.refl.idle id rfl
  rw [onOk_ok, renewIfNeeded, wp_when]
  refine ⟨fun _ => ?_, fun _ => wp_modeSettle receiver bodyBytes ht⟩
  rw [renewMessageLock, wp_request]
  rintro reply _ ⟨-, rfl⟩
  cases reply with
  | error f =>
    have ha : attempted (.call (.renewMessageLock receiver m) (.error f)) = some m := rfl
    have hsw := swallows_settleCall (r := .error f) ht hlocks id ha
    exact hsw
  | ok _ => exact wp_modeSettle receiver bodyBytes (ht.idle id rfl)

/-- Settling leaves the policy alone. -/
theorem keeps_settle_unreadable {B : Type} {R : Event sdk → B → B → Prop} (handler : UnreadableHandler)
    (receiver : Handle) (message : Message) (bodyBytes : ℕ) :
    Keeps R (fun s _ => s.unreadable = handler) (settle row receiver message bodyBytes) := by
  have hF : StillFrame R (fun s (_ : B) => s.unreadable = handler) := {
    stats := fun _ _ hI => hI
    still := fun _ _ _ _ _ _ hI => hI }
  have hcall : ∀ {c : Call} {α : Type} {result : Reply c → Except Exn α},
      Keeps R (fun s _ => s.unreadable = handler) (Prog.request (S := sdk) c result : Run α) :=
    keeps_request fun _ _ _ _ _ hI => hI
  have harm : Keeps R (fun s _ => s.unreadable = handler) armWriteAlways := by
    refine keeps_bind keeps_get fun s => keeps_ite (fun _ => keeps_pure) fun _ => ?_
    cases s.output.definition with
    | none => exact keeps_throw
    | some definition => exact keeps_bind (keeps_modify fun _ _ hI => hI) fun _ => hcall
  refine keeps_settle hF (fun _ _ => hcall) ?_ ?_ receiver message bodyBytes
  · intro _ receiver message
    refine keeps_bind keeps_get fun s => ?_
    refine keeps_bind (keeps_when (keeps_bind harm fun _ => keeps_modify fun _ _ hI => hI)) fun _ => ?_
    refine keeps_bind hcall fun _ => keeps_tally hF _
  · intro _ receiver message bodyBytes
    exact keeps_bind hcall fun _ => keeps_bind (keeps_modify fun _ _ hI => hI) fun _ => keeps_tally hF _

/-- Settling messages one after the other attempts each of them, in order, until one raises. -/
theorem wp_settleAll (receiver : Handle) (readable : List (Message × ℕ)) (s : RunState) (h : Trace sdk) :
    Wp Recorded (readable.forM fun r => settle row receiver r.1 r.2) (fun r _ h' =>
      (∃ ms, Tries ms h h' ∧ ms <+: (readable.map Prod.fst).flatMap (attempts row)) ∧
      (∀ e, r = .error e → NotUser e) ∧
      (r = .ok () → Tries ((readable.map Prod.fst).flatMap (attempts row)) h h')) s h := by
  refine Wp.forM (fun left _ h' => ∃ done, readable = done ++ left ∧
    Tries ((done.map Prod.fst).flatMap (attempts row)) h h') ?_ ?_ ⟨[], rfl, .refl⟩
  · rintro r left s' h' ⟨done, hdone, ht⟩
    have hsplit : (readable.map Prod.fst).flatMap (attempts row) = (done.map Prod.fst).flatMap (attempts row) ++
        (attempts row r.1 ++ (left.map Prod.fst).flatMap (attempts row)) := by
      simp [hdone]
    refine (wp_settle receiver r.2 s' h').mono fun res s'' h'' hend => ?_
    cases res with
    | ok _ =>
      have htry : Tries (attempts row r.1) h' h'' := by
        rcases hend.tries with htry | ⟨-, e, he⟩
        · exact htry
        · cases he
      refine ⟨done ++ [r], by simp [hdone], ?_⟩
      have := ht.trans htry
      simpa using this
    | error e =>
      refine ⟨?_, hend.raised, by rintro ⟨⟩⟩
      rw [hsplit]
      rcases hend.tries with htry | ⟨htry, -⟩
      · exact ⟨_, ht.trans htry, by simp⟩
      · exact ⟨_, ht.trans htry, by simp⟩
  · rintro s' h' ⟨done, hdone, ht⟩
    obtain rfl : readable = done := by simpa using hdone
    refine ⟨⟨_, ht, List.prefix_refl _⟩, ?_, fun _ => ht⟩
    rintro _ ⟨⟩

end Settling

/-! ### The whole batch -/

section Process

variable {row : Row}

/-- The records of some rows, as some registry of the run splits them. -/
def RowRecords (row : Row) (rows : List OutputRow) (records : List Record) : Prop :=
  ∃ registry, rows.mapM (rowRecord row registry) = .ok records

/-- The messages a batch settles: the readable ones, in order. -/
def settled (row : Row) (judged : List Judged) : List Message :=
  ((judged.filterMap readable?).map Prod.fst).flatMap (attempts row)

/-- The three phases of a batch: the policy, one write, and the settle attempts. -/
structure Phases (row : Row) (judged : List Judged) (mapping writing settling : Trace sdk) : Prop where
  handles : ∀ e ∈ mapping, Handles e
  writes : writing = [] ∧ settling.filterMap attempted = [] ∨
    ∃ records reply, writing = [.call (.writeRows records) reply] ∧
      RowRecords row (judged.filterMap rowOf?) records ∧ (settling.filterMap attempted ≠ [] → reply = .ok ())
  settles : ∀ e ∈ settling, ¬ WritesRows e
  tries : settling.filterMap attempted <+: settled row judged

/-- The batch went through all of them. -/
structure Through (row : Row) (judged : List Judged) (writing settling : Trace sdk) : Prop where
  written : judged.filterMap rowOf? ≠ [] → ∃ records, writing = [.call (.writeRows records) (.ok ())]
  tries : settling.filterMap attempted = settled row judged

/-- What processing a batch does to the history and to what the policy remembers. -/
def Processed (row : Row) (messages : List Message) (s : RunState) (h : Trace sdk) (r : Except Exn BatchResult)
    (s' : RunState) (h' : Trace sdk) : Prop :=
  ∃ t mapping writing settling, h' = h ++ (mapping ++ writing ++ settling) ∧
    Phases row (judge row t s.registry messages) mapping writing settling ∧
    ((∀ e, r = .error e → e.isUser = true) → Through row (judge row t s.registry messages) writing settling ∧
      (LeftNoted s h → LeftNoted s' h' ∧
        ∀ m ∈ (judge row t s.registry messages).filterMap unreadable?, Noted m.sequenceNumber h'))

theorem notUser_rowRecord {registry : Option FlattenRegistry} {output : OutputRow} {e : Exn}
    (h : rowRecord row registry output = .error e) : NotUser e := by
  unfold rowRecord at h
  split at h
  · split at h
    · cases h
      rfl
    · dsimp only at h
      split at h
      · rename_i e' _
        cases h
        cases e' <;> rfl
      · cases h
  · cases h

theorem notUser_mapM_rowRecord {registry : Option FlattenRegistry} {rows : List OutputRow} {e : Exn}
    (h : rows.mapM (rowRecord row registry) = .error e) : NotUser e := by
  induction rows with
  | nil => cases h
  | cons output rows ih =>
    rw [List.mapM_cons] at h
    cases hr : rowRecord row registry output with
    | error e' =>
      rw [hr] at h
      cases h
      exact notUser_rowRecord hr
    | ok record =>
      rw [hr] at h
      cases hrs : rows.mapM (rowRecord row registry) with
      | error e' =>
        rw [hrs] at h
        cases h
        exact ih hrs
      | ok records =>
        rw [hrs] at h
        cases h

/-- Writing makes one call, where there are records at all. -/
theorem wp_writeRows (rows : List OutputRow) (s : RunState) (h : Trace sdk) :
    Wp Recorded (writeRows row rows) (fun r s' h' => s' = s ∧
      ((h' = h ∧ ∃ e, r = .error e ∧ NotUser e) ∨ ∃ records reply, h' = h ++ [.call (.writeRows records) reply] ∧
        RowRecords row rows records ∧ r = fileResult reply)) s h := by
  rw [writeRows, wp_bind, wp_get, onOk_ok, wp_bind, wp_when]
  refine ⟨fun _ => wp_throw.mpr ⟨rfl, .inl ⟨rfl, _, rfl, rfl⟩⟩, fun _ => ?_⟩
  rw [onOk_ok, wp_bind, wp_ofExcept]
  cases hmap : rows.mapM (rowRecord row s.registry) with
  | error e => exact ⟨rfl, .inl ⟨rfl, e, rfl, notUser_mapM_rowRecord hmap⟩⟩
  | ok records =>
    rw [onOk_ok, wp_request]
    rintro reply _ ⟨-, rfl⟩
    exact ⟨rfl, .inr ⟨records, reply, rfl, ⟨s.registry, hmap⟩, rfl⟩⟩

/-- What a batch raises at its end comes after everything. -/
theorem wp_raiseAfterBatch (s : RunState) (h : Trace sdk) :
    Wp Recorded raiseAfterBatch (fun _ s' h' => s'.unreadable.left = s.unreadable.left ∧ h' = h) s h := by
  rw [raiseAfterBatch, raisePending, wp_bind, wp_bind, wp_get, onOk_ok, wp_bind, updateUnreadable, wp_modify, onOk_ok]
  have hrest : ∀ (overflow : Exn) (s' : RunState), s'.unreadable.left = s.unreadable.left → Wp Recorded (do
      let s ← get
      Prog.when ((s.registry.map FlattenRegistry.overflowed).getD false = true) (throw overflow)
      checkAbortShare : Run Unit) (fun _ s' h' => s'.unreadable.left = s.unreadable.left ∧ h' = h) s' h := by
    intro overflow s' hs
    rw [wp_bind, wp_get, onOk_ok, wp_bind, wp_when]
    refine ⟨fun _ => wp_throw.mpr ⟨hs, rfl⟩, fun _ => ?_⟩
    rw [onOk_ok, checkAbortShare, wp_bind, wp_get, onOk_ok, wp_when]
    exact ⟨fun _ => wp_throw.mpr ⟨hs, rfl⟩, fun _ => ⟨hs, rfl⟩⟩
  cases s.unreadable.pending with
  | none => exact wp_pure.mpr (hrest _ _ rfl)
  | some error => exact wp_throw.mpr ⟨rfl, rfl⟩

theorem length_filterMap_rowOf (judged : List Judged) :
    (judged.filterMap rowOf?).length = (judged.filterMap readable?).length := by
  induction judged with
  | nil => rfl
  | cons j judged ih =>
    obtain ⟨m, v⟩ := j
    rcases v with e | e | ⟨output, bodyBytes⟩ <;> simp [List.filterMap_cons, ih]

/-- Nothing to write, nothing to settle. -/
theorem settled_eq_nil {judged : List Judged} (h : judged.filterMap rowOf? = []) : settled row judged = [] := by
  have hlength := length_filterMap_rowOf judged
  rw [h, List.length_nil] at hlength
  rw [settled, List.length_eq_zero_iff.mp hlength.symm]
  rfl

/-- The write of a batch: none for no rows, else one that returned. -/
def WroteRows (row : Row) (rows : List OutputRow) (writing : Trace sdk) : Prop :=
  rows = [] ∧ writing = [] ∨
    ∃ records, writing = [.call (.writeRows records) (.ok ())] ∧ RowRecords row rows records

/-- Settling and the errors of the batch's own, once the batch is written. -/
theorem wp_settleAndRaise (receiver : Handle) (messages : List Message) (t : Time) (draft : Draft)
    (result : BatchResult) {s₀ s : RunState} {h₀ : Trace sdk} {mapping writing : Trace sdk}
    (hmapping : ∀ e ∈ mapping, Handles e)
    (hreadable : draft.readable = (judge row t s₀.registry messages).filterMap readable?)
    (hwriting : WroteRows row ((judge row t s₀.registry messages).filterMap rowOf?) writing)
    (hnoted : LeftNoted s₀ h₀ → LeftNoted s (h₀ ++ (mapping ++ writing)) ∧
      ∀ m ∈ (judge row t s₀.registry messages).filterMap unreadable?,
        Noted m.sequenceNumber (h₀ ++ (mapping ++ writing))) :
    Wp Recorded (do
      draft.readable.forM fun readable => settle row receiver readable.1 readable.2
      raiseAfterBatch
      pure result) (Processed row messages s₀ h₀) s (h₀ ++ (mapping ++ writing)) := by
  have hkeep : Keeps Recorded (fun s' (_ : Trace sdk) => s'.unreadable = s.unreadable)
      (draft.readable.forM fun readable => settle row receiver readable.1 readable.2) :=
    keeps_forM fun readable _ => keeps_settle_unreadable s.unreadable receiver readable.1 readable.2
  refine wp_bind.mpr (((wp_settleAll receiver draft.readable s _).and (hkeep s _ rfl)).mono ?_)
  rintro r s₁ h₁ ⟨⟨⟨_, ⟨settling, rfl, hidle, rfl⟩, hprefix⟩, hraised, hall⟩, hleft⟩
  rw [hreadable] at hprefix hall
  have hphases : Phases row (judge row t s₀.registry messages) mapping writing settling := by
    refine ⟨hmapping, ?_, hidle, hprefix⟩
    rcases hwriting with ⟨hrows, rfl⟩ | ⟨records, rfl, hrecords⟩
    · refine .inl ⟨rfl, ?_⟩
      have hnil : settled row (judge row t s₀.registry messages) = [] := settled_eq_nil hrows
      rw [← settled, hnil] at hprefix
      exact List.prefix_nil.mp hprefix
    · exact .inr ⟨records, .ok (), rfl, hrecords, fun _ => rfl⟩
  have hassoc : h₀ ++ (mapping ++ writing) ++ settling = h₀ ++ (mapping ++ writing ++ settling) := by simp
  cases r with
  | error e =>
    refine ⟨t, mapping, writing, settling, hassoc, hphases, fun huser => ?_⟩
    have hnot := hraised e rfl
    rw [NotUser, huser e rfl] at hnot
    exact absurd hnot.symm Bool.false_ne_true
  | ok _ =>
    obtain ⟨settling', heq, -, htries⟩ := hall rfl
    obtain rfl : settling = settling' := List.append_cancel_left heq
    have hend : ∀ (r : Except Exn BatchResult) (s₂ : RunState), s₂.unreadable.left = s₁.unreadable.left →
        Processed row messages s₀ h₀ r s₂ (h₀ ++ (mapping ++ writing) ++ settling) := by
      intro r s₂ hs₂
      refine ⟨t, mapping, writing, settling, hassoc, hphases, fun _ => ⟨⟨?_, htries⟩, fun hl => ?_⟩⟩
      · intro hrows
        rcases hwriting with ⟨hnil, -⟩ | ⟨records, hw, -⟩
        · exact absurd hnil hrows
        · exact ⟨records, hw⟩
      · obtain ⟨hs, hms⟩ := hnoted hl
        refine ⟨?_, fun m hm => (hms m hm).append settling⟩
        intro q hq
        rw [hs₂, hleft] at hq
        exact (hs q hq).append settling
    refine wp_bind.mpr ((wp_raiseAfterBatch s₁ _).mono ?_)
    rintro r s₂ _ ⟨hs₂, rfl⟩
    cases r with
    | error e => exact hend _ s₂ hs₂
    | ok _ => exact wp_pure.mpr (hend _ s₂ hs₂)

/-- One batch: it is judged, written in one call and settled in order; an error of the batch's own comes
only after that. -/
theorem wp_process (receiver : Handle) (messages : List Message) (generation : ℕ) (s : RunState) (h : Trace sdk) :
    Wp Recorded (process row receiver messages generation) (Processed row messages s h) s h := by
  rw [process, wp_bind, utcNow, wp_perform]
  rintro t _ ⟨-, rfl⟩
  rw [onOk_ok, wp_bind]
  refine (wp_mapBatch receiver t generation messages s _).mono ?_
  have hraise : ∀ {e : Exn} {s' : RunState} {mapping writing : Trace sdk}, NotUser e → (∀ e ∈ mapping, Handles e) →
      (writing = [] ∨ ∃ records reply, writing = [.call (.writeRows records) reply] ∧
        RowRecords row ((judge row t s.registry messages).filterMap rowOf?) records) →
      Processed row messages s h (.error e) s' (h ++ (mapping ++ writing)) := by
    intro e s' mapping writing he hmapping hwriting
    refine ⟨t, mapping, writing, [], by simp, ⟨hmapping, ?_, by simp, by simp⟩, fun huser => ?_⟩
    · rcases hwriting with rfl | ⟨records, reply, rfl, hrecords⟩
      · exact .inl ⟨rfl, rfl⟩
      · exact .inr ⟨records, reply, rfl, hrecords, fun hne => absurd rfl hne⟩
    · rw [NotUser, huser e rfl] at he
      exact absurd he.symm Bool.false_ne_true
  have hclock : ∀ {es : Trace sdk}, (∀ e ∈ es, Handles e) → ∀ e ∈ .call .utcNow t :: es, Handles e := by
    intro es hes e he
    rcases List.mem_cons.mp he with rfl | he
    · exact .inl trivial
    · exact hes e he
  have hassoc : ∀ es writing : Trace sdk,
      h ++ [.call .utcNow t] ++ es ++ writing = h ++ (.call .utcNow t :: es ++ writing) := by
    simp
  rintro r s₁ h₁ ⟨hmapraise, hmap⟩
  cases r with
  | error e =>
    obtain ⟨he, es, rfl, hes⟩ := hmapraise e rfl
    rw [← List.append_nil (h ++ _ ++ es), hassoc]
    exact hraise he (hclock hes) (.inl rfl)
  | ok draft =>
    obtain ⟨⟨es, rfl, hes⟩, hrows, hreadable, hnoted⟩ := hmap draft rfl
    simp only [judge, List.filterMap_nil, List.append_nil, List.not_mem_nil, or_false] at hrows hreadable hnoted
    have hnoted' : ∀ writing, LeftNoted s h → LeftNoted s₁ (h ++ (.call .utcNow t :: es ++ writing)) ∧
        ∀ m ∈ (judge row t s.registry messages).filterMap unreadable?,
          Noted m.sequenceNumber (h ++ (.call .utcNow t :: es ++ writing)) := by
      intro writing hl
      obtain ⟨hs₁, hms⟩ := hnoted (hl.append _)
      rw [← hassoc]
      exact ⟨hs₁.append writing, fun m hm => (hms m hm).append writing⟩
    rw [onOk_ok, wp_bind, wp_when]
    constructor
    · intro hne
      rw [wp_bind]
      refine (wp_writeRows draft.rows s₁ _).mono ?_
      rintro r s₂ h₂ ⟨rfl, hr⟩
      rw [hrows] at hr
      rcases hr with ⟨rfl, e, rfl, he⟩ | ⟨records, reply, rfl, hrecords, rfl⟩
      · rw [← List.append_nil (h ++ _ ++ es), hassoc]
        exact hraise he (hclock hes) (.inl rfl)
      · rw [hassoc]
        rcases reply with f | _
        · exact hraise rfl (hclock hes) (.inr ⟨records, _, rfl, hrecords⟩)
        · rw [fileResult_ok, onOk_ok, tally, wp_modify]
          exact wp_settleAndRaise receiver messages t draft _ (hclock hes) hreadable (.inr ⟨records, rfl, hrecords⟩)
            (hnoted' _)
    · intro hnil
      have hnil' : (judge row t s.registry messages).filterMap rowOf? = [] := by
        rw [← hrows]
        exact not_not.mp hnil
      rw [onOk_ok, ← List.append_nil (h ++ _ ++ es), hassoc]
      exact wp_settleAndRaise receiver messages t draft _ (hclock hes) hreadable (.inl ⟨hnil', rfl⟩) (hnoted' _)

end Process

end ServiceBusExtractor
