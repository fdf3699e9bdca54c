import ServiceBusExtractor.Frame

/-!
# What the commit deletes

The commit asks the broker to delete numbers of the stored pending set and no
others, and it forgets none of them: each is deleted, or found missing when it is
asked for alone, or carried, or given up with its whole entity and a warning.

## The model

* `receiverOf h receiver` — the entity and the profile the receiver was made with.
* `Asks` — a deferred receive on a receive_and_delete receiver; `AsksListed` — it
  asks for numbers of the pending set only.
* `Deleted`, `NotFoundAlone`, `Refused` — what a history shows of a number or of an
  entity.
* `Committed` — where the deferrals of a pending set are after its commit.

## What is proved

`wp_runCommit`: one lemma for each function of the commit, up to the whole.
-/

namespace ServiceBusExtractor

open Interaction

/-! ### What a history shows -/

/-- The receiver that a returned call made. -/
def receiverMade : Event sdk → Option (Handle × EntityRef × ReceiverProfile)
  | .call (.getReceiver _ entity profile) (.ok receiver) => some (receiver, entity, profile)
  | _ => none

/-- What is known of a receiver after one more event. -/
def noteReceiver (receiver : Handle) (found : Option (EntityRef × ReceiverProfile)) (e : Event sdk) :
    Option (EntityRef × ReceiverProfile) :=
  match receiverMade e with
  | some (made, opened) => if made = receiver then some opened else found
  | none => found

/-- The entity and the profile of the last call that returned the handle. -/
def receiverOf (h : Trace sdk) (receiver : Handle) : Option (EntityRef × ReceiverProfile) :=
  h.foldl (noteReceiver receiver) none

/-- The event is a deferred receive of these numbers on a receive_and_delete receiver of the entity. -/
def Asks (h : Trace sdk) (entity : EntityRef) (seqs : List ℤ) (reply : Except Fault (List Message)) (e : Event sdk) :
    Prop :=
  ∃ receiver timeout profile, e = .call (.receiveDeferredMessages receiver seqs timeout) reply ∧
    receiverOf h receiver = some (entity, profile) ∧ profile.receiveMode = .receiveAndDelete

/-- Such a call returned: the broker deleted the number. -/
def Deleted (h : Trace sdk) (entity : EntityRef) (q : ℤ) : Prop :=
  Once (fun before e => ∃ seqs messages, Asks before entity seqs (.ok messages) e ∧ q ∈ seqs) h

/-- Such a call, for this number alone, did not find it. -/
def NotFoundAlone (h : Trace sdk) (entity : EntityRef) (q : ℤ) : Prop :=
  Once (fun before e => ∃ fault, Asks before entity [q] (.error fault) e ∧
    (Exn.fault fault).isKind .messageNotFound = true) h

/-- Opening a receiver failed because the entity is gone or cannot be read, by the scope of the connection string
too. -/
def Fault.refusesOpening : Fault → Bool
  | .valueError _ | .alreadySettled _ => true
  | fault => (Exn.fault fault).isStale

/-- The event shows that the entity is gone or cannot be read. -/
def Refuses (entity : EntityRef) (h : Trace sdk) : Event sdk → Prop
  | .call (.getReceiver _ ref _) (.error fault) => ref = entity ∧ fault.refusesOpening = true
  | .call (.enterReceiver receiver) (.error fault) | .call (.closeReceiver receiver) (.error fault)
  | .call (.receiveDeferredMessages receiver _ _) (.error fault) =>
    (receiverOf h receiver).map Prod.fst = some entity ∧ (Exn.fault fault).isStale = true
  | _ => False

def Refused (h : Trace sdk) (entity : EntityRef) : Prop := Once (Refuses entity) h

/-- The pending set has the number on the entity, in some session. -/
def Listed (pending : List PendingEntity) (entity : EntityRef) (q : ℤ) : Prop :=
  ∃ sessionId, Pending ⟨entity, sessionId, q⟩ pending

/-- Whatever the event asks to be deleted is in the pending set. -/
def AsksListed (pending : List PendingEntity) (h : Trace sdk) (e : Event sdk) : Prop :=
  ∀ entity seqs reply, Asks h entity seqs reply e → ∀ q ∈ seqs, Listed pending entity q

/-- The number is gone from the entity. -/
def Gone (h : Trace sdk) (entity : EntityRef) (q : ℤ) : Prop := Deleted h entity q ∨ NotFoundAlone h entity q

section History

variable {h h' : Trace sdk} {e : Event sdk} {entity : EntityRef} {receiver : Handle} {q : ℤ}
  {pending : List PendingEntity}

theorem receiverOf_concat : receiverOf (h ++ [e]) receiver = noteReceiver receiver (receiverOf h receiver) e := by
  rw [receiverOf, List.foldl_append]
  rfl

theorem receiverOf_made {opened : EntityRef × ReceiverProfile} (he : receiverMade e = some (receiver, opened)) :
    receiverOf (h ++ [e]) receiver = some opened := by
  rw [receiverOf_concat, noteReceiver, he]
  exact if_pos rfl

theorem receiverOf_idle (he : receiverMade e = none) : receiverOf (h ++ [e]) receiver = receiverOf h receiver := by
  rw [receiverOf_concat, noteReceiver, he]

theorem Gone.along (hg : Gone h entity q) (hp : h <+: h') : Gone h' entity q :=
  hg.imp (fun hd => hd.along hp) fun hn => hn.along hp

/-- An event that is no deferred receive asks for nothing. -/
theorem asksListed_of_not (he : ∀ receiver seqs timeout reply,
    e ≠ .call (.receiveDeferredMessages receiver seqs timeout) reply) : AsksListed pending h e := by
  rintro entity seqs reply ⟨receiver, timeout, profile, rfl, -, -⟩
  exact absurd rfl (he receiver seqs timeout reply)

theorem asksListed_of_quiet (he : Quiet e) : AsksListed pending h e := by
  refine asksListed_of_not ?_
  rintro receiver seqs timeout reply rfl
  exact Bool.false_ne_true he

end History

/-! ### One receiver -/

/-- A receive_and_delete receiver of the entity is open, and nothing but the pending set was asked for. -/
structure Attached (pending : List PendingEntity) (ref : EntityRef) (receiver : Handle) (h : Trace sdk) : Prop where
  listed : Always (AsksListed pending) h
  opened : ∃ profile, receiverOf h receiver = some (ref, profile) ∧ profile.receiveMode = .receiveAndDelete

/-- How a deferred receive ends. -/
def ReceiveEnd (ref : EntityRef) (seqs : List ℤ) (h : Trace sdk) : Except Exn (List Message) → Prop
  | .ok _ => ∀ q ∈ seqs, Deleted h ref q
  | .error e => (e.isKind .messageNotFound = true → ∀ q, seqs = [q] → NotFoundAlone h ref q) ∧
    (e.isStale = true → Refused h ref)

section Receiver

variable {W : Type} {w : W} {pending : List PendingEntity} {ref : EntityRef} {receiver : Handle} {h : Trace sdk}
  {seqs : List ℤ}

theorem Attached.event (hA : Attached pending ref receiver h) {e : Event sdk} (hmade : receiverMade e = none)
    (hask : AsksListed pending h e) : Attached pending ref receiver (h ++ [e]) := by
  refine ⟨always_concat.mpr ⟨hA.listed, hask⟩, ?_⟩
  rw [receiverOf_idle hmade]
  exact hA.opened

theorem Attached.receiver_eq (hA : Attached pending ref receiver h) :
    (receiverOf h receiver).map Prod.fst = some ref := by
  obtain ⟨profile, hopened, -⟩ := hA.opened
  rw [hopened]
  rfl

/-- One deferred receive on the receiver. -/
theorem wp_receiveDeferred (hA : Attached pending ref receiver h) (hseqs : ∀ q ∈ seqs, Listed pending ref q)
    (timeout : ℤ) : Wp Recorded (receiveDeferredMessages receiver seqs timeout)
      (fun r w' h' => (w' = w ∧ Attached pending ref receiver h') ∧ ReceiveEnd ref seqs h' r) w h := by
  obtain ⟨profile, hopened, hmode⟩ := hA.opened
  rw [receiveDeferredMessages, wp_request]
  rintro reply _ ⟨-, rfl⟩
  have hasks : Asks h ref seqs reply (.call (.receiveDeferredMessages receiver seqs timeout) reply) :=
    ⟨receiver, timeout, profile, rfl, hopened, hmode⟩
  have hlisted : AsksListed pending h (.call (.receiveDeferredMessages receiver seqs timeout) reply) := by
    rintro entity seqs' reply' ⟨receiver', timeout', profile', heq, hopened', -⟩ q hq
    cases heq
    rw [hopened] at hopened'
    cases hopened'
    exact hseqs q hq
  refine ⟨⟨rfl, hA.event rfl hlisted⟩, ?_⟩
  cases reply with
  | ok messages => exact fun q hq => once_last ⟨seqs, messages, hasks, hq⟩
  | error fault =>
    refine ⟨fun hnf q hq => ?_, fun hstale => once_last ⟨hA.receiver_eq, hstale⟩⟩
    subst hq
    exact once_last ⟨fault, hasks, hnf⟩

/-- Sleeping leaves the receiver alone. -/
theorem stillKeeps_attached : StillKeeps Recorded (fun w' h => w' = w ∧ Attached pending ref receiver h) := by
  rintro e w' h _ he ⟨-, rfl⟩ ⟨hw, hA⟩
  refine ⟨hw, hA.event ?_ (asksListed_of_quiet (quiet_of_still he))⟩
  rcases e with ⟨c, r⟩ | n
  · cases c <;> first | rfl | exact he.elim
  · rfl

/-- What each call of `fn` ends with, the last of them ends with. -/
theorem wp_withTransientRetry {α : Type} {I : W → Trace sdk → Prop} {Q : Except Exn α → W → Trace sdk → Prop}
    (hI : StillKeeps Recorded I) {fn : Program W α}
    (hfn : ∀ w h, I w h → Wp Recorded fn (fun r w h => I w h ∧ Q r w h) w h) (retryable : Exn → Bool) (delays : List ℤ)
    (h₀ : I w h) :
    Wp Recorded (withTransientRetry retryable fn delays) (fun r w h => I w h ∧ Q r w h) w h := by
  induction delays generalizing w h with
  | nil => exact hfn w h h₀
  | cons delay delays ih =>
    rw [withTransientRetry, wp_tryCatch]
    refine (hfn w h h₀).mono fun r w' h' hend => ?_
    cases r with
    | ok a => exact hend
    | error error =>
      refine wp_ite.mpr ⟨fun _ => ?_, fun _ => wp_throw.mpr hend⟩
      rw [sleep, wp_bind, wp_perform]
      intro _ h'' hR
      exact ih (hI (.call (.sleep (seconds delay)) _) w' h' h'' trivial hR hend.1)

/-- How the halving ends: each number is gone, or a call failed. -/
def BisectEnd (ref : EntityRef) (seqs : List ℤ) (h : Trace sdk) : Except Exn DeferredReceive → Prop
  | .ok _ => ∀ q ∈ seqs, Gone h ref q
  | .error e => e.isStale = true → Refused h ref

/-- Halving until each missing number fails alone. -/
theorem wp_bisect (sessionLocked : Bool) {halvings : ℕ} (hn : seqs.length ≤ halvings)
    (hseqs : ∀ q ∈ seqs, Listed pending ref q) (hA : Attached pending ref receiver h) :
    Wp Recorded (bisect receiver sessionLocked halvings seqs)
      (fun r w' h' => (w' = w ∧ Attached pending ref receiver h') ∧ BisectEnd ref seqs h' r) w h := by
  induction halvings generalizing seqs w h with
  | zero =>
    obtain rfl : seqs = [] := List.eq_nil_of_length_eq_zero (by omega)
    exact wp_pure.mpr ⟨⟨rfl, hA⟩, by simp [BisectEnd]⟩
  | succ halvings ih =>
    rw [bisect]
    refine wp_ite.mpr ⟨fun hnil => ?_, fun hne => ?_⟩
    · subst hnil
      exact wp_pure.mpr ⟨⟨rfl, hA⟩, by simp [BisectEnd]⟩
    · rw [wp_bind, wp_attempt]
      have hone : ∀ w' h', (w' = w ∧ Attached pending ref receiver h') →
          Wp Recorded (receiveDeferredMessages receiver seqs deferredReceiveTimeoutSeconds)
            (fun r w' h => (w' = w ∧ Attached pending ref receiver h) ∧ ReceiveEnd ref seqs h r) w' h' := by
        rintro w' h' ⟨rfl, hA'⟩
        exact wp_receiveDeferred hA' hseqs _
      refine (wp_withTransientRetry stillKeeps_attached hone _ _ ⟨rfl, hA⟩).mono ?_
      rintro r w' h' ⟨⟨rfl, hA'⟩, hend⟩
      cases r with
      | ok messages => exact wp_pure.mpr ⟨⟨rfl, hA'⟩, fun q hq => .inl (hend q hq)⟩
      | error error =>
        refine wp_ite.mpr ⟨fun hnf => wp_ite.mpr ⟨fun hone => ?_, fun hmany => ?_⟩, fun _ => ?_⟩
        · obtain ⟨q, rfl⟩ := List.length_eq_one_iff.mp hone
          refine wp_pure.mpr ⟨⟨rfl, hA'⟩, fun p hp => ?_⟩
          obtain rfl := List.mem_singleton.mp hp
          exact .inr (hend.1 hnf p rfl)
        · -- both halves are shorter, and each keeps what the other one showed
          have hpos : 0 < seqs.length := List.length_pos_of_ne_nil hne
          rw [wp_bind]
          refine (ih (by simp only [List.length_take]; omega)
            (fun q hq => hseqs q (List.mem_of_mem_take hq)) hA').mono ?_
          rintro r w₁ h₁ ⟨⟨rfl, hA₁⟩, hleft⟩
          cases r with
          | error e => exact ⟨⟨rfl, hA₁⟩, hleft⟩
          | ok left =>
            rw [onOk_ok, wp_bind]
            refine ((ih (by simp only [List.length_drop]; omega)
              (fun q hq => hseqs q (List.mem_of_mem_drop hq)) hA₁).and wp_extends).mono ?_
            rintro r w₂ h₂ ⟨⟨⟨rfl, hA₂⟩, hright⟩, hp⟩
            cases r with
            | error e => exact ⟨⟨rfl, hA₂⟩, hright⟩
            | ok right =>
              refine wp_pure.mpr ⟨⟨rfl, hA₂⟩, fun q hq => ?_⟩
              rw [← List.take_append_drop (seqs.length / 2) seqs, List.mem_append] at hq
              rcases hq with hq | hq
              · exact (hleft q hq).along hp
              · exact hright q hq
        · exact wp_throw.mpr ⟨⟨rfl, hA'⟩, hend.2⟩

end Receiver

/-! ### One group -/

/-- How opening a receiver ends. -/
def OpenEnd (pending : List PendingEntity) (ref : EntityRef) (h : Trace sdk) : Except Exn Handle → Prop
  | .ok receiver => Attached pending ref receiver h
  | .error e => e.isStale = true → Refused h ref

/-- The chunks still to delete: not empty, ascending, and of the pending set. -/
structure Chunks (pending : List PendingEntity) (ref : EntityRef) (rest : List (List ℤ)) : Prop where
  nonempty : ∀ chunk ∈ rest, chunk ≠ []
  ascending : rest.flatten.Pairwise (· < ·)
  listed : ∀ q ∈ rest.flatten, Listed pending ref q

/-- What is left of the group is in the chunks, and at or above the progress. -/
structure Deleting (pending : List PendingEntity) (ref : EntityRef) (group : PendingGroup) (receiver : Handle) (n : ℤ)
    (rest : List (List ℤ)) (c : CommitState) (h : Trace sdk) : Prop where
  attached : Attached pending ref receiver h
  covered : ∀ q, covers group.ranges q → q ∈ rest.flatten ∨ Gone h ref q
  ahead : ∀ q ∈ rest.flatten, 0 ≤ q → c.nextSeq ≤ q
  stale : c.run.stats.droppedStale = n

/-- How the deletion of a group ends. -/
structure GroupEnd (pending : List PendingEntity) (ref : EntityRef) (group : PendingGroup) (n : ℤ) (r : Except Exn Unit)
    (c : CommitState) (h : Trace sdk) : Prop where
  listed : Always (AsksListed pending) h
  stale : c.run.stats.droppedStale = n
  returned : r = .ok () → ∀ q, covers group.ranges q → Gone h ref q
  below : ∀ q, covers group.ranges q → 0 ≤ q → q < c.nextSeq → Gone h ref q
  raised : ∀ e, r = .error e → e.isStale = true → Refused h ref

section Group

variable {row : Row} {pending : List PendingEntity} {ref : EntityRef} {group : PendingGroup} {receiver : Handle} {n : ℤ}
  {c : CommitState} {h : Trace sdk}

theorem stillKeeps_listed : StillKeeps Recorded (fun c' h => c' = c ∧ Always (AsksListed pending) h) := by
  rintro e c' h _ he ⟨-, rfl⟩ ⟨hc, hl⟩
  exact ⟨hc, always_concat.mpr ⟨hl, asksListed_of_quiet (quiet_of_still he)⟩⟩

theorem listed_concat {e : Event sdk} (he : Quiet e) (hl : Always (AsksListed pending) h) :
    Always (AsksListed pending) (h ++ [e]) := always_concat.mpr ⟨hl, asksListed_of_quiet he⟩

/-- A receiver that cannot be entered is closed. -/
theorem wp_enterCommitReceiver (hA : Attached pending ref receiver h) :
    Wp Recorded (do
        tryCatch (enterReceiverCall receiver) fun error => do
          closeReceiver receiver
          throw error
        pure receiver : Commit Handle)
      (fun r c' h' => (c' = c ∧ Always (AsksListed pending) h') ∧ OpenEnd pending ref h' r) c h := by
  rw [wp_bind, wp_tryCatch, enterReceiverCall, wp_request]
  rintro reply _ ⟨-, rfl⟩
  have hA' := hA.event (e := .call (.enterReceiver receiver) reply) rfl (asksListed_of_quiet rfl)
  cases reply with
  | ok _ => exact wp_pure.mpr ⟨⟨rfl, hA'.listed⟩, hA'⟩
  | error fault =>
    have hfailed : (Exn.fault fault).isStale = true →
        Refused (h ++ [.call (.enterReceiver receiver) (.error fault)]) ref := fun hs => once_last ⟨hA.receiver_eq, hs⟩
    rw [sdkResult_error, onError_error, wp_bind, closeReceiver, wp_request]
    rintro reply _ ⟨-, rfl⟩
    have hl' := listed_concat (e := .call (.closeReceiver receiver) reply) rfl hA'.listed
    cases reply with
    | ok _ => exact wp_throw.mpr ⟨⟨rfl, hl'⟩, fun hs => (hfailed hs).along (List.prefix_append _ _)⟩
    | error fault => exact ⟨⟨rfl, hl'⟩, fun hs => once_last ⟨hA'.receiver_eq, hs⟩⟩

theorem wp_openCommitReceiver (client : Handle) (session : Option String) (hl : Always (AsksListed pending) h) :
    Wp Recorded (openCommitReceiver row client ref session)
      (fun r c' h' => (c' = c ∧ Always (AsksListed pending) h') ∧ OpenEnd pending ref h' r) c h := by
  unfold openCommitReceiver openReceiver
  rw [wp_bind, wp_request]
  rintro reply _ ⟨-, rfl⟩
  cases reply with
  | error fault =>
    have hrefused : ∀ {profile}, fault.refusesOpening = true →
        Refused (h ++ [.call (.getReceiver client ref profile) (.error fault)]) ref := fun hr => once_last ⟨rfl, hr⟩
    cases fault <;> exact ⟨⟨rfl, listed_concat rfl hl⟩, fun hs => hrefused (by first | rfl | exact hs)⟩
  | ok receiver =>
    exact wp_enterCommitReceiver ⟨listed_concat rfl hl, _, receiverOf_made rfl, rfl⟩

/-- A chunk is deleted, and the progress moves past it; or a call failed, and nothing moved. -/
theorem wp_deleteChunk (sessionLocked : Bool) {chunk : List ℤ} {rest : List (List ℤ)}
    (hchunks : Chunks pending ref (chunk :: rest)) (hD : Deleting pending ref group receiver n (chunk :: rest) c h) :
    Wp Recorded (deleteChunk receiver sessionLocked chunk) (fun r c' h' =>
      (r = .ok () ∧ Deleting pending ref group receiver n rest c' h') ∨ (∃ e, r = .error e ∧
        Deleting pending ref group receiver n (chunk :: rest) c' h' ∧ (e.isStale = true → Refused h' ref))) c h := by
  rw [deleteChunk, receiveDeferredBisect, wp_bind]
  have hlisted : ∀ q ∈ chunk, Listed pending ref q := fun q hq => hchunks.listed q (by simp [hq])
  refine ((wp_bisect sessionLocked (Nat.le_refl _) hlisted hD.attached).and wp_extends).mono ?_
  rintro r c' h' ⟨⟨⟨rfl, hA⟩, hend⟩, hp⟩
  have hcovered : ∀ q, covers group.ranges q → q ∈ (chunk :: rest).flatten ∨ Gone h' ref q :=
    fun q hq => (hD.covered q hq).imp_right fun hg => hg.along hp
  cases r with
  | error e => exact .inr ⟨e, rfl, ⟨hA, hcovered, hD.ahead, hD.stale⟩, hend⟩
  | ok result =>
    rw [onOk_ok, wp_bind, onCommitRun, wp_embed, tally, wp_modify, onOk_ok, wp_modify]
    refine .inl ⟨rfl, hA, fun q hq => ?_, fun q hq _ => ?_, hD.stale⟩
    · rcases hcovered q hq with hq | hg
      · rw [List.flatten_cons, List.mem_append] at hq
        rcases hq with hq | hq
        · exact .inr (hend q hq)
        · exact .inl hq
      · exact .inr hg
    · have hne := hchunks.nonempty chunk (by simp)
      have hasc := hchunks.ascending
      rw [List.flatten_cons, List.pairwise_append] at hasc
      have hlast := hasc.2.2 _ (List.getLast_mem hne) q hq
      rw [List.getLastD_eq_getLast?, List.getLast?_eq_getLast_of_ne_nil hne]
      exact hlast

theorem Chunks.tail {chunk : List ℤ} {rest : List (List ℤ)} (hchunks : Chunks pending ref (chunk :: rest)) :
    Chunks pending ref rest := by
  refine ⟨fun c hc => hchunks.nonempty c (by simp [hc]), ?_, fun q hq => hchunks.listed q (by simp_all)⟩
  have hasc := hchunks.ascending
  rw [List.flatten_cons, List.pairwise_append] at hasc
  exact hasc.2.1

/-- How a run over the chunks ends. -/
def ChunksEnd (pending : List PendingEntity) (ref : EntityRef) (group : PendingGroup) (receiver : Handle) (n : ℤ)
    (r : Except Exn Unit) (c : CommitState) (h : Trace sdk) : Prop :=
  (r = .ok () ∧ Deleting pending ref group receiver n [] c h) ∨ ∃ e rest, r = .error e ∧
    Deleting pending ref group receiver n rest c h ∧ (e.isStale = true → Refused h ref)

theorem wp_deleteChunks {chunks : List (List ℤ)} (hchunks : Chunks pending ref chunks)
    (hD : Deleting pending ref group receiver n chunks c h) :
    Wp Recorded (deleteChunks receiver chunks) (ChunksEnd pending ref group receiver n) c h := by
  cases chunks with
  | nil => exact wp_pure.mpr (.inl ⟨rfl, hD⟩)
  | cons chunk rest =>
    rw [deleteChunks, wp_bind]
    refine (wp_deleteChunk true hchunks hD).mono ?_
    rintro r c' h' (⟨rfl, hD'⟩ | ⟨e, rfl, hD', hs⟩)
    · rw [onOk_ok]
      refine Wp.forM (fun rest c h => Chunks pending ref rest ∧ Deleting pending ref group receiver n rest c h)
        (fun chunk rest c h hI => ?_) (fun c h hI => .inl ⟨rfl, hI.2⟩) ⟨hchunks.tail, hD'⟩
      refine (wp_deleteChunk false hI.1 hI.2).mono ?_
      rintro r c' h' (⟨rfl, hD''⟩ | ⟨e, rfl, hD'', hs⟩)
      · exact ⟨hI.1.tail, hD''⟩
      · exact .inr ⟨e, _, rfl, hD'', hs⟩
    · exact .inr ⟨e, _, rfl, hD', hs⟩

/-- The chunks of a group of the pending set. -/
theorem chunks_of_group (hgroup : ∀ q, covers group.ranges q → Listed pending ref q) :
    Chunks pending ref (batched (commitChunkSize group.maxBodyBytes) (iterRanges group.ranges)) := by
  have hpos := commitChunkSize_pos group.maxBodyBytes
  refine ⟨fun chunk hchunk => ne_nil_of_mem_batched hpos hchunk, ?_, fun q hq => ?_⟩
  · rw [flatten_batched hpos]
    exact pairwise_iterRanges group.ranges
  · rw [flatten_batched hpos] at hq
    exact hgroup q (mem_iterRanges.mp hq)

/-- What the chunks left undeleted is at or above the progress. -/
theorem Deleting.below {rest : List (List ℤ)} (hD : Deleting pending ref group receiver n rest c h) {q : ℤ}
    (hq : covers group.ranges q) (hpos : 0 ≤ q) (hlt : q < c.nextSeq) : Gone h ref q := by
  rcases hD.covered q hq with hrest | hg
  · have := hD.ahead q hrest hpos
    omega
  · exact hg

/-- A group is deleted as far as the progress says. -/
theorem wp_deleteGroup (client : Handle) (hgroup : ∀ q, covers group.ranges q → Listed pending ref q)
    (hl : Always (AsksListed pending) h) (hnext : c.nextSeq = 0) (hn : c.run.stats.droppedStale = n) :
    Wp Recorded (deleteGroup row client ref group) (GroupEnd pending ref group n) c h := by
  have hopen : ∀ c' h', (c' = c ∧ Always (AsksListed pending) h') →
      Wp Recorded (openCommitReceiver row client ref group.sessionId)
        (fun r c' h => (c' = c ∧ Always (AsksListed pending) h) ∧ OpenEnd pending ref h r) c' h' := by
    rintro c' h' ⟨rfl, hl'⟩
    exact wp_openCommitReceiver client _ hl'
  have hpos := commitChunkSize_pos group.maxBodyBytes
  rw [deleteGroup, wp_bind]
  refine (wp_withTransientRetry stillKeeps_listed hopen _ _ ⟨rfl, hl⟩).mono ?_
  rintro r c' h' ⟨⟨rfl, hl'⟩, hend⟩
  cases r with
  | error e =>
    refine ⟨hl', hn, by rintro ⟨⟩, fun q _ h0 hlt => ?_, fun e' he hs => ?_⟩
    · omega
    · cases he
      exact hend hs
  | ok receiver =>
    rw [onOk_ok, wp_ensuring]
    have hD : Deleting pending ref group receiver n
        (batched (commitChunkSize group.maxBodyBytes) (iterRanges group.ranges)) c' h' := by
      refine ⟨hend, fun q hq => .inl ?_, fun q _ h0 => by omega, hn⟩
      rw [flatten_batched hpos]
      exact mem_iterRanges.mpr hq
    refine (wp_deleteChunks (chunks_of_group hgroup) hD).mono fun r c₁ h₁ hchunks => ?_
    rw [closeReceiver, wp_request]
    rintro reply _ ⟨-, rfl⟩
    have hp : h₁ <+: h₁ ++ [.call (.closeReceiver receiver) reply] := List.prefix_append _ _
    have hclosed : ∀ {rest}, Deleting pending ref group receiver n rest c₁ h₁ →
        Always (AsksListed pending) (h₁ ++ [.call (.closeReceiver receiver) reply]) := fun hD =>
      always_concat.mpr ⟨hD.attached.listed, asksListed_of_quiet rfl⟩
    have hshut : ∀ {rest fault}, Deleting pending ref group receiver n rest c₁ h₁ → reply = .error fault →
        (Exn.fault fault).isStale = true → Refused (h₁ ++ [.call (.closeReceiver receiver) reply]) ref := by
      rintro rest fault hD rfl hs
      exact once_last ⟨hD.attached.receiver_eq, hs⟩
    rcases hchunks with ⟨rfl, hD₁⟩ | ⟨e, rest, rfl, hD₁, hs⟩
    · have hall : ∀ q, covers group.ranges q → Gone (h₁ ++ [.call (.closeReceiver receiver) reply]) ref q :=
        fun q hq => ((hD₁.covered q hq).resolve_left (by simp)).along hp
      refine ⟨hclosed hD₁, hD₁.stale, fun _ => hall, fun q hq _ _ => hall q hq, fun e he hs => ?_⟩
      cases reply with
      | ok _ => cases he
      | error fault =>
        cases he
        exact hshut hD₁ rfl hs
    · refine ⟨hclosed hD₁, hD₁.stale, fun hr => ?_, fun q hq h0 hlt => (hD₁.below hq h0 hlt).along hp,
        fun e' he hs' => ?_⟩
      · cases reply <;> cases hr
      · cases reply with
        | ok _ =>
          cases he
          exact (hs hs').along hp
        | error fault =>
          cases he
          exact hshut hD₁ rfl hs'

end Group

/-! ### One entity -/

/-- Some group of the list has the number in the session. -/
def HasOne (groups : List PendingGroup) (sessionId : Option String) (q : ℤ) : Prop := ∃ g ∈ groups, g.Has sessionId q

/-- What a warning and the failed calls say of an entity whose groups were given up. -/
structure GivenUp (row : Row) (h : Trace sdk) (pe : PendingEntity) : Prop where
  foreign : pe.entity ≠ row.entity
  refused : Refused h pe.entity
  warned : .note (.warning (staleText pe.entity (countGroups pe.groups))) ∈ h

/-- Where the numbers of some groups of an entity are after their commit. -/
structure GroupsDone (row : Row) (ref : EntityRef) (groups carried dropped : List PendingGroup) (n : ℤ)
    (c : CommitState) (h : Trace sdk) : Prop where
  counted : c.run.stats.droppedStale = n + countGroups dropped
  kept : ∀ sessionId q, 0 ≤ q → HasOne groups sessionId q →
    HasOne carried sessionId q ∨ Gone h ref q ∨ HasOne dropped sessionId q
  carried : ∀ sessionId q, HasOne carried sessionId q → HasOne groups sessionId q
  dropped : dropped ≠ [] → GivenUp row h ⟨ref, dropped, ""⟩

section Entity

variable {row : Row} {pending : List PendingEntity} {ref : EntityRef} {group : PendingGroup}
  {rest carried : List PendingGroup} {n : ℤ} {c : CommitState} {h : Trace sdk}

theorem hasOne_cons {groups : List PendingGroup} {sessionId : Option String} {q : ℤ} :
    HasOne (group :: groups) sessionId q ↔ group.Has sessionId q ∨ HasOne groups sessionId q := by
  simp [HasOne]

theorem hasOne_append {groups groups' : List PendingGroup} {sessionId : Option String} {q : ℤ} :
    HasOne (groups ++ groups') sessionId q ↔ HasOne groups sessionId q ∨ HasOne groups' sessionId q := by
  simp [HasOne, or_and_right, exists_or]

/-- A warning of the commit is always logged. -/
theorem wp_commitWarn (key : WarningKey) (text : String) (s : RunState) (h : Trace sdk) :
    Wp Recorded (commitWarn key text) (fun r s' h' => r = .ok () ∧ s'.stats.droppedStale = s.stats.droppedStale ∧
      h' = h ++ [.note (.warning text)]) s h := by
  rw [commitWarn, wp_bind, wp_get, onOk_ok]
  refine wp_ite.mpr ⟨fun _ => ?_, fun hkey => ?_⟩
  · rw [wp_note]
    rintro _ ⟨-, rfl⟩
    exact ⟨rfl, rfl, rfl⟩
  · rw [warn, wp_bind, wp_get, onOk_ok, wp_when]
    refine ⟨fun _ => ?_, fun hnot => absurd hkey hnot⟩
    rw [wp_bind, tally, wp_modify, onOk_ok, wp_note]
    rintro _ ⟨-, rfl⟩
    exact ⟨rfl, rfl, rfl⟩

/-- How a group that failed is treated. -/
def FailureEnd (row : Row) (pending : List PendingEntity) (ref : EntityRef) (group : PendingGroup)
    (rest carried : List PendingGroup) (n : ℤ) (next : ℤ) (r : Except Exn (Option (List PendingGroup)))
    (c : CommitState) (h : Trace sdk) : Prop :=
  Always (AsksListed pending) h ∧ match r with
    | .ok (some carried') => carried' = carried ++ [group.tail next] ∧ c.run.stats.droppedStale = n
    | .ok none => GivenUp row h ⟨ref, group.tail next :: rest, ""⟩ ∧
      c.run.stats.droppedStale = n + countGroups (group.tail next :: rest)
    | .error _ => True

theorem wp_rethrow {error : Exn} {f : ServiceBusError → Exn} {c₀ : CommitState} (hl : Always (AsksListed pending) h) :
    Wp Recorded (match error.serviceBus? with
      | some sdkError => throw (f sdkError)
      | none => throw error : Commit (Option (List PendingGroup)))
      (FailureEnd row pending ref group rest carried n next) c₀ h := by
  cases error.serviceBus? with
  | none => exact wp_throw.mpr ⟨hl, trivial⟩
  | some _ => exact wp_throw.mpr ⟨hl, trivial⟩

theorem wp_afterGroupFailure {error : Exn} (hl : Always (AsksListed pending) h) (hn : c.run.stats.droppedStale = n)
    (hs : error.isStale = true → Refused h ref) :
    Wp Recorded (afterGroupFailure row ref group rest carried error)
      (FailureEnd row pending ref group rest carried n c.nextSeq) c h := by
  rw [afterGroupFailure, wp_bind, wp_get, onOk_ok]
  refine wp_ite.mpr ⟨fun _ => ?_,
    fun _ => wp_ite.mpr ⟨fun hstale => wp_ite.mpr ⟨fun _ => wp_rethrow hl, fun hforeign => ?_⟩,
    fun _ => wp_ite.mpr ⟨fun _ => wp_throw.mpr ⟨hl, trivial⟩, fun _ => wp_rethrow hl⟩⟩⟩
  · rw [wp_bind, onCommitRun, wp_embed, tally, wp_modify, onOk_ok, wp_pure]
    exact ⟨hl, rfl, hn⟩
  · rw [wp_bind, onCommitRun, wp_embed, dropStale, wp_bind, tally, wp_modify, onOk_ok]
    refine (wp_commitWarn _ _ _ _).mono ?_
    rintro r s' _ ⟨rfl, hcount, rfl⟩
    have hcounts : (group.tail c.nextSeq).count + countGroups rest = countGroups (group.tail c.nextSeq :: rest) := by
      rw [countGroups, countGroups, List.map_cons, List.sum_cons]
    rw [onOk_ok, wp_pure]
    refine ⟨listed_concat rfl hl, ⟨hforeign, (hs hstale).along (List.prefix_append _ _), ?_⟩, ?_⟩
    · rw [← hcounts]
      simp
    · rw [← hcounts, hcount, ← hn]

/-- The rest of the groups, once one of them is gone as far as `HasOne left` does not say. -/
theorem GroupsDone.of_rest {left carried' dropped : List PendingGroup} {c' : CommitState} {h' : Trace sdk}
    (hdone : GroupsDone row ref (carried ++ left ++ rest) carried' dropped n c' h')
    (hgone : ∀ sessionId q, 0 ≤ q → group.Has sessionId q → HasOne left sessionId q ∨ Gone h' ref q)
    (hleft : ∀ sessionId q, HasOne left sessionId q → group.Has sessionId q) :
    GroupsDone row ref (carried ++ group :: rest) carried' dropped n c' h' := by
  refine ⟨hdone.counted, fun sessionId q h0 hq => ?_, fun sessionId q hq => ?_, hdone.dropped⟩
  · have hkept := hdone.kept sessionId q h0
    rw [hasOne_append, hasOne_append] at hkept
    rw [hasOne_append, hasOne_cons] at hq
    rcases hq with hq | hq | hq
    · exact hkept (.inl (.inl hq))
    · rcases hgone sessionId q h0 hq with hq | hg
      · exact hkept (.inl (.inr hq))
      · exact .inr (.inl hg)
    · exact hkept (.inr hq)
  · have hcarried := hdone.carried sessionId q hq
    rw [hasOne_append, hasOne_append] at hcarried
    rw [hasOne_append, hasOne_cons]
    rcases hcarried with (hq | hq) | hq
    · exact .inl hq
    · exact .inr (.inl (hleft sessionId q hq))
    · exact .inr (.inr hq)

/-- How the commit of some groups ends. -/
def GroupsEnd (row : Row) (pending : List PendingEntity) (ref : EntityRef) (groups : List PendingGroup) (n : ℤ)
    (r : Except Exn (List PendingGroup)) (c : CommitState) (h : Trace sdk) : Prop :=
  Always (AsksListed pending) h ∧ ∀ carried, r = .ok carried →
    ∃ dropped, GroupsDone row ref groups carried dropped n c h

/-- The groups of an entity, one after the other: by induction on the groups that are left. -/
theorem wp_commitGroups (client : Handle) {groups : List PendingGroup}
    (hgroups : ∀ g ∈ groups, ∀ q, covers g.ranges q → Listed pending ref q) (hl : Always (AsksListed pending) h)
    (hn : c.run.stats.droppedStale = n) :
    Wp Recorded (commitGroups row client ref carried groups) (GroupsEnd row pending ref (carried ++ groups) n) c h := by
  induction groups generalizing carried c h with
  | nil =>
    refine wp_pure.mpr ⟨hl, ?_⟩
    rintro _ ⟨⟩
    refine ⟨[], by simp [countGroups, hn], fun _ _ _ hq => .inl (by simpa using hq), fun _ _ hq => by simpa using hq,
      ?_⟩
    exact fun hne => absurd rfl hne
  | cons group rest ih =>
    have hrest : ∀ g ∈ rest, ∀ q, covers g.ranges q → Listed pending ref q := fun g hg => hgroups g (by simp [hg])
    rw [commitGroups, wp_bind, wp_modify, onOk_ok, wp_bind, wp_attempt]
    have hfresh : ({ c with nextSeq := 0 } : CommitState).nextSeq = 0 := rfl
    refine (wp_deleteGroup client (hgroups group (by simp)) hl hfresh hn).mono fun r c₁ h₁ hend => ?_
    cases r with
    | ok _ =>
      refine ((ih hrest hend.listed hend.stale).and wp_extends).mono ?_
      rintro r c' h' ⟨⟨hl', hdone⟩, hp⟩
      refine ⟨hl', fun carried' hr => ?_⟩
      obtain ⟨dropped, hdone⟩ := hdone carried' hr
      refine ⟨dropped, GroupsDone.of_rest (by simpa using hdone : GroupsDone _ _ (carried ++ [] ++ _) _ _ _ _ _)
        (fun sessionId q h0 hq => ?_) ?_⟩
      · exact .inr ((hend.returned rfl q hq.2).along hp)
      · simp [HasOne]
    | error error =>
      rw [onOk_ok, wp_bind]
      refine ((wp_afterGroupFailure hend.listed hend.stale (hend.raised error rfl)).and wp_extends).mono ?_
      rintro r c₂ h₂ ⟨⟨hl₂, hfail⟩, hp₂⟩
      have hgone : ∀ {h'}, h₂ <+: h' → ∀ sessionId q, 0 ≤ q → group.Has sessionId q →
          (group.tail c₁.nextSeq).Has sessionId q ∨ Gone h' ref q := by
        intro h' hp sessionId q h0 hq
        rw [PendingGroup.has_tail]
        rcases lt_or_ge q c₁.nextSeq with hlt | hge
        · exact .inr ((hend.below q hq.2 h0 hlt).along (hp₂.trans hp))
        · exact .inl ⟨hq, hge⟩
      rcases r with e | _ | carried₂
      · exact ⟨hl₂, by rintro _ ⟨⟩⟩
      · refine wp_pure.mpr ⟨hl₂, ?_⟩
        rintro _ ⟨⟩
        refine ⟨group.tail c₁.nextSeq :: rest, hfail.2, fun sessionId q h0 hq => ?_, fun sessionId q hq => ?_,
          fun _ => hfail.1⟩
        · rw [hasOne_append, hasOne_cons] at hq
          rw [hasOne_cons]
          rcases hq with hq | hq | hq
          · exact .inl hq
          · rcases hgone (List.prefix_refl _) sessionId q h0 hq with hq | hg
            · exact .inr (.inr (.inl hq))
            · exact .inr (.inl hg)
          · exact .inr (.inr (.inr hq))
        · rw [hasOne_append]
          exact .inl hq
      · obtain ⟨rfl, hn₂⟩ := hfail
        refine ((ih hrest hl₂ hn₂).and wp_extends).mono ?_
        rintro r c' h' ⟨⟨hl', hdone⟩, hp⟩
        refine ⟨hl', fun carried' hr => ?_⟩
        obtain ⟨dropped, hdone⟩ := hdone carried' hr
        refine ⟨dropped, hdone.of_rest (fun sessionId q h0 hq => ?_) fun sessionId q hq => ?_⟩
        · simpa [HasOne] using hgone hp sessionId q h0 hq
        · have hq' : (group.tail c₁.nextSeq).Has sessionId q := by simpa [HasOne] using hq
          exact (PendingGroup.has_tail.mp hq').1

end Entity

/-! ### The whole set -/

/-- How many numbers were given up. -/
def droppedCount (dropped : List PendingEntity) : ℤ := (dropped.map fun pe => countGroups pe.groups).sum

/-- Where the deferrals of a pending set are after its commit. -/
structure Committed (row : Row) (pending carried dropped : List PendingEntity) (h : Trace sdk) : Prop where
  kept : ∀ d, 0 ≤ d.sequenceNumber → Pending d pending →
    Pending d carried ∨ Gone h d.entity d.sequenceNumber ∨ Pending d dropped
  carried : ∀ d, Pending d carried → Pending d pending
  dropped : ∀ pe ∈ dropped, GivenUp row h pe

/-- How the commit of a part of the pending set ends. -/
def CommitEnd (row : Row) (pending work : List PendingEntity) (n : ℤ) (r : Except Exn (List PendingEntity))
    (stats : RunStats) (h : Trace sdk) : Prop :=
  Always (AsksListed pending) h ∧ ∀ carried, r = .ok carried → ∃ dropped, Committed row work carried dropped h ∧
    stats.droppedStale = n + droppedCount dropped

section Whole

variable {row : Row} {pending : List PendingEntity} {n : ℤ} {h h' : Trace sdk}

theorem GivenUp.along {pe : PendingEntity} (hg : GivenUp row h pe) (hp : h <+: h') : GivenUp row h' pe :=
  ⟨hg.foreign, hg.refused.along hp, hp.subset hg.warned⟩

theorem Committed.along {work carried dropped : List PendingEntity} (hc : Committed row work carried dropped h)
    (hp : h <+: h') : Committed row work carried dropped h' :=
  ⟨fun d h0 hd => (hc.kept d h0 hd).imp_right (Or.imp_left fun hg => hg.along hp), hc.carried,
    fun pe hpe => (hc.dropped pe hpe).along hp⟩

/-- A stored entity has what its groups have; an empty list of groups is not stored. -/
theorem pending_some {d : Deferral} {pe : PendingEntity} {groups : List PendingGroup} :
    Pending d (if groups = [] then [] else [{ pe with groups := groups }]) ↔
      pe.entity = d.entity ∧ HasOne groups d.sessionId d.sequenceNumber := by
  split
  · rename_i hnil
    simp [hnil, HasOne]
  · simp [Pending, HasOne]

/-- Groups without ranges have nothing. -/
theorem hasOne_filter {groups : List PendingGroup} {sessionId : Option String} {q : ℤ} :
    HasOne (groups.filter fun group => group.ranges ≠ []) sessionId q ↔ HasOne groups sessionId q := by
  constructor
  · rintro ⟨g, hg, hq⟩
    exact ⟨g, (List.mem_filter.mp hg).1, hq⟩
  · rintro ⟨g, hg, hq⟩
    refine ⟨g, List.mem_filter.mpr ⟨hg, ?_⟩, hq⟩
    have hne : g.ranges ≠ [] := by
      rintro hnil
      have hcovers := hq.2
      rw [hnil] at hcovers
      exact not_covers_nil q hcovers
    simpa using hne

/-- One more entity is committed. -/
theorem Committed.next {work carried dropped : List PendingEntity} {pe : PendingEntity}
    {groups droppedGroups : List PendingGroup} {c : CommitState} (hc : Committed row work carried dropped h)
    (hdone : GroupsDone row pe.entity (pe.groups.filter fun group => group.ranges ≠ []) groups droppedGroups n c h) :
    Committed row (work ++ [pe]) (carried ++ if groups = [] then [] else [{ pe with groups := groups }])
      (dropped ++ if droppedGroups = [] then [] else [{ pe with groups := droppedGroups }]) h := by
  refine ⟨fun d h0 hd => ?_, fun d hd => ?_, fun dropped₁ hmem => ?_⟩
  · rw [pending_append, pending_some, pending_append, pending_some]
    rcases pending_append.mp hd with hd | hd
    · rcases hc.kept d h0 hd with hk | hk | hk
      · exact .inl (.inl hk)
      · exact .inr (.inl hk)
      · exact .inr (.inr (.inl hk))
    · obtain ⟨he, hgroups⟩ : pe.entity = d.entity ∧ HasOne pe.groups d.sessionId d.sequenceNumber := by
        simpa [pending_cons, HasOne] using hd
      rcases hdone.kept _ _ h0 (hasOne_filter.mpr hgroups) with hk | hk | hk
      · exact .inl (.inr ⟨he, hk⟩)
      · rw [← he]
        exact .inr (.inl hk)
      · exact .inr (.inr (.inr ⟨he, hk⟩))
  · rw [pending_append, pending_some] at hd
    rw [pending_append]
    rcases hd with hd | ⟨he, hd⟩
    · exact .inl (hc.carried d hd)
    · exact .inr (pending_cons.mpr (.inl ⟨he, hasOne_filter.mp (hdone.carried _ _ hd)⟩))
  · rcases List.mem_append.mp hmem with hmem | hmem
    · exact hc.dropped dropped₁ hmem
    · split at hmem
      · cases hmem
      · rename_i hne
        obtain rfl := List.mem_singleton.mp hmem
        obtain ⟨hforeign, hrefused, hwarned⟩ := hdone.dropped hne
        exact ⟨hforeign, hrefused, hwarned⟩

/-- The commit of one stored entity. -/
theorem wp_commitEntity (client : Handle) {pe : PendingEntity} (hpe : pe ∈ pending) {c : CommitState}
    (hl : Always (AsksListed pending) h) (hn : c.run.stats.droppedStale = n) :
    Wp Recorded (commitEntity row client pe)
      (GroupsEnd row pending pe.entity (pe.groups.filter fun group => group.ranges ≠ []) n) c h := by
  have hlisted : ∀ g ∈ pe.groups.filter (fun group => group.ranges ≠ []), ∀ q, covers g.ranges q →
      Listed pending pe.entity q :=
    fun g hg q hq => ⟨g.sessionId, pe, hpe, rfl, g, (List.mem_filter.mp hg).1, rfl, hq⟩
  rw [commitEntity, wp_bind]
  refine (@wp_commitGroups _ _ _ [] _ _ _ client _ hlisted hl hn).mono ?_
  rintro r c₁ h₁ ⟨hl₁, hdone⟩
  cases r with
  | error e => exact ⟨hl₁, by rintro _ ⟨⟩⟩
  | ok carried =>
    obtain ⟨dropped, hdone⟩ := hdone carried rfl
    rw [onOk_ok, wp_bind, wp_when]
    refine ⟨fun _ => ?_, fun _ => wp_pure.mpr ⟨hl₁, ?_⟩⟩
    · rw [onCommitRun, wp_embed]
      refine (wp_commitWarn _ _ _ _).mono ?_
      rintro _ s' _ ⟨rfl, hcount, rfl⟩
      refine wp_pure.mpr ⟨listed_concat rfl hl₁, ?_⟩
      rintro _ ⟨⟩
      have hp : ∀ {e}, h₁ <+: h₁ ++ [e] := List.prefix_append _ _
      refine ⟨dropped, hcount.trans hdone.counted, fun sessionId q h0 hq => ?_, hdone.carried, fun hne => ?_⟩
      · exact (hdone.kept sessionId q h0 hq).imp_right (Or.imp_left fun hg => hg.along hp)
      · exact (hdone.dropped hne).along hp
    · rintro _ ⟨⟩
      exact ⟨dropped, hdone⟩

/-- The stored entities that have something to delete. -/
def committable (pending : List PendingEntity) : List PendingEntity :=
  pending.filter fun pe => pe.groups.any fun group => group.ranges ≠ []

theorem pending_committable (d : Deferral) : Pending d (committable pending) ↔ Pending d pending := by
  constructor
  · rintro ⟨pe, hpe, hd⟩
    exact ⟨pe, (List.mem_filter.mp hpe).1, hd⟩
  · rintro ⟨pe, hpe, he, hgroups⟩
    refine ⟨pe, List.mem_filter.mpr ⟨hpe, ?_⟩, he, hgroups⟩
    obtain ⟨g, hg, -⟩ := hasOne_filter.mpr hgroups
    obtain ⟨hmem, hne⟩ := List.mem_filter.mp hg
    exact List.any_eq_true.mpr ⟨g, hmem, hne⟩

/-- The commit has reached the entities that are left. -/
structure CommitSoFar (row : Row) (pending : List PendingEntity) (n : ℤ) (left carried : List PendingEntity)
    (c : CommitState) (h : Trace sdk) : Prop where
  listed : Always (AsksListed pending) h
  done : ∃ work dropped, committable pending = work ++ left ∧ Committed row work carried dropped h ∧
    c.run.stats.droppedStale = n + droppedCount dropped

theorem wp_commitNext (client : Handle) {pe : PendingEntity} {left carried : List PendingEntity} {c : CommitState}
    (hI : CommitSoFar row pending n (pe :: left) carried c h) :
    Wp Recorded (commitNext row client carried pe) (fun r c h => Always (AsksListed pending) h ∧
      ∀ carried, r = .ok carried → CommitSoFar row pending n left carried c h) c h := by
  obtain ⟨hl, work, dropped, hwork, hc, hcount⟩ := hI
  have hpe : pe ∈ pending := by
    have hmem : pe ∈ work ++ pe :: left := by simp
    rw [← hwork] at hmem
    exact (List.mem_filter.mp hmem).1
  rw [commitNext, wp_bind]
  refine ((wp_commitEntity client hpe hl hcount).and wp_extends).mono ?_
  rintro r c₁ h₁ ⟨⟨hl₁, hdone⟩, hp⟩
  cases r with
  | error e => exact ⟨hl₁, by rintro _ ⟨⟩⟩
  | ok groups =>
    obtain ⟨droppedGroups, hdone⟩ := hdone groups rfl
    have hnext := (hc.along hp).next hdone
    have hcounted : c₁.run.stats.droppedStale = n +
        droppedCount (dropped ++ if droppedGroups = [] then [] else [{ pe with groups := droppedGroups }]) := by
      rw [hdone.counted, droppedCount, droppedCount, List.map_append, List.sum_append, Int.add_assoc]
      split
      · rename_i hnil
        simp [hnil, countGroups]
      · simp
    have hleft : committable pending = work ++ [pe] ++ left := by
      simpa using hwork
    rw [onOk_ok]
    refine wp_ite.mpr ⟨fun hnil => wp_pure.mpr ⟨hl₁, ?_⟩, fun hne => wp_pure.mpr ⟨hl₁, ?_⟩⟩
    · rintro _ ⟨⟩
      exact ⟨hl₁, _, _, hleft, by simpa [hnil] using hnext, hcounted⟩
    · rintro _ ⟨⟩
      exact ⟨hl₁, _, _, hleft, by simpa [hne] using hnext, hcounted⟩

/-- Closing the client changes nothing of a commit that returned. -/
theorem wp_closeCommitClient (client : Handle) {r : Except Exn (List PendingEntity)} {c : CommitState}
    (hl : Always (AsksListed pending) h) (hI : ∀ carried, r = .ok carried → CommitSoFar row pending n [] carried c h) :
    Wp Recorded (closeClient client : Commit Unit) (fun r' c h => CommitEnd row pending pending n
      (match r' with | .ok _ => r | .error e => .error e) c.run.stats h) c h := by
  rw [closeClient, wp_request]
  rintro reply _ ⟨-, rfl⟩
  refine ⟨listed_concat rfl hl, fun carried hr => ?_⟩
  cases reply with
  | error fault => cases hr
  | ok _ =>
    obtain ⟨-, work, dropped, hwork, hc, hcount⟩ := hI carried hr
    rw [List.append_nil] at hwork
    subst hwork
    refine ⟨dropped, ?_, hcount⟩
    have hc' := hc.along (List.prefix_append h [.call (.closeClient client) (.ok ())])
    exact ⟨fun d h0 hd => hc'.kept d h0 ((pending_committable d).mpr hd),
      fun d hd => (pending_committable d).mp (hc'.carried d hd), hc'.dropped⟩

/-- The commit of the whole set: it asks for nothing else, and knows of each deferral where it is. -/
theorem wp_runCommit (pending : List PendingEntity) {s : RunState} (hl : Always (AsksListed pending) h) :
    Wp Recorded (runCommit row pending)
      (fun r s' h' => CommitEnd row pending pending s.stats.droppedStale r s'.stats h') s h := by
  have hraised : ∀ {e : Exn} {c : CommitState} {h : Trace sdk}, Always (AsksListed pending) h →
      CommitEnd row pending pending s.stats.droppedStale (.error e) c.run.stats h :=
    fun hl => ⟨hl, by rintro _ ⟨⟩⟩
  rw [runCommit, wp_embed, commit]
  refine wp_ite.mpr ⟨fun hnil => wp_pure.mpr ⟨hl, ?_⟩, fun _ => ?_⟩
  · rintro _ ⟨⟩
    have hnone : ∀ d, ¬ Pending d pending := by
      intro d hd
      rw [← pending_committable, committable, hnil] at hd
      exact not_pending_nil d hd
    refine ⟨[], ⟨fun d _ hd => absurd hd (hnone d), fun d hd => absurd hd (not_pending_nil d), by simp⟩, ?_⟩
    simp [droppedCount]
  · rw [wp_bind, commitClient, dataClient, wp_request]
    rintro reply _ ⟨-, rfl⟩
    have hl₁ := listed_concat (e := .call (.dataClient false) reply) rfl hl
    cases reply with
    | error fault =>
      cases fault with
      | valueError text => cases row.authType <;> exact hraised (c := { run := s }) hl₁
      | alreadySettled text => cases row.authType <;> exact hraised (c := { run := s }) hl₁
      | serviceBus error => exact hraised (c := { run := s }) hl₁
      | other name text => exact hraised (c := { run := s }) hl₁
    | ok client =>
      rw [onOk_ok, wp_ensuring]
      have hclose := fun {c h} r => @wp_closeCommitClient row pending s.stats.droppedStale h client r c
      refine Wp.foldlM (CommitSoFar row pending s.stats.droppedStale) (fun pe left carried c h hI => ?_)
        (fun carried c h hI => ?_) ?_
      · refine (wp_commitNext client hI).mono ?_
        rintro r c₁ h₁ ⟨hl₁, hnext⟩
        cases r with
        | ok carried => exact hnext carried rfl
        | error e =>
          refine (hclose (.error e) hl₁ (by rintro _ ⟨⟩)).mono fun r' c h hend => ?_
          cases r' <;> exact hend
      · refine (hclose (.ok carried) hI.listed ?_).mono fun r' c h hend => ?_
        · rintro _ ⟨⟩
          exact hI
        · cases r' <;> exact hend
      · refine ⟨hl₁, [], [], by simp [committable], ⟨fun d _ hd => .inl hd, fun d hd => hd, by simp⟩,
          by simp [droppedCount]⟩

end Whole

end ServiceBusExtractor
