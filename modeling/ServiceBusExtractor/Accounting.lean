import ServiceBusExtractor.Committed
import ServiceBusExtractor.Script

/-!
# What the commit counts

A commit can stop in the middle of a group. What it then carries, drops or names in
its error is the tail of the group from the progress on, and the progress moves a
whole chunk at a time.

## The model

* `Answer`, `answers` — the deferred receives of a run with their answers.
* `Settled` — the number is deleted, or was not found alone.
* `Exact` — the tail is what is not settled, and `committed` grew by the messages
  that were returned.
* `FailsAtChunkStart` — the call that failed asks for the first number of a chunk.

## What is proved

`interrupted_commit`: a group that raises is accounted for exactly where the failing
call is at the start of a chunk; and the four counters of a whole commit add up to
the stored set.
-/

namespace ServiceBusExtractor

open Interaction

/-- The numbers a deferred receive asked for, and its answer. -/
abbrev Answer := List ℤ × Except Fault (List Message)

/-- The deferred receive of the event. -/
def answerOf : Event sdk → Option Answer
  | .call (.receiveDeferredMessages _ seqs _) reply => some (seqs, reply)
  | _ => none

def answers (h : Trace sdk) : List Answer := h.filterMap answerOf

/-- The call returned with the number, or it was for that alone and did not find it. -/
def Answer.Settles (answer : Answer) (q : ℤ) : Prop :=
  match answer.2 with
  | .ok _ => q ∈ answer.1
  | .error fault => (Exn.fault fault).isKind .messageNotFound = true ∧ answer.1 = [q]

/-- Some call deleted the number, or showed that it is gone. -/
def Settled (b : List Answer) (q : ℤ) : Prop := ∃ answer ∈ b, answer.Settles q

instance (answer : Answer) (q : ℤ) : Decidable (answer.Settles q) := by
  unfold Answer.Settles
  split <;> infer_instance

instance (b : List Answer) (q : ℤ) : Decidable (Settled b q) :=
  inferInstanceAs (Decidable (∃ answer ∈ b, answer.Settles q))

/-- The messages of an answer. -/
def Answer.messages (answer : Answer) : List Message :=
  match answer.2 with
  | .ok messages => messages
  | .error _ => []

/-- How many messages the calls returned. -/
def returned (b : List Answer) : ℕ := (b.map fun answer => answer.messages.length).sum

/-- A call that returns, returns a message for each number. -/
def InFull (b : List Answer) : Prop :=
  ∀ answer ∈ b, match answer.2 with
    | .ok messages => messages.length = answer.1.length
    | .error _ => True

instance : DecidablePred InFull := by
  intro b
  refine @List.decidableBAll Answer _ ?_ b
  rintro ⟨asked, fault | messages⟩
  · exact .isTrue trivial
  · exact inferInstanceAs (Decidable (messages.length = asked.length))

/-- The last call did not fail, or it only did not find a message. -/
def Calm (b : List Answer) : Prop := ∀ asked fault, b.getLast? = some (asked, .error fault) →
  (Exn.fault fault).isKind .messageNotFound = true

/-- The answers so far, and that of the event. -/
def Answering (e : Event sdk) (b b' : List Answer) : Prop := b' = b ++ (answerOf e).toList

section Answers

variable {W : Type} {w : W} {b b' : List Answer} {q : ℤ} {seqs : List ℤ} {receiver : Handle}

/-- The answers of a path are those of its events. -/
theorem path_answering {es : Trace sdk} (h : Path Answering es b b') : b' = b ++ answers es := by
  induction h with
  | nil => exact (List.append_nil _).symm
  | cons hR _ ih =>
    rw [ih, hR, answers, answers, List.filterMap_cons]
    cases answerOf _ <;> simp

theorem path_answers (es : Trace sdk) : Path Answering es b (b ++ answers es) := by
  have h : Path Answering es b (es.foldl (fun b e => b ++ (answerOf e).toList) b) := path_foldl fun _ _ _ => rfl
  rwa [path_answering h] at h

/-- What every execution ends in, with the answers as the surroundings. -/
theorem wp_answering {α : Type} {p : Program W α} {Q : Except Exn α → W → List Answer → Prop}
    (h : Wp Answering p Q w []) {es : Trace sdk} {r : Except Exn α} {w' : W} (hrun : Prog.Exec p w es r w') :
    Q r w' (answers es) := h es r w' _ hrun (path_answers es)

theorem answering_idle {e : Event sdk} (he : answerOf e = none) (h : Answering e b b') : b' = b := by
  rw [h, he]
  exact List.append_nil b

theorem answerOf_of_quiet {e : Event sdk} (he : Quiet e) : answerOf e = none := by
  rcases e with ⟨c, r⟩ | n
  · cases c <;> first | rfl | exact absurd he Bool.false_ne_true
  · rfl

theorem settled_concat {answer : Answer} : Settled (b ++ [answer]) q ↔ Settled b q ∨ Settled [answer] q := by
  simp only [Settled, List.mem_append, or_and_right, exists_or]

theorem settled_ok {messages : List Message} : Settled [(seqs, .ok messages)] q ↔ q ∈ seqs := by
  simp [Settled, Answer.Settles]

/-- An error settles a number where it was asked for alone and not found. -/
theorem settled_error {fault : Fault} : Settled [(seqs, .error fault)] q ↔
    (Exn.fault fault).isKind .messageNotFound = true ∧ seqs = [q] := by
  simp [Settled, Answer.Settles]

theorem returned_concat {answer : Answer} : returned (b ++ [answer]) = returned b + answer.messages.length := by
  simp [returned]

theorem InFull.initial (h : InFull b') (hp : b <+: b') : InFull b := fun answer hanswer => h answer (hp.subset hanswer)

/-! ### One call -/

/-- How one deferred receive with its retries ends: failures that settle nothing, and the last answer. -/
def CallEnd (seqs : List ℤ) (b : List Answer) (r : Except Exn (List Message)) (b' : List Answer) : Prop :=
  b <+: b' ∧ match r with
  | .ok messages => (∀ q, Settled b' q ↔ Settled b q ∨ q ∈ seqs) ∧ returned b' = returned b + messages.length ∧
      (InFull b' → messages.length = seqs.length) ∧ Calm b'
  | .error e => (∀ q, Settled b' q ↔ Settled b q ∨ (e.isKind .messageNotFound = true ∧ seqs = [q])) ∧
      returned b' = returned b ∧ ∃ fault, e = .fault fault ∧ b'.getLast? = some (seqs, .error fault)

theorem callEnd_of_reply {b' : List Answer} (reply : Except Fault (List Message)) (h : b' = b ++ [(seqs, reply)]) :
    CallEnd seqs b (sdkResult reply) b' := by
  subst h
  refine ⟨List.prefix_append _ _, ?_⟩
  cases reply with
  | ok messages =>
    refine ⟨fun q => by rw [settled_concat, settled_ok], returned_concat, fun hfull => ?_, fun asked fault hlast => ?_⟩
    · exact hfull (seqs, .ok messages) (by simp)
    · rw [List.getLast?_concat] at hlast
      cases hlast
  | error fault =>
    refine ⟨fun q => by rw [settled_concat, settled_error], returned_concat, fault, rfl, ?_⟩
    exact List.getLast?_concat

/-- A failure that is tried again settles nothing. -/
theorem CallEnd.retry {b₁ : List Answer} {e : Exn} (h : CallEnd seqs b (.error e) b₁)
    (he : e.isKind .messageNotFound = false) {r : Except Exn (List Message)} (h' : CallEnd seqs b₁ r b') :
    CallEnd seqs b r b' := by
  obtain ⟨hp, hsettled, hreturned, -⟩ := h
  have hsame : ∀ q, Settled b₁ q ↔ Settled b q := by
    intro q
    rw [hsettled, he]
    simp
  obtain ⟨hp', hend⟩ := h'
  refine ⟨hp.trans hp', ?_⟩
  cases r with
  | ok messages =>
    obtain ⟨hs, hr, hrest⟩ := hend
    exact ⟨fun q => by rw [hs, hsame], by rw [hr, hreturned], hrest⟩
  | error e' =>
    obtain ⟨hs, hr, hlast⟩ := hend
    exact ⟨fun q => by rw [hs, hsame], by rw [hr, hreturned], hlast⟩

theorem wp_retriedReceive (sessionLocked : Bool) (delays : List ℤ) :
    Wp Answering (withTransientRetry (retryable sessionLocked)
      (receiveDeferredMessages receiver seqs deferredReceiveTimeoutSeconds) delays)
      (fun r w' b' => w' = w ∧ CallEnd seqs b r b') w b := by
  have hone : ∀ b, Wp Answering (receiveDeferredMessages receiver seqs deferredReceiveTimeoutSeconds : Program W _)
      (fun r w' b' => w' = w ∧ CallEnd seqs b r b') w b := by
    intro b
    rw [receiveDeferredMessages, wp_request]
    intro reply b' hR
    exact ⟨rfl, callEnd_of_reply reply hR⟩
  induction delays generalizing b with
  | nil => exact hone b
  | cons delay delays ih =>
    rw [withTransientRetry, wp_tryCatch]
    refine (hone b).mono fun r w' b₁ hend => ?_
    obtain ⟨rfl, hend⟩ := hend
    cases r with
    | ok messages => exact ⟨rfl, hend⟩
    | error e =>
      refine wp_ite.mpr ⟨fun hretry => ?_, fun _ => wp_throw.mpr ⟨rfl, hend⟩⟩
      rw [sleep, wp_bind, wp_perform]
      intro _ b₂ hR
      rw [answering_idle rfl hR]
      refine ih.mono fun r w₂ b₃ hend' => ?_
      exact ⟨hend'.1, hend.retry (not_messageNotFound_of_retryable hretry) hend'.2⟩

/-! ### Halving -/

/-- What a failed halving leaves: it got through a first part, and the call that failed asks for the next number. -/
structure StoppedAt (seqs : List ℤ) (b : List Answer) (done rest : List ℤ) (b' : List Answer) : Prop where
  parts : seqs = done ++ rest
  more : rest ≠ []
  settled : ∀ q, Settled b' q ↔ Settled b q ∨ q ∈ done
  returned : done = [] → returned b' = returned b
  failed : ∃ asked fault, b'.getLast? = some (asked, .error fault) ∧
    (Exn.fault fault).isKind .messageNotFound = false ∧ asked.head? = rest.head?

/-- How the halving of some numbers ends. -/
def HalvingEnd (seqs : List ℤ) (b : List Answer) (r : Except Exn DeferredReceive) (b' : List Answer) : Prop :=
  b <+: b' ∧ match r with
  | .ok result => (∀ q, Settled b' q ↔ Settled b q ∨ q ∈ seqs) ∧ returned b' = returned b + result.received.length ∧
      (InFull b' → result.received.length + result.notFound.length = seqs.length) ∧ (Calm b → Calm b')
  | .error _ => ∃ done rest, StoppedAt seqs b done rest b'

/-- A call that did not find one of several numbers settles none of them. -/
structure Missed (b b₁ : List Answer) : Prop where
  grows : b <+: b₁
  settled : ∀ q, Settled b₁ q ↔ Settled b q
  returned : returned b₁ = returned b
  calm : Calm b₁

section CallEnd

variable {b₁ : List Answer} {e : Exn}

theorem CallEnd.received {messages : List Message} (h : CallEnd seqs b (.ok messages) b₁) :
    HalvingEnd seqs b (.ok ⟨messages, []⟩) b₁ := by
  obtain ⟨hp, hsettled, hreturned, hfull, hcalm⟩ := h
  exact ⟨hp, hsettled, hreturned, fun hf => hfull hf, fun _ => hcalm⟩

/-- The number is missing. -/
theorem CallEnd.missing {q : ℤ} (h : CallEnd [q] b (.error e) b₁) (hkind : e.isKind .messageNotFound = true) :
    HalvingEnd [q] b (.ok ⟨[], [q]⟩) b₁ := by
  obtain ⟨hp, hsettled, hreturned, fault, rfl, hlast⟩ := h
  refine ⟨hp, fun p => ?_, hreturned, fun _ => rfl, fun _ asked fault' hlast' => ?_⟩
  · rw [hsettled, List.mem_singleton, List.cons.injEq]
    simp [hkind, eq_comm]
  · rw [hlast] at hlast'
    cases hlast'
    exact hkind

theorem CallEnd.missed (h : CallEnd seqs b (.error e) b₁) (hkind : e.isKind .messageNotFound = true)
    (hmany : seqs.length ≠ 1) : Missed b b₁ := by
  obtain ⟨hp, hsettled, hreturned, fault, rfl, hlast⟩ := h
  refine ⟨hp, fun q => ?_, hreturned, fun asked fault' hlast' => ?_⟩
  · rw [hsettled]
    refine or_iff_left fun hone => hmany ?_
    rw [hone.2]
    rfl
  · rw [hlast] at hlast'
    cases hlast'
    exact hkind

/-- Another error stops the halving before its first number. -/
theorem CallEnd.stopped (h : CallEnd seqs b (.error e) b₁) (hkind : ¬ e.isKind .messageNotFound = true)
    (hne : seqs ≠ []) : HalvingEnd seqs b (.error e) b₁ := by
  obtain ⟨hp, hsettled, hreturned, fault, rfl, hlast⟩ := h
  refine ⟨hp, [], seqs, rfl, hne, fun q => ?_, fun _ => hreturned, seqs, fault, hlast, ?_, rfl⟩
  · rw [hsettled]
    simp [hkind]
  · simpa using hkind

end CallEnd

section Halves

variable {left right : List ℤ} {b₁ b₂ b₃ : List Answer} {e : Exn}

theorem Missed.left_failed (hmissed : Missed b b₁) (h : HalvingEnd left b₁ (.error e) b₂) :
    HalvingEnd (left ++ right) b (.error e) b₂ := by
  obtain ⟨hp, done, rest, hstop⟩ := h
  refine ⟨hmissed.grows.trans hp, done, rest ++ right, ?_, by simp [hstop.more], fun q => ?_, fun hnil => ?_, ?_⟩
  · rw [← List.append_assoc, ← hstop.parts]
  · rw [hstop.settled, hmissed.settled]
  · rw [hstop.returned hnil, hmissed.returned]
  · obtain ⟨asked, fault, hlast, hkind, hhead⟩ := hstop.failed
    refine ⟨asked, fault, hlast, hkind, ?_⟩
    rw [hhead, List.head?_append_of_ne_nil _ hstop.more]

theorem Missed.right_failed (hmissed : Missed b b₁) (hleft : left ≠ []) {result : DeferredReceive}
    (h : HalvingEnd left b₁ (.ok result) b₂) (h' : HalvingEnd right b₂ (.error e) b₃) :
    HalvingEnd (left ++ right) b (.error e) b₃ := by
  obtain ⟨hp, hsettled, -⟩ := h
  obtain ⟨hp', done, rest, hstop⟩ := h'
  refine ⟨(hmissed.grows.trans hp).trans hp', left ++ done, rest, ?_, hstop.more, fun q => ?_, fun hnil => ?_,
    hstop.failed⟩
  · rw [List.append_assoc, ← hstop.parts]
  · rw [hstop.settled, hsettled, hmissed.settled, List.mem_append, or_assoc]
  · exact absurd (List.append_eq_nil_iff.mp hnil).1 hleft

theorem Missed.joined (hmissed : Missed b b₁) {l r : DeferredReceive} (h : HalvingEnd left b₁ (.ok l) b₂)
    (h' : HalvingEnd right b₂ (.ok r) b₃) :
    HalvingEnd (left ++ right) b (.ok ⟨l.received ++ r.received, l.notFound ++ r.notFound⟩) b₃ := by
  obtain ⟨hp, hsettled, hreturned, hfull, hcalm⟩ := h
  obtain ⟨hp', hsettled', hreturned', hfull', hcalm'⟩ := h'
  refine ⟨(hmissed.grows.trans hp).trans hp', fun q => ?_, ?_, fun hf => ?_, fun _ => hcalm' (hcalm hmissed.calm)⟩
  · rw [hsettled', hsettled, hmissed.settled, or_assoc, ← List.mem_append]
  · rw [hreturned', hreturned, hmissed.returned, List.length_append]
    omega
  · have hl := hfull (hf.initial hp')
    have hr := hfull' hf
    rw [List.length_append, List.length_append, List.length_append]
    omega

end Halves

theorem wp_halving (sessionLocked : Bool) {halvings : ℕ} (hn : seqs.length ≤ halvings) :
    Wp Answering (bisect receiver sessionLocked halvings seqs)
      (fun r w' b' => w' = w ∧ HalvingEnd seqs b r b') w b := by
  induction halvings generalizing seqs b with
  | zero =>
    obtain rfl : seqs = [] := List.eq_nil_of_length_eq_zero (by omega)
    exact wp_pure.mpr ⟨rfl, List.prefix_refl b, by simp, by simp, by simp, id⟩
  | succ halvings ih =>
    rw [bisect]
    refine wp_ite.mpr ⟨fun hnil => ?_, fun hne => ?_⟩
    · subst hnil
      exact wp_pure.mpr ⟨rfl, List.prefix_refl b, by simp, by simp, by simp, id⟩
    rw [wp_bind, wp_attempt]
    refine (wp_retriedReceive sessionLocked transientBackoffSeconds).mono fun r w₁ b₁ hcall => ?_
    obtain ⟨rfl, hcall⟩ := hcall
    cases r with
    | ok messages => exact wp_pure.mpr ⟨rfl, hcall.received⟩
    | error error =>
      refine wp_ite.mpr ⟨fun hnf => wp_ite.mpr ⟨fun hone => ?_, fun hmany => ?_⟩, fun hother => ?_⟩
      · obtain ⟨q, rfl⟩ := List.length_eq_one_iff.mp hone
        exact wp_pure.mpr ⟨rfl, hcall.missing hnf⟩
      · -- both halves are shorter, and the left one is not empty
        have hmissed := hcall.missed hnf hmany
        have hpos : 0 < seqs.length := List.length_pos_of_ne_nil hne
        have hleft : seqs.take (seqs.length / 2) ≠ [] := by
          intro hnil
          have hlen := congrArg List.length hnil
          rw [List.length_take, List.length_nil] at hlen
          omega
        have hparts := List.take_append_drop (seqs.length / 2) seqs
        rw [wp_bind]
        refine (ih (by simp only [List.length_take]; omega)).mono fun r w₂ b₂ hend => ?_
        obtain ⟨rfl, hend⟩ := hend
        cases r with
        | error e =>
          have hfailed : HalvingEnd (_ ++ seqs.drop (seqs.length / 2)) b (.error e) b₂ := hmissed.left_failed hend
          rw [hparts] at hfailed
          exact ⟨rfl, hfailed⟩
        | ok left =>
          rw [onOk_ok, wp_bind]
          refine (ih (by simp only [List.length_drop]; omega)).mono fun r w₃ b₃ hend' => ?_
          obtain ⟨rfl, hend'⟩ := hend'
          cases r with
          | error e =>
            have hfailed := hmissed.right_failed hleft hend hend'
            rw [hparts] at hfailed
            exact ⟨rfl, hfailed⟩
          | ok right =>
            have hjoined := hmissed.joined hend hend'
            rw [hparts] at hjoined
            exact wp_pure.mpr ⟨rfl, hjoined⟩
      · exact wp_throw.mpr ⟨rfl, hcall.stopped hother hne⟩

end Answers

/-! ### One group -/

/-- The four counters together. -/
def CommitState.accounted (c : CommitState) : ℤ :=
  c.run.stats.committed + c.run.stats.alreadyGone + c.run.stats.carriedForward + c.run.stats.droppedStale

/-- The tail from the progress on is what is not settled, and `committed` grew by what was returned. -/
structure Exact (group : PendingGroup) (c₀ c : CommitState) (b : List Answer) : Prop where
  tail : ∀ q, covers (group.tail c.nextSeq).ranges q ↔ covers group.ranges q ∧ ¬ Settled b q
  committed : c.run.stats.committed = c₀.run.stats.committed + returned b

/-- A call that fails last, and not for a missing message, asks for the first number of a chunk. -/
def FailsAtChunkStart (group : PendingGroup) (b : List Answer) : Prop :=
  ∀ asked fault, b.getLast? = some (asked, .error fault) → (Exn.fault fault).isKind .messageNotFound = false →
    ∃ chunk ∈ group.chunks, asked.head? = chunk.head?

/-- The chunks `done` are deleted, and `rest` are to come. -/
structure UpTo (group : PendingGroup) (c₀ : CommitState) (b₀ : List Answer) (done rest : List (List ℤ))
    (c : CommitState) (b : List Answer) : Prop where
  grown : b₀ <+: b
  parts : group.chunks = done ++ rest
  settled : ∀ q, Settled b q ↔ Settled b₀ q ∨ q ∈ done.flatten
  committed : c.run.stats.committed + returned b₀ = c₀.run.stats.committed + returned b
  ahead : ∀ q, covers group.ranges q → (c.nextSeq ≤ q ↔ q ∈ rest.flatten)
  counted : InFull b → c.accounted = c₀.accounted + done.flatten.length
  calm : Calm b₀ → Calm b

/-- How a group that is interrupted is accounted for. -/
structure Interrupted (group : PendingGroup) (c₀ : CommitState) (b₀ : List Answer) (c : CommitState) (b : List Answer) :
    Prop where
  grown : b₀ <+: b
  counted : InFull b → c.accounted + (group.tail c.nextSeq).count = c₀.accounted + group.count
  exact_iff : b₀ = [] → (Exact group c₀ c b ↔ FailsAtChunkStart group b)

section Group

variable {row : Row} {group : PendingGroup} {receiver client : Handle} {ref : EntityRef} {c₀ c : CommitState}
  {b₀ b b' : List Answer} {done rest : List (List ℤ)} {chunk : List ℤ}

/-- The tail counts the numbers of the chunks to come. -/
theorem UpTo.count_tail (hT : UpTo group c₀ b₀ done rest c b) :
    (group.tail c.nextSeq).count = rest.flatten.length := by
  have hparts : iterRanges group.ranges = done.flatten ++ rest.flatten := by
    rw [← flatten_chunks, hT.parts, List.flatten_append]
  have hnodup := nodup_chunks group
  rw [flatten_chunks, hparts, List.nodup_append] at hnodup
  have hahead : ∀ q ∈ done.flatten ++ rest.flatten, c.nextSeq ≤ q ↔ q ∈ rest.flatten := by
    intro q hq
    rw [← hparts, mem_iterRanges] at hq
    exact hT.ahead q hq
  have hdone : done.flatten.filter (c.nextSeq ≤ ·) = [] := by
    refine List.filter_eq_nil_iff.mpr fun q hq hle => ?_
    have hrest := (hahead q (by simp [hq])).mp (by simpa using hle)
    exact hnodup.2.2 q hq q hrest rfl
  have hrest : rest.flatten.filter (c.nextSeq ≤ ·) = rest.flatten := by
    refine List.filter_eq_self.mpr fun q hq => ?_
    simpa using (hahead q (by simp [hq])).mpr hq
  rw [PendingGroup.count, PendingGroup.tail, countRanges_tailRanges, hparts, List.filter_append, hdone, hrest,
    List.nil_append]

/-- Between two chunks everything is accounted for. -/
theorem UpTo.exact (hT : UpTo group c₀ b₀ done rest c b) (hb : b₀ = []) : Exact group c₀ c b := by
  subst hb
  constructor
  · intro q
    have hnodup := nodup_chunks group
    rw [hT.parts, List.flatten_append, List.nodup_append] at hnodup
    rw [PendingGroup.tail, covers_tailRanges]
    constructor
    · intro h
      have hrest := (hT.ahead q h.1).mp h.2
      refine ⟨h.1, fun hsettled => ?_⟩
      rw [hT.settled] at hsettled
      obtain hnil | hdone := hsettled
      · simp [Settled] at hnil
      · exact hnodup.2.2 q hdone q hrest rfl
    · intro h
      refine ⟨h.1, (hT.ahead q h.1).mpr ?_⟩
      have hmem := covers_chunks.mp h.1
      rw [hT.parts, List.flatten_append, List.mem_append] at hmem
      obtain hdone | hrest := hmem
      · exact absurd ((hT.settled q).mpr (.inr hdone)) h.2
      · exact hrest
  · have := hT.committed
    simpa [returned] using this

theorem UpTo.interrupted (hT : UpTo group c₀ b₀ done rest c b) : Interrupted group c₀ b₀ c b := by
  refine ⟨hT.grown, fun hfull => ?_, fun hb => iff_of_true (hT.exact hb) fun asked fault hlast hkind => ?_⟩
  · rw [hT.count_tail, hT.counted hfull, count_eq, hT.parts, List.flatten_append, List.length_append]
    push_cast
    omega
  · have hcalm := hT.calm (by simp [hb, Calm]) asked fault hlast
    rw [hkind] at hcalm
    cases hcalm

/-- Inside a chunk, everything is accounted for exactly where nothing of the chunk is settled yet. -/
theorem UpTo.stopped (hT : UpTo group c₀ b₀ done (chunk :: rest) c b) {d t : List ℤ} (hp : b <+: b')
    (hs : StoppedAt chunk b d t b') : Interrupted group c₀ b₀ c b' := by
  obtain ⟨asked, fault, hlast, hkind, hhead⟩ := hs.failed
  have hparts : group.chunks.flatten = done.flatten ++ ((d ++ t) ++ rest.flatten) := by
    rw [hT.parts, List.flatten_append, List.flatten_cons, hs.parts]
  have hnodup := nodup_chunks group
  rw [hparts, List.nodup_append, List.nodup_append, List.nodup_append] at hnodup
  obtain ⟨-, ⟨⟨-, -, hdt⟩, -, hdtr⟩, hdone⟩ := hnodup
  have hcovers : ∀ q ∈ chunk, covers group.ranges q := by
    intro q hq
    rw [covers_chunks, hT.parts]
    simp [hq]
  refine ⟨hT.grown.trans hp, fun hfull => ?_, fun hb => ?_⟩
  · have h := hT.interrupted.counted (hfull.initial hp)
    exact h
  · have hexact : Exact group c₀ c b' ↔ d = [] := by
      constructor
      · intro h
        by_contra hne
        obtain ⟨q, hq⟩ := List.exists_mem_of_ne_nil d hne
        have hchunk : q ∈ chunk := by
          rw [hs.parts]
          exact List.mem_append_left _ hq
        have htail : covers (group.tail c.nextSeq).ranges q := by
          rw [PendingGroup.tail, covers_tailRanges]
          exact ⟨hcovers q hchunk, (hT.ahead q (hcovers q hchunk)).mpr (by simp [hchunk])⟩
        exact ((h.tail q).mp htail).2 ((hs.settled q).mpr (.inr hq))
      · rintro rfl
        have h := hT.exact hb
        refine ⟨fun q => ?_, ?_⟩
        · rw [h.tail, hs.settled]
          simp
        · rw [hs.returned rfl]
          exact h.committed
    have hstart : FailsAtChunkStart group b' ↔ d = [] := by
      constructor
      · intro h
        by_contra hne
        obtain ⟨chunk', hmem, hfirst⟩ := h asked fault hlast hkind
        obtain ⟨x, t', rfl⟩ := List.exists_cons_of_ne_nil hs.more
        rw [hhead, List.head?_cons] at hfirst
        have hx : x ∈ chunk' := List.mem_of_head? hfirst.symm
        rw [hT.parts, List.mem_append, List.mem_cons] at hmem
        obtain hmem | rfl | hmem := hmem
        · exact hdone x (List.mem_flatten.mpr ⟨chunk', hmem, hx⟩) x (by simp) rfl
        · obtain ⟨y, d', rfl⟩ := List.exists_cons_of_ne_nil hne
          rw [hs.parts, List.cons_append, List.head?_cons, Option.some.injEq] at hfirst
          exact hdt x (by simp [hfirst]) x (by simp) rfl
        · exact hdtr x (by simp) x (List.mem_flatten.mpr ⟨chunk', hmem, hx⟩) rfl
      · rintro rfl asked' fault' hlast' -
        rw [hlast] at hlast'
        cases hlast'
        refine ⟨chunk, ?_, ?_⟩
        · rw [hT.parts]
          simp
        · rw [hhead, hs.parts, List.nil_append]
    rw [hexact, hstart]

/-- How the deletion of some chunks ends. -/
def ChunksStop (group : PendingGroup) (c₀ : CommitState) (b₀ : List Answer) (done rest : List (List ℤ)) :
    Except Exn Unit → CommitState → List Answer → Prop
  | .ok _, c, b => UpTo group c₀ b₀ done rest c b
  | .error _, c, b => Interrupted group c₀ b₀ c b

/-- The last of ascending numbers is the greatest. -/
theorem le_getLast (hchunk : chunk.Pairwise (· < ·)) (hne : chunk ≠ []) {q : ℤ} (hq : q ∈ chunk) :
    q ≤ chunk.getLast hne := by
  rw [← List.dropLast_append_getLast hne] at hchunk hq
  rw [List.pairwise_append] at hchunk
  rw [List.mem_append, List.mem_singleton] at hq
  obtain hq | hq := hq
  · exact le_of_lt (hchunk.2.2 q hq _ (List.mem_singleton_self _))
  · exact le_of_eq hq

/-- A chunk is deleted, or the group is interrupted. -/
theorem wp_deleteChunk_counted (sessionLocked : Bool) (hT : UpTo group c₀ b₀ done (chunk :: rest) c b) :
    Wp Answering (deleteChunk receiver sessionLocked chunk) (ChunksStop group c₀ b₀ (done ++ [chunk]) rest) c b := by
  rw [deleteChunk, receiveDeferredBisect, wp_bind]
  refine (wp_halving sessionLocked (Nat.le_refl _)).mono fun r c' b' hend => ?_
  obtain ⟨rfl, hp, hend⟩ := hend
  cases r with
  | error e =>
    obtain ⟨d, t, hs⟩ := hend
    exact hT.stopped hp hs
  | ok result =>
    obtain ⟨hsettled, hreturned, hfull, hcalm⟩ := hend
    rw [onOk_ok, wp_bind, onCommitRun, wp_embed, tally, wp_modify, onOk_ok, wp_modify]
    have hflat : (done ++ [chunk]).flatten = done.flatten ++ chunk := by simp
    refine ⟨hT.grown.trans hp, ?_, fun q => ?_, ?_, fun q hq => ?_, fun hf => ?_, fun h => hcalm (hT.calm h)⟩
    · rw [hT.parts, List.append_assoc]
      rfl
    · rw [hsettled, hT.settled, hflat, List.mem_append, or_assoc]
    · have := hT.committed
      dsimp only
      omega
    · -- the numbers of the next chunks are above the last one of this chunk
      have hne : chunk ≠ [] := by
        refine ne_nil_of_mem_batched (commitChunkSize_pos group.maxBodyBytes) (l := iterRanges group.ranges) ?_
        show chunk ∈ group.chunks
        rw [hT.parts]
        simp
      have hasc : group.chunks.flatten.Pairwise (· < ·) := by
        rw [flatten_chunks]
        exact pairwise_iterRanges group.ranges
      rw [hT.parts, List.flatten_append, List.flatten_cons, List.pairwise_append, List.pairwise_append] at hasc
      obtain ⟨-, ⟨hchunk, -, hover⟩, hdone⟩ := hasc
      have hlast : chunk.getLastD 0 = chunk.getLast hne := by
        rw [List.getLastD_eq_getLast?, List.getLast?_eq_getLast_of_ne_nil hne]
        rfl
      have hmem := List.getLast_mem hne
      dsimp only
      rw [hlast]
      constructor
      · intro hle
        rw [covers_chunks, hT.parts, List.flatten_append, List.flatten_cons, List.mem_append, List.mem_append] at hq
        obtain hq | hq | hq := hq
        · have := hdone q hq _ (List.mem_append_left _ hmem)
          omega
        · have := le_getLast hchunk hne hq
          omega
        · exact hq
      · intro hrest
        have := hover _ hmem q hrest
        omega
    · have hc := hT.counted (hf.initial hp)
      have hlen := hfull hf
      rw [hflat, List.length_append]
      simp only [CommitState.accounted] at hc ⊢
      push_cast
      omega

theorem wp_deleteChunks_counted (hT : UpTo group c₀ b₀ [] group.chunks c b) :
    Wp Answering (deleteChunks receiver group.chunks) (ChunksStop group c₀ b₀ group.chunks []) c b := by
  have hrest : ∀ rest done c b, UpTo group c₀ b₀ done rest c b →
      Wp Answering (rest.forM (deleteChunk receiver false)) (ChunksStop group c₀ b₀ group.chunks []) c b := by
    intro rest
    induction rest with
    | nil =>
      intro done c b hT
      have hall : done = group.chunks := by rw [hT.parts, List.append_nil]
      rw [hall] at hT
      exact wp_pure.mpr hT
    | cons chunk rest ih =>
      intro done c b hT
      refine wp_bind.mpr ((wp_deleteChunk_counted false hT).mono fun r c' b' hend => ?_)
      cases r with
      | error e => exact hend
      | ok _ => exact ih _ _ _ hend
  have hfirst : ∀ chunks, UpTo group c₀ b₀ [] chunks c b →
      Wp Answering (deleteChunks receiver chunks) (ChunksStop group c₀ b₀ group.chunks []) c b := by
    intro chunks hT
    cases chunks with
    | nil =>
      have hall : group.chunks = [] := hT.parts
      rw [← hall] at hT
      exact wp_pure.mpr (by simpa [ChunksStop, hall] using hT)
    | cons chunk rest =>
      rw [deleteChunks, wp_bind]
      refine (wp_deleteChunk_counted true hT).mono fun r c' b' hend => ?_
      cases r with
      | error e => exact hend
      | ok _ => exact hrest _ _ _ _ hend
  exact hfirst _ hT

/-- How the deletion of a group ends. -/
def GroupStop (group : PendingGroup) (c₀ : CommitState) (b₀ : List Answer) :
    Except Exn Unit → CommitState → List Answer → Prop
  | .ok _, c, b => b₀ <+: b ∧ (InFull b → c.accounted = c₀.accounted + group.count)
  | .error _, c, b => Interrupted group c₀ b₀ c b

/-- Quiet events change neither the commit nor the answers. -/
theorem quietKeeps_answering (c : CommitState) (b : List Answer) :
    QuietKeeps Answering (fun c' b' => c' = c ∧ b' = b : CommitState → List Answer → Prop) := by
  rintro e c' b₁ b₂ he hR ⟨rfl, rfl⟩
  exact ⟨rfl, answering_idle (answerOf_of_quiet he) hR⟩

/-- Opening the receiver asks for nothing. -/
theorem wp_openCommitReceiver_idle (session : Option String) :
    Wp Answering (withTransientRetry (retryable true)
      (openCommitReceiver row client ref session) transientBackoffSeconds)
      (fun _ c' b' => c' = c ∧ b' = b) c b := by
  have hq := quietKeeps_answering c b
  have hopen : Keeps Answering (fun c' b' => c' = c ∧ b' = b) (openCommitReceiver row client ref session) := by
    refine keeps_bind (keeps_openReceiver hq) fun receiver => ?_
    refine keeps_bind (keeps_tryCatch (keeps_quietCall hq rfl) fun _ => ?_) fun _ => keeps_pure
    exact keeps_bind (keeps_quietCall hq rfl) fun _ => keeps_throw
  exact keeps_withTransientRetry hq.still hopen _ c b ⟨rfl, rfl⟩

theorem wp_deleteGroup_counted (hpos : ∀ q, covers group.ranges q → 0 ≤ q) (hnext : c.nextSeq = 0) :
    Wp Answering (deleteGroup row client ref group) (GroupStop group c b) c b := by
  have hstart : UpTo group c b [] group.chunks c b := by
    refine ⟨List.prefix_refl b, rfl, fun q => by simp, rfl, fun q hq => ?_, fun _ => by simp, id⟩
    rw [hnext, ← covers_chunks]
    exact iff_of_true (hpos q hq) hq
  rw [deleteGroup, wp_bind]
  refine (wp_openCommitReceiver_idle group.sessionId).mono fun r c' b' hend => ?_
  obtain ⟨rfl, rfl⟩ := hend
  cases r with
  | error e => exact hstart.interrupted
  | ok receiver =>
    rw [onOk_ok, wp_ensuring]
    refine (wp_deleteChunks_counted hstart).mono fun r c₁ b₁ hend => ?_
    rw [closeReceiver, wp_request]
    intro reply b₂ hR
    rw [answering_idle rfl hR]
    cases r with
    | error e => cases reply <;> exact hend
    | ok _ =>
      cases reply with
      | error fault => exact UpTo.interrupted hend
      | ok _ =>
        refine ⟨hend.grown, fun hfull => ?_⟩
        rw [hend.counted hfull, count_eq]

end Group

/-! ### The whole commit -/

/-- The stored deferrals, one for each number of each group. -/
def deferralsOf (pending : List PendingEntity) : List Deferral :=
  pending.flatMap fun pe => pe.groups.flatMap fun group =>
    (iterRanges group.ranges).map fun q => ⟨pe.entity, group.sessionId, q⟩

/-- The commit returned, and its counters grew by so many numbers. -/
def Counted {α : Type} (n : ℤ) (c₀ : CommitState) (b₀ : List Answer) (r : Except Exn α) (c : CommitState)
    (b : List Answer) : Prop :=
  b₀ <+: b ∧ ∀ a, r = .ok a → InFull b → c.accounted = c₀.accounted + n

section Whole

variable {row : Row} {ref : EntityRef} {group : PendingGroup} {rest carried : List PendingGroup} {c c₀ : CommitState}
  {b b₀ : List Answer} {client : Handle}

theorem length_deferralsOf (pending : List PendingEntity) :
    (deferralsOf pending).length = (pending.map fun pe => countGroups pe.groups).sum := by
  have hgroups : ∀ (entity : EntityRef) (groups : List PendingGroup), ((groups.flatMap fun group =>
      (iterRanges group.ranges).map fun q => (⟨entity, group.sessionId, q⟩ : Deferral)).length : ℤ) = countGroups
        groups := by
    intro entity groups
    induction groups with
    | nil => rfl
    | cons group groups ih =>
      rw [List.flatMap_cons, List.length_append, List.length_map, Int.natCast_add, ih, countGroups, countGroups,
        List.map_cons, List.sum_cons, PendingGroup.count, countRanges_eq]
  induction pending with
  | nil => rfl
  | cons pe pending ih =>
    rw [deferralsOf, List.flatMap_cons, List.length_append, Int.natCast_add, hgroups, List.map_cons, List.sum_cons,
      ← ih]
    rfl

/-- A warning leaves the counters alone. -/
theorem wp_onCommitRun_warn (key : WarningKey) (text : String) :
    Wp Answering (onCommitRun (commitWarn key text))
      (fun r c' b' => r = .ok () ∧ c'.accounted = c.accounted ∧ b' = b) c b := by
  rw [onCommitRun, wp_embed, commitWarn, wp_bind, wp_get, onOk_ok]
  refine wp_ite.mpr ⟨fun _ => ?_, fun hkey => ?_⟩
  · rw [wp_note]
    intro b' hR
    exact ⟨rfl, rfl, answering_idle rfl hR⟩
  · rw [warn, wp_bind, wp_get, onOk_ok, wp_when]
    refine ⟨fun _ => ?_, fun hnot => absurd hkey hnot⟩
    rw [wp_bind, tally, wp_modify, onOk_ok, wp_note]
    intro b' hR
    exact ⟨rfl, rfl, answering_idle rfl hR⟩

/-- What a failed group leaves is carried, or given up with the groups behind it, or the commit raises. -/
theorem wp_afterGroupFailure_counted (error : Exn) : Wp Answering (afterGroupFailure row ref group rest carried error)
    (fun r c' b' => b' = b ∧ ∀ a, r = .ok a → c'.accounted = c.accounted + (group.tail c.nextSeq).count +
      (if a = none then countGroups rest else 0)) c b := by
  have hthrow : ∀ e : Exn, Wp Answering (throw e : Commit (Option (List PendingGroup))) (fun r c' b' => b' = b ∧
      ∀ a, r = .ok a → c'.accounted = c.accounted + (group.tail c.nextSeq).count +
        (if a = none then countGroups rest else 0)) c b := by
    intro e
    refine wp_throw.mpr ⟨rfl, ?_⟩
    rintro a ⟨⟩
  rw [afterGroupFailure, wp_bind, wp_get, onOk_ok]
  refine wp_ite.mpr ⟨fun _ => ?_, fun _ => wp_ite.mpr ⟨fun _ => wp_ite.mpr ⟨fun _ => ?_, fun _ => ?_⟩,
    fun _ => wp_ite.mpr ⟨fun _ => hthrow _, fun _ => ?_⟩⟩⟩
  · rw [wp_bind, onCommitRun, wp_embed, tally, wp_modify, onOk_ok, wp_pure]
    refine ⟨rfl, ?_⟩
    rintro _ ⟨⟩
    simp only [CommitState.accounted]
    simp
    omega
  · cases error.serviceBus? <;> exact hthrow _
  · rw [wp_bind]
    have hdrop : Wp Answering (onCommitRun (dropStale ref ((group.tail c.nextSeq).count + countGroups rest)))
        (fun r c' b' => r = .ok () ∧ c'.accounted = c.accounted + ((group.tail c.nextSeq).count + countGroups rest) ∧
          b' = b) c b := by
      rw [onCommitRun, wp_embed, dropStale, wp_bind, tally, wp_modify, onOk_ok]
      have hwarn := @wp_onCommitRun_warn ({ c with run := { c.run with stats := { c.run.stats with
        droppedStale := c.run.stats.droppedStale + ((group.tail c.nextSeq).count + countGroups rest) } } }) b
          .commitStaleEntity (staleText ref ((group.tail c.nextSeq).count + countGroups rest))
      rw [onCommitRun, wp_embed] at hwarn
      refine hwarn.mono fun r s' b' hend => ?_
      obtain ⟨hr, haccounted, hb⟩ := hend
      refine ⟨hr, ?_, hb⟩
      simp only [CommitState.accounted] at haccounted ⊢
      omega
    refine hdrop.mono fun r c' b' hend => ?_
    obtain ⟨rfl, haccounted, rfl⟩ := hend
    rw [onOk_ok, wp_pure]
    refine ⟨rfl, ?_⟩
    rintro _ ⟨⟩
    rw [haccounted, if_pos rfl]
    omega
  · cases error.serviceBus? <;> exact hthrow _

theorem wp_commitGroups_counted (groups : List PendingGroup) (hpos : ∀ g ∈ groups, ∀ q, covers g.ranges q → 0 ≤ q) :
    Wp Answering (commitGroups row client ref carried groups) (Counted (countGroups groups) c b) c b := by
  induction groups generalizing carried c b with
  | nil =>
    refine wp_pure.mpr ⟨List.prefix_refl b, fun _ _ _ => ?_⟩
    simp [countGroups]
  | cons group rest ih =>
    have hrest : ∀ g ∈ rest, ∀ q, covers g.ranges q → 0 ≤ q := fun g hg => hpos g (by simp [hg])
    have hcount : countGroups (group :: rest) = group.count + countGroups rest := by simp [countGroups]
    rw [commitGroups, wp_bind, wp_modify, onOk_ok, wp_bind, wp_attempt]
    refine (wp_deleteGroup_counted (hpos group (by simp)) rfl).mono fun r c₁ b₁ hend => ?_
    have hsame : ({ c with nextSeq := 0 } : CommitState).accounted = c.accounted := rfl
    cases r with
    | ok _ =>
      obtain ⟨hp₁, hgroup⟩ := hend
      refine (ih hrest).mono fun r c₂ b₂ hend => ?_
      obtain ⟨hp₂, hrest⟩ := hend
      refine ⟨hp₁.trans hp₂, fun a ha hfull => ?_⟩
      have := hgroup (hfull.initial hp₂)
      rw [hrest a ha hfull, this, hsame, hcount]
      omega
    | error error =>
      rw [onOk_ok, wp_bind]
      refine (wp_afterGroupFailure_counted error).mono fun r c₂ b₂ hfail => ?_
      obtain ⟨rfl, hfail⟩ := hfail
      rcases r with e | _ | carried₂
      · exact ⟨hend.grown, by rintro a ⟨⟩⟩
      · rw [onOk_ok, wp_pure]
        refine ⟨hend.grown, fun a ha hfull => ?_⟩
        have h₁ := hend.counted hfull
        have h₂ := hfail none rfl
        rw [if_pos rfl] at h₂
        rw [h₂, hcount]
        rw [hsame] at h₁
        omega
      · refine (ih hrest).mono fun r c₃ b₃ hend' => ?_
        obtain ⟨hp₃, hrest⟩ := hend'
        refine ⟨hend.grown.trans hp₃, fun a ha hfull => ?_⟩
        have h₁ := hend.counted (hfull.initial hp₃)
        have h₂ := hfail _ rfl
        rw [if_neg (by simp)] at h₂
        rw [hrest a ha hfull, h₂, hcount]
        rw [hsame] at h₁
        omega

/-- Groups without ranges count nothing. -/
theorem countGroups_filter (groups : List PendingGroup) :
    countGroups (groups.filter fun group => group.ranges ≠ []) = countGroups groups := by
  induction groups with
  | nil => rfl
  | cons group rest ih =>
    rw [countGroups] at ih ⊢
    by_cases hempty : group.ranges = []
    · have hzero : group.count = 0 := by
        rw [PendingGroup.count, hempty]
        rfl
      rw [List.filter_cons_of_neg (by simpa using hempty), ih, countGroups, countGroups, List.map_cons, List.sum_cons,
        hzero, Int.zero_add]
    · rw [List.filter_cons_of_pos (by simpa using hempty), List.map_cons, List.sum_cons, ih, countGroups, countGroups,
        List.map_cons, List.sum_cons]

theorem wp_commitNext_counted (entities : List PendingEntity) (pe : PendingEntity)
    (hpos : ∀ g ∈ pe.groups, ∀ q, covers g.ranges q → 0 ≤ q) :
    Wp Answering (commitNext row client entities pe) (Counted (countGroups pe.groups) c b) c b := by
  rw [commitNext, commitEntity, wp_bind, wp_bind]
  refine (wp_commitGroups_counted _ fun g hg => hpos g (List.mem_filter.mp hg).1).mono fun r c₁ b₁ hend => ?_
  rw [countGroups_filter] at hend
  obtain ⟨hp, hend⟩ := hend
  cases r with
  | error e => exact ⟨hp, by rintro a ⟨⟩⟩
  | ok groups =>
    have hend := hend groups rfl
    have hlast : ∀ c₂ : CommitState, c₂.accounted = c₁.accounted → Wp Answering
        (if groups = [] then pure entities else pure (entities ++ [{ pe with groups := groups }]) : Commit _)
        (Counted (countGroups pe.groups) c b) c₂ b₁ := by
      intro c₂ hsame
      refine wp_ite.mpr ⟨fun _ => wp_pure.mpr ⟨hp, fun _ _ hfull => ?_⟩, fun _ => wp_pure.mpr ⟨hp, fun _ _ hfull => ?_⟩⟩
      all_goals rw [hsame, hend hfull]
    rw [onOk_ok, wp_bind, wp_when]
    refine ⟨fun _ => (wp_onCommitRun_warn _ _).mono fun r c₂ b₂ h => ?_, fun _ => ?_⟩
    · obtain ⟨rfl, hsame, rfl⟩ := h
      rw [onOk_ok, wp_pure]
      exact hlast c₂ hsame
    · rw [onOk_ok, wp_pure]
      exact hlast c₁ rfl

/-- How many numbers the entities have. -/
def countEntities (pending : List PendingEntity) : ℤ := (pending.map fun pe => countGroups pe.groups).sum

/-- Entities without ranges count nothing. -/
theorem countEntities_filter (pending : List PendingEntity) :
    countEntities (pending.filter fun pe => pe.groups.any fun group => group.ranges ≠ []) = countEntities pending := by
  induction pending with
  | nil => rfl
  | cons pe pending ih =>
    simp only [countEntities, List.filter_cons, List.map_cons, List.sum_cons] at ih ⊢
    split
    · rw [List.map_cons, List.sum_cons, ih]
    · rename_i hsome
      have hnone : (pe.groups.filter fun group => group.ranges ≠ []) = [] := by
        refine List.filter_eq_nil_iff.mpr fun group hgroup hne => hsome ?_
        exact List.any_eq_true.mpr ⟨group, hgroup, hne⟩
      have hzero : countGroups pe.groups = 0 := by
        rw [← countGroups_filter, hnone]
        rfl
      rw [ih, hzero, Int.zero_add]

/-- The counters of a commit that returns add up to the stored set. -/
theorem wp_commit_counted (pending : List PendingEntity)
    (hpos : ∀ pe ∈ pending, ∀ g ∈ pe.groups, ∀ q, covers g.ranges q → 0 ≤ q) :
    Wp Answering (commit row pending) (Counted (deferralsOf pending).length c b) c b := by
  have hfold : ∀ work entities c b, (∀ pe ∈ work, ∀ g ∈ pe.groups, ∀ q, covers g.ranges q → 0 ≤ q) → ∀ client,
      Wp Answering (work.foldlM (commitNext row client) entities : Commit _)
        (Counted (countEntities work) c b) c b := by
    intro work
    induction work with
    | nil => exact fun entities c b _ client => wp_pure.mpr ⟨List.prefix_refl b, fun _ _ _ => (Int.add_zero _).symm⟩
    | cons pe work ih =>
      intro entities c b hpos client
      rw [List.foldlM_cons, wp_bind]
      refine (wp_commitNext_counted entities pe (hpos pe (by simp))).mono fun r c₁ b₁ hend => ?_
      obtain ⟨hp₁, hend⟩ := hend
      cases r with
      | error e => exact ⟨hp₁, by rintro a ⟨⟩⟩
      | ok entities =>
        refine (ih entities c₁ b₁ (fun pe' hpe' => hpos pe' (by simp [hpe'])) client).mono fun r c₂ b₂ hend₂ => ?_
        obtain ⟨hp₂, hend₂⟩ := hend₂
        refine ⟨hp₁.trans hp₂, fun a ha hfull => ?_⟩
        rw [hend₂ a ha hfull, hend _ rfl (hfull.initial hp₂)]
        simp only [countEntities, List.map_cons, List.sum_cons]
        omega
  have hcount : ((deferralsOf pending).length : ℤ) = countEntities pending := length_deferralsOf pending
  rw [hcount, ← countEntities_filter, commit]
  refine wp_ite.mpr ⟨fun hnil => ?_, fun _ => ?_⟩
  · rw [hnil]
    exact wp_pure.mpr ⟨List.prefix_refl b, fun _ _ _ => (Int.add_zero _).symm⟩
  · have hclient : Keeps Answering (fun c' b' => c' = c ∧ b' = b) (commitClient row : Commit Handle) :=
      keeps_quietCall (quietKeeps_answering c b) rfl
    rw [wp_bind]
    refine (hclient c b ⟨rfl, rfl⟩).mono fun r c₁ b₁ hsame => ?_
    obtain ⟨rfl, rfl⟩ := hsame
    cases r with
    | error e => exact ⟨List.prefix_refl _, by rintro a ⟨⟩⟩
    | ok client =>
      rw [onOk_ok, wp_ensuring]
      refine (hfold _ [] _ _ (fun pe hpe => hpos pe (List.mem_filter.mp hpe).1) client).mono fun r c₂ b₂ hend => ?_
      rw [closeClient, wp_request]
      intro reply b₃ hR
      rw [answering_idle rfl hR]
      cases reply with
      | error fault => exact ⟨hend.1, by rintro a ⟨⟩⟩
      | ok _ => exact hend

/-- A group that raises is accounted for exactly where the failing call is at the start of a chunk. And over a commit
that returns, the four counters add up to the stored set, if each call that returns, returns every message it asked
for. -/
theorem interrupted_commit (row : Row) :
    (∀ client ref (group : PendingGroup) (c c' : CommitState) es e, (∀ q, covers group.ranges q → 0 ≤ q) →
      c.nextSeq = 0 →
      Prog.Exec (deleteGroup row client ref group) c es (.error e) c' →
        (Exact group c c' (answers es) ↔ FailsAtChunkStart group (answers es))) ∧
    ∀ (pending : List PendingEntity) (s s' : RunState) es carried,
      (∀ pe ∈ pending, ∀ g ∈ pe.groups, ∀ q, covers g.ranges q → 0 ≤ q) → InFull (answers es) →
      Prog.Exec (runCommit row pending) s es (.ok carried) s' →
        (CommitState.mk s' 0).accounted = (CommitState.mk s 0).accounted + (deferralsOf pending).length := by
  constructor
  · intro client ref group c c' es e hpos hnext hrun
    have hend := wp_answering (wp_deleteGroup_counted hpos hnext) hrun
    exact hend.exact_iff rfl
  · intro pending s s' es carried hpos hfull hrun
    have hrun' : Wp Answering (runCommit row pending) (fun r s' b => ∀ a, r = .ok a → InFull b →
        (CommitState.mk s' 0).accounted = (CommitState.mk s 0).accounted + (deferralsOf pending).length) s [] := by
      rw [runCommit, wp_embed]
      exact (wp_commit_counted pending hpos).mono fun r c b hend => hend.2
    exact wp_answering hrun' hrun carried rfl hfull

/-- Four numbers of one group. -/
def fourNumbers : PendingGroup := { ranges := [(1, 4)] }

/-- Two messages of a session, after four that are so large that a call asks for two of them. -/
def heldSession : List PendingEntity :=
  [{ entity := deferRow.entity, groups := [{ maxBodyBytes := 8 * 1024 * 1024, ranges := [(1, 4)] },
    { sessionId := some "held", ranges := [(5, 6)] }] }]

/-- A lost connection. -/
def lostConnection : Except Fault (List Message) := .error (.serviceBus { kind := .connection })

/-- One message is missing from the four: the first half is deleted, and then the connection is lost. -/
def halfDeleted : Script where
  deferredReceives := [.error (.serviceBus { kind := .messageNotFound }),
    .ok [{ sequenceNumber := 1 }, { sequenceNumber := 2 }],
    lostConnection, lostConnection, lostConnection, lostConnection]

/-- Message 2 is missing from the first of two calls, and another receiver holds the session. -/
def secondMissing : Script where
  enters := .ok () :: List.replicate 4 (.error (.serviceBus { kind := .sessionCannotBeLocked }))
  deferredReceives := [.error (.serviceBus { kind := .messageNotFound }), .ok [{ sequenceNumber := 1 }],
    .error (.serviceBus { kind := .messageNotFound }), .ok [{ sequenceNumber := 3 }, { sequenceNumber := 4 }]]

/-- The deletion of the four numbers as scripted. -/
abbrev deleteFour : Commit Unit := deleteGroup deferRow 1 deferRow.entity fourNumbers

theorem nonneg_of_ranges {ranges : List Range} (h : ∀ r ∈ ranges, 0 ≤ r.1) : ∀ q, covers ranges q → 0 ≤ q := by
  intro q hq
  obtain ⟨range, hrange, hle, -⟩ := hq
  exact le_trans (h range hrange) hle

/-- The connection is lost at once: nothing is deleted, and all four stay. And a commit that deletes three messages,
misses one and carries two forward, counts all six. -/
theorem interrupted_commit_one :
    (∃ es c', Exact fourNumbers { run := .start {} } c' (answers es) ∧ c'.nextSeq = 0) ∧
      ∃ s', (CommitState.mk s' 0).accounted = 0 + 6 ∧ s'.stats.committed = 3 ∧ s'.stats.alreadyGone = 1 ∧
        s'.stats.carriedForward = 2 := by
  constructor
  · let script : Script := { deferredReceives := List.replicate 4 lostConnection }
    have hresult : ∃ e, scriptedResult deleteFour { run := .start {} } script = .error e := ⟨_, rfl⟩
    obtain ⟨e, hresult⟩ := hresult
    have hpos : ∀ q, covers fourNumbers.ranges q → 0 ≤ q := nonneg_of_ranges (by decide)
    refine ⟨_, _, ((interrupted_commit deferRow).1 1 deferRow.entity fourNumbers _ _ _ e hpos rfl
      (exec_of_scriptedResult script hresult)).mpr ?_, by decide +kernel⟩
    intro asked fault hlast _
    have hfirst : (answers (scripted deleteFour { run := .start {} } script)).getLast?.map Prod.fst =
        some [1, 2, 3, 4] := by
      decide +kernel
    rw [hlast, Option.map_some, Option.some.injEq] at hfirst
    exact ⟨[1, 2, 3, 4], by decide +kernel, congrArg List.head? hfirst⟩
  · have hresult : ∃ carried, scriptedResult (runCommit deferRow heldSession) (.start {}) secondMissing = .ok carried :=
      ⟨_, rfl⟩
    obtain ⟨carried, hresult⟩ := hresult
    have hpos : ∀ pe ∈ heldSession, ∀ g ∈ pe.groups, ∀ q, covers g.ranges q → 0 ≤ q := by
      have hranges : ∀ pe ∈ heldSession, ∀ g ∈ pe.groups, ∀ r ∈ g.ranges, 0 ≤ r.1 := by decide
      exact fun pe hpe g hg => nonneg_of_ranges (hranges pe hpe g hg)
    have hfull : InFull (answers (scripted (runCommit deferRow heldSession) (.start {}) secondMissing)) := by
      decide +kernel
    have hsum := (interrupted_commit deferRow).2 heldSession _ _ _ carried hpos hfull
      (exec_of_scriptedResult secondMissing hresult)
    have hsix : (deferralsOf heldSession).length = 6 := by decide +kernel
    rw [hsix] at hsum
    exact ⟨_, hsum, by decide +kernel, by decide +kernel, by decide +kernel⟩

/-- Messages 1 and 2 are deleted, but they stay pending and are not counted. -/
theorem half_deleted_stays_pending : ∃ es e c', Prog.Exec deleteFour { run := .start {} } es (.error e) c' ∧
    covers (fourNumbers.tail c'.nextSeq).ranges 1 ∧ Settled (answers es) 1 ∧ c'.run.stats.committed = 0 ∧
    returned (answers es) = 2 := by
  obtain ⟨e, hresult⟩ : ∃ e, scriptedResult deleteFour { run := .start {} } halfDeleted = .error e := ⟨_, rfl⟩
  refine ⟨_, e, _, exec_of_scriptedResult halfDeleted hresult, ?_, by decide +kernel, by decide +kernel,
    by decide +kernel⟩
  have hnext : (scriptedState deleteFour { run := .start {} } halfDeleted).nextSeq = 0 := by decide +kernel
  rw [hnext, PendingGroup.tail, covers_tailRanges]
  exact ⟨⟨(1, 4), List.mem_singleton_self _, by decide⟩, by decide⟩

end Whole

end ServiceBusExtractor
