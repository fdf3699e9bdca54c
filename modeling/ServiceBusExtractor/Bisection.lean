import ServiceBusExtractor.DeferredCalls

/-!
# Bisection

The broker refuses a deferred receive as a whole when it lacks one of its numbers,
and does not say which. Halving the list finds the missing ones, while the calls that
succeed in between change what the broker has.

## The model

* `Broker` — the deferred messages the broker has, and what it was asked.
* `Broker.Step` — a call returns and removes its messages where all are there, and
  nothing otherwise; transient errors end within the retries of a call.
* `Bisected` — what the halving of some numbers returns and leaves.

## What is proved

* `receiveDeferredBisect_eq`: the recursion of the program, without its bound.
* `bisection_exact`: the halving returns the messages that are there and the numbers
  that are not, within twice as many answered calls as there are numbers, less one.
-/

namespace ServiceBusExtractor

open Interaction

/-- A broker with deferred messages, and the calls it got. -/
structure Broker where
  /-- The numbers it has a deferred message of. -/
  present : Finset ℤ
  /-- The transient errors since its last answer. -/
  transient : ℕ := 0
  /-- The numbers each call asked for, retries included. -/
  asked : List (List ℤ) := []
  /-- The calls answered by messages or by their absence: a call and its retries are one. -/
  answered : ℕ := 0

namespace Broker

/-- The broker after a transient error. -/
def refuse (b : Broker) (seqs : List ℤ) : Broker :=
  { b with transient := b.transient + 1, asked := b.asked ++ [seqs] }

/-- The broker after it answered a call, with what it has then. -/
def answer (b : Broker) (seqs : List ℤ) (present : Finset ℤ) : Broker where
  present := present
  asked := b.asked ++ [seqs]
  answered := b.answered + 1

/-- What the broker does at an event. -/
inductive Step (sessionLocked : Bool) : Event sdk → Broker → Broker → Prop where
  /-- Every number is there: the messages are returned in the order asked for, and gone. -/
  | found {b : Broker} {receiver : Handle} {seqs : List ℤ} {timeout : ℤ} {messages : List Message} :
      (∀ q ∈ seqs, q ∈ b.present) → messages.map Message.sequenceNumber = seqs →
      Step sessionLocked (.call (.receiveDeferredMessages receiver seqs timeout) (.ok messages)) b
        (b.answer seqs (b.present \ seqs.toFinset))
  /-- A number is missing: nothing is returned and nothing removed. -/
  | missing {b : Broker} {receiver : Handle} {seqs : List ℤ} {timeout q : ℤ} {fault : Fault} :
      q ∈ seqs → q ∉ b.present → (Exn.fault fault).isKind .messageNotFound = true →
      Step sessionLocked (.call (.receiveDeferredMessages receiver seqs timeout) (.error fault)) b
        (b.answer seqs b.present)
  /-- An error that is retried, and a retry is left. -/
  | transient {b : Broker} {receiver : Handle} {seqs : List ℤ} {timeout : ℤ} {fault : Fault} :
      retryable sessionLocked (.fault fault) = true → b.transient < transientBackoffSeconds.length →
      Step sessionLocked (.call (.receiveDeferredMessages receiver seqs timeout) (.error fault)) b (b.refuse seqs)
  /-- Any other event. -/
  | other {b : Broker} {e : Event sdk} : deferredNumbers e = none → Step sessionLocked e b b

end Broker

/-- What one call with its retries leaves: one answer more, after calls for the same numbers. -/
structure Called (seqs : List ℤ) (b b' : Broker) : Prop where
  answered : b'.answered = b.answered + 1
  transient : b'.transient = 0
  asked : ∃ tries, b'.asked = b.asked ++ List.replicate tries seqs ∧ b.transient + tries ≤ 4

/-- How one call with its retries ends. -/
def CallAnswer (seqs : List ℤ) (b : Broker) (r : Except Exn (List Message)) (b' : Broker) : Prop :=
  Called seqs b b' ∧ match r with
  | .ok messages => (∀ q ∈ seqs, q ∈ b.present) ∧ messages.map Message.sequenceNumber = seqs ∧
      b'.present = b.present \ seqs.toFinset
  | .error e => e.isKind .messageNotFound = true ∧ (∃ q ∈ seqs, q ∉ b.present) ∧ b'.present = b.present

/-- What the halving of some numbers returns and leaves. -/
structure Bisected (seqs : List ℤ) (b : Broker) (result : DeferredReceive) (b' : Broker) : Prop where
  received : result.received.map Message.sequenceNumber = seqs.filter (· ∈ b.present)
  notFound : result.notFound = seqs.filter (· ∉ b.present)
  present : b'.present = b.present \ seqs.toFinset
  transient : b'.transient = 0
  answered : b'.answered ≤ b.answered + (2 * seqs.length - 1)
  asked : ∃ calls, b'.asked = b.asked ++ calls ∧ [] ∉ calls ∧ calls.length ≤ 4 * (b'.answered - b.answered) ∧
    b.answered ≤ b'.answered

section Bisection

variable {W : Type} {w : W} {b b₁ b' : Broker} {seqs : List ℤ} {receiver : Handle} {sessionLocked : Bool}

/-! ### The recursion -/

/-- The bound on the halvings does not matter where it is large enough. -/
theorem bisect_eq_of_le {n m : ℕ} (hn : seqs.length ≤ n) (hm : seqs.length ≤ m) :
    (bisect receiver sessionLocked n seqs : Program W DeferredReceive) = bisect receiver sessionLocked m seqs := by
  induction n generalizing m seqs with
  | zero =>
    obtain rfl : seqs = [] := List.eq_nil_of_length_eq_zero (by omega)
    cases m <;> rfl
  | succ n ih =>
    cases m with
    | zero =>
      obtain rfl : seqs = [] := List.eq_nil_of_length_eq_zero (by omega)
      rfl
    | succ m =>
      rw [bisect, bisect]
      by_cases hne : seqs = []
      · rw [if_pos hne, if_pos hne]
      rw [if_neg hne, if_neg hne]
      refine bind_congr fun r => ?_
      cases r with
      | ok messages => rfl
      | error error =>
        dsimp only
        by_cases hone : seqs.length = 1
        · rw [if_pos hone, if_pos hone]
        have hpos := List.length_pos_of_ne_nil hne
        rw [ih (m := m) (by simp only [List.length_take]; omega) (by simp only [List.length_take]; omega),
          ih (m := m) (by simp only [List.length_drop]; omega) (by simp only [List.length_drop]; omega)]

/-- The recursion of the program. -/
theorem receiveDeferredBisect_eq (hne : seqs ≠ []) :
    (receiveDeferredBisect receiver seqs sessionLocked : Program W DeferredReceive) = (do
      match ← Prog.attempt (withTransientRetry (retryable sessionLocked)
        (receiveDeferredMessages receiver seqs deferredReceiveTimeoutSeconds) transientBackoffSeconds) with
      | .ok messages => pure ⟨messages, []⟩
      | .error error =>
        if error.isKind .messageNotFound then
          if seqs.length = 1 then pure ⟨[], seqs⟩
          else do
            let left ← receiveDeferredBisect receiver (seqs.take (seqs.length / 2)) sessionLocked
            let right ← receiveDeferredBisect receiver (seqs.drop (seqs.length / 2)) sessionLocked
            pure ⟨left.received ++ right.received, left.notFound ++ right.notFound⟩
        else throw error) := by
  have hpos := List.length_pos_of_ne_nil hne
  obtain ⟨n, hn⟩ : ∃ n, seqs.length = n + 1 := ⟨seqs.length - 1, by omega⟩
  rw [receiveDeferredBisect, hn, bisect, if_neg hne, hn]
  refine bind_congr fun r => ?_
  cases r with
  | ok messages => rfl
  | error error =>
    dsimp only
    by_cases hone : n + 1 = 1
    · rw [if_pos hone, if_pos hone]
    rw [receiveDeferredBisect, receiveDeferredBisect,
      @bisect_eq_of_le W _ receiver sessionLocked n (seqs.take ((n + 1) / 2)).length
        (by simp only [List.length_take]; omega) (Nat.le_refl _),
      @bisect_eq_of_le W _ receiver sessionLocked n (seqs.drop ((n + 1) / 2)).length
        (by simp only [List.length_drop]; omega) (Nat.le_refl _)]

/-! ### One call -/

/-- An error that is retried leaves one try less. -/
theorem CallAnswer.retry {r : Except Exn (List Message)} (h : CallAnswer seqs (b.refuse seqs) r b') :
    CallAnswer seqs b r b' := by
  obtain ⟨⟨hanswered, htransient, tries, hasked, htries⟩, hend⟩ := h
  refine ⟨⟨hanswered, htransient, tries + 1, ?_, ?_⟩, hend⟩
  · rw [hasked, List.replicate_succ, Broker.refuse, List.append_assoc, List.singleton_append]
  · simp only [Broker.refuse] at htries
    omega

/-- An answered call was one call. -/
theorem called_answer (present : Finset ℤ) (hb : b.transient ≤ 3) : Called seqs b (b.answer seqs present) :=
  ⟨rfl, rfl, 1, rfl, by omega⟩

/-- A call is answered within its retries. -/
theorem wp_answered {delays : List ℤ} (hdelays : b.transient + delays.length = transientBackoffSeconds.length) :
    Wp (Broker.Step sessionLocked) (withTransientRetry (retryable sessionLocked)
      (receiveDeferredMessages receiver seqs deferredReceiveTimeoutSeconds) delays)
      (fun r w' b' => w' = w ∧ CallAnswer seqs b r b') w b := by
  have hthree : transientBackoffSeconds.length = 3 := rfl
  induction delays generalizing b with
  | nil =>
    rw [withTransientRetry, receiveDeferredMessages, wp_request]
    intro reply b' hstep
    refine ⟨rfl, ?_⟩
    cases hstep with
    | found hall hmessages => exact ⟨called_answer _ (by omega), hall, hmessages, rfl⟩
    | missing hq hmissing hkind => exact ⟨called_answer _ (by omega), hkind, ⟨_, hq, hmissing⟩, rfl⟩
    | transient hretry hleft =>
      simp only [List.length_nil] at hdelays
      omega
    | other hnone => cases hnone
  | cons delay delays ih =>
    rw [withTransientRetry, wp_tryCatch, receiveDeferredMessages, wp_request]
    intro reply b₁ hstep
    cases hstep with
    | found hall hmessages => exact ⟨rfl, called_answer _ (by omega), hall, hmessages, rfl⟩
    | missing hq hmissing hkind =>
      refine wp_ite.mpr ⟨fun hretry => ?_, fun _ => wp_throw.mpr ?_⟩
      · rw [not_messageNotFound_of_retryable hretry] at hkind
        cases hkind
      · exact ⟨rfl, called_answer _ (by omega), hkind, ⟨_, hq, hmissing⟩, rfl⟩
    | transient hretry hleft =>
      refine wp_ite.mpr ⟨fun _ => ?_, fun hnot => absurd hretry hnot⟩
      rw [sleep, wp_bind, wp_perform]
      intro _ b₂ hsleep
      cases hsleep
      have hleft : (b.refuse seqs).transient + delays.length = transientBackoffSeconds.length := by
        simp only [Broker.refuse, List.length_cons] at hdelays ⊢
        omega
      refine (ih hleft).mono fun r w₂ b₃ hend => ?_
      exact ⟨hend.1, hend.2.retry⟩
    | other hnone => cases hnone

/-! ### Halving -/

/-- A call that found all its messages. -/
theorem bisected_found (hcall : Called seqs b b') (hb : b.transient = 0) (hne : seqs ≠ [])
    (hall : ∀ q ∈ seqs, q ∈ b.present) (hpresent : b'.present = b.present \ seqs.toFinset) {messages : List Message}
    (hmessages : messages.map Message.sequenceNumber = seqs) : Bisected seqs b ⟨messages, []⟩ b' := by
  have hpos := List.length_pos_of_ne_nil hne
  obtain ⟨hanswered, htransient, tries, hasked, htries⟩ := hcall
  refine ⟨?_, ?_, hpresent, htransient, by omega, List.replicate tries seqs, hasked, ?_, ?_, by omega⟩
  · rw [hmessages, List.filter_eq_self.mpr]
    simpa using hall
  · rw [eq_comm, List.filter_eq_nil_iff]
    simpa using hall
  · exact fun hmem => hne (List.eq_of_mem_replicate hmem).symm
  · rw [List.length_replicate]
    omega

/-- A call for one number that found no message. -/
theorem bisected_missing {q : ℤ} (hcall : Called [q] b b') (hb : b.transient = 0) (hmissing : q ∉ b.present)
    (hpresent : b'.present = b.present) : Bisected [q] b ⟨[], [q]⟩ b' := by
  obtain ⟨hanswered, htransient, tries, hasked, htries⟩ := hcall
  refine ⟨?_, ?_, ?_, htransient, ?_, List.replicate tries [q], hasked, ?_, ?_, by omega⟩
  · simp [hmissing]
  · simp [hmissing]
  · rw [hpresent, eq_comm, Finset.sdiff_eq_self_iff_disjoint]
    exact Finset.disjoint_singleton_right.mpr hmissing
  · simp only [List.length_singleton]
    omega
  · exact fun hmem => nomatch List.eq_of_mem_replicate hmem
  · rw [List.length_replicate]
    omega

/-- A call that failed, and then its two halves. -/
theorem Bisected.halves {front back : List ℤ} {b₂ : Broker} {left right : DeferredReceive} (hcall : Called seqs b b₁)
    (hb : b.transient = 0) (hpresent : b₁.present = b.present) (hparts : front ++ back = seqs) (hnodup : seqs.Nodup)
    (hfront : front ≠ []) (hback : back ≠ []) (hleft : Bisected front b₁ left b₂) (hright : Bisected back b₂ right b') :
    Bisected seqs b ⟨left.received ++ right.received, left.notFound ++ right.notFound⟩ b' := by
  subst hparts
  -- the left half took nothing the right one asks for
  have hstill : ∀ q ∈ back, (q ∈ b₂.present ↔ q ∈ b.present) := by
    intro q hq
    rw [hleft.present, hpresent, Finset.mem_sdiff, List.mem_toFinset]
    refine and_iff_left fun hqfront => ?_
    exact (List.nodup_append.mp hnodup).2.2 q hqfront q hq rfl
  have hlengths : (front ++ back).length = front.length + back.length := List.length_append
  have hposFront := List.length_pos_of_ne_nil hfront
  have hposBack := List.length_pos_of_ne_nil hback
  have hansweredLeft := hleft.answered
  have hansweredRight := hright.answered
  obtain ⟨hanswered, htransient, tries, hasked, htries⟩ := hcall
  obtain ⟨calls, haskedLeft, hemptyLeft, hfewLeft, hmoreLeft⟩ := hleft.asked
  obtain ⟨calls', haskedRight, hemptyRight, hfewRight, hmoreRight⟩ := hright.asked
  constructor
  · rw [List.map_append, hleft.received, hright.received, hpresent, List.filter_append, List.append_cancel_left_eq]
    exact List.filter_congr fun q hq => by rw [decide_eq_decide, hstill q hq]
  · rw [hleft.notFound, hright.notFound, hpresent, List.filter_append, List.append_cancel_left_eq]
    exact List.filter_congr fun q hq => by rw [decide_eq_decide, hstill q hq]
  · rw [hright.present, hleft.present, hpresent, Finset.sdiff_sdiff_left', ← Finset.sdiff_union_distrib,
      List.toFinset_append]
  · exact hright.transient
  · omega
  · refine ⟨List.replicate tries (front ++ back) ++ calls ++ calls', ?_, ?_, ?_, by omega⟩
    · rw [haskedRight, haskedLeft, hasked, List.append_assoc, List.append_assoc, List.append_assoc]
    · rw [List.mem_append, List.mem_append, not_or, not_or]
      refine ⟨⟨fun hmem => ?_, hemptyLeft⟩, hemptyRight⟩
      exact hfront (List.append_eq_nil_iff.mp (List.eq_of_mem_replicate hmem).symm).1
    · rw [List.length_append, List.length_append, List.length_replicate]
      omega

/-- By induction on the length of the list; the right half meets the broker the left one leaves. -/
theorem wp_bisected (hnodup : seqs.Nodup) (hb : b.transient = 0) :
    Wp (Broker.Step sessionLocked) (receiveDeferredBisect receiver seqs sessionLocked)
      (fun r w' b' => w' = w ∧ ∃ result, r = .ok result ∧ Bisected seqs b result b') w b := by
  induction hlength : seqs.length using Nat.strong_induction_on generalizing seqs b with
  | _ n ih =>
    by_cases hne : seqs = []
    · subst hne
      refine wp_pure.mpr ⟨rfl, ⟨[], []⟩, rfl, rfl, rfl, by simp, hb, by simp, [], by simp, by simp, by simp, by simp⟩
    have hpos := List.length_pos_of_ne_nil hne
    rw [receiveDeferredBisect_eq hne, wp_bind, wp_attempt]
    refine (wp_answered (by rw [hb, Nat.zero_add])).mono fun r w₁ b₁ hcall => ?_
    obtain ⟨rfl, hcalled, hend⟩ := hcall
    cases r with
    | ok messages =>
      obtain ⟨hall, hmessages, hpresent⟩ := hend
      exact wp_pure.mpr ⟨rfl, _, rfl, bisected_found hcalled hb hne hall hpresent hmessages⟩
    | error error =>
      obtain ⟨hkind, ⟨q, hq, hmissing⟩, hpresent⟩ := hend
      refine wp_ite.mpr ⟨fun _ => wp_ite.mpr ⟨fun hone => ?_, fun hmany => ?_⟩, fun hother => absurd hkind hother⟩
      · obtain ⟨p, rfl⟩ := List.length_eq_one_iff.mp hone
        obtain rfl := List.mem_singleton.mp hq
        exact wp_pure.mpr ⟨rfl, _, rfl, bisected_missing hcalled hb hmissing hpresent⟩
      · have hparts := List.take_append_drop (seqs.length / 2) seqs
        have hfrontLength : (seqs.take (seqs.length / 2)).length = seqs.length / 2 := by
          rw [List.length_take]
          omega
        have hbackLength : (seqs.drop (seqs.length / 2)).length = seqs.length - seqs.length / 2 := List.length_drop
        have hfront : seqs.take (seqs.length / 2) ≠ [] := List.ne_nil_of_length_pos (by omega)
        have hback : seqs.drop (seqs.length / 2) ≠ [] := List.ne_nil_of_length_pos (by omega)
        rw [wp_bind]
        refine (ih _ (by omega) (hnodup.sublist (List.take_sublist _ _)) hcalled.transient rfl).mono
          fun r w₂ b₂ hend => ?_
        obtain ⟨rfl, left, rfl, hleft⟩ := hend
        rw [onOk_ok, wp_bind]
        refine (ih _ (by omega) (hnodup.sublist (List.drop_sublist _ _)) hleft.transient rfl).mono
          fun r w₃ b₃ hend => ?_
        obtain ⟨rfl, right, rfl, hright⟩ := hend
        exact wp_pure.mpr ⟨rfl, _, rfl, .halves hcalled hb hpresent hparts hnodup hfront hback hleft hright⟩

end Bisection

/-! ### A broker that answers -/

/-- How a broker without transient errors answers. -/
def Broker.reply : (c : Call) → Broker → Reply c × Broker
  | .receiveDeferredMessages _ seqs _, b =>
    if ∀ q ∈ seqs, q ∈ b.present then
      (.ok (seqs.map fun q => { sequenceNumber := q }), b.answer seqs (b.present \ seqs.toFinset))
    else (.error (.serviceBus { kind := .messageNotFound }), b.answer seqs b.present)
  | c, b => ((Script.answer c {}).1, b)

theorem Broker.step_reply (sessionLocked : Bool) (c : Call) (b : Broker) :
    Broker.Step sessionLocked (.call c (b.reply c).1) b (b.reply c).2 := by
  cases c with
  | receiveDeferredMessages receiver seqs timeout =>
    rw [Broker.reply]
    by_cases hall : ∀ q ∈ seqs, q ∈ b.present
    · rw [if_pos hall]
      refine .found hall ?_
      rw [List.map_map]
      exact List.map_id'' (fun _ => rfl) seqs
    · rw [if_neg hall]
      push Not at hall
      obtain ⟨q, hq, hmissing⟩ := hall
      exact .missing hq hmissing rfl
  | _ => exact .other rfl

section Exact

variable {W : Type} {seqs : List ℤ}

/-- Every program has an execution against the broker. -/
theorem Broker.answers {α : Type} (sessionLocked : Bool) (p : Program W α) (w : W) (b : Broker) :
    ∃ es r w' b', Prog.Exec p w es r w' ∧ Path (Broker.Step sessionLocked) es b b' := by
  have hrun := runs_simulate (fun c b => Broker.reply c b) (p w) b
  have hpath := path_simulate (Broker.step_reply sessionLocked) (fun n b => .other rfl) (p w) b
  exact ⟨_, _, _, _, hrun, hpath⟩

/-- Halving ends whatever the broker has, with the messages that are there and the numbers that are not, both in the
order of the list, after at most twice as many answered calls as there are numbers, less one, and none for no
numbers. -/
theorem bisection_exact (hnodup : seqs.Nodup) (receiver : Handle) (sessionLocked : Bool) (w : W) (present : Finset ℤ) :
    (∃ es r w' b', Prog.Exec (receiveDeferredBisect receiver seqs sessionLocked) w es r w' ∧
      Path (Broker.Step sessionLocked) es { present } b') ∧
    ∀ es r w' b', Prog.Exec (receiveDeferredBisect receiver seqs sessionLocked) w es r w' →
      Path (Broker.Step sessionLocked) es { present } b' →
      ∃ result, r = .ok result ∧ result.received.map Message.sequenceNumber = seqs.filter (· ∈ present) ∧
        result.notFound = seqs.filter (· ∉ present) ∧ b'.present = present \ seqs.toFinset ∧
        (∀ q ∈ seqs, q ∈ result.received.map Message.sequenceNumber ↔ q ∉ result.notFound) ∧
        b'.answered ≤ 2 * seqs.length - 1 ∧ b'.asked.length ≤ 4 * b'.answered ∧ [] ∉ b'.asked := by
  constructor
  · exact Broker.answers sessionLocked _ w { present }
  · intro es r w' b' hexec hbroker
    obtain ⟨-, result, rfl, hend⟩ := wp_bisected hnodup rfl es r w' b' hexec hbroker
    obtain ⟨calls, hasked, hempty, hfew, -⟩ := hend.asked
    have hanswered := hend.answered
    rw [List.nil_append] at hasked
    rw [Nat.zero_add] at hanswered
    refine ⟨result, rfl, hend.received, hend.notFound, hend.present, fun q hq => ?_, hanswered, ?_, ?_⟩
    · rw [hend.received, hend.notFound, List.mem_filter, List.mem_filter]
      simp [hq]
    · rw [hasked]
      exact hfew
    · rwa [hasked]

end Exact

/-- Of three numbers the middle one is missing. -/
theorem bisection_exact_middle : ∃ es r w' b', Prog.Exec (receiveDeferredBisect 1 [1, 2, 3] false) () es r w' ∧
    Path (Broker.Step false) es { present := {1, 3} } b' ∧ b'.present = {1, 3} \ [1, 2, 3].toFinset ∧
      b'.answered ≤ 5 := by
  obtain ⟨⟨es, r, w', b', hexec, hbroker⟩, hall⟩ :=
    @bisection_exact Unit [1, 2, 3] (by decide) 1 false () {1, 3}
  obtain ⟨result, -, -, -, hpresent, -, hanswered, -⟩ := hall es r w' b' hexec hbroker
  exact ⟨es, r, w', b', hexec, hbroker, hpresent, hanswered⟩

end ServiceBusExtractor
