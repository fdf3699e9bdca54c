import ServiceBusExtractor.Limit
import ServiceBusExtractor.Verdict

/-!
# The recovery and the retry budget

A receive loop opens its connection again for two reasons, and counts them apart:
after a failure, and because a body that cannot be decoded may be readable on a
fresh connection. The two modules that count are told of each other's events by a
generation number alone.

## The model

* `recoveries`, `recycles`, `reopened` — the reopenings of a trace; `asked` — the
  numbers that asked for a fresh connection.
* `ProgressSince` — a row or a verdict since the last recovery.
* `FailedOn` — a body of that number failed on that generation of the connection.
* `Within` — what the budgets say of one event and the events before it.
* `Budgets` — the counters, the memory and the history agree; `Underway` — and, while
  a batch is processed, with what came before the batch.

## What is proved

* `wp_process_budgets` — a batch keeps the books, and asks for a fresh connection
  only while there are some left;
* `retry_budgets` — the books of every run of the loop.
-/

namespace ServiceBusExtractor

open Interaction

/-! ### What a trace says -/

/-- The connection was opened again for an unreadable body. -/
def isRecycle : Event sdk → Bool
  | .note .recycle => true
  | _ => false

def recoveries (h : Trace sdk) : ℕ := h.countP isRecovery

def recycles (h : Trace sdk) : ℕ := h.countP isRecycle

/-- The generation of the connection: how often it was opened again. -/
def reopened (h : Trace sdk) : ℕ := recoveries h + recycles h

def isReceive : Event sdk → Bool
  | .call (.receiveMessages ..) _ => true
  | _ => false

/-- The number of a message that asks for a fresh connection. -/
def askedFor : Event sdk → Option ℤ
  | .note (.unreadable m .retry) => some m.sequenceNumber
  | _ => none

/-- The numbers that asked for a fresh connection, one entry for each time. -/
def asked (h : Trace sdk) : List ℤ := h.filterMap askedFor

/-- The body of the message cannot be decoded. -/
def Undecodable (row : Row) (m : Message) : Prop :=
  ∃ e, row.codec.encodeBody m row.config.body.bodyFormat = .error (.unreadable e) ∧ e.reason = .unreadableBody

/-- A message of that number whose body cannot be decoded is given back. -/
def GivesBack (row : Row) (q : ℤ) : Event sdk → Prop
  | .call (.abandonMessage _ m) _ => m.sequenceNumber = q ∧ Undecodable row m
  | _ => False

/-- A body of that number failed on that connection, and was given back for another try. -/
def FailedOn (row : Row) (h : Trace sdk) (q : ℤ) (generation : ℕ) : Prop :=
  Once (fun before e => GivesBack row q e ∧ reopened before = generation) h

/-- A message of that number was left unsettled, in the trace or before it. -/
def LeftBefore (left : List ℤ) (h : Trace sdk) (q : ℤ) : Prop :=
  q ∈ left ∨ ∃ m, .note (.unreadable m .left) ∈ h ∧ m.sequenceNumber = q

/-- A row is written or an unreadable message disposed of; one that was left before is left again as soon as it is
handed out, without a verdict of its own. -/
def Progress (left : List ℤ) (before : Trace sdk) : Event sdk → Prop
  | .call (.writeRows _) (.ok _) => True
  | .note (.unreadable _ disposition) => disposition ≠ .retry
  | .call (.receiveMessages ..) (.ok batch) => ∃ m ∈ batch, LeftBefore left before m.sequenceNumber
  | _ => False

/-- There was progress since the last recovery, if there was one. -/
def ProgressSince (left : List ℤ) (h : Trace sdk) : Prop :=
  recoveries h = 0 ∨ ∃ before e after, h = before ++ e :: after ∧ Progress left before e ∧ recoveries after = 0

/-- The policy may give its verdict on a message whose body cannot be decoded: it failed on another connection before,
or there is no fresh connection left to ask for. -/
def MayJudge (row : Row) (h : Trace sdk) (m : Message) : Prop :=
  row.mode.holdsLocks = true → Undecodable row m → recycles h < maxUnreadableRecycles →
    ∃ generation ≠ reopened h, FailedOn row h m.sequenceNumber generation

/-- What the budgets say of an event: a recovery follows some progress; a number that asks for a fresh connection did
not ask for one before the last receive; and no verdict comes before its time. -/
def Within (row : Row) (left : List ℤ) (before : Trace sdk) : Event sdk → Prop
  | .note .recovery => ProgressSince left before
  | .note (.unreadable m .retry) =>
    Always (fun earlier e => isReceive e = true → m.sequenceNumber ∉ asked earlier) before
  | .note (.unreadable m _) => MayJudge row before m
  | _ => True

/-- The event is neither a reopening nor a verdict. -/
def isAside : Event sdk → Bool
  | .note .recovery | .note .recycle | .note (.unreadable ..) => false
  | _ => true

section Traces

variable {row : Row} {left : List ℤ} {h : Trace sdk} {e : Event sdk} {q : ℤ} {g : ℕ}

@[simp] theorem recoveries_append (h es : Trace sdk) : recoveries (h ++ es) = recoveries h + recoveries es :=
  List.countP_append

@[simp] theorem recycles_append (h es : Trace sdk) : recycles (h ++ es) = recycles h + recycles es := List.countP_append

@[simp] theorem asked_append (h es : Trace sdk) : asked (h ++ es) = asked h ++ asked es := List.filterMap_append

theorem reopened_append (h es : Trace sdk) : reopened (h ++ es) = reopened h + reopened es := by
  simp only [reopened, recoveries_append, recycles_append]
  omega

theorem recoveries_of_aside (he : isAside e = true) : recoveries [e] = 0 := by
  rcases e with ⟨c, r⟩ | n
  · rfl
  · cases n <;> first | rfl | exact absurd he Bool.false_ne_true

theorem recycles_of_aside (he : isAside e = true) : recycles [e] = 0 := by
  rcases e with ⟨c, r⟩ | n
  · rfl
  · cases n <;> first | rfl | exact absurd he Bool.false_ne_true

theorem asked_of_aside (he : isAside e = true) : asked [e] = [] := by
  rcases e with ⟨c, r⟩ | n
  · rfl
  · cases n <;> first | rfl | exact absurd he Bool.false_ne_true

theorem reopened_concat_aside (he : isAside e = true) : reopened (h ++ [e]) = reopened h := by
  rw [reopened_append, reopened, reopened, recoveries_of_aside he, recycles_of_aside he, Nat.add_zero]

theorem recycles_concat_aside (he : isAside e = true) : recycles (h ++ [e]) = recycles h := by
  rw [recycles_append, recycles_of_aside he, Nat.add_zero]

theorem recoveries_concat_aside (he : isAside e = true) : recoveries (h ++ [e]) = recoveries h := by
  rw [recoveries_append, recoveries_of_aside he, Nat.add_zero]

theorem asked_concat_aside (he : isAside e = true) : asked (h ++ [e]) = asked h := by
  rw [asked_append, asked_of_aside he, List.append_nil]

theorem within_of_aside (he : isAside e = true) : Within row left h e := by
  rcases e with ⟨c, r⟩ | n
  · trivial
  · cases n <;> trivial

theorem aside_of_quiet (he : Quiet e) : isAside e = true := by
  rcases e with ⟨c, r⟩ | n
  · rfl
  · cases n <;> first | rfl | exact absurd he Bool.false_ne_true

theorem FailedOn.append (hf : FailedOn row h q g) (es : Trace sdk) : FailedOn row (h ++ es) q g :=
  hf.along (List.prefix_append h es)

/-- A body failed on a connection that was open then. -/
theorem FailedOn.le (hf : FailedOn row h q g) : g ≤ reopened h := by
  obtain ⟨before, e, after, rfl, -, rfl⟩ := hf
  rw [reopened_append]
  omega

theorem LeftBefore.append (hl : LeftBefore left h q) (es : Trace sdk) : LeftBefore left (h ++ es) q := by
  obtain hl | ⟨m, hm, hq⟩ := hl
  · exact .inl hl
  · exact .inr ⟨m, List.mem_append_left es hm, hq⟩

/-- Only the verdict itself leaves a message. -/
theorem leftBefore_aside (he : isAside e = true) : LeftBefore left (h ++ [e]) q ↔ LeftBefore left h q := by
  constructor
  · rintro (hl | ⟨m, hm, hq⟩)
    · exact .inl hl
    · rw [List.mem_append, List.mem_singleton] at hm
      obtain hm | rfl := hm
      · exact .inr ⟨m, hm, hq⟩
      · exact absurd he Bool.false_ne_true
  · exact fun hl => hl.append [e]

theorem MayJudge.aside {m : Message} (hj : MayJudge row h m) (he : isAside e = true) : MayJudge row (h ++ [e]) m := by
  intro hlocks hbody hleft
  rw [recycles_concat_aside he] at hleft
  obtain ⟨g, hg, hfailed⟩ := hj hlocks hbody hleft
  refine ⟨g, ?_, hfailed.append [e]⟩
  rwa [reopened_concat_aside he]

theorem progressSince_last (he : Progress left h e) : ProgressSince left (h ++ [e]) := .inr ⟨h, e, [], rfl, he, rfl⟩

/-- What happens without a recovery takes no progress away. -/
theorem ProgressSince.append {es : Trace sdk} (hp : ProgressSince left h) (hes : recoveries es = 0) :
    ProgressSince left (h ++ es) := by
  obtain hnone | ⟨before, e', after, rfl, he', hafter⟩ := hp
  · left
    rw [recoveries_append, hnone, hes]
  · right
    refine ⟨before, e', after ++ es, by simp, he', ?_⟩
    rw [recoveries_append, hafter, hes]

theorem ProgressSince.event (hp : ProgressSince left h) (he : recoveries [e] = 0) : ProgressSince left (h ++ [e]) :=
  hp.append he

end Traces

/-! ### The books of a run -/

/-- The counters, the memory of first failures and the history agree, and the history is within the budgets. -/
structure Budgets (row : Row) (left : List ℤ) (tracker : RecoveryTracker) (s : RunState) (h : Trace sdk) : Prop where
  generation : tracker.generation = reopened h
  count : tracker.count = recoveries h
  recovered : recoveries h ≤ maxRecoveries
  recycled : s.stats.unreadableRecycles = recycles h
  spent : recycles h ≤ maxUnreadableRecycles
  enabled : s.unreadable.retriesEnabled = true
  remembered : ∀ q ∈ s.unreadable.left, LeftBefore left h q
  progress : tracker.progressed = true → ProgressSince left h
  failed : row.mode.holdsLocks = true → ∀ q g, s.unreadable.firstFailure.lookup q = some g → FailedOn row h q g
  known : ∀ q ∈ asked h, s.unreadable.firstFailure.lookup q ≠ none
  deleted : row.mode.holdsLocks = false → s.unreadable.firstFailure = []
  history : Always (Within row left) h

/-- Every first failure was on an earlier connection. -/
def FailedEarlier (tracker : RecoveryTracker) (s : RunState) : Prop :=
  ∀ q g, s.unreadable.firstFailure.lookup q = some g → g < tracker.generation

/-- A batch as it is handed out. -/
structure Handout where
  messages : List Message
  /-- The rows written before it. -/
  written : ℕ
  /-- The fresh connections used before it. -/
  recycles : ℕ

/-- The same while a batch is processed: what asked before the last receive did so on an earlier connection, and a
message that was left before, or a row written since the batch began, is progress. -/
structure Underway (row : Row) (left : List ℤ) (tracker : RecoveryTracker) (batch : Handout) (s : RunState)
    (h : Trace sdk) : Prop extends Budgets row left tracker s h where
  older : Always (fun earlier e => isReceive e = true → ∀ q ∈ asked earlier,
    ∃ g < tracker.generation, s.unreadable.firstFailure.lookup q = some g) h
  handed : ∀ m ∈ batch.messages, LeftBefore left h m.sequenceNumber → ProgressSince left h
  wrote : batch.written < s.stats.written → ProgressSince left h
  unspent : recycles h = batch.recycles

/-- The tracker once a failure is recovered from. -/
def RecoveryTracker.recovered (tracker : RecoveryTracker) : RecoveryTracker where
  generation := tracker.generation + 1
  count := tracker.count + 1
  progressed := false

section Books

variable {row : Row} {left : List ℤ} {tracker : RecoveryTracker} {batch : Handout} {s s' : RunState} {h : Trace sdk}
  {e : Event sdk}

theorem Budgets.event (hI : Budgets row left tracker s h) (he : isAside e = true) :
    Budgets row left tracker s (h ++ [e]) where
  generation := hI.generation.trans (reopened_concat_aside he).symm
  count := hI.count.trans (recoveries_concat_aside he).symm
  recovered := (recoveries_concat_aside he).trans_le hI.recovered
  recycled := hI.recycled.trans (recycles_concat_aside he).symm
  spent := (recycles_concat_aside he).trans_le hI.spent
  enabled := hI.enabled
  remembered q hq := (hI.remembered q hq).append [e]
  progress hp := (hI.progress hp).event (recoveries_of_aside he)
  failed hlocks q g hq := (hI.failed hlocks q g hq).append [e]
  known := by
    rw [asked_concat_aside he]
    exact hI.known
  deleted := hI.deleted
  history := always_concat.mpr ⟨hI.history, within_of_aside he⟩

theorem Underway.event (hI : Underway row left tracker batch s h) (he : isAside e = true)
    (hreceive : isReceive e = false) : Underway row left tracker batch s (h ++ [e]) where
  toBudgets := hI.toBudgets.event he
  older := by
    refine always_concat.mpr ⟨hI.older, fun hr => ?_⟩
    rw [hreceive] at hr
    exact absurd hr Bool.false_ne_true
  handed m hm hl := (hI.handed m hm ((leftBefore_aside he).mp hl)).event (recoveries_of_aside he)
  wrote hw := (hI.wrote hw).event (recoveries_of_aside he)
  unspent := (recycles_concat_aside he).trans hI.unspent

/-- Without a recovery the progress stays. -/
theorem Budgets.progressSince (hI : Budgets row left tracker s h) {h' : Trace sdk}
    (hI' : Budgets row left tracker s' h') (hh : h <+: h') (hp : ProgressSince left h) :
    ProgressSince left h' := by
  obtain ⟨es, rfl⟩ := hh
  refine hp.append ?_
  have hcount := hI'.count
  rw [hI.count, recoveries_append] at hcount
  omega

/-- Verdicts of first failures are about connections that were open then. -/
theorem Budgets.le_generation (hI : Budgets row left tracker s h) {q : ℤ} {g : ℕ}
    (hq : s.unreadable.firstFailure.lookup q = some g) : g ≤ tracker.generation := by
  cases hlocks : row.mode.holdsLocks with
  | true =>
    rw [hI.generation]
    exact (hI.failed hlocks q g hq).le
  | false =>
    rw [hI.deleted hlocks] at hq
    cases hq

/-- A reopening settles every first failure. -/
theorem Budgets.settled_succ (hI : Budgets row left tracker s h) {tracker' : RecoveryTracker}
    (hgeneration : tracker'.generation = tracker.generation + 1) : FailedEarlier tracker' s := by
  intro q g hq
  have := hI.le_generation hq
  omega

/-- The books after a fresh connection for unreadable bodies. -/
theorem Budgets.recycle (hI : Budgets row left tracker s h) (hspent : recycles h < maxUnreadableRecycles) :
    Budgets row left tracker.unreadableRetry
      { s with stats := { s.stats with unreadableRecycles := s.stats.unreadableRecycles + 1 } }
      (h ++ [.note .recycle]) where
  generation := by
    rw [reopened_append, ← hI.generation]
    rfl
  count := by
    rw [recoveries_append, ← hI.count]
    rfl
  recovered := by
    rw [recoveries_append]
    exact hI.recovered
  recycled := by
    rw [recycles_append, ← hI.recycled]
    rfl
  spent := by
    rw [recycles_append]
    exact hspent
  enabled := hI.enabled
  remembered q hq := (hI.remembered q hq).append _
  progress hp := (hI.progress hp).event rfl
  failed hlocks q g hq := (hI.failed hlocks q g hq).append _
  known := by
    rw [asked_append, show asked [.note .recycle] = [] from rfl, List.append_nil]
    exact hI.known
  deleted := hI.deleted
  history := always_concat.mpr ⟨hI.history, trivial⟩

/-- The books after a recovery. -/
theorem Budgets.recover (hI : Budgets row left tracker s h) (hcount : tracker.count < maxRecoveries)
    (hprogressed : tracker.progressed = true) {stats : RunStats} (hsame : s.stats.SameMarks stats) :
    Budgets row left tracker.recovered { s with stats := stats } (h ++ [.note .recovery]) where
  generation := by
    rw [reopened_append, ← hI.generation]
    rfl
  count := by
    rw [recoveries_append, ← hI.count]
    rfl
  recovered := by
    rw [recoveries_append, ← hI.count]
    exact hcount
  recycled := by
    rw [recycles_append]
    exact hsame.2.2.trans hI.recycled
  spent := by
    rw [recycles_append]
    exact hI.spent
  enabled := hI.enabled
  remembered q hq := (hI.remembered q hq).append _
  progress hp := absurd hp Bool.false_ne_true
  failed hlocks q g hq := (hI.failed hlocks q g hq).append _
  known := by
    rw [asked_append, show asked [.note .recovery] = [] from rfl, List.append_nil]
    exact hI.known
  deleted := hI.deleted
  history := always_concat.mpr ⟨hI.history, hI.progress hprogressed⟩

theorem receive_not_still (he : Still e) : isReceive e = false := by
  rcases e with ⟨c, r⟩ | n
  · cases c <;> first | rfl | exact he.elim
  · rfl

theorem stillFrame_underway : StillFrame Recorded (Underway row left tracker batch) where
  stats stats hsame hI := { hI with
    recycled := hsame.2.2.trans hI.recycled
    wrote := fun hw => hI.wrote (hsame.2.1 ▸ hw) }
  still := by
    rintro e s h _ he ⟨-, rfl⟩ hI
    exact hI.event (aside_of_quiet (quiet_of_still he)) (receive_not_still he)

/-- A receive that starts a batch: whatever asked before it did so on an earlier connection. -/
theorem Budgets.underway (hI : Budgets row left tracker s h) (hsettled : FailedEarlier tracker s) {receiver : Handle}
    {count : ℕ} {wait : ℤ} {messages : List Message} :
    Underway row left tracker ⟨messages, s.stats.written, recycles h⟩ s
      (h ++ [.call (.receiveMessages receiver count wait) (.ok messages)]) where
  toBudgets := hI.event rfl
  older := by
    have hall : ∀ q ∈ asked h, ∃ g < tracker.generation, s.unreadable.firstFailure.lookup q = some g := by
      intro q hq
      obtain ⟨g, hg⟩ := Option.ne_none_iff_exists'.mp (hI.known q hq)
      exact ⟨g, hsettled q g hg, hg⟩
    refine always_concat.mpr ⟨fun before e after hsplit _ q hq => hall q ?_, fun _ => hall⟩
    rw [hsplit, asked_append]
    exact List.mem_append_left _ hq
  handed m hm hl := progressSince_last ⟨m, hm, (leftBefore_aside rfl).mp hl⟩
  wrote hw := absurd hw (Nat.lt_irrefl _)
  unspent := recycles_concat_aside rfl

/-- A verdict of the policy. -/
theorem Underway.judged (hI : Underway row left tracker batch s h) {m : Message} {disposition : Disposition}
    (hd : disposition ≠ .retry) (hverdict : MayJudge row h m) (hstats : s.stats.SameMarks s'.stats)
    (hfirst : s'.unreadable.firstFailure = s.unreadable.firstFailure)
    (henabled : s'.unreadable.retriesEnabled = s.unreadable.retriesEnabled)
    (hleft : ∀ q ∈ s'.unreadable.left, q ∈ s.unreadable.left ∨ (disposition = .left ∧ m.sequenceNumber = q)) :
    Underway row left tracker batch s' (h ++ [.note (.unreadable m disposition)]) ∧
      ProgressSince left (h ++ [.note (.unreadable m disposition)]) := by
  have hp : ProgressSince left (h ++ [.note (.unreadable m disposition)]) := progressSince_last hd
  have hasked : asked [.note (.unreadable m disposition)] = [] := by
    cases disposition <;> first | rfl | exact absurd rfl hd
  refine ⟨?_, hp⟩
  exact {
    generation := by rw [reopened_append, hI.generation]; rfl
    count := by rw [recoveries_append, hI.count]; rfl
    recovered := by rw [recoveries_append]; exact hI.recovered
    recycled := by rw [recycles_append, hstats.2.2, hI.recycled]; rfl
    spent := by rw [recycles_append]; exact hI.spent
    enabled := henabled.trans hI.enabled
    remembered := by
      intro q hq
      obtain hq | ⟨rfl, rfl⟩ := hleft q hq
      · exact (hI.remembered q hq).append _
      · exact .inr ⟨m, List.mem_append_right h (List.mem_singleton_self _), rfl⟩
    progress := fun _ => hp
    failed := by
      rw [hfirst]
      exact fun hlocks q g hq => (hI.failed hlocks q g hq).append _
    known := by
      rw [hfirst, asked_append, hasked, List.append_nil]
      exact hI.known
    deleted := fun hlocks => hfirst.trans (hI.deleted hlocks)
    history := by
      refine always_concat.mpr ⟨hI.history, ?_⟩
      cases disposition <;> first | exact hverdict | exact absurd rfl hd
    older := by
      rw [hfirst]
      refine always_concat.mpr ⟨hI.older, fun hr => ?_⟩
      exact absurd hr Bool.false_ne_true
    handed := fun _ _ _ => hp
    wrote := fun _ => hp
    unspent := by rw [recycles_append]; exact hI.unspent }

/-- A request for a fresh connection, by a number whose first failure was on this one. -/
theorem Underway.retried (hI : Underway row left tracker batch s h) {m : Message}
    (hfirst : s.unreadable.firstFailure.lookup m.sequenceNumber = some tracker.generation) :
    Underway row left tracker batch s (h ++ [.note (.unreadable m .retry)]) := by
  have hp : ProgressSince left h → ProgressSince left (h ++ [.note (.unreadable m .retry)]) := fun hp => hp.event rfl
  exact {
    generation := by rw [reopened_append, hI.generation]; rfl
    count := by rw [recoveries_append, hI.count]; rfl
    recovered := by rw [recoveries_append]; exact hI.recovered
    recycled := by rw [recycles_append, hI.recycled]; rfl
    spent := by rw [recycles_append]; exact hI.spent
    enabled := hI.enabled
    remembered := fun q hq => (hI.remembered q hq).append _
    progress := fun hprogressed => hp (hI.progress hprogressed)
    failed := fun hlocks q g hq => (hI.failed hlocks q g hq).append _
    known := by
      intro q hq
      rw [asked_append, List.mem_append] at hq
      obtain hq | hq := hq
      · exact hI.known q hq
      · obtain rfl := List.mem_singleton.mp hq
        rw [hfirst]
        exact Option.some_ne_none _
    deleted := hI.deleted
    history := by
      refine always_concat.mpr ⟨hI.history, fun before e after hsplit hr hq => ?_⟩
      -- what asked before a receive failed on an earlier connection, this number on the present one
      obtain ⟨g, hg, hlookup⟩ := hI.older before e after hsplit hr _ hq
      rw [hfirst] at hlookup
      cases hlookup
      exact Nat.lt_irrefl _ hg
    older := by
      refine always_concat.mpr ⟨hI.older, fun hr => ?_⟩
      exact absurd hr Bool.false_ne_true
    handed := by
      intro m' hm' hl
      refine hp (hI.handed m' hm' ?_)
      obtain hl | ⟨m'', hm'', hq⟩ := hl
      · exact .inl hl
      · rw [List.mem_append, List.mem_singleton] at hm''
        obtain hm'' | hsame := hm''
        · exact .inr ⟨m'', hm'', hq⟩
        · cases hsame
    wrote := fun hw => hp (hI.wrote hw)
    unspent := by rw [recycles_append]; exact hI.unspent }

end Books

/-! ### The unreadable bodies of a batch -/

section Handling

variable {row : Row} {left : List ℤ} {tracker : RecoveryTracker} {batch : Handout} {s : RunState} {h : Trace sdk}

/-- A body is unreadable because it cannot be decoded, and for no other reason where it cannot. -/
theorem undecodable_iff {registry : Option FlattenRegistry} {m : Message} {t : Time} {error : UnreadableError}
    (hmap : (mapRow row registry m t).1 = .ok (.error error)) : error.reason = .unreadableBody ↔ Undecodable row m := by
  unfold mapRow at hmap
  cases hencoded : row.codec.encodeBody m row.config.body.bodyFormat with
  | error e =>
    rw [hencoded] at hmap
    cases e with
    | other name text => cases hmap
    | unreadable e =>
      cases hmap
      constructor
      · exact fun hreason => ⟨error, hencoded, hreason⟩
      · rintro ⟨e, he, hreason⟩
        rw [hencoded] at he
        cases he
        exact hreason
  | ok encoded =>
    have hno : ¬ Undecodable row m := by
      rintro ⟨e, he, -⟩
      rw [hencoded] at he
      cases he
    refine iff_of_false (fun hreason => ?_) hno
    rw [hencoded] at hmap
    dsimp only at hmap
    cases hcontent : encoded.content with
    | cell text =>
      rw [hcontent] at hmap
      cases hmap
    | fields fields =>
      rw [hcontent] at hmap
      cases registry with
      | none => cases hmap
      | some registry =>
        dsimp only at hmap
        split at hmap
        · cases hmap
        · cases hmap
          cases hreason
        · cases hmap

/-- A verdict is about to be given. -/
def Judging (row : Row) (left : List ℤ) (tracker : RecoveryTracker) (batch : Handout) (first : List (ℤ × ℕ))
    (m : Message) (s : RunState) (h : Trace sdk) : Prop :=
  Underway row left tracker batch s h ∧ s.unreadable.firstFailure = first ∧ MayJudge row h m

/-- A verdict was given. -/
def VerdictGiven (row : Row) (left : List ℤ) (tracker : RecoveryTracker) (batch : Handout) (first : List (ℤ × ℕ))
    (s : RunState) (h : Trace sdk) : Prop :=
  Underway row left tracker batch s h ∧ s.unreadable.firstFailure = first ∧ ProgressSince left h

variable {first : List (ℤ × ℕ)} {m : Message}

theorem stillFrame_judging : StillFrame Recorded (Judging row left tracker batch first m) where
  stats stats hsame hI := ⟨stillFrame_underway.stats stats hsame hI.1, hI.2⟩
  still := by
    rintro e s h _ he ⟨-, rfl⟩ ⟨hI, hfirst, hj⟩
    exact ⟨stillFrame_underway.still e s h _ he ⟨trivial, rfl⟩ hI, hfirst,
      hj.aside (aside_of_quiet (quiet_of_still he))⟩

theorem stillFrame_judged : StillFrame Recorded (VerdictGiven row left tracker batch first) where
  stats stats hsame hI := ⟨stillFrame_underway.stats stats hsame hI.1, hI.2⟩
  still := by
    rintro e s h _ he ⟨-, rfl⟩ ⟨hI, hfirst, hp⟩
    exact ⟨stillFrame_underway.still e s h _ he ⟨trivial, rfl⟩ hI, hfirst,
      hp.event (recoveries_of_aside (aside_of_quiet (quiet_of_still he)))⟩

/-- Counting a verdict; the memory of messages left may have been told before. -/
theorem wp_countUnreadable_judged {disposition : Disposition} (hd : disposition ≠ .retry) (reason : UnreadableReason)
    {s' : RunState} (hI : Judging row left tracker batch first m s h) (hstats : s'.stats = s.stats)
    (hfirst : s'.unreadable.firstFailure = s.unreadable.firstFailure)
    (henabled : s'.unreadable.retriesEnabled = s.unreadable.retriesEnabled)
    (hleft : ∀ q ∈ s'.unreadable.left, q ∈ s.unreadable.left ∨ (disposition = .left ∧ m.sequenceNumber = q)) :
    Wp Recorded (countUnreadable m reason disposition) (fun _ => VerdictGiven row left tracker batch first) s' h := by
  obtain ⟨hunder, rfl, hj⟩ := hI
  rw [countUnreadable, wp_bind, tally, wp_modify, onOk_ok, wp_note]
  rintro _ ⟨-, rfl⟩
  have hmarks : s.stats.SameMarks { s'.stats with unreadable := s'.stats.unreadable ++ [(reason, disposition)] } := by
    rw [hstats]
    exact ⟨rfl, rfl, rfl⟩
  have hjudged : Underway row left tracker batch
      { s' with stats := { s'.stats with unreadable := s'.stats.unreadable ++ [(reason, disposition)] } }
      (h ++ [.note (.unreadable m disposition)]) ∧ ProgressSince left (h ++ [.note (.unreadable m disposition)]) :=
    hunder.judged hd hj hmarks hfirst henabled hleft
  exact ⟨hjudged.1, hfirst, hjudged.2⟩

theorem wp_countDisposed_judged {disposition : Disposition} (hd : disposition ≠ .retry) (reason : UnreadableReason)
    (detail : String) {s' : RunState} (hI : Judging row left tracker batch first m s h) (hstats : s'.stats = s.stats)
    (hfirst : s'.unreadable.firstFailure = s.unreadable.firstFailure)
    (henabled : s'.unreadable.retriesEnabled = s.unreadable.retriesEnabled)
    (hleft : ∀ q ∈ s'.unreadable.left, q ∈ s.unreadable.left ∨ (disposition = .left ∧ m.sequenceNumber = q)) :
    Wp Recorded (countDisposed m reason disposition detail)
      (fun _ => VerdictGiven row left tracker batch first) s' h := by
  refine wp_bind.mpr ((wp_countUnreadable_judged hd reason hI hstats hfirst henabled hleft).mono fun r s₁ h₁ hI₁ => ?_)
  cases r with
  | error e => exact hI₁
  | ok _ => exact keeps_warn stillFrame_judged _ _ s₁ h₁ hI₁

/-- What handling an unreadable body leaves: no request, and some progress; or a request while there are fresh
connections left. -/
def PolicyEnd (row : Row) (left : List ℤ) (tracker : RecoveryTracker) (batch : Handout) (first : List (ℤ × ℕ))
    (r : Except Exn UnreadableAction) (s : RunState) (h : Trace sdk) : Prop :=
  Underway row left tracker batch s h ∧ ∀ action, r = .ok action →
    (action ≠ .retry → s.unreadable.firstFailure = first ∧ ProgressSince left h) ∧
    (action = .retry → batch.recycles < maxUnreadableRecycles)

/-- A program that ends in a verdict. -/
theorem wp_verdict {p : Run Unit} {action : UnreadableAction} (haction : action ≠ .retry)
    (hp : Wp Recorded p (fun _ => VerdictGiven row left tracker batch first) s h) :
    Wp Recorded (do p; pure action) (PolicyEnd row left tracker batch first) s h := by
  refine wp_bind.mpr (hp.mono fun r s' h' hI => ?_)
  cases r with
  | error e =>
    refine ⟨hI.1, ?_⟩
    rintro _ ⟨⟩
  | ok _ =>
    rw [onOk_ok, wp_pure]
    refine ⟨hI.1, ?_⟩
    rintro _ ⟨⟩
    exact ⟨fun _ => hI.2, fun hretry => absurd hretry haction⟩

theorem wp_disposeUnreadable_budgets (receiver : Handle) (error : UnreadableError)
    (hI : Judging row left tracker batch first m s h) :
    Wp Recorded (disposeUnreadable row receiver m error) (PolicyEnd row left tracker batch first) s h := by
  have hend : ∀ (e : Exn) s h, Underway row left tracker batch s h →
      PolicyEnd row left tracker batch first (.error e) s h := by
    intro e s h hI
    refine ⟨hI, ?_⟩
    rintro _ ⟨⟩
  refine wp_ite.mpr ⟨fun _ => ?_, fun _ => wp_ite.mpr ⟨fun _ => ?_, fun _ => wp_ite.mpr ⟨fun _ => ?_, fun _ => ?_⟩⟩⟩
  · have hfailed : Disposition.failed ≠ .retry := by decide
    have hcount := wp_countUnreadable_judged hfailed error.reason hI rfl rfl rfl fun q hq => .inl hq
    refine wp_bind.mpr (hcount.mono fun r s₁ h₁ hI₁ => ?_)
    cases r with
    | error e => exact hend e s₁ h₁ hI₁.1
    | ok _ => exact wp_verdict (by decide) (wp_modify.mpr ⟨{ hI₁.1 with }, hI₁.2⟩)
  · exact wp_verdict (by decide)
      (wp_countDisposed_judged (by decide) error.reason _ hI rfl rfl rfl fun q hq => .inl hq)
  · have hsettle : Keeps Recorded (Judging row left tracker batch first m)
        (safeSettle (deadLetterMessage receiver m error.reason.value error.description)) := by
      refine keeps_safeSettle stillFrame_judging (keeps_request ?_)
      rintro r s h _ ⟨-, rfl⟩ hI
      exact ⟨hI.1.event rfl rfl, hI.2.1, hI.2.2.aside rfl⟩
    refine hsettle.wp_bind hI (fun _ s₁ h₁ hI₁ => ?_) fun e s₁ h₁ hI₁ => hend e s₁ h₁ hI₁.1
    exact wp_verdict (by decide)
      (wp_countDisposed_judged (by decide) error.reason _ hI₁ rfl rfl rfl fun q hq => .inl hq)
  · refine (keeps_when (keeps_warn stillFrame_judging _ _)).wp_bind hI (fun _ s₁ h₁ hI₁ => ?_) fun e s₁ h₁ hI₁ =>
      hend e s₁ h₁ hI₁.1
    rw [leaveUnreadable, wp_bind, updateUnreadable, wp_modify, onOk_ok]
    refine wp_verdict (by decide) (wp_countDisposed_judged (by decide) error.reason _ hI₁ rfl rfl rfl fun q hq => ?_)
    obtain rfl | hq := List.mem_cons.mp hq
    · exact .inr ⟨rfl, rfl⟩
    · exact .inl hq

/-- The memory of first failures, once a message failed. -/
def remembering (first : List (ℤ × ℕ)) (q : ℤ) (generation : ℕ) : List (ℤ × ℕ) :=
  if (first.lookup q).isSome then first else first ++ [(q, generation)]

theorem lookup_remembering_of_some {q q' : ℤ} {g generation : ℕ} (hq : first.lookup q' = some g) :
    (remembering first q generation).lookup q' = some g := by
  unfold remembering
  split
  · exact hq
  · rw [List.lookup_append, hq]
    rfl

theorem lookup_remembering_inv {q q' : ℤ} {g generation : ℕ}
    (hq : (remembering first q generation).lookup q' = some g) :
    first.lookup q' = some g ∨ (q' = q ∧ g = generation) := by
  unfold remembering at hq
  split at hq
  · exact .inl hq
  · rw [List.lookup_append] at hq
    cases hfirst : first.lookup q' with
    | some g' =>
      rw [hfirst] at hq
      exact .inl hq
    | none =>
      rw [hfirst, Option.none_or, List.lookup_cons] at hq
      split at hq
      · rename_i hsame
        cases hq
        exact .inr ⟨beq_iff_eq.mp hsame, rfl⟩
      · cases hq

theorem lookup_remembering_self {q : ℤ} {generation : ℕ}
    (hq : first.lookup q = none ∨ first.lookup q = some generation) :
    (remembering first q generation).lookup q = some generation := by
  obtain hnone | hsome := hq
  · rw [remembering, hnone, if_neg (by simp), List.lookup_append, hnone, Option.none_or, List.lookup_cons]
    simp
  · exact lookup_remembering_of_some hsome

/-- A message whose body cannot be decoded is given back, and its failure remembered. -/
theorem Underway.givenBack (hI : Underway row left tracker batch s h) (hlocks : row.mode.holdsLocks = true)
    (hbody : Undecodable row m) {receiver : Handle} {reply : Except Fault Unit} :
    Underway row left tracker batch
      { s with unreadable := { s.unreadable with
        firstFailure := remembering s.unreadable.firstFailure m.sequenceNumber tracker.generation } }
      (h ++ [.call (.abandonMessage receiver m) reply]) := by
  have hcall : Underway row left tracker batch s (h ++ [.call (.abandonMessage receiver m) reply]) := hI.event rfl rfl
  exact { hcall with
    failed := by
      intro _ q g hq
      obtain hq | ⟨rfl, rfl⟩ := lookup_remembering_inv hq
      · exact hcall.failed hlocks q g hq
      · exact once_last ⟨⟨rfl, hbody⟩, hI.generation.symm⟩
    known := by
      intro q hq
      obtain ⟨g, hg⟩ := Option.ne_none_iff_exists'.mp (hcall.known q hq)
      rw [lookup_remembering_of_some hg]
      exact Option.some_ne_none g
    deleted := by
      intro hdelete
      rw [hlocks] at hdelete
      cases hdelete
    older := by
      intro before e after hsplit hr q hq
      obtain ⟨g, hg, hlookup⟩ := hcall.older before e after hsplit hr q hq
      exact ⟨g, hg, lookup_remembering_of_some hlookup⟩ }

/-- A number asks for a fresh connection where its first failure was on this one. -/
theorem wp_retryUnreadable_budgets (receiver : Handle) (reason : UnreadableReason) (hlocks : row.mode.holdsLocks = true)
    (hbody : Undecodable row m) (hspent : batch.recycles < maxUnreadableRecycles)
    (hlookup : s.unreadable.firstFailure.lookup m.sequenceNumber = none ∨
      s.unreadable.firstFailure.lookup m.sequenceNumber = some tracker.generation)
    (hI : Underway row left tracker batch s h) :
    Wp Recorded (retryUnreadable row receiver m tracker.generation reason)
      (PolicyEnd row left tracker batch first) s h := by
  have hupdate : ∀ handler : UnreadableHandler, (if (handler.firstFailure.lookup m.sequenceNumber).isSome then handler
      else { handler with firstFailure := handler.firstFailure ++ [(m.sequenceNumber, tracker.generation)] }) =
      { handler with firstFailure := remembering handler.firstFailure m.sequenceNumber tracker.generation } := by
    intro handler
    unfold remembering
    split <;> rfl
  have hframe : StillFrame Recorded fun s h => Underway row left tracker batch s h ∧
      s.unreadable.firstFailure.lookup m.sequenceNumber = some tracker.generation := {
    stats := fun stats hsame hI => ⟨stillFrame_underway.stats stats hsame hI.1, hI.2⟩
    still := fun e s h h' he hR hI => ⟨stillFrame_underway.still e s h h' he hR hI.1, hI.2⟩ }
  have hend : ∀ (e : Exn) s h, Underway row left tracker batch s h →
      PolicyEnd row left tracker batch first (.error e) s h := by
    intro e s h hI
    refine ⟨hI, ?_⟩
    rintro _ ⟨⟩
  rw [retryUnreadable, wp_bind, updateUnreadable, wp_modify, onOk_ok, hupdate, Prog.when, if_pos hlocks, wp_bind]
  refine (wp_safeSettle_of hframe (wp_request.mpr ?_)).mono fun r s₁ h₁ hI₁ => ?_
  · rintro reply _ ⟨-, rfl⟩
    exact ⟨hI.givenBack hlocks hbody, lookup_remembering_self hlookup⟩
  · cases r with
    | error e => exact hend e s₁ h₁ hI₁.1
    | ok _ =>
      rw [onOk_ok, wp_bind, countUnreadable, wp_bind, tally, wp_modify, onOk_ok, wp_note]
      rintro _ ⟨-, rfl⟩
      rw [onOk_ok, wp_pure]
      have hcounted : Underway row left tracker batch { s₁ with stats := { s₁.stats with
          unreadable := s₁.stats.unreadable ++ [(reason, .retry)] } } h₁ :=
        stillFrame_underway.stats _ ⟨rfl, rfl, rfl⟩ hI₁.1
      refine ⟨hcounted.retried hI₁.2, ?_⟩
      rintro _ ⟨⟩
      exact ⟨fun hno => absurd rfl hno, fun _ => hspent⟩

theorem holdsLocks_of_destructive (hdestructive : row.mode.isDestructive = true)
    (hdelete : row.mode ≠ .receiveAndDelete) :
    row.mode.holdsLocks = true := by
  revert hdestructive hdelete
  cases row.mode <;> decide

/-- What the policy decides before it asks for a fresh connection. -/
def RetryDecided (row : Row) (left : List ℤ) (tracker : RecoveryTracker) (batch : Handout) (first : List (ℤ × ℕ))
    (m : Message) (again : Bool) (s : RunState) (h : Trace sdk) : Prop :=
  Underway row left tracker batch s h ∧ s.unreadable.firstFailure = first ∧
    (again = true → row.mode.holdsLocks = true ∧ batch.recycles < maxUnreadableRecycles ∧
      (first.lookup m.sequenceNumber = none ∨ first.lookup m.sequenceNumber = some tracker.generation)) ∧
    (again = false → MayJudge row h m)

theorem wp_shouldRetry_budgets (hdestructive : row.mode.isDestructive = true)
    (hI : Underway row left tracker batch s h) :
    Wp Recorded (shouldRetry row m tracker.generation) (fun r s' h' => ∃ again, r = .ok again ∧
      RetryDecided row left tracker batch s.unreadable.firstFailure m again s' h') s h := by
  have hno : ∀ {s' h'}, Judging row left tracker batch s.unreadable.firstFailure m s' h' →
      ∃ again, (.ok false : Except Exn Bool) = .ok again ∧
        RetryDecided row left tracker batch s.unreadable.firstFailure m again s' h' :=
    fun hj => ⟨false, rfl, hj.1, hj.2.1, fun h => absurd h Bool.false_ne_true, fun _ => hj.2.2⟩
  rw [shouldRetry, wp_bind, wp_get, onOk_ok, wp_ite]
  refine ⟨fun hearlier => wp_pure.mpr (hno ⟨hI, rfl, fun hlocks _ _ => ?_⟩),
    fun hfirst => wp_ite.mpr ⟨fun hoff => ?_, fun hon =>
    wp_ite.mpr ⟨fun hspent => ?_,
      fun hspent => wp_pure.mpr ⟨true, rfl, hI, rfl, fun _ => ?_, fun h => absurd h.symm Bool.false_ne_true⟩⟩⟩⟩
  · obtain ⟨g, hg⟩ := Option.ne_none_iff_exists'.mp hearlier.1
    refine ⟨g, fun hsame => hearlier.2 ?_, hI.failed hlocks _ g hg⟩
    rw [hg, hsame, hI.generation]
  · refine wp_pure.mpr (hno ⟨hI, rfl, fun hlocks _ _ => ?_⟩)
    obtain hdelete | hdisabled := hoff
    · rw [hdelete] at hlocks
      exact absurd hlocks (by decide)
    · rw [hI.enabled] at hdisabled
      cases hdisabled
  · have hjudging : Judging row left tracker batch s.unreadable.firstFailure m s h := by
      refine ⟨hI, rfl, fun _ _ hunspent => ?_⟩
      rw [hI.recycled] at hspent
      omega
    refine wp_bind.mpr (((keeps_warn stillFrame_judging _ _ s h hjudging).and
      (raises_warn (fun _ => False) _ _ s h)).mono ?_)
    rintro r s' h' ⟨hj, hraised⟩
    cases r with
    | error e => exact (hraised e rfl).elim
    | ok _ => exact wp_pure.mpr (hno hj)
  · have hdelete : row.mode ≠ .receiveAndDelete := fun hdelete => hon (.inl hdelete)
    refine ⟨holdsLocks_of_destructive hdestructive hdelete, ?_, ?_⟩
    · rw [← hI.unspent, ← hI.recycled]
      omega
    · by_cases hnone : s.unreadable.firstFailure.lookup m.sequenceNumber = none
      · exact .inl hnone
      · by_contra hnot
        exact hfirst ⟨hnone, fun hsome => hnot (.inr hsome)⟩

/-- The policy asks for a fresh connection, or gives a verdict it may give. -/
theorem wp_handleUnreadable_budgets (hdestructive : row.mode.isDestructive = true) (receiver : Handle)
    (error : UnreadableError) (hm : m ∈ batch.messages) (herror : error.reason = .unreadableBody ↔ Undecodable row m)
    (hI : Underway row left tracker batch s h) : Wp Recorded (handleUnreadable row receiver m error tracker.generation)
      (PolicyEnd row left tracker batch s.unreadable.firstFailure) s h := by
  rw [handleUnreadable, wp_bind, wp_get, onOk_ok, wp_ite]
  refine ⟨fun hleft => wp_pure.mpr ⟨hI, ?_⟩, fun _ => wp_ite.mpr ⟨fun hreason => ?_, fun hreason => ?_⟩⟩
  · rintro _ ⟨⟩
    exact ⟨fun _ => ⟨rfl, hI.handed m hm (hI.remembered _ hleft)⟩, fun h => by cases h⟩
  · refine wp_bind.mpr ((wp_shouldRetry_budgets hdestructive hI).mono ?_)
    rintro _ s₁ h₁ ⟨again, rfl, hI₁, hfirst, hyes, hno⟩
    rw [onOk_ok, wp_ite]
    refine ⟨fun hagain => ?_, fun hagain => ?_⟩
    · obtain ⟨hlocks, hspent, hlookup⟩ := hyes hagain
      rw [← hfirst] at hlookup
      exact wp_retryUnreadable_budgets receiver error.reason hlocks (herror.mp hreason) hspent hlookup hI₁
    · exact wp_disposeUnreadable_budgets receiver error ⟨hI₁, hfirst, hno (by simpa using hagain)⟩
  · exact wp_disposeUnreadable_budgets receiver error ⟨hI, rfl, fun _ hbody => absurd (herror.mpr hbody) hreason⟩

end Handling

end ServiceBusExtractor
