import ServiceBusExtractor.Deadline
import ServiceBusExtractor.PagerDeadline

/-!
# The end of a run

A loop that is still going read the clock before its deadline in each of its turns.
A clock that moves between two readings does not leave room for many of them.

## The model

* `readings` — the readings of a whole run.
* `Unfinished` — a loop of the run is still going.

## What is proved

* `unfinished_run` — a run that is still going is in one of its loops;
* `run_ends` — with a clock that moves, every run ends.
-/

namespace ServiceBusExtractor

open Interaction

/-- The readings of the monotonic clock. -/
def readingOf : Event sdk → Option Time
  | .call .monotonic now => some now
  | _ => none

def readings (es : Trace sdk) : List Time := es.filterMap readingOf

section Ends

variable {deadline tick : Time} {row : Row} {turns : ℕ}

theorem timely_step (e : Event sdk) (w : Watch) :
    (w.step deadline e).timely = w.timely + ((readingOf e).toList.countP fun now => decide (now < deadline)) := by
  rcases e with ⟨c, r⟩ | n
  · cases c
    case monotonic =>
      show (if r < deadline then w.timely + 1 else w.timely) = _
      by_cases hr : r < deadline
      · simp [readingOf, hr]
      · simp [readingOf, hr]
    case sleep => simp only [Watch.step]; split <;> rfl
    case receiveMessages => simp only [Watch.step]; split <;> rfl
    case peekMessages => simp only [Watch.step]; split <;> rfl
    all_goals rfl
  · rfl

/-- The timely readings of a watch, counted on the trace. -/
theorem timely_watch (es : Trace sdk) (w : Watch) : (watch deadline w es).timely =
    w.timely + ((readings es).countP fun now => decide (now < deadline)) := by
  induction es generalizing w with
  | nil => rfl
  | cons e es ih =>
    have hreadings : readings (e :: es) = (readingOf e).toList ++ readings es := by
      unfold readings
      rw [List.filterMap_cons]
      cases readingOf e with
      | none => rfl
      | some now => rfl
    rw [hreadings, List.countP_append, ← Nat.add_assoc, ← timely_step]
    exact ih _

/-- Readings that keep their distance reach the deadline. -/
theorem timely_spread (htick : 0 ≤ tick) {t : Time} {later : List Time}
    (hspread : (t :: later).Pairwise fun a b => a + tick ≤ b)
    (hsome : 0 < later.countP fun now => decide (now < deadline)) :
    t + (later.countP fun now => decide (now < deadline)) * tick < deadline := by
  induction later generalizing t with
  | nil => exact absurd hsome (Nat.lt_irrefl 0)
  | cons a later ih =>
    obtain ⟨hfirst, hrest⟩ := List.pairwise_cons.mp hspread
    have hnext : t + tick ≤ a := hfirst a (List.mem_cons_self ..)
    rw [List.countP_cons] at hsome ⊢
    by_cases hmore : 0 < later.countP fun now => decide (now < deadline)
    · have hlast := ih hrest hmore
      have hspan : 0 ≤ ((later.countP fun now => decide (now < deadline) : ℕ) : ℤ) * tick :=
        mul_nonneg (Int.natCast_nonneg _) htick
      have ha : a < deadline := by linarith
      rw [if_pos (decide_eq_true ha)]
      push_cast
      rw [add_mul, one_mul]
      linarith
    · have hnone : (later.countP fun now => decide (now < deadline)) = 0 := Nat.eq_zero_of_not_pos hmore
      rw [hnone, Nat.zero_add] at hsome ⊢
      by_cases ha : a < deadline
      · rw [if_pos (decide_eq_true ha)]
        push_cast
        rw [one_mul]
        linarith
      · rw [if_neg (by simpa using ha)] at hsome
        exact absurd hsome (Nat.lt_irrefl 0)

/-- A loop that is still going. -/
def Unfinished (row : Row) (turns : ℕ) (es : Trace sdk) : Prop :=
  ∃ before t0 rest, es = before ++ .call .monotonic t0 :: rest ∧
    turns ≤ (watch (t0 + seconds row.config.advanced.maxDurationSeconds) { last := t0 } rest).timely

theorem Unfinished.prepend {es : Trace sdk} (h : Unfinished row turns es) (earlier : Trace sdk) :
    Unfinished row turns (earlier ++ es) := by
  obtain ⟨before, t0, rest, rfl, htimely⟩ := h
  exact ⟨earlier ++ before, t0, rest, by rw [List.append_assoc], htimely⟩

theorem unfinished_consumeRun {s s' : RunState} {es : Trace sdk}
    (hrun : Prog.Exec (consumeRun row turns) s es (.ok none) s') : Unfinished row turns es := by
  obtain ⟨es₁, _, _, s₁, rfl, -, h₁⟩ := Prog.exec_bind_ok.mp hrun
  obtain ⟨es₂, _, _, s₂, rfl, -, h₂⟩ := Prog.exec_bind_ok.mp h₁
  obtain ⟨es₃, _, reason, s₃, rfl, hconsume, h₃⟩ := Prog.exec_bind_ok.mp h₂
  obtain ⟨rfl, hreason, -⟩ := Prog.exec_pure.mp h₃
  cases reason with
  | some reason => cases hreason
  | none =>
    obtain ⟨es₄, _, _, s₄, rfl, -, h₄⟩ := Prog.exec_bind_ok.mp hconsume
    dsimp only at h₄
    obtain ⟨es₅, es₆, _, s₅, rfl, -, hloop⟩ := Prog.exec_bind_ok.mp h₄
    obtain ⟨l', hloop, -⟩ := Prog.exec_embed.mp hloop
    obtain ⟨t0, rest, rfl, h⟩ := exec_receiveLoopWatched hloop
    rw [List.append_nil]
    exact ((Unfinished.prepend ⟨[], t0, rest, rfl, h.2.2⟩ es₅).prepend es₄).prepend es₂ |>.prepend es₁

theorem unfinished_peekRun {s s' : RunState} {es : Trace sdk}
    (hrun : Prog.Exec (peekRun row turns) s es (.ok none) s') : Unfinished row turns es := by
  obtain ⟨es₁, _, _, s₁, rfl, -, h₁⟩ := Prog.exec_bind_ok.mp hrun
  dsimp only at h₁
  obtain ⟨es₂, _, _, s₂, rfl, -, h₂⟩ := Prog.exec_bind_ok.mp h₁
  obtain ⟨es₃, es₄, cursor, s₃, rfl, hpager, h₃⟩ := Prog.exec_bind_ok.mp h₂
  cases cursor with
  | some cursor =>
    obtain ⟨_, _, _, _, -, -, hlast⟩ := Prog.exec_bind_ok.mp h₃
    obtain ⟨-, hnone, -⟩ := Prog.exec_pure.mp hlast
    cases hnone
  | none =>
    obtain ⟨rfl, -, -⟩ := Prog.exec_pure.mp h₃
    obtain ⟨p', hpager, -⟩ := Prog.exec_embed.mp hpager
    rcases exec_peekPagerWatched hpager with ⟨-, hrefused⟩ | ⟨t0, rest, rfl, h⟩
    · cases hrefused
    · rw [List.append_nil]
      exact (Unfinished.prepend ⟨[], t0, rest, rfl, h.2.2⟩ es₂).prepend es₁

/-- A run that is still going is in one of its loops. -/
theorem unfinished_run {s s' : RunState} {es : Trace sdk}
    (hrun : Prog.Exec (Component.run row turns) s es (.ok none) s') :
    Unfinished row turns es := by
  obtain ⟨es₁, _, _, s₁, rfl, -, h₁⟩ := Prog.exec_bind_ok.mp hrun
  obtain ⟨es₂, es₃, ended, s₂, rfl, hout, h₂⟩ := Prog.exec_bind_ok.mp h₁
  cases ended with
  | some _ =>
    obtain ⟨_, _, _, _, -, -, hlast⟩ := Prog.exec_bind_ok.mp h₂
    obtain ⟨-, hnone, -⟩ := Prog.exec_pure.mp hlast
    cases hnone
  | none =>
    obtain ⟨rfl, -, -⟩ := Prog.exec_pure.mp h₂
    obtain ⟨es₄, _, _, s₃, rfl, -, h₃⟩ := Prog.exec_bind_ok.mp hout
    obtain ⟨es₅, es₆, ended, s₄, rfl, hattempt, h₄⟩ := Prog.exec_bind_ok.mp h₃
    obtain ⟨ended', hextract, hended⟩ := Prog.exec_attempt.mp hattempt
    obtain rfl := Except.ok.inj hended
    have hinside : Unfinished row turns es₅ ∧ es₆ = [] := by
      rcases ended with e | _ | _
      · obtain ⟨_, _, _, _, -, -, hlast⟩ := Prog.exec_bind_ok.mp h₄
        obtain ⟨-, hthrow, -⟩ := Prog.exec_throw.mp hlast
        cases hthrow
      · refine ⟨?_, (Prog.exec_pure.mp h₄).1⟩
        unfold extract at hextract
        split at hextract
        · exact unfinished_consumeRun hextract
        · exact unfinished_peekRun hextract
      · obtain ⟨_, _, _, _, -, -, hlast⟩ := Prog.exec_bind_ok.mp h₄
        obtain ⟨-, hnone, -⟩ := Prog.exec_pure.mp hlast
        cases hnone
    obtain ⟨hunfinished, rfl⟩ := hinside
    rw [List.append_nil, List.append_nil]
    exact (hunfinished.prepend es₄).prepend es₁

end Ends

/-- Every run ends: with a clock that advances by `tick` at least between two of its readings, no loop of a run is still
going after `max_duration / tick` turns, whatever the service answers. -/
theorem run_ends {row : Row} {turns : ℕ} {state : ExtractorState} {es : Trace sdk} {r : Except Exn (Option Unit)}
    {s : RunState} {tick : Time} (hrun : Prog.Exec (Component.run row turns) (.start state) es r s) (htick : 0 ≤ tick)
    (hclock : (readings es).Pairwise fun a b => a + tick ≤ b)
    (hturns : seconds row.config.advanced.maxDurationSeconds ≤ turns * tick) : r ≠ .ok none := by
  rintro rfl
  obtain ⟨before, t0, rest, rfl, htimely⟩ := unfinished_run hrun
  have hpositive : 0 < seconds row.config.advanced.maxDurationSeconds := by
    have hlow : 0 < (row.config.advanced.maxDurationSeconds : ℤ) :=
      Int.natCast_pos.mpr (Nat.lt_of_lt_of_le (by decide) row.config.advanced.maxDuration_bounds.1)
    exact mul_pos hlow (by decide)
  have hspread : (t0 :: readings rest).Pairwise fun a b => a + tick ≤ b := by
    unfold readings at hclock ⊢
    rw [List.filterMap_append] at hclock
    exact (List.pairwise_append.mp hclock).2.1
  rw [timely_watch, Nat.zero_add] at htimely
  have hone : 0 < turns := by
    refine Nat.pos_of_ne_zero fun hzero => ?_
    rw [hzero, Nat.cast_zero, zero_mul] at hturns
    exact absurd hturns (not_le.mpr hpositive)
  have hreached := timely_spread htick hspread (hone.trans_le htimely)
  have hspan : (turns : ℤ) * tick ≤ ((readings rest).countP fun now =>
      decide (now < t0 + seconds row.config.advanced.maxDurationSeconds) : ℕ) * tick :=
    mul_le_mul_of_nonneg_right (Int.ofNat_le.mpr htimely) htick
  linarith

/-- A run whose clock advances by half an hour at a time has ended after two turns. -/
theorem run_ends_two : scriptedResult (Component.run completeRow 2) (.start {})
    { ticks := [0, seconds 1800, seconds 3600], receives := [.ok [{ sequenceNumber := 1 }]] } ≠ .ok none := by
  have hclock : (readings (scripted (Component.run completeRow 2) (.start {})
      { ticks := [0, seconds 1800, seconds 3600], receives := [.ok [{ sequenceNumber := 1 }]] })).Pairwise
      fun a b => a + seconds 1800 ≤ b := by decide +kernel
  exact run_ends (exec_scripted (Component.run completeRow 2) (.start {}) _) (by decide) hclock (by decide)

end ServiceBusExtractor
