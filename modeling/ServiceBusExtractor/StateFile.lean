import ServiceBusExtractor.RunFrame

/-!
# The state file of a run

A run writes its state once, at its end, and a run that raises writes none. What it
writes is what the run holds then.

## The model

* `stateWritten`, `stateWrites` — the states that returned writes put on disk.
* `Projects row s state` — the written state is the one `projectedState` makes of `s`.

## What is proved

`wp_finish`: the write at the end, and how it may fail.
-/

namespace ServiceBusExtractor

open Interaction

/-- The state a returned write put on disk. -/
def stateWritten : Event sdk → Option ExtractorState
  | .call (.writeStateFile state) (.ok _) => some state
  | _ => none

def stateWrites (h : Trace sdk) : List ExtractorState := h.filterMap stateWritten

/-- The state is the run's, as it is stored: a destructive mode owns the pending set, an incremental
peek the cursor and a flattening run the columns. -/
structure Projects (row : Row) (s : RunState) (saved : ExtractorState) : Prop where
  pending : ∀ d, Pending d saved.pendingCommit ↔
    if row.mode.isDestructive then s.pending.Holds d else Pending d s.state.pendingCommit
  carried : row.mode.isDestructive = false → saved.pendingCommit = s.state.pendingCommit
  cursor : saved.peekCursor = if row.mode.isDestructive = false ∧ row.config.source.fetchMode = .incrementalFetch
    then s.peekCursor else s.state.peekCursor
  columns : saved.flattenColumns = (s.registry.map FlattenRegistry.toState).getD s.state.flattenColumns

section Finish

variable {row : Row} {s : RunState} {h : Trace sdk}

theorem stateWrites_concat {e : Event sdk} : stateWrites (h ++ [e]) = stateWrites h ++ (stateWritten e).toList := by
  rw [stateWrites, List.filterMap_append]
  cases he : stateWritten e <;> simp [he, stateWrites]

theorem stateWritten_of_runEvent {e : Event sdk} (he : RunEvent e) : stateWritten e = none := by
  rcases e with ⟨c, r⟩ | n
  · cases c <;> trivial
  · rfl

/-- An event of the run leaves the file alone. -/
theorem stateWrites_idle {e : Event sdk} (he : RunEvent e) : stateWrites (h ++ [e]) = stateWrites h := by
  rw [stateWrites_concat, stateWritten_of_runEvent he]
  exact List.append_nil _

theorem raises_noteThrottled {B : Type} {R : Event sdk → B → B → Prop} (P : Exn → Prop) (count : ℕ) :
    Raises R P (noteThrottled count) := by
  refine raises_bind raises_modify fun _ => ?_
  refine raises_bind raises_get fun _ => ?_
  exact raises_when fun _ => raises_warn P _ _

/-- The state that is written is the run's. -/
theorem wp_projectedState {A : RunState → Trace sdk → Prop} (hF : StillFrame Recorded A) (hA : A s h) :
    Wp Recorded (projectedState row) (fun r s' h' => (s' = s ∧ A s h' ∧ stateWrites h' = stateWrites h) ∧
      ∃ state, r = .ok state ∧ Projects row s state) s h := by
  rw [projectedState, projectedPending, wp_bind, wp_bind, wp_get, onOk_ok]
  refine wp_ite.mpr ⟨fun hmode => ?_, fun hmode => ?_⟩
  · rw [wp_bind, utcNow, wp_perform]
    rintro now _ ⟨-, rfl⟩
    rw [onOk_ok, wp_pure, onOk_ok, wp_bind, wp_get, onOk_ok, wp_pure]
    have hstill := hF.still (.call .utcNow now) s h _ trivial ⟨trivial, rfl⟩ hA
    refine ⟨⟨rfl, hstill, stateWrites_idle trivial⟩, _, rfl, fun d => ?_, ?_, rfl, rfl⟩
    · rw [if_pos hmode]
      exact PendingSetBuilder.pending_build
    · intro hpeek
      rw [hpeek] at hmode
      cases hmode
  · rw [wp_pure, onOk_ok, wp_bind, wp_get, onOk_ok, wp_pure]
    refine ⟨⟨rfl, hA, rfl⟩, _, rfl, fun d => ?_, fun _ => rfl, rfl, rfl⟩
    rw [if_neg hmode]

/-- A run that ends writes its state once; one whose write raises leaves the file alone. -/
theorem wp_finish {A : RunState → Trace sdk → Prop} (hF : Frame Recorded A)
    (hwrite : ∀ state reply s h, A s h → A s (h ++ [.call (.writeStateFile state) reply])) (hA : A s h)
    (hnone : stateWrites h = []) :
    Wp Recorded (finish row) (fun r s' h' =>
      (r = .ok () ∧ A s' h' ∧ ∃ state, stateWrites h' = [state] ∧ Projects row s' state) ∨
      ((∃ e, r = .error e) ∧ A s' h' ∧ stateWrites h' = [])) s h := by
  rw [finish, wp_bind]
  refine (wp_projectedState hF.toStillFrame hA).mono ?_
  rintro r s' h₁ ⟨⟨rfl, hA₁, hwrites⟩, state, rfl, hprojects⟩
  rw [onOk_ok, wp_bind, wp_request]
  rintro reply _ ⟨-, rfl⟩
  cases reply with
  | error e =>
    refine .inr ⟨⟨.file e, rfl⟩, hwrite state (.error e) s' h₁ hA₁, ?_⟩
    rw [stateWrites_concat, hwrites, hnone]
    rfl
  | ok _ =>
    have hsaved : stateWrites (h₁ ++ [.call (.writeStateFile state) (.ok ())]) = [state] := by
      rw [stateWrites_concat, hwrites, hnone]
      rfl
    have hF' : Frame Recorded (fun s h => A s h ∧ stateWrites h = [state] ∧ Projects row s state) := {
      stats := fun stats hsame hI => ⟨hF.stats stats hsame hI.1, hI.2.1, { hI.2.2 with }⟩
      guarded := fun guarded hI => ⟨hF.guarded guarded hI.1, hI.2.1, { hI.2.2 with }⟩
      info := fun info hI => ⟨hF.info info hI.1, hI.2.1, { hI.2.2 with }⟩
      quiet := by
        rintro e s h h' he hR ⟨hA, hw, hp⟩
        refine ⟨hF.quiet e s h h' he hR hA, ?_, hp⟩
        obtain ⟨-, rfl⟩ := hR
        rw [stateWrites_idle (runEvent_of_quiet he), hw] }
    rw [fileResult_ok, onOk_ok, wp_bind, throttledRequests, wp_perform]
    rintro count h₂ hR
    have hI := hF'.quiet (.call .throttledRequests count) s' _ h₂ rfl hR
        ⟨hwrite state (.ok ()) s' h₁ hA₁, hsaved, hprojects⟩
    have hraises : Raises Recorded (fun _ => False) (noteThrottled count) := raises_noteThrottled _ count
    refine ((keeps_noteThrottled hF' count s' h₂ hI).and (hraises s' h₂)).mono ?_
    rintro r s₃ h₃ ⟨⟨hA₃, hw₃, hp₃⟩, hnever⟩
    cases r with
    | error e => exact (hnever e rfl).elim
    | ok _ => exact .inl ⟨rfl, hA₃, state, hw₃, hp₃⟩

end Finish

end ServiceBusExtractor
