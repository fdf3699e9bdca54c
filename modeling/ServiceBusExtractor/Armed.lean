import ServiceBusExtractor.Frame
import ServiceBusExtractor.Script

/-!
# Armed before delete

A job that fails after the broker deleted a message still uploads its rows where
the manifest says `write_always`. So a manifest with `write_always` has to be on
disk before the first `complete_message`, and in receive_and_delete mode before
the first rows are written.

## The model

* `Armed h` — some manifest with `write_always` was written in `h`.
* `Deletes row e` — the event completes a message, or writes rows of messages that
  were deleted on receive.
* `ArmsCleanly e` — the event is no failed write of a manifest with `write_always`.

## What is proved

In a run in which every such write returns, every deleting event comes after one
(`armed_before_delete`). A failed write leaves the table's flag set, and the run
never writes that manifest again.
-/

namespace ServiceBusExtractor

open Interaction

/-- The event wrote a manifest with `write_always`. -/
def ArmingEvent : Event sdk → Prop
  | .call (.writeManifest definition) r => definition.writeAlways = true ∧ r = Except.ok ()
  | _ => False

def Armed (h : Trace sdk) : Prop := ∃ e ∈ h, ArmingEvent e

/-- The event completes a message, or writes rows of messages deleted on receive. -/
def Deletes (row : Row) : Event sdk → Prop
  | .call (.completeMessage ..) _ => True
  | .call (.writeRows _) _ => row.mode = .receiveAndDelete
  | _ => False

/-- The event is no failed write of a manifest with `write_always`. -/
def ArmsCleanly : Event sdk → Prop
  | .call (.writeManifest definition) r => definition.writeAlways = true → r = Except.ok ()
  | _ => True

instance : DecidablePred ArmingEvent := fun e => by
  unfold ArmingEvent
  split <;> infer_instance

instance (h : Trace sdk) : Decidable (Armed h) := inferInstanceAs (Decidable (∃ e ∈ h, ArmingEvent e))

instance (row : Row) : DecidablePred (Deletes row) := fun e => by
  unfold Deletes
  split <;> infer_instance

instance : DecidablePred ArmsCleanly := fun e => by
  unfold ArmsCleanly
  split <;> infer_instance

/-- A deleting event comes after an arming one. -/
def ArmedFirst (row : Row) (h : Trace sdk) (e : Event sdk) : Prop := Deletes row e → Armed h

instance (row : Row) (h : Trace sdk) (e : Event sdk) : Decidable (ArmedFirst row h e) :=
  inferInstanceAs (Decidable (Deletes row e → Armed h))

variable {row : Row} {h : Trace sdk} {e : Event sdk} {s : RunState}

theorem Armed.append (ha : Armed h) (es : Trace sdk) : Armed (h ++ es) :=
  let ⟨e, he, hA⟩ := ha
  ⟨e, List.mem_append_left es he, hA⟩

/-- What each of the three flags of a run promises, and that the history kept it. -/
structure ArmedInv (row : Row) (armed : Bool) (s : RunState) (h : Trace sdk) : Prop where
  always : Always (ArmedFirst row) h
  loop : armed = true → Armed h
  settler : s.settlerArmed = true → Armed h
  output : s.output.writeAlwaysArmed = true → Armed h

/-- The surroundings of a run whose arming writes return. -/
abbrev Arming := Logged ArmsCleanly

namespace ArmedInv

variable {armed : Bool}

theorem event (hI : ArmedInv row armed s h) (he : Deletes row e → Armed h) : ArmedInv row armed s (h ++ [e]) where
  always := always_concat.mpr ⟨hI.always, he⟩
  loop ha := (hI.loop ha).append [e]
  settler ha := (hI.settler ha).append [e]
  output ha := (hI.output ha).append [e]

/-- An event that deletes nothing keeps the invariant. -/
theorem step {h' : Trace sdk} (hI : ArmedInv row armed s h) (hR : Arming e h h') (he : ¬ Deletes row e) :
    ArmedInv row armed s h' := by
  obtain ⟨-, rfl⟩ := hR
  exact hI.event fun hd => absurd hd he

theorem forget (hI : ArmedInv row armed s h) : ArmedInv row false s h :=
  { hI with loop := fun ha => absurd ha Bool.false_ne_true }

end ArmedInv

theorem not_deletes_of_quiet (he : Quiet e) : ¬ Deletes row e := by
  rcases e with ⟨c, r⟩ | n
  · cases c <;> simp_all [Quiet, Call.isQuiet, Deletes]
  · exact id

theorem not_deletes_of_handling (he : Handling e) : ¬ Deletes row e := by
  rcases e with ⟨c, r⟩ | n
  · cases c <;> simp_all [Handling, Deletes]
  · exact id

theorem not_deletes_of_file (he : FileEvent e) : ¬ Deletes row e := by
  rcases e with ⟨c, r⟩ | n
  · cases c <;> simp_all [FileEvent, Deletes]
  · exact id

theorem endFrame_armedInv (armed : Bool) : EndFrame Arming row (ArmedInv row armed) where
  stats _ _ hI := { hI with }
  info _ hI := { hI with }
  quiet _ _ _ _ he hR hI := hI.step hR (not_deletes_of_quiet he)
  reopened _ _ _ _ _ hR hI := hI.step hR id
  registry _ _ hI := { hI with }
  seed _ _ _ hI := { hI with }
  unreadable _ hI := { hI with }
  handling _ _ _ _ he hR hI := hI.step hR (not_deletes_of_handling he)
  start _ _ hI := { hI with }
  output _ _ _ hI := { hI with }
  file _ _ _ _ he hR hI := hI.step hR (not_deletes_of_file he)
  header _ _ _ _ _ _ hR hI := hI.step hR id

theorem deferredKeeps_armedInv (armed : Bool) : DeferredKeeps Arming (ArmedInv row armed) :=
  fun _ _ _ _ _ _ _ hR hI => hI.step hR id

/-- Arming returns with a manifest on disk. -/
theorem wp_armWriteAlways {armed : Bool} (hI : ArmedInv row armed s h) :
    Wp Arming armWriteAlways (fun r s h => ArmedInv row armed s h ∧ (r = .ok () → Armed h)) s h := by
  refine wp_bind.mpr (wp_get.mpr (wp_ite.mpr ⟨fun hs => ?_, fun _ => ?_⟩))
  · exact wp_pure.mpr ⟨hI, fun _ => hI.output hs⟩
  · cases s.output.definition with
    | none => exact wp_throw.mpr ⟨hI, fun hr => by cases hr⟩
    | some definition =>
      refine wp_bind.mpr (wp_modify.mpr (wp_request.mpr ?_))
      rintro a h' ⟨hclean, rfl⟩
      have ha : a = .ok () := hclean rfl
      have harmed : Armed (h ++ [.call (.writeManifest { definition with writeAlways := true }) a]) :=
        ⟨.call (.writeManifest { definition with writeAlways := true }) a, by simp, rfl, ha⟩
      refine ⟨?_, fun _ => harmed⟩
      exact {
        always := always_concat.mpr ⟨hI.always, fun hd => absurd hd id⟩
        loop := fun _ => harmed
        settler := fun _ => harmed
        output := fun _ => harmed }

/-- The complete settler completes nothing before it armed. -/
theorem keeps_completeSettle {armed : Bool} (receiver : Handle) (message : Message) :
    Keeps Arming (ArmedInv row armed) (completeSettle receiver message) := by
  intro s h hI
  have hF : Frame Arming (ArmedInv row armed) := (endFrame_armedInv armed).toFrame
  have hcomplete : ∀ s h, ArmedInv row armed s h → s.settlerArmed = true → Wp Arming (do
      completeMessage receiver message
      tally fun stats => { stats with completed := stats.completed + 1 }) (fun _ => ArmedInv row armed) s h := by
    intro s h hI hs
    refine wp_bind.mpr (wp_request.mpr ?_)
    rintro a h' ⟨-, rfl⟩
    have hI' := hI.event (e := .call (.completeMessage receiver message) a) fun _ => hI.settler hs
    rcases a with f | _
    · exact hI'
    · exact (keeps_tally hF.toStillFrame _) s _ hI'
  refine wp_bind.mpr (wp_get.mpr (wp_bind.mpr (wp_when.mpr ⟨fun hs => ?_, fun hs => ?_⟩)))
  · refine wp_bind.mpr ((wp_armWriteAlways hI).mono ?_)
    rintro (e | _) s' h' ⟨hI', ha⟩
    · exact hI'
    · exact wp_modify.mpr (hcomplete _ _ { hI' with settler := fun _ => ha rfl } rfl)
  · exact hcomplete s h hI (by simpa using hs)

theorem keeps_settle_armedInv {armed : Bool} (receiver : Handle) (message : Message) (bodyBytes : ℕ)
    (hmode : row.mode ≠ .deferCommit) : Keeps Arming (ArmedInv row armed) (settle row receiver message bodyBytes) := by
  have hE : EndFrame Arming row (ArmedInv row armed) := endFrame_armedInv armed
  refine keeps_settle hE.toStillFrame ?_ (fun _ => keeps_completeSettle)
    (fun hm => absurd hm hmode) receiver message bodyBytes
  exact fun receiver message => keeps_request fun a s h h' hR hI => hI.step hR id

/-- Rows are written only where the history is armed, if they have to be. -/
theorem wp_process_armedInv {armed : Bool} (hmode : row.mode ≠ .deferCommit) (receiver : Handle)
    (messages : List Message) (generation : ℕ) (hI : ArmedInv row armed s h)
    (hready : row.mode = .receiveAndDelete → Armed h) :
    Wp Arming (process row receiver messages generation) (fun _ => ArmedInv row armed) s h := by
  have hE : EndFrame Arming row (ArmedInv row armed) := endFrame_armedInv armed
  let I : RunState → Trace sdk → Prop := fun s h => ArmedInv row armed s h ∧ (row.mode = .receiveAndDelete → Armed h)
  have hstay : ∀ {e : Event sdk} {h h'}, Arming e h h' → (row.mode = .receiveAndDelete → Armed h) →
      row.mode = .receiveAndDelete → Armed h' := by
    rintro e h _ ⟨-, rfl⟩ ha hm
    exact (ha hm).append [e]
  have hM : MapFrame Arming row I := {
    stats := fun stats hsame hI => ⟨hE.stats stats hsame hI.1, hI.2⟩
    still := fun e s h h' he hR hI => ⟨hE.still e s h h' he hR hI.1, hstay hR hI.2⟩
    registry := fun registry hnone hI => ⟨hE.registry registry hnone hI.1, hI.2⟩
    unreadable := fun unreadable hI => ⟨hE.unreadable unreadable hI.1, hI.2⟩
    handling := fun e s h h' he hR hI => ⟨hE.handling e s h h' he hR hI.1, hstay hR hI.2⟩
    written := fun written hI => ⟨hE.written written hI.1, hI.2⟩ }
  have hwrite : ∀ rows, Keeps Arming I (writeRows row rows) := by
    intro rows
    refine keeps_bind keeps_get fun s => ?_
    refine keeps_bind (keeps_when keeps_throw) fun _ => ?_
    refine keeps_bind keeps_ofExcept fun records => keeps_request ?_
    rintro a s h h' ⟨hclean, rfl⟩ ⟨hI, ha⟩
    exact ⟨hI.event ha, fun hm => (ha hm).append _⟩
  have hsettle : ∀ receiver message bodyBytes, Keeps Arming I (settle row receiver message bodyBytes) := by
    intro receiver message bodyBytes s h hI
    refine wp_logged.mpr fun es r s' he hA => ⟨?_, fun hm => (hI.2 hm).append es⟩
    exact wp_logged.mp (keeps_settle_armedInv receiver message bodyBytes hmode s h hI.1) es r s' he hA
  exact (keeps_process hM hwrite hsettle receiver messages generation s h ⟨hI, hready⟩).mono fun _ _ _ hI' => hI'.1

theorem loopSteps_armedInv (hmode : row.mode ≠ .deferCommit) :
    LoopSteps Arming row (ArmedInv row) fun h => row.mode = .receiveAndDelete → Armed h where
  frame armed := (endFrame_armedInv armed).toFrame
  reopen armed := (endFrame_armedInv armed).toReopenFrame
  receive receiver count wait l h hI := by
    refine wp_bind.mpr (wp_modify.mpr (wp_bind.mpr (wp_request.mpr ?_)))
    rintro a h' hR
    have hI' : ArmedInv row l.loop.armed l.run h' := ArmedInv.step hI hR id
    rcases a with f | batch
    · exact ⟨hI', fun _ hr => by cases hr⟩
    · refine wp_bind.mpr (wp_embed.mpr (wp_modify.mpr (wp_bind.mpr (wp_get.mpr (wp_bind.mpr (wp_when.mpr ⟨?_, ?_⟩))))))
      · rintro ⟨-, hm, -⟩
        refine wp_bind.mpr (wp_embed.mpr ((wp_armWriteAlways ((endFrame_armedInv _).info _ hI')).mono ?_))
        rintro (e | _) s' h'' ⟨hI'', ha⟩
        · exact ⟨hI'', fun _ hr => by cases hr⟩
        · exact wp_modify.mpr (wp_pure.mpr ⟨{ hI'' with loop := fun _ => ha rfl }, fun _ _ _ _ => ha rfl⟩)
      · intro hnot
        refine wp_pure.mpr ⟨{ hI' with }, fun batch' hb hne hm => hI'.loop ?_⟩
        obtain rfl : batch = batch' := by simpa using hb
        simp only [hne, hm, ne_eq, not_false_eq_true, true_and] at hnot
        simpa using hnot
  process armed receiver batch generation s h hI hready :=
    wp_process_armedInv hmode receiver batch generation hI hready
  abandon armed receiver message := keeps_handlingCall (endFrame_armedInv armed).disposal fun _ => trivial

/-! ### A run -/

theorem keeps_commitPendingArmed : Keeps Arming (ArmedInv row false) (commitPending row) := by
  have hF : Frame Arming (ArmedInv row false) := (endFrame_armedInv false).toFrame
  refine keeps_bind keeps_get fun s => ?_
  refine keeps_bind (keeps_runCommit hF (deferredKeeps_armedInv false) s.state.pendingCommit) fun carried => ?_
  exact keeps_modify fun _ _ hI => { hI with }

/-- Before its loop a run deletes what an earlier one deferred, and nothing else. -/
theorem keeps_consumeRunArmed (hnd : row.mode ≠ .deferCommit) (turns : ℕ) :
    Keeps Arming (ArmedInv row false) (consumeRun row turns) := by
  have hF : Frame Arming (ArmedInv row false) := (endFrame_armedInv false).toFrame
  have hloop : Keeps Arming (ArmedInv row false) (runReceiveLoop row turns) := fun s h hI =>
    (wp_runReceiveLoop (loopSteps_armedInv hnd) turns hI).mono fun _ _ _ ⟨_, hI'⟩ => hI'.forget
  refine keeps_bind keeps_commitPendingArmed fun _ => ?_
  refine keeps_bind (keeps_ite (fun hm => absurd hm hnd) fun _ => keeps_probe hF) fun _ => ?_
  refine keeps_bind (keeps_consumeEntity hF hloop) fun _ => ?_
  exact keeps_pure

theorem keeps_finishArmed : Keeps Arming (ArmedInv row false) (finish row) := by
  have hF : Frame Arming (ArmedInv row false) := (endFrame_armedInv false).toFrame
  refine keeps_bind (keeps_projectedState hF.toStillFrame row) fun state => ?_
  refine keeps_bind (keeps_request fun a s h h' hR hI => hI.step hR id) fun _ => ?_
  refine keeps_bind (keeps_quietPerform hF.quiet rfl) fun count => ?_
  exact keeps_noteThrottled hF count

/-- In a run whose arming writes return, whatever deletes a message comes after one of them. -/
theorem armed_before_delete (row : Row) (hmode : row.mode = .complete ∨ row.mode = .receiveAndDelete)
    (state : ExtractorState) (turns : ℕ) (es : Trace sdk) (r : Except Exn (Option Unit)) (s' : RunState)
    (hrun : Prog.Exec (Component.run row turns) (.start state) es r s') (hclean : ∀ e ∈ es, ArmsCleanly e) :
    Always (ArmedFirst row) es := by
  have hnd : row.mode ≠ .deferCommit := by
    rcases hmode with hm | hm <;> simp [hm]
  have hE : EndFrame Arming row (ArmedInv row false) := endFrame_armedInv false
  have hextract : Keeps Arming (ArmedInv row false) (extract row turns) := by
    refine keeps_ite (fun _ => keeps_consumeRunArmed hnd turns) fun hm => absurd ?_ hm
    rcases hmode with hm | hm <;> rw [hm] <;> rfl
  have hall : Keeps Arming (ArmedInv row false) (Component.run row turns) := by
    refine keeps_bind (keeps_startRun hE.toTableFrame) fun _ => ?_
    refine keeps_bind (keeps_withOutput hE.toTableFrame hextract) fun done => ?_
    cases done with
    | none => exact keeps_pure
    | some _ => exact keeps_bind keeps_finishArmed fun _ => keeps_pure
  have hstart : ArmedInv row false (.start state) [] := {
    always := always_nil
    loop := fun ha => absurd ha Bool.false_ne_true
    settler := fun ha => absurd ha Bool.false_ne_true
    output := fun ha => absurd ha Bool.false_ne_true }
  simpa using (wp_logged.mp (hall _ _ hstart) es r s' hrun hclean).always

/-- One message, completed: the manifest is armed first. -/
theorem armed_before_delete_one :
    Always (ArmedFirst completeRow) (scripted (Component.run completeRow 8) (.start {})
      { receives := [.ok [{ sequenceNumber := 1 }]] }) :=
  armed_before_delete completeRow (.inl rfl) {} 8 _ _ _ (exec_scripted _ _ _) (by decide +kernel)

/-- The arming write fails once, and the message comes again. -/
def failedArming : Script where
  manifests := [.ok (), .error ⟨"OSError", "No space left on device"⟩]
  receives := [.ok [{ sequenceNumber := 1 }], .ok [{ sequenceNumber := 1 }]]

/-- The loop recovers from the failed write and completes the message: no manifest with `write_always`
was ever written, and the run succeeds. -/
theorem completed_unarmed : ∃ es s', Prog.Exec (Component.run completeRow 8) (.start {}) es (.ok (some ())) s' ∧
    ¬ Always (ArmedFirst completeRow) es :=
  ⟨_, _, exec_of_scriptedResult failedArming (by decide +kernel), by decide +kernel⟩

end ServiceBusExtractor
