import ServiceBusExtractor.OneRun
import ServiceBusExtractor.Paging

/-!
# The run around the pager

A run that peeks opens its table, lets the pager export the entity, closes the
table and saves the cursor the pager returned.

## The model

* `ReachesPager row input h s` — a run reaches its pager in state `s`, after the
  trace `h`.
* `PeekRan` — what becomes of a peeking run: it never reaches its pager, or only
  the pager exports anything.

## What is proved

* `exec_peekComponent` — every peeking run is one of these.
-/

namespace ServiceBusExtractor

open Interaction

/-- Everything a peeking run does before its pager; the text is that of its warning. -/
def beforePager (row : Row) (carried : ℤ) (text : String) : Run Unit := do
  startRun row
  openOutput row
  Prog.when (carried ≠ 0) (warn .pendingCarried text)

/-- A run reaches its pager in state `s`, after the trace `h`. -/
def ReachesPager (row : Row) (input : ExtractorState) (h : Trace sdk) (s : RunState) : Prop :=
  ∃ carried text, Prog.Exec (beforePager row carried text) (.start input) h (.ok ()) s

/-- Nothing was exported or judged yet, and the input is what it was. -/
structure Unpeeked (input : ExtractorState) (s : RunState) (h : Trace sdk) : Prop where
  exported : exported h = []
  fresh : Fresh s.unreadable
  state : s.state = input

/-- What becomes of a peeking run. -/
inductive PeekRan (row : Row) (input : ExtractorState) (turns : ℕ) :
    Except Exn (Option Unit) → RunState → Trace sdk → Prop where
  /-- It never reached its pager. -/
  | unreached {r : Except Exn (Option Unit)} {s : RunState} {h : Trace sdk} : exported h = [] → r ≠ .ok (some ()) →
      PeekRan row input turns r s h
  /-- Its pager ran, and nothing else exported anything. -/
  | reached {es₀ es₁ es₂ : Trace sdk} {s₀ s : RunState} {r₁ : Except Exn (Option (Option PeekCursor))} {l : PagerState}
      {r : Except Exn (Option Unit)} : ReachesPager row input es₀ s₀ →
      Prog.Exec (PeekPager.run row turns) ⟨s₀, {}⟩ es₁ r₁ l → exported es₂ = [] →
      (r = .ok (some ()) → ∃ cursor, r₁ = .ok (some cursor) ∧ s.stats.stopReason = l.run.stats.stopReason ∧
        ∃ saved ∈ stateWrites (es₀ ++ (es₁ ++ es₂)), isIncremental row = true → saved.peekCursor = cursor) →
      PeekRan row input turns r s (es₀ ++ (es₁ ++ es₂))

section Run

variable {row : Row} {input : ExtractorState} {s : RunState} {h : Trace sdk}

theorem exported_concat {e : Event sdk} (he : exportedBy e = []) : exported (h ++ [e]) = exported h := by
  rw [exported_append, exported_eq_nil (List.forall_mem_singleton.mpr he), List.append_nil]

theorem exportedBy_of_file {e : Event sdk} (he : FileEvent e) : exportedBy e = [] := by
  rcases e with ⟨c, r⟩ | n
  · cases c <;> first | rfl | exact he.elim
  · exact he.elim

theorem tableFrame_unpeeked : TableFrame Recorded row (Unpeeked input) where
  stats _ _ hI := ⟨hI.exported, hI.fresh, hI.state⟩
  guarded _ hI := ⟨hI.exported, hI.fresh, hI.state⟩
  info _ hI := ⟨hI.exported, hI.fresh, hI.state⟩
  quiet := by
    rintro e s h _ he ⟨-, rfl⟩ hI
    exact ⟨(exported_concat (exportedBy_of_quiet he)).trans hI.exported, hI.fresh, hI.state⟩
  seed _ _ _ hI := ⟨hI.exported, hI.fresh, hI.state⟩
  start _ _ hI := ⟨hI.exported, hI.fresh, hI.state⟩
  output _ _ _ hI := ⟨hI.exported, hI.fresh, hI.state⟩
  file := by
    rintro e s h _ he ⟨-, rfl⟩ hI
    exact ⟨(exported_concat (exportedBy_of_file he)).trans hI.exported, hI.fresh, hI.state⟩
  header := by
    rintro columns a s h _ - ⟨-, rfl⟩ hI
    exact ⟨(exported_concat rfl).trans hI.exported, hI.fresh, hI.state⟩

theorem unpeeked_start : Unpeeked input (.start input) [] := ⟨rfl, ⟨rfl, by rintro _ ⟨⟩⟩, rfl⟩

/-- A run reaches its pager with nothing exported. -/
theorem ReachesPager.unpeeked (hreaches : ReachesPager row input h s) : Unpeeked input s h := by
  obtain ⟨carried, text, hbefore⟩ := hreaches
  have hF : TableFrame Recorded row (Unpeeked input) := tableFrame_unpeeked
  have hkeeps : Keeps Recorded (Unpeeked input) (beforePager row carried text) := by
    refine keeps_bind (keeps_startRun hF) fun _ => ?_
    refine keeps_bind (keeps_openOutput hF) fun _ => ?_
    exact keeps_when (keeps_warn hF.toStillFrame _ _)
  exact wp_logged.mp (hkeeps _ [] unpeeked_start) h _ s hbefore fun _ _ => trivial

/-- The rest of a run that peeked: its table is closed, and its state saved. -/
def afterPager (row : Row) (cursor : Option PeekCursor) : Run Unit := do
  modify fun s => { s with peekCursor := cursor }
  closeOutput
  finish row

/-- The ends of a run export nothing. -/
theorem tableFrame_unexported : TableFrame Recorded row fun _ h => exported h = [] where
  stats _ _ hI := hI
  info _ hI := hI
  quiet := by
    rintro e s h _ he ⟨-, rfl⟩ hI
    exact (exported_concat (exportedBy_of_quiet he)).trans hI
  seed _ _ _ hI := hI
  start _ _ hI := hI
  output _ _ _ hI := hI
  file := by
    rintro e s h _ he ⟨-, rfl⟩ hI
    exact (exported_concat (exportedBy_of_file he)).trans hI
  header := by
    rintro columns a s h _ - ⟨-, rfl⟩ hI
    exact (exported_concat rfl).trans hI

theorem exported_of_keeps {α : Type} {p : Run α} (hp : Keeps Recorded (fun _ h => exported h = []) p) {r : Except Exn α}
    {s' : RunState} (hran : Prog.Exec p s h r s') : exported h = [] :=
  wp_logged.mp (hp s [] rfl) h r s' hran fun _ _ => trivial

/-- Nothing is exported after the pager. -/
theorem exported_afterPager {cursor : Option PeekCursor} {r : Except Exn Unit} {s' : RunState}
    (hafter : Prog.Exec (afterPager row cursor) s h r s') : exported h = [] := by
  have hF : TableFrame Recorded row fun _ h => exported h = [] := tableFrame_unexported
  have hfinish : Keeps Recorded (fun _ h => exported h = []) (finish row) := by
    refine keeps_bind (keeps_projectedState hF.toStillFrame row) fun state => ?_
    refine keeps_bind (keeps_request ?_) fun _ => keeps_bind (keeps_quietPerform hF.quiet rfl)
      fun _ => keeps_noteThrottled hF.toFrame _
    rintro a s h _ ⟨-, rfl⟩ hI
    exact (exported_concat rfl).trans hI
  exact exported_of_keeps (keeps_bind (keeps_modify fun _ _ hI => hI) fun _ => keeps_bind (keeps_closeOutput hF)
    fun _ => hfinish)
    hafter

/-- Closing the table changes nothing but the table. -/
theorem keeps_closeOutput_of {P : RunState → Prop} (hP : ∀ s output, P s → P { s with output := output }) :
    Keeps Recorded (fun s _ => P s) closeOutput := by
  refine keeps_bind keeps_get fun _ => ?_
  exact keeps_when (keeps_bind (keeps_request fun _ _ _ _ _ hI => hI) fun _ => keeps_modify fun s _ hI => hP s _ hI)

/-- The stop reason stays as it is after the pager. -/
theorem stopReason_afterPager {cursor : Option PeekCursor} {r : Except Exn Unit} {s' : RunState}
    (hafter : Prog.Exec (afterPager row cursor) s h r s') : s'.stats.stopReason = s.stats.stopReason := by
  have hwarn : ∀ key text, Keeps Recorded (fun s' _ => s'.stats.stopReason = s.stats.stopReason) (warn key text) :=
    fun key text => keeps_bind keeps_get fun _ => keeps_when (keeps_bind (keeps_modify fun _ _ hI => hI) fun _ =>
      keeps_note fun _ _ _ _ hI => hI)
  have hclose : Keeps Recorded (fun s' _ => s'.stats.stopReason = s.stats.stopReason) closeOutput :=
    keeps_closeOutput_of (P := fun s' => s'.stats.stopReason = s.stats.stopReason) fun _ _ hI => hI
  have hproject : Keeps Recorded (fun s' _ => s'.stats.stopReason = s.stats.stopReason) (projectedState row) := by
    refine keeps_bind (keeps_bind keeps_get fun _ => keeps_ite (fun _ => ?_) fun _ => keeps_pure) fun _ =>
      keeps_bind keeps_get fun _ => keeps_pure
    exact keeps_bind (keeps_perform fun _ _ _ _ _ hI => hI) fun _ => keeps_pure
  have hkeeps : Keeps Recorded (fun s' _ => s'.stats.stopReason = s.stats.stopReason) (afterPager row cursor) := by
    refine keeps_bind (keeps_modify fun _ _ hI => hI) fun _ => ?_
    refine keeps_bind hclose fun _ => ?_
    refine keeps_bind hproject fun _ => ?_
    refine keeps_bind (keeps_request fun _ _ _ _ _ hI => hI) fun _ => ?_
    refine keeps_bind (keeps_perform fun _ _ _ _ _ hI => hI) fun _ => ?_
    refine keeps_bind (keeps_modify fun _ _ hI => hI) fun _ => ?_
    refine keeps_bind keeps_get fun _ => ?_
    exact keeps_when (hwarn _ _)
  exact wp_logged.mp (hkeeps s [] rfl) h r s' hafter fun _ _ => trivial

theorem stateWrites_append (h es : Trace sdk) : stateWrites (h ++ es) = stateWrites h ++ stateWrites es :=
  List.filterMap_append

/-- An incremental run that ends well saves the cursor. -/
theorem saved_afterPager (hmode : row.mode.isDestructive = false) {cursor : Option PeekCursor} {s' : RunState}
    (hafter : Prog.Exec (afterPager row cursor) s h (.ok ()) s') :
    ∃ saved ∈ stateWrites h, isIncremental row = true → saved.peekCursor = cursor := by
  obtain ⟨_, es₁, _, s₁, rfl, hset, hrest⟩ := Prog.exec_bind_ok.mp hafter
  obtain ⟨es₂, es₃, _, s₂, rfl, hclose, hfinish⟩ := Prog.exec_bind_ok.mp hrest
  obtain ⟨rfl, -, rfl⟩ := Prog.exec_modify.mp hset
  have hF : Frame Recorded fun s (_ : Trace sdk) => s.peekCursor = cursor :=
    { stats := fun _ _ hI => hI, info := fun _ hI => hI, quiet := fun _ _ _ _ _ _ hI => hI }
  have hkeeps : Keeps Recorded (fun s _ => s.peekCursor = cursor) closeOutput :=
    keeps_closeOutput_of (P := fun s => s.peekCursor = cursor) fun _ _ hI => hI
  have hcursor : s₂.peekCursor = cursor := wp_logged.mp (hkeeps _ [] rfl) es₂ _ s₂ hclose fun _ _ => trivial
  have hend := @wp_finish row s₂ [] _ hF (fun _ _ _ _ hI => hI) hcursor rfl
  rcases wp_logged.mp hend es₃ _ s' hfinish fun _ _ => trivial with ⟨-, hcursor', saved, hwrites, hp⟩ | ⟨⟨_, ⟨⟩⟩, -⟩
  refine ⟨saved, ?_, fun hincremental => ?_⟩
  · rw [List.nil_append] at hwrites
    rw [stateWrites_append, stateWrites_append, hwrites]
    exact List.mem_append_right _ (List.mem_append_right _ (List.mem_singleton_self saved))
  · rw [hp.cursor, if_pos ⟨hmode, by simpa [isIncremental] using hincremental⟩, hcursor']

/-- Where the run fails in its pager, the table is closed, and nothing more is exported. -/
theorem exported_givingUp (row : Row) {error : Exn} {r : Except Exn (Option Unit)} {s' : RunState}
    (hran : Prog.Exec (do
      tryCatch closeOutput fun _ => pure ()
      throw error) s h r s') : exported h = [] ∧ ∃ e, r = .error e := by
  have hF : TableFrame Recorded row fun _ h => exported h = [] := tableFrame_unexported
  constructor
  · refine exported_of_keeps (keeps_bind ?_ fun _ => keeps_throw) hran
    exact keeps_tryCatch (keeps_closeOutput hF) fun _ => keeps_pure
  · cases r with
    | error e => exact ⟨e, rfl⟩
    | ok _ =>
      obtain ⟨_, _, _, _, -, -, hthrow⟩ := Prog.exec_bind_ok.mp hran
      obtain ⟨-, ⟨⟩, -⟩ := Prog.exec_throw.mp hthrow

section AfterPager

variable {turns : ℕ} {es₀ es₁ es₂ : Trace sdk} {s₀ s' : RunState} {l : PagerState}

/-- A run whose pager returned no cursor, or that failed after it, exports nothing more. -/
theorem PeekRan.failing (hreaches : ReachesPager row input es₀ s₀) {r₁ : Except Exn (Option (Option PeekCursor))}
    (hpager : Prog.Exec (PeekPager.run row turns) ⟨s₀, {}⟩ es₁ r₁ l) {r : Except Exn (Option Unit)}
    (hnone : exported es₂ = []) (hr : r ≠ .ok (some ())) : PeekRan row input turns r s' (es₀ ++ (es₁ ++ es₂)) :=
  .reached hreaches hpager hnone fun hok => absurd hok hr

/-- A run whose pager returned a cursor closes the table and saves it. -/
theorem PeekRan.saving (hmode : row.mode.isDestructive = false) (hreaches : ReachesPager row input es₀ s₀)
    {cursor : Option PeekCursor} (hpager : Prog.Exec (PeekPager.run row turns) ⟨s₀, {}⟩ es₁ (.ok (some cursor)) l)
    (hafter : Prog.Exec (afterPager row cursor) l.run es₂ (.ok ()) s') :
    PeekRan row input turns (.ok (some ())) s' (es₀ ++ (es₁ ++ es₂)) := by
  refine .reached hreaches hpager (exported_afterPager hafter) fun _ => ?_
  obtain ⟨saved, hsaved, hsame⟩ := saved_afterPager hmode hafter
  refine ⟨cursor, rfl, stopReason_afterPager hafter, saved, ?_, hsame⟩
  rw [stateWrites_append, stateWrites_append es₁]
  exact List.mem_append_right _ (List.mem_append_right _ hsaved)

end AfterPager

/-- The run got through all that comes before its pager. -/
theorem reachesPager {es₁ es₂ es₃ : Trace sdk} {s₁ s₂ s₃ : RunState} {carried : ℤ} {text : String}
    (hstart : Prog.Exec (startRun row) (.start input) es₁ (.ok ()) s₁)
    (hopen : Prog.Exec (openOutput row) s₁ es₂ (.ok ()) s₂)
    (hwarn : Prog.Exec (Prog.when (carried ≠ 0) (warn .pendingCarried text)) s₂ es₃ (.ok ()) s₃) :
    ReachesPager row input (es₁ ++ (es₂ ++ es₃)) s₃ := by
  refine ⟨carried, text, Prog.exec_bind_ok.mpr ⟨es₁, _, _, _, rfl, hstart, ?_⟩⟩
  exact Prog.exec_bind_ok.mpr ⟨es₂, es₃, _, _, rfl, hopen, hwarn⟩

/-- Every execution of a peeking run. -/
theorem exec_peekComponent (hmode : row.mode.isDestructive = false) {turns : ℕ} {es : Trace sdk}
    {r : Except Exn (Option Unit)} {s' : RunState} (hrun : Prog.Exec (Component.run row turns) (.start input) es r s') :
    PeekRan row input turns r s' es := by
  suffices hwp : Wp Recorded (Component.run row turns) (PeekRan row input turns) (.start input) [] from
    wp_logged.mp hwp es r s' hrun fun _ _ => trivial
  have hF : TableFrame Recorded row (Unpeeked input) := tableFrame_unpeeked
  rw [Component.run, wp_bind]
  refine ((keeps_startRun hF).ran unpeeked_start).mono ?_
  rintro r₁ s₁ es₁ ⟨hI₁, _, hstart, rfl⟩
  cases r₁ with
  | error e => exact .unreached hI₁.exported (by rintro ⟨⟩)
  | ok _ =>
    rw [onOk_ok, wp_bind, withOutput, wp_bind]
    refine ((keeps_openOutput hF).ran hI₁).mono ?_
    rintro r₂ s₂ _ ⟨hI₂, es₂, hopen, rfl⟩
    cases r₂ with
    | error e => exact .unreached hI₂.exported (by rintro ⟨⟩)
    | ok _ =>
      rw [onOk_ok, wp_bind, wp_attempt, extract, if_neg (by rw [hmode]; exact Bool.false_ne_true), peekRun, wp_bind,
        wp_get, onOk_ok]
      dsimp only
      rw [wp_bind]
      refine Wp.mono (Wp.and ((keeps_when (keeps_warn hF.toStillFrame _ _)).ran hI₂)
        (raises_when (P := fun _ => False) (fun _ => raises_warn _ _ _) _ _)) ?_
      rintro r₃ s₃ _ ⟨⟨hI₃, es₃, hwarn, rfl⟩, hnever⟩
      cases r₃ with
      | error e => exact (hnever e rfl).elim
      | ok _ =>
        have hreaches := reachesPager hstart hopen hwarn
        have hassoc : ∀ es₄ es₅ : Trace sdk,
            es₁ ++ es₂ ++ es₃ ++ es₄ ++ es₅ = es₁ ++ (es₂ ++ es₃) ++ (es₄ ++ es₅) := by
          intro es₄ es₅
          simp only [List.append_assoc]
        rw [onOk_ok, wp_bind, runPeekPager, wp_embed]
        refine wp_ran.mono ?_
        rintro r₄ l _ ⟨es₄, hpager, hpath⟩
        obtain ⟨-, rfl⟩ := path_logged.mp hpath
        rcases r₄ with e | _ | cursor
        · rw [onOk_error, onOk_ok]
          refine wp_ran.mono ?_
          rintro r s _ ⟨es₅, hclose, hpath⟩
          obtain ⟨-, rfl⟩ := path_logged.mp hpath
          obtain ⟨hnone, e, rfl⟩ := exported_givingUp row hclose
          rw [hassoc]
          exact .failing hreaches hpager hnone (by rintro ⟨⟩)
        · rw [onOk_ok]
          dsimp only
          rw [wp_pure, onOk_ok, wp_pure, onOk_ok, wp_pure, ← List.append_nil (es₁ ++ es₂ ++ es₃ ++ es₄), hassoc]
          exact .failing hreaches hpager rfl (by rintro ⟨⟩)
        · rw [onOk_ok]
          dsimp only
          rw [wp_bind, wp_modify, onOk_ok, wp_pure, onOk_ok]
          dsimp only
          rw [wp_bind]
          refine wp_ran.mono ?_
          rintro r₅ s₅ _ ⟨es₅, hclose, hpath⟩
          obtain ⟨-, rfl⟩ := path_logged.mp hpath
          have hset : Prog.Exec (modify fun s => { s with peekCursor := cursor } : Run Unit) l.run [] (.ok ())
              { l.run with peekCursor := cursor } := Prog.exec_modify.mpr ⟨rfl, rfl, rfl⟩
          cases r₅ with
          | error e =>
            have hafter : Prog.Exec (afterPager row cursor) l.run es₅ (.error e) s₅ :=
              Prog.exec_bind.mpr (.inr ⟨[], es₅, _, _, rfl, hset, Prog.exec_bind.mpr (.inl ⟨e, hclose, rfl⟩)⟩)
            rw [hassoc]
            exact .failing hreaches hpager (exported_afterPager hafter) (by rintro ⟨⟩)
          | ok _ =>
            rw [onOk_ok, wp_pure, onOk_ok, wp_bind]
            refine wp_ran.mono ?_
            rintro r₆ s₆ _ ⟨es₆, hfinish, hpath⟩
            obtain ⟨-, rfl⟩ := path_logged.mp hpath
            have hafter : Prog.Exec (afterPager row cursor) l.run (es₅ ++ es₆) r₆ s₆ :=
              Prog.exec_bind.mpr (.inr ⟨[], _, _, _, rfl, hset,
                Prog.exec_bind.mpr (.inr ⟨es₅, es₆, _, _, rfl, hclose, hfinish⟩)⟩)
            rw [List.append_assoc _ es₅, hassoc]
            cases r₆ with
            | error e => exact .failing hreaches hpager (exported_afterPager hafter) (by rintro ⟨⟩)
            | ok _ =>
              rw [onOk_ok, wp_pure]
              exact .saving hmode hreaches hpager hafter

end Run

end ServiceBusExtractor
