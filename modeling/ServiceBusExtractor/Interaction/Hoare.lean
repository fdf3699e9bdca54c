import ServiceBusExtractor.Interaction.Program

/-!
# Reasoning about executions

What a program does depends on the replies it gets, and the replies on what the
surroundings can do. Here the surroundings are a labelled transition system: a
state `B` and a relation `R e b b'`, "the event `e` takes them from `b` to `b'`".
`Wp R p Q w b` says that every execution of `p` from `w`, in surroundings that
start at `b` and move as `R` allows, ends in `Q`.

With `R := Logged A` the surroundings are the history of the execution, each of
its events limited to `A`; with another `R` they are a model of the service that
answers.

## What is proved

* the rules of `Wp`, one for each way of building a program, as equivalences;
* the rules for loops: `Wp.forM`, `Wp.foldlM`, `Wp.iterate`, `Wp.iterate_counted`;
* `Keeps R I p` — `I` is an invariant of `p` — and its rules; `Upholds R I D p` — it is one
  up to an error, of which `D` holds;
* `Returns R P p`, `Raises R P p` — every value `p` returns, every error it raises
  satisfies `P` — and their rules;
* `Always G h` — each event of `h` satisfies `G` of the events before it — and
  `Once G h` — some event does — and what extends them.
-/

namespace Interaction

variable {S : Signature} {W V E α β : Type} {B : Type}

/-- `es` takes the surroundings from the first state to the second. -/
inductive Path (R : Event S → B → B → Prop) : Trace S → B → B → Prop where
  /-- No event, no change. -/
  | nil {b : B} : Path R [] b b
  /-- One event and then the others. -/
  | cons {e : Event S} {es : Trace S} {b b₁ b₂ : B} : R e b b₁ → Path R es b₁ b₂ → Path R (e :: es) b b₂

section Path

variable {R : Event S → B → B → Prop} {es es₁ es₂ : Trace S} {b b' : B}

@[simp] theorem path_nil : Path R [] b b' ↔ b' = b := by
  constructor
  · rintro ⟨⟩
    rfl
  · rintro rfl
    exact .nil

theorem path_cons {e : Event S} : Path R (e :: es) b b' ↔ ∃ b₁, R e b b₁ ∧ Path R es b₁ b' := by
  constructor
  · intro h
    cases h with
    | cons h h' => exact ⟨_, h, h'⟩
  · rintro ⟨b₁, h, h'⟩
    exact .cons h h'

@[simp] theorem path_singleton {e : Event S} : Path R [e] b b' ↔ R e b b' := by
  simp [path_cons]

theorem path_append : Path R (es₁ ++ es₂) b b' ↔ ∃ b₁, Path R es₁ b b₁ ∧ Path R es₂ b₁ b' := by
  induction es₁ generalizing b with
  | nil => simp
  | cons e es ih =>
    simp only [List.cons_append, path_cons, ih]
    constructor
    · rintro ⟨b₁, h, b₂, h₁, h₂⟩
      exact ⟨b₂, ⟨b₁, h, h₁⟩, h₂⟩
    · rintro ⟨b₂, ⟨b₁, h, h₁⟩, h₂⟩
      exact ⟨b₁, h, b₂, h₁, h₂⟩

/-- Surroundings that `f` moves, where each of its moves is allowed. -/
theorem path_foldl {f : B → Event S → B} (hf : ∀ e ∈ es, ∀ b, R e b (f b e)) : Path R es b (es.foldl f b) := by
  induction es generalizing b with
  | nil => exact .nil
  | cons e es ih => exact .cons (hf e (by simp) b) (ih fun e' he' => hf e' (by simp [he']))

/-- Surroundings that stay as they are. -/
theorem path_const (h : ∀ e ∈ es, R e b b) : Path R es b b := by
  induction es with
  | nil => exact .nil
  | cons e es ih => exact .cons (h e (by simp)) (ih fun e' he' => h e' (by simp [he']))

/-- A path of surroundings that allow less. -/
theorem Path.mono {R' : Event S → B → B → Prop} (h : Path R es b b') (hR : ∀ e b b', R e b b' → R' e b b') :
    Path R' es b b' := by
  induction h with
  | nil => exact .nil
  | cons h _ ih => exact .cons (hR _ _ _ h) ih

/-- Limit the events of a path. -/
theorem Path.and {A : Event S → Prop} (h : Path R es b b') (hA : ∀ e ∈ es, A e) :
    Path (fun e b b' => R e b b' ∧ A e) es b b' := by
  induction h with
  | nil => exact .nil
  | cons h _ ih => exact .cons ⟨h, hA _ (by simp)⟩ (ih fun e he => hA e (by simp [he]))

/-- A simulated execution is a path of whoever answers the calls. -/
theorem path_simulate {α : Type} {answer : (c : S.Call) → B → S.Reply c × B}
    (hcall : ∀ c b, R (.call c (answer c b).1) b (answer c b).2) (hnote : ∀ n b, R (.note n) b b) (t : Tree S α)
    (b : B) :
    Path R (simulate answer t b).1 b (simulate answer t b).2.2 := by
  induction t generalizing b with
  | ret a => exact .nil
  | call c k ih => exact .cons (hcall c b) (ih _ _)
  | note n k ih => exact .cons (hnote n b) (ih _)

end Path

/-- The surroundings that keep the history and limit each event to `A`. -/
def Logged (A : Event S → Prop) (e : Event S) (h h' : Trace S) : Prop := A e ∧ h' = h ++ [e]

theorem path_logged {A : Event S → Prop} {es h h' : Trace S} :
    Path (Logged A) es h h' ↔ (∀ e ∈ es, A e) ∧ h' = h ++ es := by
  induction es generalizing h with
  | nil => simp
  | cons e es ih =>
    rw [path_cons]
    simp only [Logged, ih, List.forall_mem_cons]
    constructor
    · rintro ⟨_, ⟨he, rfl⟩, hes, rfl⟩
      exact ⟨⟨he, hes⟩, by simp⟩
    · rintro ⟨⟨he, hes⟩, rfl⟩
      exact ⟨_, ⟨he, rfl⟩, hes, by simp⟩

/-! ### Weakest preconditions -/

open Prog

/-- Every execution of `p` from `w`, in surroundings that move as `R` allows from `b`, ends in `Q`. -/
def Wp (R : Event S → B → B → Prop) (p : Prog S W E α) (Q : Except E α → W → B → Prop) (w : W) (b : B) : Prop :=
  ∀ es r w' b', Exec p w es r w' → Path R es b b' → Q r w' b'

/-- A postcondition that continues with `k` after a returned value and is `Q` after an error. -/
def OnOk (k : α → W → B → Prop) (Q : Except E β → W → B → Prop) : Except E α → W → B → Prop
  | .ok a, w, b => k a w b
  | .error e, w, b => Q (.error e) w b

@[simp] theorem onOk_ok {k : α → W → B → Prop} {Q : Except E β → W → B → Prop} {a : α} {w : W} {b : B} :
    OnOk k Q (.ok a) w b = k a w b := rfl

@[simp] theorem onOk_error {k : α → W → B → Prop} {Q : Except E β → W → B → Prop} {e : E} {w : W} {b : B} :
    OnOk k Q (.error e) w b = Q (.error e) w b := rfl

/-- A postcondition that continues with `h` after an error and is `Q` after a returned value. -/
def OnError (h : E → W → B → Prop) (Q : Except E α → W → B → Prop) : Except E α → W → B → Prop
  | .ok a, w, b => Q (.ok a) w b
  | .error e, w, b => h e w b

@[simp] theorem onError_ok {h : E → W → B → Prop} {Q : Except E α → W → B → Prop} {a : α} {w : W} {b : B} :
    OnError h Q (.ok a) w b = Q (.ok a) w b := rfl

@[simp] theorem onError_error {h : E → W → B → Prop} {Q : Except E α → W → B → Prop} {e : E} {w : W} {b : B} :
    OnError h Q (.error e) w b = h e w b := rfl

section Wp

variable {R : Event S → B → B → Prop} {p : Prog S W E α} {f : α → Prog S W E β} {Q Q' : Except E α → W → B → Prop}
  {w : W} {b : B}

/-- Weaken the postcondition. -/
theorem Wp.mono (h : Wp R p Q w b) (hQ : ∀ r w' b', Q r w' b' → Q' r w' b') : Wp R p Q' w b :=
  fun es r w' b' he hp => hQ r w' b' (h es r w' b' he hp)

theorem Wp.and (h : Wp R p Q w b) (h' : Wp R p Q' w b) : Wp R p (fun r w b => Q r w b ∧ Q' r w b) w b :=
  fun es r w' b' he hp => ⟨h es r w' b' he hp, h' es r w' b' he hp⟩

theorem wp_congr (h : ∀ r w b, Q r w b ↔ Q' r w b) : Wp R p Q w b ↔ Wp R p Q' w b :=
  ⟨fun H => H.mono fun r w b => (h r w b).mp, fun H => H.mono fun r w b => (h r w b).mpr⟩

/-- Surroundings that allow less. -/
theorem Wp.limit {R' : Event S → B → B → Prop} (h : Wp R p Q w b) (hR : ∀ e b b', R' e b b' → R e b b') :
    Wp R' p Q w b :=
  fun es r w' b' he hp => h es r w' b' he (hp.mono hR)

/-- What holds of every execution holds in surroundings that limit the replies. -/
theorem Wp.of_exec (h : ∀ es r w' b', Exec p w es r w' → Path R es b b' → Q r w' b') : Wp R p Q w b := h

/-- The execution itself. -/
theorem wp_ran : Wp R p (fun r w' b' => ∃ es, Exec p w es r w' ∧ Path R es b b') w b :=
  fun es _ _ _ he hp => ⟨es, he, hp⟩

@[simp] theorem wp_pure {a : α} : Wp R (pure a) Q w b ↔ Q (.ok a) w b := by
  constructor
  · intro h
    exact h [] _ _ _ (by simp) .nil
  · rintro h es r w' b' he hp
    obtain ⟨rfl, rfl, rfl⟩ := exec_pure.mp he
    obtain rfl := path_nil.mp hp
    exact h

@[simp] theorem wp_ofExcept {r : Except E α} : Wp R (ofExcept r) Q w b ↔ Q r w b := by
  constructor
  · intro h
    exact h [] _ _ _ (by simp) .nil
  · rintro h es r' w' b' he hp
    obtain ⟨rfl, rfl, rfl⟩ := exec_ofExcept.mp he
    obtain rfl := path_nil.mp hp
    exact h

@[simp] theorem wp_throw {e : E} : Wp R (throw e) Q w b ↔ Q (.error e) w b := wp_ofExcept

@[simp] theorem wp_get {Q : Except E W → W → B → Prop} : Wp R get Q w b ↔ Q (.ok w) w b :=
  wp_ofExcept (r := .ok w)

@[simp] theorem wp_set {v : W} {Q : Except E PUnit → W → B → Prop} : Wp R (set v) Q w b ↔ Q (.ok ⟨⟩) v b := by
  constructor
  · intro h
    exact h [] _ _ _ (by simp) .nil
  · rintro h es r w' b' he hp
    obtain ⟨rfl, rfl, rfl⟩ := exec_set.mp he
    obtain rfl := path_nil.mp hp
    exact h

@[simp] theorem wp_modify {g : W → W} {Q : Except E PUnit → W → B → Prop} :
    Wp R (modify g) Q w b ↔ Q (.ok ⟨⟩) (g w) b := by
  constructor
  · intro h
    exact h [] _ _ _ (by simp) .nil
  · rintro h es r w' b' he hp
    obtain ⟨rfl, rfl, rfl⟩ := exec_modify.mp he
    obtain rfl := path_nil.mp hp
    exact h

@[simp] theorem wp_perform {c : S.Call} {Q : Except E (S.Reply c) → W → B → Prop} :
    Wp R (perform c) Q w b ↔ ∀ a b', R (.call c a) b b' → Q (.ok a) w b' := by
  constructor
  · intro h a b' hR
    exact h [.call c a] _ _ _ (by simp) (path_singleton.mpr hR)
  · rintro h es r w' b' he hp
    obtain ⟨a, rfl, rfl, rfl⟩ := exec_perform.mp he
    exact h a b' (path_singleton.mp hp)

@[simp] theorem wp_request {c : S.Call} {result : S.Reply c → Except E α} :
    Wp R (request c result) Q w b ↔ ∀ a b', R (.call c a) b b' → Q (result a) w b' := by
  constructor
  · intro h a b' hR
    exact h [.call c a] _ _ _ (by simp) (path_singleton.mpr hR)
  · rintro h es r w' b' he hp
    obtain ⟨a, rfl, rfl, rfl⟩ := exec_request.mp he
    exact h a b' (path_singleton.mp hp)

@[simp] theorem wp_note {n : S.Note} {Q : Except E Unit → W → B → Prop} :
    Wp R (Prog.note n) Q w b ↔ ∀ b', R (.note n) b b' → Q (.ok ()) w b' := by
  constructor
  · intro h b' hR
    exact h [.note n] _ _ _ (by simp) (path_singleton.mpr hR)
  · rintro h es r w' b' he hp
    obtain ⟨rfl, rfl, rfl⟩ := exec_note.mp he
    exact h b' (path_singleton.mp hp)

@[simp] theorem wp_bind {Q : Except E β → W → B → Prop} :
    Wp R (p >>= f) Q w b ↔ Wp R p (OnOk (fun a => Wp R (f a) Q) Q) w b := by
  constructor
  · rintro h es r w' b' he hp
    cases r with
    | error e => exact h es _ _ _ (exec_bind.mpr (.inl ⟨e, he, rfl⟩)) hp
    | ok a =>
      intro es' r' w'' b'' he' hp'
      exact h (es ++ es') _ _ _ (exec_bind.mpr (.inr ⟨es, es', a, w', rfl, he, he'⟩)) (path_append.mpr ⟨b', hp, hp'⟩)
  · rintro h es r w' b' he hp
    rcases exec_bind.mp he with ⟨e, he₁, rfl⟩ | ⟨es₁, es₂, a, w₁, rfl, he₁, he₂⟩
    · exact h es _ _ _ he₁ hp
    · obtain ⟨b₁, hp₁, hp₂⟩ := path_append.mp hp
      exact h es₁ _ _ _ he₁ hp₁ es₂ _ _ _ he₂ hp₂

@[simp] theorem wp_tryCatch {h : E → Prog S W E α} :
    Wp R (tryCatch p h) Q w b ↔ Wp R p (OnError (fun e => Wp R (h e) Q) Q) w b := by
  constructor
  · rintro H es r w' b' he hp
    cases r with
    | ok a => exact H es _ _ _ (exec_tryCatch.mpr (.inl ⟨a, he, rfl⟩)) hp
    | error e =>
      intro es' r' w'' b'' he' hp'
      exact H (es ++ es') _ _ _ (exec_tryCatch.mpr (.inr ⟨es, es', e, w', rfl, he, he'⟩))
        (path_append.mpr ⟨b', hp, hp'⟩)
  · rintro H es r w' b' he hp
    rcases exec_tryCatch.mp he with ⟨a, he₁, rfl⟩ | ⟨es₁, es₂, e, w₁, rfl, he₁, he₂⟩
    · exact H es _ _ _ he₁ hp
    · obtain ⟨b₁, hp₁, hp₂⟩ := path_append.mp hp
      exact H es₁ _ _ _ he₁ hp₁ es₂ _ _ _ he₂ hp₂

@[simp] theorem wp_attempt {Q : Except E (Except E α) → W → B → Prop} :
    Wp R (attempt p) Q w b ↔ Wp R p (fun r => Q (.ok r)) w b := by
  constructor
  · rintro H es r w' b' he hp
    exact H es _ _ _ (exec_attempt.mpr ⟨r, he, rfl⟩) hp
  · rintro H es r w' b' he hp
    obtain ⟨r', he₁, rfl⟩ := exec_attempt.mp he
    exact H es _ _ _ he₁ hp

@[simp] theorem wp_ensuring {fin : Prog S W E Unit} :
    Wp R (ensuring p fin) Q w b ↔
      Wp R p (fun r => Wp R fin (fun r' => Q (match r' with | .ok _ => r | .error e => .error e))) w b := by
  constructor
  · rintro H es r w' b' he hp es' r' w'' b'' he' hp'
    exact H (es ++ es') _ _ _ (exec_ensuring.mpr ⟨es, es', r, w', r', rfl, he, he', rfl⟩)
      (path_append.mpr ⟨b', hp, hp'⟩)
  · rintro H es r w' b' he hp
    obtain ⟨es₁, es₂, r₁, w₁, r₂, rfl, he₁, he₂, rfl⟩ := exec_ensuring.mp he
    obtain ⟨b₁, hp₁, hp₂⟩ := path_append.mp hp
    exact H es₁ _ _ _ he₁ hp₁ es₂ _ _ _ he₂ hp₂

@[simp] theorem wp_embed {enter : W → V} {leave : V → W → W} {p : Prog S V E α} :
    Wp R (embed enter leave p) Q w b ↔ Wp R p (fun r v => Q r (leave v w)) (enter w) b := by
  constructor
  · rintro H es r v b' he hp
    exact H es _ _ _ (exec_embed.mpr ⟨v, he, rfl⟩) hp
  · rintro H es r w' b' he hp
    obtain ⟨v, he₁, rfl⟩ := exec_embed.mp he
    exact H es _ _ _ he₁ hp

/-- What `finishing` asks of its first part: done where it is still running, else what the end asks. -/
def Finish (R : Event S → B → B → Prop) (fin : Prog S W E Unit) (Q : Except E (Option α) → W → B → Prop) :
    Except E (Option α) → W → B → Prop
  | .ok none, w, b => Q (.ok none) w b
  | r, w, b => Wp R fin (OnOk (fun _ => Q r) Q) w b

@[simp] theorem wp_finishing {p : Prog S W E (Option α)} {fin : Prog S W E Unit}
    {Q : Except E (Option α) → W → B → Prop} :
    Wp R (finishing p fin) Q w b ↔ Wp R p (Finish R fin Q) w b := by
  rw [finishing, wp_bind, wp_attempt]
  refine wp_congr fun r w b => ?_
  rcases r with e | _ | a
  · exact wp_bind.trans (wp_congr fun r w b => by cases r <;> simp)
  · exact wp_pure
  · exact wp_bind.trans (wp_congr fun r w b => by cases r <;> simp)

/-- What `p` ends with goes through the end that still runs after it. -/
theorem Wp.finishing {p : Prog S W E (Option α)} {fin : Prog S W E Unit} {P Q : Except E (Option α) → W → B → Prop}
    (hp : Wp R p P w b) (hnone : ∀ w b, P (.ok none) w b → Q (.ok none) w b)
    (hfin : ∀ r w b, P r w b → Wp R fin (OnOk (fun _ => Q r) Q) w b) : Wp R (Prog.finishing p fin) Q w b := by
  refine wp_finishing.mpr (hp.mono fun r w b h => ?_)
  rcases r with e | _ | a
  · exact hfin _ w b h
  · exact hnone w b h
  · exact hfin _ w b h

theorem wp_ite {c : Prop} [Decidable c] {q : Prog S W E α} :
    Wp R (if c then p else q) Q w b ↔ (c → Wp R p Q w b) ∧ (¬c → Wp R q Q w b) := by
  split <;> simp_all

@[simp] theorem wp_when {c : Prop} [Decidable c] {p : Prog S W E Unit} {Q : Except E Unit → W → B → Prop} :
    Wp R (Prog.when c p) Q w b ↔ (c → Wp R p Q w b) ∧ (¬c → Q (.ok ()) w b) := by
  rw [Prog.when, wp_ite, wp_pure]

/-- A loop over a list: `I` holds with what is left, at the start of each turn. -/
theorem Wp.forM {Q : Except E PUnit → W → B → Prop} (I : List α → W → B → Prop) {g : α → Prog S W E PUnit}
    (step : ∀ a as w b, I (a :: as) w b → Wp R (g a) (OnOk (fun _ => I as) Q) w b)
    (done : ∀ w b, I [] w b → Q (.ok ⟨⟩) w b) {as : List α} (h : I as w b) : Wp R (as.forM g) Q w b := by
  induction as generalizing w b with
  | nil => simpa using done w b h
  | cons a as ih =>
    refine wp_bind.mpr ((step a as w b h).mono ?_)
    rintro (e | ⟨⟩) w' b' h'
    · exact h'
    · exact ih h'

/-- A fold over a list: `I` holds with what is left and the value so far. -/
theorem Wp.foldlM {Q : Except E β → W → B → Prop} (I : List α → β → W → B → Prop) {g : β → α → Prog S W E β}
    (step : ∀ a as c w b, I (a :: as) c w b → Wp R (g c a) (OnOk (fun c' => I as c') Q) w b)
    (done : ∀ c w b, I [] c w b → Q (.ok c) w b) {as : List α} {c : β} (h : I as c w b) :
    Wp R (as.foldlM g c) Q w b := by
  induction as generalizing w b c with
  | nil => simpa using done c w b h
  | cons a as ih =>
    simp only [List.foldlM_cons, wp_bind]
    refine (step a as c w b h).mono ?_
    rintro (e | c') w' b' h'
    · exact h'
    · exact ih h'

/-- A loop: `I` holds at the start of each turn. -/
theorem Wp.iterate {body : Prog S W E (Option α)} {Q : Except E (Option α) → W → B → Prop} (I : W → B → Prop)
    (step : ∀ w b, I w b → Wp R body (OnOk (fun
      | some a => fun w b => Q (.ok (some a)) w b
      | none => I) Q) w b)
    (more : ∀ w b, I w b → Q (.ok none) w b) {n : ℕ} (h : I w b) : Wp R (Prog.iterate body n) Q w b := by
  induction n generalizing w b with
  | zero => simpa [Prog.iterate] using more w b h
  | succ n ih =>
    simp only [Prog.iterate, wp_bind]
    refine (step w b h).mono ?_
    rintro (e | (_ | a)) w' b' h'
    · exact h'
    · exact ih h'
    · simpa using h'

/-- A loop that counts its turns: `I k` holds after `k` of them. -/
theorem Wp.iterate_counted {body : Prog S W E (Option α)} {Q : Except E (Option α) → W → B → Prop}
    (I : ℕ → W → B → Prop) {n k : ℕ} (step : ∀ k w b, I k w b → Wp R body (OnOk (fun
      | some a => fun w b => Q (.ok (some a)) w b
      | none => I (k + 1)) Q) w b)
    (more : ∀ w b, I (k + n) w b → Q (.ok none) w b) (h : I k w b) : Wp R (Prog.iterate body n) Q w b := by
  induction n generalizing k w b with
  | zero => simpa [Prog.iterate] using more w b h
  | succ n ih =>
    simp only [Prog.iterate, wp_bind]
    refine (step k w b h).mono ?_
    rintro (e | (_ | a)) w' b' h'
    · exact h'
    · refine ih (fun w b hI => more w b ?_) h'
      rwa [Nat.add_right_comm] at hI
    · simpa using h'

end Wp

/-! ### Invariants -/

/-- `I` holds after `p`, returned or raised, wherever it held before. -/
def Keeps (R : Event S → B → B → Prop) (I : W → B → Prop) (p : Prog S W E α) : Prop :=
  ∀ w b, I w b → Wp R p (fun _ => I) w b

section Keeps

variable {R : Event S → B → B → Prop} {I : W → B → Prop} {p : Prog S W E α} {f : α → Prog S W E β}

/-- An invariant goes through a program on the way to a postcondition. -/
theorem Keeps.wp (h : Keeps R I p) {w : W} {b : B} (hI : I w b) {Q : Except E α → W → B → Prop}
    (hQ : ∀ r w' b', I w' b' → Q r w' b') : Wp R p Q w b := (h w b hI).mono hQ

/-- The same, in front of another program. -/
theorem Keeps.wp_bind (h : Keeps R I p) {w : W} {b : B} (hI : I w b) {Q : Except E β → W → B → Prop}
    (hf : ∀ a w' b', I w' b' → Wp R (f a) Q w' b') (hQ : ∀ e w' b', I w' b' → Q (.error e) w' b') :
    Wp R (p >>= f) Q w b := by
  refine Interaction.wp_bind.mpr (h.wp hI ?_)
  rintro (e | a) w' b' h'
  · exact hQ e w' b' h'
  · exact hf a w' b' h'

theorem keeps_pure {a : α} : Keeps R I (pure a : Prog S W E α) := fun _ _ h => wp_pure.mpr h

theorem keeps_ofExcept {r : Except E α} : Keeps R I (Prog.ofExcept r : Prog S W E α) :=
  fun _ _ h => wp_ofExcept.mpr h

theorem keeps_throw {e : E} : Keeps R I (throw e : Prog S W E α) := fun _ _ h => wp_throw.mpr h

theorem keeps_get : Keeps R I (get : Prog S W E W) := fun _ _ h => wp_get.mpr h

theorem keeps_modify {g : W → W} (hg : ∀ w b, I w b → I (g w) b) : Keeps R I (modify g : Prog S W E PUnit) :=
  fun w b h => wp_modify.mpr (hg w b h)

theorem keeps_perform {c : S.Call} (hc : ∀ a w b b', R (.call c a) b b' → I w b → I w b') :
    Keeps R I (perform c : Prog S W E _) := fun w b h => wp_perform.mpr fun a b' hR => hc a w b b' hR h

theorem keeps_request {c : S.Call} {result : S.Reply c → Except E α}
    (hc : ∀ a w b b', R (.call c a) b b' → I w b → I w b') : Keeps R I (request c result : Prog S W E α) :=
  fun w b h => wp_request.mpr fun a b' hR => hc a w b b' hR h

theorem keeps_note {n : S.Note} (hn : ∀ w b b', R (.note n) b b' → I w b → I w b') :
    Keeps R I (Prog.note n : Prog S W E Unit) := fun w b h => wp_note.mpr fun b' hR => hn w b b' hR h

theorem keeps_bind (hp : Keeps R I p) (hf : ∀ a, Keeps R I (f a)) : Keeps R I (p >>= f) :=
  fun _ _ h => hp.wp_bind h (fun a w' b' => hf a w' b') fun _ _ _ h' => h'

theorem keeps_tryCatch {h : E → Prog S W E α} (hp : Keeps R I p) (hh : ∀ e, Keeps R I (h e)) :
    Keeps R I (tryCatch p h) := by
  intro w b hI
  refine wp_tryCatch.mpr (hp.wp hI ?_)
  rintro (e | a) w' b' h'
  · exact hh e w' b' h'
  · exact h'

theorem keeps_ensuring {fin : Prog S W E Unit} (hp : Keeps R I p) (hf : Keeps R I fin) :
    Keeps R I (ensuring p fin) := by
  intro w b hI
  exact wp_ensuring.mpr (hp.wp hI fun r w' b' h' => hf.wp h' fun _ _ _ h'' => h'')

theorem keeps_attempt (hp : Keeps R I p) : Keeps R I (attempt p) :=
  fun _ _ hI => wp_attempt.mpr (hp.wp hI fun _ _ _ h' => h')

theorem keeps_ite {c : Prop} [Decidable c] {q : Prog S W E α} (hp : c → Keeps R I p) (hq : ¬c → Keeps R I q) :
    Keeps R I (if c then p else q) := by
  split
  · exact hp ‹_›
  · exact hq ‹_›

theorem keeps_when {c : Prop} [Decidable c] {p : Prog S W E Unit} (hp : Keeps R I p) : Keeps R I (Prog.when c p) :=
  keeps_ite (fun _ => hp) fun _ => keeps_pure

theorem keeps_finishing {p : Prog S W E (Option α)} {fin : Prog S W E Unit} (hp : Keeps R I p) (hf : Keeps R I fin) :
    Keeps R I (finishing p fin) := by
  refine keeps_bind (keeps_attempt hp) fun r => ?_
  rcases r with e | _ | a
  · exact keeps_bind hf fun _ => keeps_ofExcept
  · exact keeps_pure
  · exact keeps_bind hf fun _ => keeps_ofExcept

theorem keeps_forM {g : α → Prog S W E PUnit} {as : List α} (hg : ∀ a ∈ as, Keeps R I (g a)) :
    Keeps R I (as.forM g) := by
  induction as with
  | nil => exact keeps_pure
  | cons a as ih => exact keeps_bind (hg a (by simp)) fun _ => ih fun a' h => hg a' (by simp [h])

theorem keeps_foldlM {g : β → α → Prog S W E β} {as : List α} {c : β} (hg : ∀ c, ∀ a ∈ as, Keeps R I (g c a)) :
    Keeps R I (as.foldlM g c) := by
  induction as generalizing c with
  | nil => exact keeps_pure
  | cons a as ih =>
    rw [List.foldlM_cons]
    exact keeps_bind (hg c a (by simp)) fun _ => ih fun c a' h => hg c a' (by simp [h])

theorem keeps_iterate {body : Prog S W E (Option α)} (hb : Keeps R I body) (n : ℕ) :
    Keeps R I (Prog.iterate body n) := by
  induction n with
  | zero => exact keeps_pure
  | succ n ih =>
    refine keeps_bind hb fun a => ?_
    cases a with
    | none => exact ih
    | some a => exact keeps_pure

/-- A program over a part of the state keeps what it keeps of the whole. -/
theorem keeps_embed {enter : W → V} {leave : V → W → W} {p : Prog S V E α} (hl : ∀ w, leave (enter w) w = w)
    (hp : ∀ w, Keeps R (fun v => I (leave v w)) p) : Keeps R I (embed enter leave p) := by
  intro w b hI
  exact wp_embed.mpr ((hp w).wp (by rw [hl w]; exact hI) fun _ _ _ h' => h')

end Keeps

/-! ### Invariants up to an error -/

/-- `I` where the program returned, `D` of the error where it raised. -/
def Ends (I : W → B → Prop) (D : E → W → B → Prop) : Except E α → W → B → Prop
  | .ok _, w, b => I w b
  | .error e, w, b => D e w b

@[simp] theorem ends_ok {I : W → B → Prop} {D : E → W → B → Prop} {a : α} {w : W} {b : B} :
    Ends I D (.ok a) w b = I w b := rfl

@[simp] theorem ends_error {I : W → B → Prop} {D : E → W → B → Prop} {e : E} {w : W} {b : B} :
    Ends I D (.error e : Except E α) w b = D e w b := rfl

/-- `I` holds after `p` returned, and `D` of what it raised, wherever `I` held before. -/
def Upholds (R : Event S → B → B → Prop) (I : W → B → Prop) (D : E → W → B → Prop) (p : Prog S W E α) : Prop :=
  ∀ w b, I w b → Wp R p (Ends I D) w b

section Upholds

variable {R : Event S → B → B → Prop} {I : W → B → Prop} {D : E → W → B → Prop} {p : Prog S W E α}
  {f : α → Prog S W E β}

/-- What keeps `I` upholds it, where `I` is enough for an error. -/
theorem Keeps.upholds (hp : Keeps R I p) (hD : ∀ e w b, I w b → D e w b) : Upholds R I D p := by
  refine fun w b hI => (hp w b hI).mono fun r w' b' hI' => ?_
  cases r with
  | error e => exact hD e w' b' hI'
  | ok a => exact hI'

/-- Goes on after a program that ended well. -/
theorem Wp.ends_bind {w : W} {b : B} (hp : Wp R p (Ends I D) w b) (hf : ∀ a, Upholds R I D (f a)) :
    Wp R (p >>= f) (Ends I D) w b := by
  refine wp_bind.mpr (hp.mono fun r w' b' h => ?_)
  cases r with
  | error e => exact h
  | ok a => exact hf a w' b' h

theorem upholds_bind (hp : Upholds R I D p) (hf : ∀ a, Upholds R I D (f a)) : Upholds R I D (p >>= f) :=
  fun w b hI => (hp w b hI).ends_bind hf

theorem upholds_pure {a : α} : Upholds R I D (pure a : Prog S W E α) := fun _ _ h => wp_pure.mpr h

theorem upholds_get : Upholds R I D (get : Prog S W E W) := fun _ _ h => wp_get.mpr h

theorem upholds_ite {c : Prop} [Decidable c] {q : Prog S W E α} (hp : c → Upholds R I D p) (hq : ¬c → Upholds R I D q) :
    Upholds R I D (if c then p else q) := by
  split
  · exact hp ‹_›
  · exact hq ‹_›

theorem upholds_when {c : Prop} [Decidable c] {p : Prog S W E Unit} (hp : Upholds R I D p) :
    Upholds R I D (Prog.when c p) := upholds_ite (fun _ => hp) fun _ => upholds_pure

theorem upholds_forM {g : α → Prog S W E PUnit} {as : List α} (hg : ∀ a ∈ as, Upholds R I D (g a)) :
    Upholds R I D (as.forM g) := by
  induction as with
  | nil => exact upholds_pure
  | cons a as ih => exact upholds_bind (hg a (by simp)) fun _ => ih fun a' h => hg a' (by simp [h])

theorem upholds_iterate {body : Prog S W E (Option α)} (hb : Upholds R I D body) (n : ℕ) :
    Upholds R I D (Prog.iterate body n) := by
  induction n with
  | zero => exact upholds_pure
  | succ n ih =>
    refine upholds_bind hb fun a => ?_
    cases a with
    | none => exact ih
    | some a => exact upholds_pure

end Upholds

/-! ### Returned values -/

/-- Every value `p` returns satisfies `P`. -/
def Returns (R : Event S → B → B → Prop) (P : α → Prop) (p : Prog S W E α) : Prop :=
  ∀ w b, Wp R p (fun r _ _ => ∀ a, r = .ok a → P a) w b

section Returns

variable {R : Event S → B → B → Prop} {P : α → Prop} {p q : Prog S W E α}

theorem returns_pure {a : α} (h : P a) : Returns R P (pure a : Prog S W E α) := by
  intro w b
  rw [wp_pure]
  rintro _ ⟨⟩
  exact h

theorem returns_throw {e : E} : Returns R P (throw e : Prog S W E α) := by
  intro w b
  rw [wp_throw]
  rintro _ ⟨⟩

theorem returns_bind {q : Prog S W E β} {f : β → Prog S W E α} (hf : ∀ a, Returns R P (f a)) :
    Returns R P (q >>= f) := by
  intro w b
  rw [wp_bind]
  intro es r w' b' _ _
  cases r with
  | error e => rintro _ ⟨⟩
  | ok a => exact hf a w' b'

theorem returns_tryCatch {h : E → Prog S W E α} (hp : Returns R P p) (hh : ∀ e, Returns R P (h e)) :
    Returns R P (tryCatch p h) := by
  intro w b
  refine wp_tryCatch.mpr ((hp w b).mono fun r w' b' hr => ?_)
  cases r with
  | error e => exact hh e w' b'
  | ok a => exact hr

theorem returns_ite {c : Prop} [Decidable c] (hp : c → Returns R P p) (hq : ¬c → Returns R P q) :
    Returns R P (if c then p else q) := by
  split
  · exact hp ‹_›
  · exact hq ‹_›

theorem returns_iterate {P : Option α → Prop} {body : Prog S W E (Option α)} (hb : Returns R P body) (hn : P none)
    (n : ℕ) : Returns R P (Prog.iterate body n) := by
  induction n with
  | zero => exact returns_pure hn
  | succ n ih =>
    intro w b
    refine wp_bind.mpr ((hb w b).mono fun r w' b' hr => ?_)
    rcases r with e | _ | a
    · rintro _ ⟨⟩
    · exact ih w' b'
    · exact returns_pure (hr _ rfl) w' b'

end Returns

/-! ### Invariants of what returns -/

/-- `I` holds after `p` returned, wherever it held before; nothing is said of what `p` raises. -/
abbrev Yields (R : Event S → B → B → Prop) (I : W → B → Prop) (p : Prog S W E α) : Prop :=
  Upholds R I (fun _ _ _ => True) p

section Yields

variable {R : Event S → B → B → Prop} {I : W → B → Prop} {p : Prog S W E α}

theorem Keeps.yields (hp : Keeps R I p) : Yields R I p := hp.upholds fun _ _ _ _ => trivial

/-- A handler that never returns hides nothing. -/
theorem yields_tryCatch {h : E → Prog S W E α} (hp : Yields R I p) (hh : ∀ e, Returns R (fun _ => False) (h e)) :
    Yields R I (tryCatch p h) := by
  refine fun w b hI => wp_tryCatch.mpr ((hp w b hI).mono fun r w' b' hend => ?_)
  cases r with
  | ok a => exact hend
  | error e =>
    refine (hh e w' b').mono fun r w'' b'' hr => ?_
    cases r with
    | ok a => exact (hr a rfl).elim
    | error e' => exact trivial

theorem yields_ensuring {fin : Prog S W E Unit} (hp : Yields R I p) (hf : Yields R I fin) :
    Yields R I (Prog.ensuring p fin) := by
  refine fun w b hI => wp_ensuring.mpr ((hp w b hI).mono fun r w' b' hend => ?_)
  cases r with
  | ok a =>
    refine (hf w' b' hend).mono fun r' w'' b'' hend' => ?_
    cases r' with
    | ok _ => exact hend'
    | error e => exact trivial
  | error e =>
    refine Wp.of_exec fun _ r' w'' b'' _ _ => ?_
    cases r' with
    | ok _ => exact trivial
    | error e => exact trivial

theorem yields_embed {V : Type} {enter : W → V} {leave : V → W → W} {J : V → B → Prop} {q : Prog S V E α}
    (hq : Yields R J q) (henter : ∀ w b, I w b → J (enter w) b) (hleave : ∀ v w b, J v b → I (leave v w) b) :
    Yields R I (Prog.embed enter leave q) := by
  refine fun w b hI => wp_embed.mpr ((hq _ b (henter w b hI)).mono fun r v b' hend => ?_)
  cases r with
  | ok a => exact hleave v w b' hend
  | error e => exact trivial

end Yields

/-! ### Raised errors -/

/-- Every error `p` raises satisfies `P`. -/
def Raises (R : Event S → B → B → Prop) (P : E → Prop) (p : Prog S W E α) : Prop :=
  ∀ w b, Wp R p (fun r _ _ => ∀ e, r = .error e → P e) w b

section Raises

variable {R : Event S → B → B → Prop} {P : E → Prop} {p q : Prog S W E α}

theorem raises_pure {a : α} : Raises R P (pure a : Prog S W E α) := by
  intro w b
  rw [wp_pure]
  rintro _ ⟨⟩

theorem raises_throw {e : E} (h : P e) : Raises R P (throw e : Prog S W E α) := by
  intro w b
  rw [wp_throw]
  rintro _ ⟨⟩
  exact h

theorem raises_get : Raises R P (get : Prog S W E W) := by
  intro w b
  rw [wp_get]
  rintro _ ⟨⟩

theorem raises_modify {g : W → W} : Raises R P (modify g : Prog S W E PUnit) := by
  intro w b
  rw [wp_modify]
  rintro _ ⟨⟩

theorem raises_note {n : S.Note} : Raises R P (Prog.note n : Prog S W E Unit) := by
  intro w b
  rw [wp_note]
  rintro _ _ _ ⟨⟩

theorem raises_request {c : S.Call} {result : S.Reply c → Except E α}
    (h : ∀ a b b', R (.call c a) b b' → ∀ e, result a = .error e → P e) :
    Raises R P (request c result : Prog S W E α) :=
  fun _ b => wp_request.mpr fun a b' hR => h a b b' hR

theorem raises_bind {q : Prog S W E β} {f : β → Prog S W E α} (hq : Raises R P q) (hf : ∀ a, Raises R P (f a)) :
    Raises R P (q >>= f) := by
  intro w b
  refine wp_bind.mpr ((hq w b).mono fun r w' b' hr => ?_)
  cases r with
  | error e =>
    rintro _ ⟨⟩
    exact hr e rfl
  | ok a => exact hf a w' b'

theorem raises_tryCatch {h : E → Prog S W E α} (hh : ∀ e, Raises R P (h e)) : Raises R P (tryCatch p h) := by
  intro w b
  refine wp_tryCatch.mpr (Wp.of_exec fun es r w' b' _ _ => ?_)
  cases r with
  | error e => exact hh e w' b'
  | ok a => rintro _ ⟨⟩

theorem raises_ite {c : Prop} [Decidable c] (hp : c → Raises R P p) (hq : ¬c → Raises R P q) :
    Raises R P (if c then p else q) := by
  split
  · exact hp ‹_›
  · exact hq ‹_›

theorem raises_when {c : Prop} [Decidable c] {p : Prog S W E Unit} (hp : c → Raises R P p) :
    Raises R P (Prog.when c p) := raises_ite hp fun _ => raises_pure

theorem raises_forM {g : α → Prog S W E PUnit} {as : List α} (hg : ∀ a ∈ as, Raises R P (g a)) :
    Raises R P (as.forM g) := by
  induction as with
  | nil => exact raises_pure
  | cons a as ih => exact raises_bind (hg a (by simp)) fun _ => ih fun a' h => hg a' (by simp [h])

end Raises

theorem wp_logged {A : Event S → Prop} {p : Prog S W E α} {Q : Except E α → W → Trace S → Prop} {w : W} {h : Trace S} :
    Wp (Logged A) p Q w h ↔
      ∀ es r w', Exec p w es r w' → (∀ e ∈ es, A e) → Q r w' (h ++ es) := by
  constructor
  · intro H es r w' he hA
    exact H es r w' _ he (path_logged.mpr ⟨hA, rfl⟩)
  · rintro H es r w' h' he hp
    obtain ⟨hA, rfl⟩ := path_logged.mp hp
    exact H es r w' he hA

/-- What a program that keeps an invariant did, and that it did. -/
theorem Keeps.ran {A : Event S → Prop} {I : W → Trace S → Prop} {p : Prog S W E α} (hp : Keeps (Logged A) I p) {w : W}
    {h : Trace S} (hI : I w h) :
    Wp (Logged A) p (fun r w' h' => I w' h' ∧ ∃ es, Exec p w es r w' ∧ h' = h ++ es) w h := by
  refine wp_logged.mpr fun es r w' he hA => ?_
  exact ⟨wp_logged.mp (hp w h hI) es r w' he hA, es, he, rfl⟩

/-- An execution goes on from its history. -/
theorem wp_extends {A : Event S → Prop} {p : Prog S W E α} {w : W} {h : Trace S} :
    Wp (Logged A) p (fun _ _ h' => h <+: h') w h :=
  wp_logged.mpr fun es _ _ _ _ => List.prefix_append h es

/-! ### Histories -/

/-- Each event of `h` satisfies `G` of the events before it. -/
def Always (G : Trace S → Event S → Prop) (h : Trace S) : Prop :=
  ∀ before e after, h = before ++ e :: after → G before e

section Always

variable {G : Trace S → Event S → Prop} {h : Trace S}

@[simp] theorem always_nil : Always G [] := by
  intro before e after he
  simp at he

theorem always_concat {e : Event S} : Always G (h ++ [e]) ↔ Always G h ∧ G h e := by
  constructor
  · intro H
    refine ⟨fun before e' after he => H before e' (after ++ [e]) (by simp [he]), H h e [] rfl⟩
  · rintro ⟨H, hG⟩ before e' after he
    rcases List.eq_nil_or_concat after with rfl | ⟨after, x, rfl⟩
    · obtain ⟨rfl, rfl⟩ : h = before ∧ e = e' := by simpa using he
      exact hG
    · rw [List.concat_eq_append, ← List.cons_append, ← List.append_assoc] at he
      obtain ⟨rfl, -⟩ := List.append_inj' he rfl
      exact H before e' after rfl

theorem Always.append {es : Trace S} (H : Always G h)
    (hG : ∀ before e after, es = before ++ e :: after → G (h ++ before) e) : Always G (h ++ es) := by
  induction es using List.reverseRecOn with
  | nil => simpa using H
  | append_singleton es e ih =>
    rw [← List.append_assoc, always_concat]
    exact ⟨ih fun before e' after he => hG before e' (after ++ [e]) (by simp [he]), hG es e [] rfl⟩

/-- Look at each event of `es` after the events before it. -/
def checkAlways (G : Trace S → Event S → Prop) [∀ h e, Decidable (G h e)] (h : Trace S) : Trace S → Bool
  | [] => true
  | e :: es => decide (G h e) && checkAlways G (h ++ [e]) es

theorem checkAlways_iff [∀ h e, Decidable (G h e)] {es : Trace S} (H : Always G h) :
    checkAlways G h es = true ↔ Always G (h ++ es) := by
  induction es generalizing h with
  | nil => simpa [checkAlways] using H
  | cons e es ih =>
    rw [checkAlways, Bool.and_eq_true, decide_eq_true_eq]
    constructor
    · rintro ⟨he, hes⟩
      simpa using (ih (always_concat.mpr ⟨H, he⟩)).mp hes
    · intro H'
      have he : G h e := H' h e es rfl
      exact ⟨he, (ih (always_concat.mpr ⟨H, he⟩)).mpr (by simpa using H')⟩

instance [∀ h e, Decidable (G h e)] : Decidable (Always G h) :=
  decidable_of_iff _ (by simpa using @checkAlways_iff _ G _ _ h always_nil)

/-- Events that satisfy `G` after any history extend it. -/
theorem Always.append_of_forall {es : Trace S} (H : Always G h) (hG : ∀ e ∈ es, ∀ h, G h e) : Always G (h ++ es) :=
  H.append fun before e after he => hG e (by simp [he]) _

theorem Always.initial {h' : Trace S} (H : Always G h') (hp : h <+: h') : Always G h := by
  obtain ⟨es, rfl⟩ := hp
  exact fun before e after he => H before e (after ++ es) (by simp [he])

/-- Some event of `h` satisfies `G` of the events before it. -/
def Once (G : Trace S → Event S → Prop) (h : Trace S) : Prop := ∃ before e after, h = before ++ e :: after ∧ G before e

theorem once_last {e : Event S} (he : G h e) : Once G (h ++ [e]) := ⟨h, e, [], rfl, he⟩

theorem Once.along {h' : Trace S} (H : Once G h) (hp : h <+: h') : Once G h' := by
  obtain ⟨es, rfl⟩ := hp
  obtain ⟨before, e, after, rfl, he⟩ := H
  exact ⟨before, e, after ++ es, by simp, he⟩

/-- Some event satisfies `G` where not all of them fail it. -/
theorem not_always_not : ¬ Always (fun h e => ¬ G h e) h ↔ Once G h := by
  constructor
  · intro H
    by_contra hnone
    exact H fun before e after he hG => hnone ⟨before, e, after, he, hG⟩
  · rintro ⟨before, e, after, he, hG⟩ H
    exact H before e after he hG

instance [∀ h e, Decidable (G h e)] : Decidable (Once G h) := decidable_of_iff _ not_always_not

end Always

end Interaction
