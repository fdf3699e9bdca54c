import Mathlib

/-!
# Programs that talk to their surroundings

A program that calls services it does not contain — a broker, a file system, a
clock — is a tree: it ends, or it makes a call and goes on as the reply says.
Nothing is assumed of the replies, so an execution is a path through the tree,
and the calls and replies along it are the *trace* of the execution.

## The model

* `Signature` — the calls, the type of each call's reply, and the notes a
  program may leave in its trace (history variables: the program never reads
  them).
* `Tree S α` — a program that ends with an `α`; `Runs t es a` says that `t` can
  make the trace `es` and end with `a`.
* `Prog S W E α` — a program with state `W` that may raise an `E`; raising keeps
  the state, as in a language with exceptions and mutable objects.
* `Exec p w es r w'` — from state `w`, `p` can make the trace `es` and end with
  the result `r` in state `w'`.
* `simulate` — the execution in which a given function answers the calls.

## What is proved

The equations of `Exec`, one for each way of building a program, and that the
execution `simulate` computes is one (`runs_simulate`).
-/

namespace Interaction

/-- What a program may ask of its surroundings: the calls, what each returns, and
the notes it may leave in its trace. -/
structure Signature where
  /-- The calls. -/
  Call : Type
  /-- What a call returns. -/
  Reply : Call → Type
  /-- The notes. -/
  Note : Type

variable {S : Signature} {W V E α β : Type}

/-- One entry of a trace. -/
inductive Event (S : Signature) where
  /-- A call and its reply. -/
  | call (c : S.Call) (r : S.Reply c)
  /-- A note. -/
  | note (n : S.Note)

/-- The trace of an execution, oldest event first. -/
abbrev Trace (S : Signature) := List (Event S)

/-- A program that ends with an `α`. -/
inductive Tree (S : Signature) (α : Type) where
  /-- It ends. -/
  | ret (a : α)
  /-- It makes a call and goes on with the reply. -/
  | call (c : S.Call) (k : S.Reply c → Tree S α)
  /-- It leaves a note and goes on. -/
  | note (n : S.Note) (k : Tree S α)

/-- One program after another. -/
def Tree.bind : Tree S α → (α → Tree S β) → Tree S β
  | .ret a, f => f a
  | .call c k, f => .call c fun r => (k r).bind f
  | .note n k, f => .note n (k.bind f)

/-- `Runs t es a`: with some replies, `t` makes the trace `es` and ends with `a`. -/
inductive Runs : Tree S α → Trace S → α → Prop where
  /-- An ended program makes no call. -/
  | ret {a : α} : Runs (.ret a) [] a
  /-- A call may be answered by any reply. -/
  | call {c : S.Call} {k : S.Reply c → Tree S α} {es : Trace S} {a : α} (r : S.Reply c) :
      Runs (k r) es a → Runs (.call c k) (.call c r :: es) a
  /-- A note has no reply. -/
  | note {n : S.Note} {k : Tree S α} {es : Trace S} {a : α} : Runs k es a → Runs (.note n k) (.note n :: es) a

theorem runs_ret {a a' : α} {es : Trace S} : Runs (.ret a) es a' ↔ es = [] ∧ a = a' := by
  constructor
  · rintro ⟨⟩
    exact ⟨rfl, rfl⟩
  · rintro ⟨rfl, rfl⟩
    exact .ret

theorem runs_call {c : S.Call} {k : S.Reply c → Tree S α} {es : Trace S} {a : α} :
    Runs (.call c k) es a ↔ ∃ r es', es = .call c r :: es' ∧ Runs (k r) es' a := by
  constructor
  · intro h
    cases h with
    | call r h => exact ⟨r, _, rfl, h⟩
  · rintro ⟨r, es', rfl, h⟩
    exact .call r h

theorem runs_note {n : S.Note} {k : Tree S α} {es : Trace S} {a : α} :
    Runs (.note n k) es a ↔ ∃ es', es = .note n :: es' ∧ Runs k es' a := by
  constructor
  · intro h
    cases h with
    | note h => exact ⟨_, rfl, h⟩
  · rintro ⟨es', rfl, h⟩
    exact .note h

/-- A sequence runs as its first part and then its second. -/
theorem runs_bind {t : Tree S α} {f : α → Tree S β} {es : Trace S} {b : β} :
    Runs (t.bind f) es b ↔ ∃ es₁ es₂ a, es = es₁ ++ es₂ ∧ Runs t es₁ a ∧ Runs (f a) es₂ b := by
  induction t generalizing es with
  | ret a =>
    simp only [Tree.bind, runs_ret]
    constructor
    · intro h
      exact ⟨[], es, a, rfl, ⟨rfl, rfl⟩, h⟩
    · rintro ⟨_, _, _, rfl, ⟨rfl, rfl⟩, h⟩
      exact h
  | call c k ih =>
    simp only [Tree.bind, runs_call, ih]
    constructor
    · rintro ⟨r, _, rfl, es₁, es₂, a, rfl, h₁, h₂⟩
      exact ⟨.call c r :: es₁, es₂, a, rfl, ⟨r, es₁, rfl, h₁⟩, h₂⟩
    · rintro ⟨_, es₂, a, rfl, ⟨r, es₁, rfl, h₁⟩, h₂⟩
      exact ⟨r, es₁ ++ es₂, rfl, es₁, es₂, a, rfl, h₁, h₂⟩
  | note n k ih =>
    simp only [Tree.bind, runs_note, ih]
    constructor
    · rintro ⟨_, rfl, es₁, es₂, a, rfl, h₁, h₂⟩
      exact ⟨.note n :: es₁, es₂, a, rfl, ⟨es₁, rfl, h₁⟩, h₂⟩
    · rintro ⟨_, es₂, a, rfl, ⟨es₁, rfl, h₁⟩, h₂⟩
      exact ⟨es₁ ++ es₂, rfl, es₁, es₂, a, rfl, h₁, h₂⟩

/-! ### State and exceptions -/

/-- A program with state `W` that returns an `α` or raises an `E`. -/
def Prog (S : Signature) (W E α : Type) : Type := W → Tree S (Except E α × W)

namespace Prog

instance : Monad (Prog S W E) where
  pure a := fun w => .ret (.ok a, w)
  bind p f := fun w => (p w).bind fun
    | (.ok a, w') => f a w'
    | (.error e, w') => .ret (.error e, w')

instance : MonadStateOf W (Prog S W E) where
  get := fun w => .ret (.ok w, w)
  set w' := fun _ => .ret (.ok ⟨⟩, w')
  modifyGet f := fun w => .ret (.ok (f w).1, (f w).2)

instance : MonadExceptOf E (Prog S W E) where
  throw e := fun w => .ret (.error e, w)
  tryCatch p h := fun w => (p w).bind fun
    | (.ok a, w') => .ret (.ok a, w')
    | (.error e, w') => h e w'

/-- Make a call. -/
def perform (c : S.Call) : Prog S W E (S.Reply c) := fun w => .call c fun r => .ret (.ok r, w)

/-- Leave a note. -/
def note (n : S.Note) : Prog S W E Unit := fun w => .note n (.ret (.ok (), w))

/-- Return or raise a result. -/
def ofExcept (r : Except E α) : Prog S W E α := fun w => .ret (r, w)

/-- Make a call and read its reply as a result. -/
def request (c : S.Call) (result : S.Reply c → Except E α) : Prog S W E α :=
  fun w => .call c fun r => .ret (result r, w)

/-- `p` where the condition holds. -/
def when (c : Prop) [Decidable c] (p : Prog S W E Unit) : Prog S W E Unit := if c then p else pure ()

/-- The result of `p`, raised or not, as a value. -/
def attempt (p : Prog S W E α) : Prog S W E (Except E α) := fun w =>
  (p w).bind fun (r, w') => .ret (.ok r, w')

/-- `p`, then `f` whether or not `p` raised; what `f` raises replaces the result of `p`. -/
def ensuring (p : Prog S W E α) (f : Prog S W E Unit) : Prog S W E α := fun w =>
  (p w).bind fun (r, w') => (f w').bind fun
    | (.ok _, w'') => .ret (r, w'')
    | (.error e, w'') => .ret (.error e, w'')

/-- `p`, which may be still running (`none`), and once it has ended `f`, whether or not it raised. -/
def finishing (p : Prog S W E (Option α)) (f : Prog S W E Unit) : Prog S W E (Option α) := do
  match ← attempt p with
  | .ok none => pure none
  | r => do
    f
    ofExcept r

/-- Run a program over another state: `enter` makes its state, `leave` puts it back. -/
def embed (enter : W → V) (leave : V → W → W) (p : Prog S V E α) : Prog S W E α := fun w =>
  (p (enter w)).bind fun (r, v) => .ret (r, leave v w)

/-- Repeat `body` until it returns a value, at most `n` times; `none`: not yet. -/
def iterate (body : Prog S W E (Option α)) : ℕ → Prog S W E (Option α)
  | 0 => pure none
  | n + 1 => do
    match ← body with
    | some a => pure (some a)
    | none => iterate body n

/-- `Exec p w es r w'`: from `w`, with some replies, `p` makes the trace `es` and ends with
the result `r` in state `w'`. -/
def Exec (p : Prog S W E α) (w : W) (es : Trace S) (r : Except E α) (w' : W) : Prop := Runs (p w) es (r, w')

variable {p : Prog S W E α} {f : α → Prog S W E β} {w w' : W} {es : Trace S}

@[simp] theorem exec_pure {a : α} {r : Except E α} :
    Exec (pure a : Prog S W E α) w es r w' ↔ es = [] ∧ r = .ok a ∧ w' = w := by
  show Runs (.ret _) _ _ ↔ _
  rw [runs_ret, Prod.mk.injEq, eq_comm (a := r), eq_comm (a := w')]

@[simp] theorem exec_ofExcept {r r' : Except E α} :
    Exec (ofExcept r : Prog S W E α) w es r' w' ↔ es = [] ∧ r' = r ∧ w' = w := by
  show Runs (.ret _) _ _ ↔ _
  rw [runs_ret, Prod.mk.injEq, eq_comm (a := r), eq_comm (a := w)]

@[simp] theorem exec_throw {e : E} {r : Except E α} :
    Exec (throw e : Prog S W E α) w es r w' ↔ es = [] ∧ r = .error e ∧ w' = w := exec_ofExcept

@[simp] theorem exec_get {r : Except E W} :
    Exec (get : Prog S W E W) w es r w' ↔ es = [] ∧ r = .ok w ∧ w' = w :=
  exec_ofExcept (r := .ok w)

@[simp] theorem exec_set {v : W} {r : Except E PUnit} :
    Exec (set v : Prog S W E PUnit) w es r w' ↔ es = [] ∧ r = .ok ⟨⟩ ∧ w' = v := by
  show Runs (.ret _) _ _ ↔ _
  rw [runs_ret, Prod.mk.injEq, eq_comm (a := r), eq_comm (a := w')]

@[simp] theorem exec_modify {g : W → W} {r : Except E PUnit} :
    Exec (modify g : Prog S W E PUnit) w es r w' ↔ es = [] ∧ r = .ok ⟨⟩ ∧ w' = g w := by
  show Runs (.ret _) _ _ ↔ _
  rw [runs_ret, Prod.mk.injEq, eq_comm (a := r), eq_comm (a := w')]

@[simp] theorem exec_perform {c : S.Call} {r : Except E (S.Reply c)} :
    Exec (perform c : Prog S W E _) w es r w' ↔ ∃ a, es = [.call c a] ∧ r = .ok a ∧ w' = w := by
  show Runs (.call _ _) _ _ ↔ _
  simp only [runs_call, runs_ret, Prod.mk.injEq]
  constructor
  · rintro ⟨a, _, rfl, rfl, rfl, rfl⟩
    exact ⟨a, rfl, rfl, rfl⟩
  · rintro ⟨a, rfl, rfl, rfl⟩
    exact ⟨a, [], rfl, rfl, rfl, rfl⟩

@[simp] theorem exec_note {n : S.Note} {r : Except E Unit} :
    Exec (note n : Prog S W E Unit) w es r w' ↔ es = [.note n] ∧ r = .ok () ∧ w' = w := by
  show Runs (.note _ _) _ _ ↔ _
  simp only [runs_note, runs_ret, Prod.mk.injEq]
  constructor
  · rintro ⟨_, rfl, rfl, rfl, rfl⟩
    exact ⟨rfl, rfl, rfl⟩
  · rintro ⟨rfl, rfl, rfl⟩
    exact ⟨[], rfl, rfl, rfl, rfl⟩

/-- A sequence runs as its first part, and goes on where that returned. -/
theorem exec_bind {r : Except E β} :
    Exec (p >>= f) w es r w' ↔ (∃ e, Exec p w es (.error e) w' ∧ r = .error e) ∨
      ∃ es₁ es₂ a w₁, es = es₁ ++ es₂ ∧ Exec p w es₁ (.ok a) w₁ ∧ Exec (f a) w₁ es₂ r w' := by
  show Runs (Tree.bind _ _) _ _ ↔ _
  rw [runs_bind]
  constructor
  · rintro ⟨es₁, es₂, ⟨ra, w₁⟩, rfl, h₁, h₂⟩
    cases ra with
    | error e =>
      obtain ⟨rfl, h⟩ := runs_ret.mp h₂
      simp only [Prod.mk.injEq] at h
      obtain ⟨rfl, rfl⟩ := h
      exact .inl ⟨e, by simpa using! h₁, rfl⟩
    | ok a => exact .inr ⟨es₁, es₂, a, w₁, rfl, h₁, h₂⟩
  · rintro (⟨e, h, rfl⟩ | ⟨es₁, es₂, a, w₁, rfl, h₁, h₂⟩)
    · exact ⟨es, [], (.error e, w'), by simp, h, .ret⟩
    · exact ⟨es₁, es₂, (.ok a, w₁), rfl, h₁, h₂⟩

/-- A sequence returns where both parts do. -/
theorem exec_bind_ok {b : β} : Exec (p >>= f) w es (.ok b) w' ↔
    ∃ es₁ es₂ a w₁, es = es₁ ++ es₂ ∧ Exec p w es₁ (.ok a) w₁ ∧ Exec (f a) w₁ es₂ (.ok b) w' := by
  rw [exec_bind]
  exact or_iff_right fun ⟨_, _, h⟩ => nomatch h

/-- A handler runs where the body raised. -/
theorem exec_tryCatch {h : E → Prog S W E α} {r : Except E α} :
    Exec (tryCatch p h) w es r w' ↔ (∃ a, Exec p w es (.ok a) w' ∧ r = .ok a) ∨
      ∃ es₁ es₂ e w₁, es = es₁ ++ es₂ ∧ Exec p w es₁ (.error e) w₁ ∧ Exec (h e) w₁ es₂ r w' := by
  show Runs (Tree.bind _ _) _ _ ↔ _
  rw [runs_bind]
  constructor
  · rintro ⟨es₁, es₂, ⟨ra, w₁⟩, rfl, h₁, h₂⟩
    cases ra with
    | ok a =>
      obtain ⟨rfl, h⟩ := runs_ret.mp h₂
      simp only [Prod.mk.injEq] at h
      obtain ⟨rfl, rfl⟩ := h
      exact .inl ⟨a, by simpa using! h₁, rfl⟩
    | error e => exact .inr ⟨es₁, es₂, e, w₁, rfl, h₁, h₂⟩
  · rintro (⟨a, h, rfl⟩ | ⟨es₁, es₂, e, w₁, rfl, h₁, h₂⟩)
    · exact ⟨es, [], (.ok a, w'), by simp, h, .ret⟩
    · exact ⟨es₁, es₂, (.error e, w₁), rfl, h₁, h₂⟩

@[simp] theorem exec_request {c : S.Call} {result : S.Reply c → Except E α} {r : Except E α} :
    Exec (request c result : Prog S W E α) w es r w' ↔ ∃ a, es = [.call c a] ∧ r = result a ∧ w' = w := by
  show Runs (.call _ _) _ _ ↔ _
  simp only [runs_call, runs_ret, Prod.mk.injEq]
  constructor
  · rintro ⟨a, _, rfl, rfl, rfl, rfl⟩
    exact ⟨a, rfl, rfl, rfl⟩
  · rintro ⟨a, rfl, rfl, rfl⟩
    exact ⟨a, [], rfl, rfl, rfl, rfl⟩

@[simp] theorem exec_attempt {r : Except E (Except E α)} :
    Exec (attempt p) w es r w' ↔ ∃ r', Exec p w es r' w' ∧ r = .ok r' := by
  show Runs (Tree.bind _ _) _ _ ↔ _
  rw [runs_bind]
  constructor
  · rintro ⟨es₁, es₂, ⟨r₁, w₁⟩, rfl, h₁, h₂⟩
    obtain ⟨rfl, h⟩ := runs_ret.mp h₂
    simp only [Prod.mk.injEq] at h
    obtain ⟨rfl, rfl⟩ := h
    exact ⟨r₁, by simpa using! h₁, rfl⟩
  · rintro ⟨r', h, rfl⟩
    exact ⟨es, [], (r', w'), by simp, h, .ret⟩

theorem exec_ensuring {fin : Prog S W E Unit} {r : Except E α} :
    Exec (ensuring p fin) w es r w' ↔ ∃ es₁ es₂ r₁ w₁ r₂, es = es₁ ++ es₂ ∧ Exec p w es₁ r₁ w₁ ∧
      Exec fin w₁ es₂ r₂ w' ∧ r = (match r₂ with | .ok _ => r₁ | .error e => .error e) := by
  show Runs (Tree.bind _ _) _ _ ↔ _
  simp only [runs_bind]
  constructor
  · rintro ⟨es₁, _, ⟨r₁, w₁⟩, rfl, h₁, es₂, es₃, ⟨r₂, w₂⟩, rfl, h₂, h₃⟩
    cases r₂ <;>
    · obtain ⟨rfl, h⟩ := runs_ret.mp h₃
      simp only [Prod.mk.injEq] at h
      obtain ⟨rfl, rfl⟩ := h
      exact ⟨es₁, es₂, r₁, w₁, _, by simp, h₁, h₂, rfl⟩
  · rintro ⟨es₁, es₂, r₁, w₁, r₂, rfl, h₁, h₂, rfl⟩
    refine ⟨es₁, es₂, (r₁, w₁), rfl, h₁, es₂, [], (r₂, w'), by simp, h₂, ?_⟩
    cases r₂ <;> exact .ret

theorem exec_embed {enter : W → V} {leave : V → W → W} {p : Prog S V E α} {r : Except E α} :
    Exec (embed enter leave p) w es r w' ↔ ∃ v, Exec p (enter w) es r v ∧ w' = leave v w := by
  show Runs (Tree.bind _ _) _ _ ↔ _
  rw [runs_bind]
  constructor
  · rintro ⟨es₁, es₂, ⟨r₁, v⟩, rfl, h₁, h₂⟩
    obtain ⟨rfl, h⟩ := runs_ret.mp h₂
    simp only [Prod.mk.injEq] at h
    obtain ⟨rfl, rfl⟩ := h
    exact ⟨v, by simpa using! h₁, rfl⟩
  · rintro ⟨v, h, rfl⟩
    exact ⟨es, [], (r, v), by simp, h, .ret⟩

end Prog

/-! ### Answering the calls -/

/-- The execution in which `answer` replies to every call, from the state `b` of whoever answers. -/
def simulate {B : Type} (answer : (c : S.Call) → B → S.Reply c × B) : Tree S α → B → Trace S × α × B
  | .ret a, b => ([], a, b)
  | .call c k, b =>
    let (r, b') := answer c b
    let (es, a, b'') := simulate answer (k r) b'
    (.call c r :: es, a, b'')
  | .note n k, b =>
    let (es, a, b') := simulate answer k b
    (.note n :: es, a, b')

/-- The simulated execution is an execution. -/
theorem runs_simulate {B : Type} (answer : (c : S.Call) → B → S.Reply c × B) (t : Tree S α) (b : B) :
    Runs t (simulate answer t b).1 (simulate answer t b).2.1 := by
  induction t generalizing b with
  | ret a => exact .ret
  | call c k ih => exact .call _ (ih _ _)
  | note n k ih => exact .note (ih _)

/-- What holds of every answer and of every note holds of every event of the simulated execution. -/
theorem forall_simulate {B : Type} {answer : (c : S.Call) → B → S.Reply c × B} {P : Event S → Prop}
    (hcall : ∀ c b, P (.call c (answer c b).1)) (hnote : ∀ n, P (.note n)) (t : Tree S α) (b : B) :
    ∀ e ∈ (simulate answer t b).1, P e := by
  induction t generalizing b with
  | ret a => exact List.forall_mem_nil P
  | call c k ih => exact List.forall_mem_cons.mpr ⟨hcall c b, ih _ _⟩
  | note n k ih => exact List.forall_mem_cons.mpr ⟨hnote n, ih _⟩

end Interaction
