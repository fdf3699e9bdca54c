import ServiceBusExtractor.Interaction.Hoare

/-!
# Opening and closing

A program that opens something has to close it, whatever happens in between. An
invariant says what is open, so opening goes from one invariant to another, and
closing goes back, whether it returns or raises.

## The model

* `Opens R I J p` — `p` returns what `J` says is open besides, or raises and leaves `I`.
* `Closes R J I p` — however `p` ends, `I` holds again.
* `Checked G` — the history as surroundings, each of its events as `G` allows after
  those before it.

## What is proved

`keeps_bracket`: a program that opens, uses and closes keeps the invariant.
-/

namespace Interaction

open Prog

variable {S : Signature} {W V E α β : Type} {B : Type}

/-- `J` of what was opened, or `I` where opening it failed. -/
def Opened (I : W → B → Prop) (J : α → W → B → Prop) : Except E α → W → B → Prop
  | .ok a, w, b => J a w b
  | .error _, w, b => I w b

/-- From `I`, `p` returns what `J` says is open besides, or raises and leaves `I`. -/
def Opens (R : Event S → B → B → Prop) (I : W → B → Prop) (J : α → W → B → Prop) (p : Prog S W E α) : Prop :=
  ∀ w b, I w b → Wp R p (Opened I J) w b

/-- From `J`, `p` ends in `I`, returned or raised. -/
def Closes (R : Event S → B → B → Prop) (J I : W → B → Prop) (p : Prog S W E α) : Prop :=
  ∀ w b, J w b → Wp R p (fun _ => I) w b

section Brackets

variable {R : Event S → B → B → Prop} {I : W → B → Prop} {J : α → W → B → Prop} {p : Prog S W E α}
  {f : α → Prog S W E β}

/-- What goes on after opening has to end in `I`. -/
theorem Opens.bind (hp : Opens R I J p) (hf : ∀ a, Closes R (J a) I (f a)) : Keeps R I (p >>= f) := by
  refine fun w b hI => wp_bind.mpr ((hp w b hI).mono fun r w' b' h => ?_)
  cases r with
  | error e => exact h
  | ok a => exact hf a w' b' h

/-- A step in front of closing. -/
theorem Keeps.before_close {J' : W → B → Prop} (hp : Keeps R J' p) (hf : ∀ a, Closes R J' I (f a))
    (hraise : ∀ w b, J' w b → I w b) : Closes R J' I (p >>= f) :=
  fun _ _ hI => hp.wp_bind hI (fun a w' b' hI' => hf a w' b' hI') fun _ w' b' hI' => hraise w' b' hI'

/-- A step behind closing. -/
theorem Closes.before_keep {J' : W → B → Prop} (hp : Closes R J' I p) (hf : ∀ a, Keeps R I (f a)) :
    Closes R J' I (p >>= f) :=
  fun w b hJ => wp_bind.mpr ((hp w b hJ).mono fun r w' b' hI => by
    cases r with
    | error e => exact hI
    | ok a => exact hf a w' b' hI)

/-- What keeps an invariant closes whatever that covers. -/
theorem Keeps.closes {J' : W → B → Prop} (hp : Keeps R I p) (h : ∀ w b, J' w b → I w b) : Closes R J' I p :=
  fun w b hJ => hp w b (h w b hJ)

theorem closes_ite {c : Prop} [Decidable c] {J' : W → B → Prop} {q : Prog S W E α} (hp : c → Closes R J' I p)
    (hq : ¬c → Closes R J' I q) : Closes R J' I (if c then p else q) :=
  fun w b hJ => wp_ite.mpr ⟨fun hc => hp hc w b hJ, fun hc => hq hc w b hJ⟩

/-- What `use` keeps while it is open, closed after it. -/
theorem closes_ensuring {J' : W → B → Prop} {use : Prog S W E β} {close : Prog S W E Unit} (hu : Keeps R J' use)
    (hc : Closes R J' I close) : Closes R J' I (ensuring use close) := by
  intro w b hJ
  exact wp_ensuring.mpr (hu.wp hJ fun r w' b' h' => (hc w' b' h').mono fun _ _ _ h'' => h'')

/-- Open, use and close. -/
theorem keeps_bracket {use : α → Prog S W E β} {close : α → Prog S W E Unit} (hp : Opens R I J p)
    (hu : ∀ a, Keeps R (J a) (use a)) (hc : ∀ a, Closes R (J a) I (close a)) :
    Keeps R I (p >>= fun a => ensuring (use a) (close a)) := hp.bind fun a => closes_ensuring (hu a) (hc a)

end Brackets

/-! ### Checked histories -/

/-- The surroundings that keep the history, each event as `G` allows after those before it. -/
def Checked (G : Trace S → Event S → Prop) (e : Event S) (h h' : Trace S) : Prop := G h e ∧ h' = h ++ [e]

/-- An execution in a history that `G` allows throughout. -/
theorem path_checked {G : Trace S → Event S → Prop} {es h : Trace S} (hG : Always G (h ++ es)) :
    Path (Checked G) es h (h ++ es) := by
  induction es generalizing h with
  | nil =>
    rw [List.append_nil]
    exact .nil
  | cons e es ih =>
    have hsplit : h ++ e :: es = h ++ [e] ++ es := by simp
    rw [hsplit] at hG ⊢
    exact .cons ⟨hG h e es (by simp), rfl⟩ (ih hG)

end Interaction
