import ServiceBusExtractor.Text.Dict
import ServiceBusExtractor.Text.Json

/-!
# Checking the shape of a JSON object

How a model reads its fields from a JSON object: each field checks its own value,
and the errors of all fields are reported together.

## The model

* `Validated α` — a value, or every error that was found.
* `Validated.both` — two checks, both made.
* `Conversions` — what the library makes of a value of another type: a number
  written as a text, a word for a truth value.
* `readString`, `readBool`, `readInt`, `readEnum`, … — the check of one value.
* `field`, `required`, `sectionOf` — a field of an object, by its name.
* `Check α` — the check of a value with parts: `listOf`, `model`, `orNone`.

## What is proved

A pair of checks passes where each of them does: `both_ok`; a list passes where
each of its items does: `listOf_ok`.

## Honest scope

`Conversions` is a parameter; a value of the field's own type is taken as it is.
-/

namespace Pydantic

/-- Why a value is refused, or the text of the rule that refuses the whole model. -/
inductive Refusal where
  | missing
  | notAnObject
  | notAList
  | notAString
  | notABoolean
  | notAnInteger
  | notOneOf (values : List String)
  | below (bound : ℕ)
  | above (bound : ℕ)
  | rule (text : String)
  deriving DecidableEq, Repr

/-- One error: where it is, and what it says. -/
structure FieldError where
  loc : List String
  refusal : Refusal
  deriving DecidableEq, Repr

/-- A value, or the errors that were found. -/
abbrev Validated (α : Type) := Except (List FieldError) α

namespace Validated

variable {α β : Type}

/-- Two checks, both made. -/
def both : Validated α → Validated β → Validated (α × β)
  | .ok a, .ok b => .ok (a, b)
  | .ok _, .error e => .error e
  | .error e, .ok _ => .error e
  | .error e, .error e' => .error (e ++ e')

/-- The errors of a part are errors at the part's place. -/
def within (place : String) (result : Validated α) : Validated α :=
  result.mapError fun errors => errors.map fun error => { error with loc := place :: error.loc }

/-- A rule of the whole model. -/
def ofRule (result : Except String α) : Validated α := result.mapError fun text => [⟨[], .rule text⟩]

/-- The check passed. -/
def Passes (result : Validated α) : Prop := ∃ a, result = .ok a

variable {a : α} {b : β} {x : Validated α} {y : Validated β}

@[simp] theorem both_ok {pair : α × β} : x.both y = .ok pair ↔ x = .ok pair.1 ∧ y = .ok pair.2 := by
  obtain ⟨a, b⟩ := pair
  cases x <;> cases y <;> simp [both]

@[simp] theorem within_ok {place : String} : x.within place = .ok a ↔ x = .ok a := by
  cases x <;> simp [within, Except.mapError]

@[simp] theorem ofRule_ok {result : Except String α} : ofRule result = .ok a ↔ result = .ok a := by
  cases result <;> simp [ofRule, Except.mapError]

@[simp] theorem map_ok {f : α → β} : f <$> x = .ok b ↔ ∃ a, x = .ok a ∧ f a = b := by
  cases x <;> simp [Functor.map, Except.map]

@[simp] theorem bind_ok {f : α → Validated β} : x >>= f = .ok b ↔ ∃ a, x = .ok a ∧ f a = .ok b := by
  cases x <;> simp [bind, Except.bind]

/-- A passed check whose value is known but for a part that does not matter. -/
theorem ok_of_map {f : α → β} (h : x.toOption.map f = some b) : ∃ a, x = .ok a ∧ f a = b := by
  cases x with
  | ok a => exact ⟨a, rfl, Option.some.inj h⟩
  | error errors => cases h

theorem passes_iff_isSome : x.Passes ↔ x.toOption.isSome = true := by
  cases x with
  | ok a => exact iff_of_true ⟨a, rfl⟩ rfl
  | error errors => exact iff_of_false (by rintro ⟨a, ⟨⟩⟩) Bool.false_ne_true

end Validated

/-! ### Values -/

/-- A field's value: what it is, or why it is refused. -/
abbrev Read (α : Type) := Json String → Except Refusal α

/-- What the library makes of a value of another type. -/
structure Conversions where
  boolOf : Json String → Option Bool
  intOf : Json String → Option ℤ

/-- No value of another type is taken. -/
def Conversions.strict : Conversions where
  boolOf _ := none
  intOf _ := none

section Read

variable {α : Type}

def readString : Read String
  | .str text => .ok text
  | _ => .error .notAString

def readBool (convert : Conversions) : Read Bool
  | .bool b => .ok b
  | v => match convert.boolOf v with
    | some b => .ok b
    | none => .error .notABoolean

def readInt (convert : Conversions) : Read ℤ
  | .int n => .ok n
  | v => match convert.intOf v with
    | some n => .ok n
    | none => .error .notAnInteger

/-- An integer of at least `low` and, where there is an upper bound, at most that. -/
def readBounded (convert : Conversions) (low : ℕ) (high : Option ℕ) :
    Read {n : ℕ // low ≤ n ∧ ∀ bound ∈ high, n ≤ bound} := fun v =>
  match readInt convert v with
  | .error refusal => .error refusal
  | .ok n =>
    if n < low then .error (.below low)
    else if h : low ≤ n.toNat ∧ ∀ bound ∈ high, n.toNat ≤ bound then .ok ⟨n.toNat, h⟩
    else .error (.above (high.getD 0))

/-- One of the named values. -/
def readEnum (values : List (String × α)) : Read α
  | .str text => match values.lookup text with
    | some a => .ok a
    | none => .error (.notOneOf (values.map Prod.fst))
  | _ => .error (.notOneOf (values.map Prod.fst))

/-- The value, or `None`. -/
def readOptional (read : Read α) : Read (Option α)
  | .null => .ok none
  | v => some <$> read v

end Read

/-! ### Fields -/

/-- The fields of an object, by their names. -/
abbrev Fields := String → Option (Json String)

/-- The fields of an object. -/
def fieldsOf (entries : List (String × Json String)) : Fields := fun key => entries.lookup key

section Field

variable {α : Type}

/-- The value of a field that is there, its error at the field's name. -/
def checked (key : String) (read : Read α) (v : Json String) : Validated α :=
  (read v).mapError fun refusal => [⟨[key], refusal⟩]

/-- A field with a default. -/
def field (get : Fields) (key : String) (default : α) (read : Read α) : Validated α :=
  match get key with
  | some v => checked key read v
  | none => .ok default

/-- A field without a default. -/
def required (get : Fields) (key : String) (read : Read α) : Validated α :=
  match get key with
  | some v => checked key read v
  | none => .error [⟨[key], .missing⟩]

/-- A field that is a model of its own. -/
def submodel (key : String) (validate : Fields → Validated α) : Json String → Validated α
  | .obj fields => (validate (fieldsOf fields)).within key
  | _ => .error [⟨[key], .notAnObject⟩]

/-- A model in a field with a default. -/
def sectionOf (get : Fields) (key : String) (default : α) (validate : Fields → Validated α) : Validated α :=
  match get key with
  | some v => submodel key validate v
  | none => .ok default

/-- A model in a field without a default. -/
def requiredSection (get : Fields) (key : String) (validate : Fields → Validated α) : Validated α :=
  match get key with
  | some v => submodel key validate v
  | none => .error [⟨[key], .missing⟩]

variable {get get' : Fields} {key : String} {default : α} {read : Read α} {validate : Fields → Validated α}

/-- A field reads nothing but its own value. -/
theorem field_congr (h : get key = get' key) : field get key default read = field get' key default read := by
  rw [field, field, h]

theorem required_congr (h : get key = get' key) : required get key read = required get' key read := by
  rw [required, required, h]

theorem sectionOf_congr (h : get key = get' key) :
    sectionOf get key default validate = sectionOf get' key default validate := by
  rw [sectionOf, sectionOf, h]

/-- A field that is not there has its default. -/
theorem field_absent (h : get key = none) : field get key default read = .ok default := by
  rw [field, h]

theorem sectionOf_absent (h : get key = none) : sectionOf get key default validate = .ok default := by
  rw [sectionOf, h]

theorem requiredSection_ok {a : α} : requiredSection get key validate = .ok a ↔
    ∃ fields, get key = some (.obj fields) ∧ (validate (fieldsOf fields)) = .ok a := by
  unfold requiredSection
  split
  · rename_i v hv
    unfold submodel
    split
    · rename_i fields
      simp [hv]
    · rename_i hnot
      simp only [hv, reduceCtorEq, Option.some.injEq, false_iff]
      rintro ⟨fields, rfl, -⟩
      exact hnot fields rfl
  · rename_i hnone
    simp [hnone]

end Field

/-! ### Values with parts -/

/-- The check of a value that has parts; an error says where in the value it is. -/
abbrev Check (α : Type) := Json String → Validated α

section Check

variable {α : Type}

/-- The check of a value without parts. -/
def whole (read : Read α) : Check α := fun v => (read v).mapError fun refusal => [⟨[], refusal⟩]

/-- The items of a list from place `i` on. -/
def elements (check : Check α) (i : ℕ) : List (Json String) → Validated (List α)
  | [] => .ok []
  | v :: rest => (fun pair => pair.1 :: pair.2) <$> ((check v).within (toString i)).both (elements check (i + 1) rest)

def listOf (check : Check α) : Check (List α)
  | .arr items => elements check 0 items
  | _ => .error [⟨[], .notAList⟩]

/-- A model by its fields. -/
def model (validate : Fields → Validated α) : Check α
  | .obj fields => validate (fieldsOf fields)
  | _ => .error [⟨[], .notAnObject⟩]

/-- The value, or `None`. -/
def orNone (check : Check α) : Check (Option α)
  | .null => .ok none
  | v => some <$> check v

/-- An object as it is, its values unchecked. -/
def readDict : Read (List (String × Json String))
  | .obj fields => .ok fields
  | _ => .error .notAnObject

/-- A field with parts and a default. -/
def part (get : Fields) (key : String) (default : α) (check : Check α) : Validated α :=
  match get key with
  | some v => (check v).within key
  | none => .ok default

variable {get : Fields} {key : String} {default a : α} {check : Check α} {v : Json String} {items : List (Json String)}
  {values : List α}

@[simp] theorem whole_ok {read : Read α} : whole read v = .ok a ↔ read v = .ok a := by
  unfold whole
  cases read v <;> simp [Except.mapError]

theorem elements_ok {i : ℕ} :
    elements check i items = .ok values ↔ List.Forall₂ (fun v a => check v = .ok a) items values := by
  induction items generalizing i values with
  | nil => cases values <;> simp [elements]
  | cons v rest ih =>
    rw [elements, Validated.map_ok, List.forall₂_cons_left_iff]
    constructor
    · rintro ⟨⟨a, values'⟩, hboth, rfl⟩
      obtain ⟨ha, hrest⟩ := Validated.both_ok.mp hboth
      exact ⟨a, values', Validated.within_ok.mp ha, ih.mp hrest, rfl⟩
    · rintro ⟨a, values', ha, hrest, rfl⟩
      exact ⟨(a, values'), Validated.both_ok.mpr ⟨Validated.within_ok.mpr ha, ih.mpr hrest⟩, rfl⟩

/-- A list passes where each of its items does. -/
theorem listOf_ok : listOf check v = .ok values ↔
    ∃ items, v = .arr items ∧ List.Forall₂ (fun v a => check v = .ok a) items values := by
  cases v <;> simp [listOf, elements_ok]

theorem model_ok {validate : Fields → Validated α} :
    model validate v = .ok a ↔ ∃ fields, v = .obj fields ∧ validate (fieldsOf fields) = .ok a := by
  cases v <;> simp [model]

theorem part_ok : part get key default check = .ok a ↔
    (get key = none ∧ default = a) ∨ ∃ v, get key = some v ∧ check v = .ok a := by
  unfold part
  cases get key <;> simp

theorem field_ok {read : Read α} : field get key default read = .ok a ↔
    (get key = none ∧ default = a) ∨ ∃ v, get key = some v ∧ read v = .ok a := by
  unfold field checked
  cases get key with
  | none => simp
  | some v => cases hread : read v <;> simp [Except.mapError, hread]

end Check

end Pydantic
