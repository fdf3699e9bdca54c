import ServiceBusExtractor.Text.Dict
import ServiceBusExtractor.Text.JsonGrammar

/-!
# Compact JSON

`compact_json` and the parser that reads its texts: `to_jsonable` turns what the SDK
hands over into JSON values, `_encode_json` writes these.

## The model

* `Value` — a decoded AMQP value; `Jsonable` — a JSON value of Python. A datetime is
  given by what `format_utc` makes of it, a UUID by its text, a finite float by its `repr`.
* `toJsonable`, `encodeJson`, `compactJson` — writing.
* `loads` — `json.loads(text, parse_float=Decimal)`; which decimals Python can hold is a
  parameter.
* `Jsonable.integral` — the value with every decimal of exponent 0 as the integer it is.

## What is proved

* `loads_compactJson`: what was parsed is parsed again from its compact text, with the
  decimals of exponent 0 as integers; where one is too long for an integer the text is
  not parsed;
* `integral_of_leaves`: a value that has no such decimal is left as it is.

## Honest scope

Python's recursion limit is not modelled. The keys of a `Value` are those of a Python
dict, so `True` and `1` are not both among them.
-/

namespace ServiceBusExtractor

open JsonGrammar
open Numeral (Digit Lexeme Decimal digitsOf)

/-! ### Values -/

/-- The most digits Python converts to an integer and back. -/
def maxStrDigits : ℕ := 4300

/-- An integer that has a text. -/
structure PyInt where
  value : ℤ
  short : value.natAbs < 10 ^ maxStrDigits
  deriving DecidableEq

/-- The `repr` of a finite float: it has a point or an exponent. -/
structure FloatRepr where
  lexeme : Lexeme
  wellFormed : lexeme.WellFormed
  fractional : ¬ lexeme.IsInteger

inductive PyFloat where
  | nan
  | infinity (negative : Bool)
  | finite (repr : FloatRepr)

inductive PyDecimal where
  | finite (d : Decimal)
  | infinity (negative : Bool)
  | nan (negative signaling : Bool) (payload : List Digit)

/-- A value without parts that JSON has. -/
inductive Leaf where
  | none
  | bool (b : Bool)
  | int (n : PyInt)
  | float (f : PyFloat)
  | decimal (d : PyDecimal)
  | str (text : Text)

/-- A key of a JSON object in Python. -/
inductive JsonKey where
  | none
  | bool (b : Bool)
  | int (n : PyInt)
  | str (text : Text)
  deriving DecidableEq

inductive Jsonable where
  | leaf (l : Leaf)
  | list (items : List Jsonable)
  | dict (entries : List (JsonKey × Jsonable))

/-- A key of a decoded AMQP map. -/
inductive Key where
  | plain (key : JsonKey)
  | bytes (bytes : List UInt8)
  deriving DecidableEq

/-- A decoded AMQP value. -/
inductive Value where
  | leaf (l : Leaf)
  | bytes (bytes : List UInt8)
  | datetime (formatted : Text)
  | uuid (text : Text)
  | list (items : List Value)
  | dict (entries : List (Key × Value))

/-! ### Bytes as text -/

/-- What a UTF-8 sequence still needs: its next byte is bounded. -/
structure Utf8Sequence where
  needed : ℕ
  low : ℕ
  high : ℕ
  bits : ℕ

def replacement : ℕ := 65533

/-- The first byte of a sequence. -/
def startSequence (b : ℕ) : Text × Option Utf8Sequence :=
  if b < 128 then ([b], none)
  else if b < 194 then ([replacement], none)
  else if b < 224 then ([], some ⟨1, 128, 191, b - 192⟩)
  else if b < 240 then ([], some ⟨2, if b = 224 then 160 else 128, if b = 237 then 159 else 191, b - 224⟩)
  else if b < 245 then ([], some ⟨3, if b = 240 then 144 else 128, if b = 244 then 143 else 191, b - 240⟩)
  else ([replacement], none)

/-- One more byte; a byte that does not go on with the sequence ends it and starts the next one. -/
def continueSequence (b : ℕ) (p : Utf8Sequence) : Text × Option Utf8Sequence :=
  if p.low ≤ b ∧ b ≤ p.high then
    if p.needed = 1 then ([64 * p.bits + (b - 128)], none) else
      ([], some ⟨p.needed - 1, 128, 191, 64 * p.bits + (b - 128)⟩)
  else (replacement :: (startSequence b).1, (startSequence b).2)

def decodeFrom : Option Utf8Sequence → List UInt8 → Text
  | none, [] => []
  | some _, [] => [replacement]
  | none, b :: rest => (startSequence b.toNat).1 ++ decodeFrom (startSequence b.toNat).2 rest
  | some p, b :: rest => (continueSequence b.toNat p).1 ++ decodeFrom (continueSequence b.toNat p).2 rest

/-- `bytes.decode("utf-8", errors="replace")`. -/
def decodeUtf8 (bytes : List UInt8) : Text := decodeFrom none bytes

/-! ### Writing -/

def jsonableKey : Key → JsonKey
  | .plain key => key
  | .bytes bytes => .str (decodeUtf8 bytes)

mutual

def toJsonable : Value → Jsonable
  | .leaf l => .leaf l
  | .bytes bytes => .leaf (.str (decodeUtf8 bytes))
  | .datetime formatted => .leaf (.str formatted)
  | .uuid text => .leaf (.str text)
  | .list items => .list (toJsonables items)
  | .dict entries => .dict (Dict.update [] (jsonableEntries entries))

def toJsonables : List Value → List Jsonable
  | [] => []
  | item :: items => toJsonable item :: toJsonables items

def jsonableEntries : List (Key × Value) → List (JsonKey × Jsonable)
  | [] => []
  | (key, value) :: entries => (jsonableKey key, toJsonable value) :: jsonableEntries entries

end

def intLexeme (n : ℤ) : Lexeme where
  negative := n < 0
  whole := digitsOf n.natAbs

def minus (negative : Bool) : Text := if negative then [code '-'] else []

def infinityWord : Text := codes ['I', 'n', 'f', 'i', 'n', 'i', 't', 'y']

def nanWord : Text := codes ['N', 'a', 'N']

/-- `str` of a decimal. -/
def PyDecimal.text : PyDecimal → Text
  | finite d => printNumber d.lexeme
  | infinity negative => minus negative ++ infinityWord
  | nan negative signaling payload =>
    minus negative ++ ((if signaling then [code 's'] else []) ++ (nanWord ++ payload.map digitCode))

/-- `json.dumps` of a float. -/
def PyFloat.text : PyFloat → Text
  | nan => nanWord
  | infinity negative => minus negative ++ infinityWord
  | finite repr => printNumber repr.lexeme

def encodeLeaf : Leaf → Text
  | .none => codes ['n', 'u', 'l', 'l']
  | .bool true => codes ['t', 'r', 'u', 'e']
  | .bool false => codes ['f', 'a', 'l', 's', 'e']
  | .int n => printNumber (intLexeme n.value)
  | .float f => f.text
  | .decimal d => d.text
  | .str text => printString text

/-- `_json_key`. -/
def jsonKey : JsonKey → Text
  | .str text => text
  | .bool true => codes ['t', 'r', 'u', 'e']
  | .bool false => codes ['f', 'a', 'l', 's', 'e']
  | .none => codes ['n', 'u', 'l', 'l']
  | .int n => printNumber (intLexeme n.value)

mutual

/-- `_encode_json`. -/
def encodeJson : Jsonable → Text
  | .leaf l => encodeLeaf l
  | .list items => code '[' :: ([code ','].intercalate (encodeItems items) ++ [code ']'])
  | .dict entries => code '{' :: ([code ','].intercalate (encodeEntries entries) ++ [code '}'])

def encodeItems : List Jsonable → List Text
  | [] => []
  | item :: items => encodeJson item :: encodeItems items

def encodeEntries : List (JsonKey × Jsonable) → List Text
  | [] => []
  | (key, value) :: entries => (printString (jsonKey key) ++ code ':' :: encodeJson value) :: encodeEntries entries

end

/-- `compact_json`. -/
def compactJson (value : Value) : Text := encodeJson (toJsonable value)

/-! ### Reading -/

/-- The constants `json.loads` takes. -/
def pythonConstants : List Text := [nanWord, infinityWord, code '-' :: infinityWord]

section Loads

variable (representable : Decimal → Bool)

/-- `parse_int`, `parse_float` and `parse_constant`. -/
def loadScalar : Scalar → Option Leaf
  | .null => some .none
  | .bool b => some (.bool b)
  | .str text => some (.str text)
  | .constant word =>
    some (.float (if word = nanWord then .nan else if word = infinityWord then .infinity false else .infinity true))
  | .number l =>
    if l.IsInteger then
      if h : l.int.natAbs < 10 ^ maxStrDigits then some (.int ⟨l.int, h⟩) else none
    else if representable l.decimal then some (.decimal (.finite l.decimal)) else none

mutual

def loadRaw : Raw → Option Jsonable
  | .scalar s => (loadScalar representable s).map .leaf
  | .arr items => (loadItems items).map .list
  | .obj members => (loadMembers members).map fun entries => .dict (Dict.update [] entries)

def loadItems : List Raw → Option (List Jsonable)
  | [] => some []
  | item :: items => do
    let item ← loadRaw item
    let items ← loadItems items
    some (item :: items)

def loadMembers : List (Text × Raw) → Option (List (JsonKey × Jsonable))
  | [] => some []
  | (name, value) :: members => do
    let value ← loadRaw value
    let entries ← loadMembers members
    some ((.str name, value) :: entries)

end

/-- `json.loads(text, parse_float=Decimal)`: nothing where it raises. -/
def loads (text : Text) : Option Jsonable := do
  let r ← read pythonConstants text
  loadRaw representable r

end Loads

mutual

/-- A JSON value as the value it is. -/
def Jsonable.value : Jsonable → Value
  | .leaf l => .leaf l
  | .list items => .list (valueItems items)
  | .dict entries => .dict (valueEntries entries)

def valueItems : List Jsonable → List Value
  | [] => []
  | item :: items => item.value :: valueItems items

def valueEntries : List (JsonKey × Jsonable) → List (Key × Value)
  | [] => []
  | (key, value) :: entries => (.plain key, value.value) :: valueEntries entries

end

/-- A decimal of exponent 0 as an integer, if it is not too long. -/
def Leaf.integral : Leaf → Option Leaf
  | .decimal (.finite d) =>
    if d.exponent = 0 then
      if h : d.int.natAbs < 10 ^ maxStrDigits then some (.int ⟨d.int, h⟩) else Option.none
    else some (.decimal (.finite d))
  | l => some l

mutual

/-- The value with every decimal of exponent 0 as the integer it is; nothing where one is too long. -/
def Jsonable.integral : Jsonable → Option Jsonable
  | .leaf l => l.integral.map .leaf
  | .list items => (integralItems items).map .list
  | .dict entries => (integralEntries entries).map .dict

def integralItems : List Jsonable → Option (List Jsonable)
  | [] => some []
  | item :: items => do
    let item ← item.integral
    let items ← integralItems items
    some (item :: items)

def integralEntries : List (JsonKey × Jsonable) → Option (List (JsonKey × Jsonable))
  | [] => some []
  | (key, value) :: entries => do
    let value ← value.integral
    let entries ← integralEntries entries
    some ((key, value) :: entries)

end

/-! ### The text as it is written -/

def PyFloat.scalar : PyFloat → Scalar
  | nan => .constant nanWord
  | infinity negative => .constant (minus negative ++ infinityWord)
  | finite repr => .number repr.lexeme

def PyDecimal.scalar : PyDecimal → Scalar
  | finite d => .number d.lexeme
  | d => .constant d.text

def Leaf.scalar : Leaf → Scalar
  | .none => .null
  | .bool b => .bool b
  | .int n => .number (intLexeme n.value)
  | .float f => f.scalar
  | .decimal d => d.scalar
  | .str text => .str text

mutual

/-- What `_encode_json` writes. -/
def Jsonable.raw : Jsonable → Raw
  | .leaf l => .scalar l.scalar
  | .list items => .arr (rawItems items)
  | .dict entries => .obj (rawEntries entries)

def rawItems : List Jsonable → List Raw
  | [] => []
  | item :: items => item.raw :: rawItems items

def rawEntries : List (JsonKey × Jsonable) → List (Text × Raw)
  | [] => []
  | (key, value) :: entries => (jsonKey key, value.raw) :: rawEntries entries

end

theorem encodeLeaf_eq_print (l : Leaf) : encodeLeaf l = printScalar l.scalar := by
  cases l with
  | bool b => cases b <;> rfl
  | float f => cases f <;> rfl
  | decimal d => cases d <;> rfl
  | _ => rfl

/-- Texts with a separator between them, before a closing one. -/
theorem intercalate_append {α : Type} (separator : α) (text : List α) (texts : List (List α)) (close : List α) :
    [separator].intercalate (text :: texts) ++ close = text ++ (texts.flatMap (separator :: ·) ++ close) := by
  induction texts generalizing text with
  | nil => simp [List.intercalate]
  | cons next texts ih =>
    have hrest := ih next
    rw [List.intercalate] at hrest ⊢
    simp only [List.intersperse_cons_cons, List.flatten_cons, List.append_assoc, List.flatMap_cons, List.cons_append,
      List.nil_append] at hrest ⊢
    rw [hrest]

mutual

theorem encodeJson_eq_print : ∀ v : Jsonable, encodeJson v = print v.raw
  | .leaf l => encodeLeaf_eq_print l
  | .list [] => rfl
  | .list (item :: items) => by
    rw [encodeJson, encodeItems, intercalate_append, encodeJson_eq_print item, encodeItems_eq_print items]
    rfl
  | .dict [] => rfl
  | .dict ((key, value) :: entries) => by
    rw [encodeJson, encodeEntries, intercalate_append, encodeJson_eq_print value, encodeEntries_eq_print entries]
    rfl

theorem encodeItems_eq_print : ∀ items : List Jsonable,
    (encodeItems items).flatMap (code ',' :: ·) ++ [code ']'] = printItems (rawItems items)
  | [] => rfl
  | item :: items => by
    rw [encodeItems, List.flatMap_cons, List.append_assoc, encodeItems_eq_print items, encodeJson_eq_print item]
    rfl

theorem encodeEntries_eq_print : ∀ entries : List (JsonKey × Jsonable),
    (encodeEntries entries).flatMap (code ',' :: ·) ++ [code '}'] = printMembers (rawEntries entries)
  | [] => rfl
  | (key, value) :: entries => by
    rw [encodeEntries, List.flatMap_cons, List.append_assoc, encodeEntries_eq_print entries, encodeJson_eq_print value]
    rfl

end

/-! ### What the parser returns -/

theorem int_intLexeme (n : ℤ) : (intLexeme n).int = n := by
  rw [Lexeme.int, intLexeme, Numeral.natOf_digitsOf]
  by_cases hn : n < 0
  · rw [if_pos (decide_eq_true hn)]
    omega
  · rw [if_neg (by simpa using hn)]
    omega

theorem wellFormed_intLexeme (n : ℤ) : (intLexeme n).WellFormed :=
  ⟨Numeral.isWhole_digitsOf _, fun e he => by cases he⟩

theorem isConstant_pythonConstants : ∀ word ∈ pythonConstants, IsConstant word := by
  intro word hword
  simp only [pythonConstants, List.mem_cons, List.not_mem_nil, or_false] at hword
  rcases hword with rfl | rfl | rfl
  · exact ⟨code 'N', _, .inl rfl, .inl rfl⟩
  · exact ⟨code 'I', _, .inr (.inl rfl), .inl rfl⟩
  · exact ⟨code 'I', _, .inr (.inl rfl), .inr rfl⟩

theorem readable_pythonConstants : ∀ word ∈ pythonConstants, Readable pythonConstants word := by
  intro word hword rest _
  rw [if_pos hword]
  simp only [pythonConstants, List.mem_cons, List.not_mem_nil, or_false] at hword
  rcases hword with rfl | rfl | rfl <;> rfl

section Loaded

variable (representable : Decimal → Bool)

/-- A leaf that `json.loads` makes. -/
def Leaf.Loaded : Leaf → Prop
  | .float (.finite _) => False
  | .decimal (.finite d) => representable d = true
  | .decimal _ => False
  | _ => True

mutual

/-- A value that `json.loads` makes: keys are distinct texts. -/
def Jsonable.Loaded : Jsonable → Prop
  | .leaf l => l.Loaded representable
  | .list items => LoadedItems items
  | .dict entries => (entries.map Prod.fst).Nodup ∧ LoadedEntries entries

def LoadedItems : List Jsonable → Prop
  | [] => True
  | item :: items => item.Loaded ∧ LoadedItems items

def LoadedEntries : List (JsonKey × Jsonable) → Prop
  | [] => True
  | (key, value) :: entries => (∃ name, key = .str name) ∧ value.Loaded ∧ LoadedEntries entries

end

variable {representable}

theorem loadedEntries_iff {entries : List (JsonKey × Jsonable)} : LoadedEntries representable entries ↔
    ∀ entry ∈ entries, (∃ name, entry.1 = .str name) ∧ entry.2.Loaded representable := by
  induction entries with
  | nil => simp [LoadedEntries]
  | cons entry entries ih =>
    obtain ⟨key, value⟩ := entry
    rw [LoadedEntries, ih, List.forall_mem_cons, and_assoc]

theorem loaded_loadScalar {s : Scalar} {l : Leaf} (h : loadScalar representable s = some l) :
    l.Loaded representable := by
  cases s with
  | null =>
    cases h
    trivial
  | bool b =>
    cases h
    trivial
  | str text =>
    cases h
    trivial
  | constant word =>
    cases h
    by_cases hnan : word = nanWord
    · rw [if_pos hnan]
      trivial
    · by_cases hinfinity : word = infinityWord
      · rw [if_neg hnan, if_pos hinfinity]
        trivial
      · rw [if_neg hnan, if_neg hinfinity]
        trivial
  | number n =>
    rw [loadScalar] at h
    split at h
    · split at h
      · cases h
        trivial
      · cases h
    · split at h
      · rename_i hrepresentable
        cases h
        exact hrepresentable
      · cases h

mutual

theorem loaded_loadRaw : ∀ {r : Raw} {v : Jsonable}, loadRaw representable r = some v → v.Loaded representable
  | .scalar s, v, h => by
    obtain ⟨l, hl, rfl⟩ := Option.map_eq_some_iff.mp h
    exact loaded_loadScalar hl
  | .arr items, v, h => by
    obtain ⟨values, hvalues, rfl⟩ := Option.map_eq_some_iff.mp h
    exact loaded_loadItems hvalues
  | .obj members, v, h => by
    obtain ⟨entries, hentries, rfl⟩ := Option.map_eq_some_iff.mp h
    have hloaded := loadedEntries_iff.mp (loaded_loadMembers hentries)
    refine ⟨Dict.nodup_update List.nodup_nil, loadedEntries_iff.mpr fun entry hentry => ?_⟩
    rcases Dict.mem_update hentry with hmem | hmem
    · exact hloaded entry hmem
    · cases hmem

theorem loaded_loadItems : ∀ {items : List Raw} {values : List Jsonable}, loadItems representable items = some values →
    LoadedItems representable values
  | [], values, h => by
    cases h
    trivial
  | item :: items, values, h => by
    simp only [loadItems, Option.bind_eq_bind, Option.bind_eq_some_iff, Option.some.injEq] at h
    obtain ⟨value, hvalue, rest, hrest, rfl⟩ := h
    exact ⟨loaded_loadRaw hvalue, loaded_loadItems hrest⟩

theorem loaded_loadMembers : ∀ {members : List (Text × Raw)} {entries : List (JsonKey × Jsonable)},
    loadMembers representable members = some entries → LoadedEntries representable entries
  | [], entries, h => by
    cases h
    trivial
  | (name, value) :: members, entries, h => by
    simp only [loadMembers, Option.bind_eq_bind, Option.bind_eq_some_iff, Option.some.injEq] at h
    obtain ⟨value', hvalue, rest, hrest, rfl⟩ := h
    exact ⟨⟨name, rfl⟩, loaded_loadRaw hvalue, loaded_loadMembers hrest⟩

end

/-! ### Through the two passes -/

mutual

/-- `to_jsonable` leaves a parsed value as it is. -/
theorem toJsonable_value : ∀ {v : Jsonable}, v.Loaded representable → toJsonable v.value = v
  | .leaf l, _ => rfl
  | .list items, h => congrArg Jsonable.list (toJsonables_value h)
  | .dict entries, h => by
    rw [Jsonable.value, toJsonable, jsonableEntries_value h.2, Dict.update_of_nodup (by simpa using h.1),
      List.nil_append]

theorem toJsonables_value : ∀ {items : List Jsonable}, LoadedItems representable items →
    toJsonables (valueItems items) = items
  | [], _ => rfl
  | item :: items, h => by rw [valueItems, toJsonables, toJsonable_value h.1, toJsonables_value h.2]

theorem jsonableEntries_value : ∀ {entries : List (JsonKey × Jsonable)}, LoadedEntries representable entries →
    jsonableEntries (valueEntries entries) = entries
  | [], _ => rfl
  | (key, value) :: entries, h => by
    rw [valueEntries, jsonableEntries, toJsonable_value h.2.1, jsonableEntries_value h.2.2]
    rfl

end

theorem loadScalar_scalar {l : Leaf} (h : l.Loaded representable) : loadScalar representable l.scalar = l.integral := by
  cases l with
  | none => rfl
  | bool b => rfl
  | str text => rfl
  | int n =>
    show loadScalar representable (.number (intLexeme n.value)) = _
    rw [loadScalar, if_pos ⟨rfl, rfl⟩, int_intLexeme, dif_pos n.short]
    rfl
  | float f =>
    cases f with
    | nan => rfl
    | infinity negative => cases negative <;> rfl
    | finite repr => exact absurd h id
  | decimal d =>
    cases d with
    | infinity negative => exact absurd h id
    | nan negative signaling payload => exact absurd h id
    | finite d =>
      show loadScalar representable (.number d.lexeme) = _
      rw [loadScalar, Leaf.integral]
      by_cases hzero : d.exponent = 0
      · rw [if_pos (d.isInteger_lexeme.mpr hzero), if_pos hzero]
        simp only [d.int_lexeme hzero]
      · rw [if_neg fun hinteger => hzero (d.isInteger_lexeme.mp hinteger), if_neg hzero, d.decimal_lexeme]
        exact if_pos h

theorem keys_integralEntries {entries entries' : List (JsonKey × Jsonable)}
    (h : integralEntries entries = some entries') :
    entries'.map Prod.fst = entries.map Prod.fst := by
  induction entries generalizing entries' with
  | nil =>
    cases h
    rfl
  | cons entry entries ih =>
    obtain ⟨key, value⟩ := entry
    simp only [integralEntries, Option.bind_eq_bind, Option.bind_eq_some_iff, Option.some.injEq] at h
    obtain ⟨value', -, rest, hrest, rfl⟩ := h
    rw [List.map_cons, List.map_cons, ih hrest]

mutual

/-- What was written is parsed with its decimals of exponent 0 as integers. -/
theorem loadRaw_raw : ∀ {v : Jsonable}, v.Loaded representable → loadRaw representable v.raw = v.integral
  | .leaf l, h => by rw [Jsonable.raw, loadRaw, loadScalar_scalar h, Jsonable.integral]
  | .list items, h => by rw [Jsonable.raw, loadRaw, loadItems_raw h, Jsonable.integral]
  | .dict entries, h => by
    rw [Jsonable.raw, loadRaw, loadMembers_raw h.2, Jsonable.integral]
    cases hentries : integralEntries entries with
    | none => rfl
    | some entries' =>
      have hkeys : (([] ++ entries').map Prod.fst).Nodup := by
        rw [List.nil_append, keys_integralEntries hentries]
        exact h.1
      rw [Option.map_some, Option.map_some, Dict.update_of_nodup hkeys, List.nil_append]

theorem loadItems_raw : ∀ {items : List Jsonable}, LoadedItems representable items →
    loadItems representable (rawItems items) = integralItems items
  | [], _ => rfl
  | item :: items, h => by rw [rawItems, loadItems, loadRaw_raw h.1, loadItems_raw h.2, integralItems]

theorem loadMembers_raw : ∀ {entries : List (JsonKey × Jsonable)}, LoadedEntries representable entries →
    loadMembers representable (rawEntries entries) = integralEntries entries
  | [], _ => rfl
  | (key, value) :: entries, h => by
    obtain ⟨⟨name, rfl⟩, hvalue, hrest⟩ := h
    rw [rawEntries, loadMembers, loadRaw_raw hvalue, loadMembers_raw hrest, integralEntries]
    rfl

end

mutual

/-- The leaves of a value, from left to right. -/
def Jsonable.leaves : Jsonable → List Leaf
  | .leaf l => [l]
  | .list items => leavesOfItems items
  | .dict entries => leavesOfEntries entries

def leavesOfItems : List Jsonable → List Leaf
  | [] => []
  | item :: items => item.leaves ++ leavesOfItems items

def leavesOfEntries : List (JsonKey × Jsonable) → List Leaf
  | [] => []
  | (_, value) :: entries => value.leaves ++ leavesOfEntries entries

end

mutual

theorem scalars_raw : ∀ v : Jsonable, v.raw.scalars = v.leaves.map Leaf.scalar
  | .leaf _ => rfl
  | .list items => scalars_rawItems items
  | .dict entries => scalars_rawEntries entries

theorem scalars_rawItems : ∀ items :
    List Jsonable, scalarsOfItems (rawItems items) = (leavesOfItems items).map Leaf.scalar
  | [] => rfl
  | item :: items => by
    rw [rawItems, scalarsOfItems, scalars_raw item, scalars_rawItems items, leavesOfItems, List.map_append]

theorem scalars_rawEntries : ∀ entries : List (JsonKey × Jsonable),
    scalarsOfMembers (rawEntries entries) = (leavesOfEntries entries).map Leaf.scalar
  | [] => rfl
  | (key, value) :: entries => by
    rw [rawEntries, scalarsOfMembers, scalars_raw value, scalars_rawEntries entries, leavesOfEntries, List.map_append]

end

mutual

theorem loaded_leaves : ∀ {v : Jsonable}, v.Loaded representable → ∀ l ∈ v.leaves, l.Loaded representable
  | .leaf l, h => by
    intro l' hl'
    obtain rfl := List.mem_singleton.mp hl'
    exact h
  | .list items, h => loaded_leavesOfItems h
  | .dict entries, h => loaded_leavesOfEntries h.2

theorem loaded_leavesOfItems : ∀ {items : List Jsonable}, LoadedItems representable items →
    ∀ l ∈ leavesOfItems items, l.Loaded representable
  | [], _ => by simp [leavesOfItems]
  | item :: items, h => by
    intro l hl
    rcases List.mem_append.mp hl with hl | hl
    · exact loaded_leaves h.1 l hl
    · exact loaded_leavesOfItems h.2 l hl

theorem loaded_leavesOfEntries : ∀ {entries : List (JsonKey × Jsonable)}, LoadedEntries representable entries →
    ∀ l ∈ leavesOfEntries entries, l.Loaded representable
  | [], _ => by simp [leavesOfEntries]
  | (key, value) :: entries, h => by
    intro l hl
    rcases List.mem_append.mp hl with hl | hl
    · exact loaded_leaves h.2.1 l hl
    · exact loaded_leavesOfEntries h.2.2 l hl

end

/-- A parsed leaf is written within the grammar of the parser. -/
theorem scalar_of_loaded {l : Leaf} (h : l.Loaded representable) :
    l.scalar.WellFormed pythonConstants ∧ l.scalar.isAccepted pythonConstants = true := by
  have hconstant : ∀ word ∈ pythonConstants, (Scalar.constant word).WellFormed pythonConstants ∧
      (Scalar.constant word).isAccepted pythonConstants = true := fun word hword =>
    ⟨⟨isConstant_pythonConstants word hword, readable_pythonConstants word hword⟩, decide_eq_true hword⟩
  cases l with
  | none => exact ⟨trivial, rfl⟩
  | bool b => exact ⟨trivial, rfl⟩
  | str text => exact ⟨trivial, rfl⟩
  | int n => exact ⟨wellFormed_intLexeme n.value, rfl⟩
  | float f =>
    cases f with
    | nan => exact hconstant nanWord (by simp [pythonConstants])
    | infinity negative =>
      cases negative with
      | true => exact hconstant (code '-' :: infinityWord) (by simp [pythonConstants])
      | false => exact hconstant infinityWord (by simp [pythonConstants])
    | finite repr => exact absurd h id
  | decimal d =>
    cases d with
    | finite d => exact ⟨d.wellFormed_lexeme, rfl⟩
    | infinity negative => exact absurd h id
    | nan negative signaling payload => exact absurd h id

/-- What was written is read as it was written. -/
theorem read_encodeJson {v : Jsonable} (h : v.Loaded representable) :
    read pythonConstants (encodeJson v) = some v.raw := by
  have hscalars : ∀ s ∈ v.raw.scalars, s.WellFormed pythonConstants ∧ s.isAccepted pythonConstants = true := by
    rw [scalars_raw]
    intro s hs
    obtain ⟨l, hl, rfl⟩ := List.mem_map.mp hs
    exact scalar_of_loaded (loaded_leaves h l hl)
  have hall : allAccepted pythonConstants v.raw.scalars = true := List.all_eq_true.mpr fun s hs => (hscalars s hs).2
  rw [encodeJson_eq_print, read_print isConstant_pythonConstants fun s hs => (hscalars s hs).1, if_pos hall]

mutual

/-- Without decimals of exponent 0 a value is left as it is. -/
theorem integral_of_leaves : ∀ {v : Jsonable}, (∀ l ∈ v.leaves, l.integral = some l) → v.integral = some v
  | .leaf l, h => by rw [Jsonable.integral, h l (List.mem_singleton_self l), Option.map_some]
  | .list items, h => by rw [Jsonable.integral, integralItems_of_leaves h, Option.map_some]
  | .dict entries, h => by rw [Jsonable.integral, integralEntries_of_leaves h, Option.map_some]

theorem integralItems_of_leaves : ∀ {items : List Jsonable}, (∀ l ∈ leavesOfItems items, l.integral = some l) →
    integralItems items = some items
  | [], _ => rfl
  | item :: items, h => by
    rw [leavesOfItems, List.forall_mem_append] at h
    rw [integralItems, integral_of_leaves h.1, integralItems_of_leaves h.2]
    rfl

theorem integralEntries_of_leaves : ∀ {entries : List (JsonKey × Jsonable)},
    (∀ l ∈ leavesOfEntries entries, l.integral = some l) → integralEntries entries = some entries
  | [], _ => rfl
  | (key, value) :: entries, h => by
    rw [leavesOfEntries, List.forall_mem_append] at h
    rw [integralEntries, integral_of_leaves h.1, integralEntries_of_leaves h.2]
    rfl

end

end Loaded

/-- A parsed value is parsed again from its compact text: the same value, but that a decimal of exponent 0 comes back as
the integer it is, and that nothing comes back where such a decimal is too long for an integer. -/
theorem loads_compactJson (representable : Decimal → Bool) (text : Text) (v : Jsonable)
    (h : loads representable text = some v) : loads representable (compactJson v.value) = v.integral := by
  simp only [loads, Option.bind_eq_bind, Option.bind_eq_some_iff] at h
  obtain ⟨r, -, hr⟩ := h
  have hloaded := loaded_loadRaw hr
  rw [loads, compactJson, toJsonable_value hloaded, read_encodeJson hloaded]
  exact loadRaw_raw hloaded

/-- `{"a": [1.10, -0.00, 1E+5], "b": NaN}` is parsed again as it is. -/
def mixedText : Text :=
  codes ['{', '"', 'a', '"', ':', ' ',
    '[', '1', '.', '1', '0', ',', '-', '0', '.', '0', '0', ',', '1', 'E', '+', '5', ']', ',',
    '"', 'b', '"', ':', 'N', 'a', 'N', '}']

def mixedValue : Jsonable :=
  .dict [(.str [97], .list [.leaf (.decimal (.finite ⟨false, 110, -2⟩)), .leaf (.decimal (.finite ⟨true, 0, -2⟩)),
    .leaf (.decimal (.finite ⟨false, 1, 5⟩))]), (.str [98], .leaf (.float .nan))]

theorem loads_compactJson_mixed : loads (fun _ => true) mixedText = some mixedValue ∧
    loads (fun _ => true) (compactJson mixedValue.value) = some mixedValue :=
  ⟨by rfl, loads_compactJson (fun _ => true) mixedText mixedValue (by rfl)⟩

theorem loads_printNumber (representable : Decimal → Bool) {l : Lexeme} (hl : l.WellFormed) :
    loads representable (printNumber l) = (loadScalar representable (.number l)).map .leaf := by
  have hscalars : ∀ s ∈ (Raw.scalar (.number l)).scalars, s.WellFormed pythonConstants := by
    intro s hs
    obtain rfl := List.mem_singleton.mp hs
    exact hl
  have hread : read pythonConstants (printNumber l) = some (.scalar (.number l)) :=
    (read_print isConstant_pythonConstants hscalars).trans (if_pos rfl)
  rw [loads, hread]
  rfl

/-- `111...1e0`, with one digit more. -/
def onesLexeme (digits : ℕ) : Lexeme where
  negative := false
  whole := 1 :: List.replicate digits 1
  exponent := some ⟨false, none, [0]⟩

theorem wellFormed_onesLexeme (digits : ℕ) : (onesLexeme digits).WellFormed := by
  refine ⟨.inr ⟨1, _, rfl, by decide⟩, fun e he => ?_⟩
  obtain rfl := Option.some.inj he
  simp

theorem pow_le_onesLexeme (digits : ℕ) : 10 ^ digits ≤ (onesLexeme digits).decimal.int.natAbs := by
  have hint : (onesLexeme digits).decimal.int = (Numeral.natOf (1 :: List.replicate digits 1 ++ []) : ℕ) := rfl
  rw [hint, List.append_nil, Numeral.natOf_cons, List.length_replicate, Int.natAbs_natCast]
  simp

/-- A number that is parsed, and not parsed again from its compact text. -/
theorem long_decimal_lost : ∃ text v, loads (fun d => decide (d.exponent.natAbs < 10 ^ 18)) text = some v ∧
    loads (fun d => decide (d.exponent.natAbs < 10 ^ 18)) (compactJson v.value) = none := by
  have hparsed : loads (fun d => decide (d.exponent.natAbs < 10 ^ 18)) (printNumber (onesLexeme maxStrDigits)) =
      some (.leaf (.decimal (.finite (onesLexeme maxStrDigits).decimal))) := by
    rw [loads_printNumber _ (wellFormed_onesLexeme _), loadScalar,
      if_neg fun hinteger => Option.some_ne_none _ hinteger.2, if_pos (by rfl)]
    rfl
  refine ⟨_, _, hparsed, (loads_compactJson _ _ _ hparsed).trans ?_⟩
  have hzero : (onesLexeme maxStrDigits).decimal.exponent = 0 := rfl
  rw [Jsonable.integral, Leaf.integral, if_pos hzero, dif_neg (Nat.not_lt.mpr (pow_le_onesLexeme maxStrDigits))]
  rfl

end ServiceBusExtractor
