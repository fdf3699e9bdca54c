import Mathlib

/-!
# JSON values and their compact text

JSON values over a type of texts, the compact text of a value, and the reading of
an object of strings back from its text.

## The model

* `Json T` — a value; a number that is not an integer is kept as its text.
* `Json.Leaf v path leaf` — the path leads from `v` to the leaf, an empty object
  included; `Json.Distinct v` — no object of `v` has a key twice.
* `escapeChar`, `dumpString`, `dumpObject`, `Json.dump` — writing.
* `readString`, `readEntries`, `loadObject` — reading an object of strings.

## What is proved

`loadObject_dumpObject`: an object of strings is read back as it was written.
-/

/-- A JSON value over a type of texts. -/
inductive Json (T : Type) where
  | null
  | bool (b : Bool)
  | int (n : ℤ)
  | number (text : T)
  | str (text : T)
  | arr (items : List (Json T))
  | obj (fields : List (T × Json T))

namespace Json

variable {T : Type}

/-- A value is a leaf unless it is an object that has a field. -/
def IsLeaf : Json T → Prop
  | obj fields => fields = []
  | _ => True

/-- The keys lead from the value to the leaf. -/
inductive Leaf : Json T → List T → Json T → Prop where
  | here {v : Json T} : v.IsLeaf → Leaf v [] v
  | field {fields : List (T × Json T)} {key : T} {v leaf : Json T} {path : List T} :
      (key, v) ∈ fields → Leaf v path leaf → Leaf (obj fields) (key :: path) leaf

/-- No object of the value has a key twice. -/
inductive Distinct : Json T → Prop where
  | leaf {v : Json T} : v.IsLeaf → Distinct v
  | obj {fields : List (T × Json T)} : (fields.map Prod.fst).Nodup → (∀ field ∈ fields, Distinct field.2) →
      Distinct (obj fields)

end Json

namespace JsonText

/-! ### Writing -/

def quote : Char := Char.ofNat 34
def backslash : Char := Char.ofNat 92
def openBrace : Char := Char.ofNat 123
def closeBrace : Char := Char.ofNat 125

/-- The characters with an escape of one letter. -/
def shortEscapes : List (Char × Char) :=
  [(quote, quote), (backslash, backslash), (Char.ofNat 8, 'b'), (Char.ofNat 9, 't'), (Char.ofNat 10, 'n'),
    (Char.ofNat 12, 'f'), (Char.ofNat 13, 'r')]

/-- `n` in four hexadecimal digits. -/
def hex4 (n : ℕ) : List Char :=
  [Nat.digitChar (n / 4096 % 16), Nat.digitChar (n / 256 % 16), Nat.digitChar (n / 16 % 16), Nat.digitChar (n % 16)]

/-- A character inside a string; everything but the control characters stays as it is. -/
def escapeChar (c : Char) : List Char :=
  match shortEscapes.lookup c with
  | some letter => [backslash, letter]
  | none => if c.toNat < 32 then backslash :: 'u' :: hex4 c.toNat else [c]

/-- The same, in printable ASCII: the code units of UTF-16 for all other characters. -/
def escapeAscii (c : Char) : List Char :=
  if c.toNat < 127 then escapeChar c
  else if c.toNat < 65536 then backslash :: 'u' :: hex4 c.toNat
  else backslash :: 'u' :: hex4 (55296 + (c.toNat - 65536) / 1024) ++
    backslash :: 'u' :: hex4 (56320 + (c.toNat - 65536) % 1024)

def dumpString (escape : Char → List Char) (s : String) : List Char := quote :: s.toList.flatMap escape ++ [quote]

/-- Texts with a separator between them. -/
def separated (separator : List Char) : List (List Char) → List Char
  | [] => []
  | [text] => text
  | text :: rest => text ++ separator ++ separated separator rest

def dumpEntry (entry : String × String) : List Char :=
  dumpString escapeChar entry.1 ++ ':' :: dumpString escapeChar entry.2

/-- An object of strings. -/
def dumpObject (entries : List (String × String)) : String :=
  String.ofList (openBrace :: separated [','] (entries.map dumpEntry) ++ [closeBrace])

/-- A list of strings. -/
def dumpStrings (escape : Char → List Char) (texts : List String) : String :=
  String.ofList ('[' :: separated [',', ' '] (texts.map (dumpString escape)) ++ [']'])

end JsonText

open JsonText

mutual

/-- The compact text of a value. -/
def Json.dump : Json String → List Char
  | .null => "null".toList
  | .bool true => "true".toList
  | .bool false => "false".toList
  | .int n => (toString n).toList
  | .number text => text.toList
  | .str text => dumpString escapeChar text
  | .arr items => '[' :: separated [','] (Json.dumpItems items) ++ [']']
  | .obj fields => openBrace :: separated [','] (Json.dumpFields fields) ++ [closeBrace]

def Json.dumpItems : List (Json String) → List (List Char)
  | [] => []
  | item :: rest => item.dump :: Json.dumpItems rest

def Json.dumpFields : List (String × Json String) → List (List Char)
  | [] => []
  | (key, value) :: rest => (dumpString escapeChar key ++ ':' :: value.dump) :: Json.dumpFields rest

end

namespace JsonText

/-! ### Reading -/

def hexValue (c : Char) : Option ℕ :=
  if '0' ≤ c ∧ c ≤ '9' then some (c.toNat - 48)
  else if 'a' ≤ c ∧ c ≤ 'f' then some (c.toNat - 87)
  else if 'A' ≤ c ∧ c ≤ 'F' then some (c.toNat - 55)
  else none

/-- The character four hexadecimal digits name. -/
def readHex4 (a b c d : Char) : Option Char := do
  let n := 4096 * (← hexValue a) + 256 * (← hexValue b) + 16 * (← hexValue c) + (← hexValue d)
  if n.isValidChar then some (Char.ofNat n) else none

/-- The character behind a backslash, and what follows it. -/
def readEscape : List Char → Option (Char × List Char)
  | [] => none
  | 'u' :: a :: b :: c :: d :: rest => (readHex4 a b c d).map fun char => (char, rest)
  | letter :: rest =>
    if letter = '/' then some ('/', rest)
    else (shortEscapes.find? fun escape => escape.2 = letter).map fun escape => (escape.1, rest)

/-- One character of a string, and what follows it. -/
def readChar : List Char → Option (Char × List Char)
  | [] => none
  | c :: rest =>
    if c = backslash then readEscape rest
    else if c.toNat < 32 ∨ c = quote then none
    else some (c, rest)

/-- A string behind its opening quote, up to the closing one. -/
def readString : ℕ → List Char → Option (List Char × List Char)
  | 0, _ => none
  | steps + 1, text =>
    if text.head? = some quote then some ([], text.tail)
    else do
      let (c, rest) ← readChar text
      let (chars, rest) ← readString steps rest
      some (c :: chars, rest)

/-- A string with its quotes. -/
def readQuoted (steps : ℕ) : List Char → Option (String × List Char)
  | [] => none
  | c :: rest => if c = quote then (readString steps rest).map fun read => (String.ofList read.1, read.2) else none

/-- One entry of an object of strings. -/
def readEntry (steps : ℕ) (text : List Char) : Option ((String × String) × List Char) := do
  let (key, rest) ← readQuoted steps text
  match rest with
  | ':' :: rest => do
    let (value, rest) ← readQuoted steps rest
    some ((key, value), rest)
  | _ => none

/-- The entries of an object behind its opening brace, one at least, up to the closing one. -/
def readEntries (steps : ℕ) : ℕ → List Char → Option (List (String × String) × List Char)
  | 0, _ => none
  | more + 1, text => do
    let (entry, rest) ← readEntry steps text
    match rest with
    | ',' :: rest => do
      let (entries, rest) ← readEntries steps more rest
      some (entry :: entries, rest)
    | c :: rest => if c = closeBrace then some ([entry], rest) else none
    | [] => none

/-- The entries of an object of strings. -/
def loadObject (text : String) : Option (List (String × String)) :=
  match text.toList with
  | [] => none
  | c :: rest =>
    if c ≠ openBrace then none
    else if rest = [closeBrace] then some []
    else match readEntries text.length text.length rest with
      | some (entries, []) => some entries
      | _ => none

/-! ### Reading back what was written -/

theorem readHex4_hex4 : ∀ n < 32, readHex4 (Nat.digitChar (n / 4096 % 16)) (Nat.digitChar (n / 256 % 16))
    (Nat.digitChar (n / 16 % 16)) (Nat.digitChar (n % 16)) = some (Char.ofNat n) := by decide

/-- The letters of the short escapes are read back. -/
theorem readEscape_short {c letter : Char} (h : shortEscapes.lookup c = some letter) (rest : List Char) :
    readEscape (letter :: rest) = some (c, rest) := by
  obtain ⟨before, after, heq, -⟩ := List.lookup_eq_some_iff.mp h
  have hmem : (c, letter) ∈ shortEscapes := by
    rw [heq]
    simp
  simp only [shortEscapes, List.mem_cons, Prod.mk.injEq, List.not_mem_nil, or_false] at hmem
  rcases hmem with ⟨rfl, rfl⟩ | ⟨rfl, rfl⟩ | ⟨rfl, rfl⟩ | ⟨rfl, rfl⟩ | ⟨rfl, rfl⟩ | ⟨rfl, rfl⟩ | ⟨rfl, rfl⟩ <;> rfl

/-- A character that has no short escape is neither a quote nor a backslash. -/
theorem ne_of_lookup_none {c : Char} (h : shortEscapes.lookup c = none) : c ≠ quote ∧ c ≠ backslash := by
  constructor <;> rintro rfl <;> cases h

theorem readChar_escapeChar (c : Char) (rest : List Char) : readChar (escapeChar c ++ rest) = some (c, rest) := by
  unfold escapeChar
  split
  · rename_i letter hshort
    show readChar (backslash :: letter :: rest) = _
    rw [readChar, if_pos rfl, readEscape_short hshort]
  · rename_i hnone
    obtain ⟨hquote, hback⟩ := ne_of_lookup_none hnone
    split
    · rename_i hcontrol
      show readChar (backslash :: 'u' :: (hex4 c.toNat ++ rest)) = _
      rw [readChar, if_pos rfl]
      show (readHex4 _ _ _ _).map (fun char => (char, rest)) = _
      rw [readHex4_hex4 c.toNat hcontrol, Char.ofNat_toNat]
      rfl
    · rename_i hplain
      show readChar (c :: rest) = _
      rw [readChar, if_neg hback, if_neg (by tauto)]

theorem head_escapeChar (c : Char) (rest : List Char) : (escapeChar c ++ rest).head? ≠ some quote := by
  unfold escapeChar
  split
  · simp [quote, backslash]
  · rename_i hnone
    split
    · simp [quote, backslash]
    · simpa using (ne_of_lookup_none hnone).1

/-- A string is read up to its closing quote. -/
theorem readString_flatMap {chars : List Char} {steps : ℕ} (hsteps : chars.length < steps) (rest : List Char) :
    readString steps (chars.flatMap escapeChar ++ quote :: rest) = some (chars, rest) := by
  induction chars generalizing steps with
  | nil =>
    obtain ⟨steps, rfl⟩ : ∃ n, steps = n + 1 := ⟨steps - 1, by simp at hsteps; omega⟩
    rw [readString]
    exact if_pos rfl
  | cons c chars ih =>
    obtain ⟨steps, rfl⟩ : ∃ n, steps = n + 1 := ⟨steps - 1, by simp at hsteps; omega⟩
    rw [List.flatMap_cons, List.append_assoc, readString, if_neg (head_escapeChar c _), readChar_escapeChar]
    have hrest : chars.length < steps := by simpa using hsteps
    simp only [Option.bind_eq_bind, Option.bind_some, ih hrest]

theorem readQuoted_dumpString {text : String} {steps : ℕ} (hsteps : text.length < steps) (rest : List Char) :
    readQuoted steps (dumpString escapeChar text ++ rest) = some (text, rest) := by
  have hlength : text.toList.length < steps := by rwa [String.length_toList]
  show readQuoted steps (quote :: (text.toList.flatMap escapeChar ++ [quote] ++ rest)) = _
  rw [readQuoted, if_pos rfl, List.append_assoc, List.singleton_append, readString_flatMap hlength]
  simp

theorem readEntry_dumpEntry {entry : String × String} {steps : ℕ} (hkey : entry.1.length < steps)
    (hvalue : entry.2.length < steps) (rest : List Char) :
    readEntry steps (dumpEntry entry ++ rest) = some (entry, rest) := by
  rw [readEntry, dumpEntry, List.append_assoc, readQuoted_dumpString hkey]
  simp only [Option.bind_eq_bind, Option.bind_some, List.cons_append, readQuoted_dumpString hvalue]

theorem readEntries_dumpEntries {entries : List (String × String)} {steps more : ℕ} (hmore : entries.length ≤ more)
    (hne : entries ≠ []) (hsteps : ∀ entry ∈ entries, entry.1.length < steps ∧ entry.2.length < steps) :
    readEntries steps more (separated [','] (entries.map dumpEntry) ++ [closeBrace]) = some (entries, []) := by
  induction entries generalizing more with
  | nil => exact absurd rfl hne
  | cons entry rest ih =>
    obtain ⟨more, rfl⟩ : ∃ n, more = n + 1 := ⟨more - 1, by simp at hmore; omega⟩
    obtain ⟨hkey, hvalue⟩ := hsteps entry (by simp)
    cases rest with
    | nil =>
      show readEntries steps (more + 1) (dumpEntry entry ++ [closeBrace]) = _
      rw [readEntries, readEntry_dumpEntry hkey hvalue]
      rfl
    | cons entry' rest =>
      show readEntries steps (more + 1)
        (dumpEntry entry ++ [','] ++ separated [','] ((entry' :: rest).map dumpEntry) ++ [closeBrace]) = _
      rw [readEntries, List.append_assoc, List.append_assoc, readEntry_dumpEntry hkey hvalue]
      have hrest := @ih more (by simpa using hmore) (by simp) fun e he => hsteps e (by simp [he])
      simp only [Option.bind_eq_bind, Option.bind_some, List.singleton_append, hrest]

/-- A string is no longer than its text. -/
theorem length_le_dumpString (text : String) : text.length < (dumpString escapeChar text).length := by
  have hone : ∀ c, 1 ≤ (escapeChar c).length := by
    intro c
    unfold escapeChar
    split
    · simp
    · split <;> simp
  have hall : ∀ chars : List Char, chars.length ≤ (chars.flatMap escapeChar).length := by
    intro chars
    induction chars with
    | nil => simp
    | cons c chars ih =>
      rw [List.flatMap_cons, List.length_append, List.length_cons]
      have := hone c
      omega
  have := hall text.toList
  rw [dumpString, List.cons_append, List.length_cons, List.length_append, ← String.length_toList]
  omega

theorem length_separated {texts : List (List Char)} {text : List Char} (h : text ∈ texts) (separator : List Char) :
    text.length ≤ (separated separator texts).length := by
  induction texts with
  | nil => cases h
  | cons first rest ih =>
    cases rest with
    | nil =>
      obtain rfl := List.mem_singleton.mp h
      exact Nat.le_refl _
    | cons second rest =>
      show text.length ≤ (first ++ separator ++ separated separator (second :: rest)).length
      rw [List.length_append, List.length_append]
      rcases List.mem_cons.mp h with rfl | h
      · omega
      · have := ih h
        omega

theorem length_le_separated {texts : List (List Char)} (h : ∀ text ∈ texts, 1 ≤ text.length) (separator : List Char) :
    texts.length ≤ (separated separator texts).length := by
  induction texts with
  | nil => simp
  | cons first rest ih =>
    have hfirst := h first (by simp)
    cases rest with
    | nil => exact hfirst
    | cons second rest =>
      have := ih fun text ht => h text (by simp [ht])
      show (first :: second :: rest).length ≤ (first ++ separator ++ separated separator (second :: rest)).length
      rw [List.length_append, List.length_append, List.length_cons]
      omega

/-- An object of strings is read back as it was written. -/
theorem loadObject_dumpObject (entries : List (String × String)) : loadObject (dumpObject entries) = some entries := by
  have hdump : ∀ entry : String × String, entry.1.length < (dumpEntry entry).length ∧
      entry.2.length < (dumpEntry entry).length := by
    intro entry
    have hkey := length_le_dumpString entry.1
    have hvalue := length_le_dumpString entry.2
    rw [dumpEntry, List.length_append, List.length_cons]
    omega
  have hlist : (dumpObject entries).toList = openBrace ::
      (separated [','] (entries.map dumpEntry) ++ [closeBrace]) := by
    rw [dumpObject, String.toList_ofList, List.cons_append]
  rw [loadObject, hlist, ← String.length_toList, hlist]
  dsimp only
  rw [if_neg (by simp)]
  cases entries with
  | nil => rfl
  | cons entry rest =>
    have hlong : ∀ e ∈ entry :: rest, (dumpEntry e).length ≤ (separated [','] ((entry :: rest).map dumpEntry)).length :=
      fun e he => length_separated (List.mem_map_of_mem he) _
    have hnot : separated [','] ((entry :: rest).map dumpEntry) ++ [closeBrace] ≠ [closeBrace] := by
      intro heq
      have hlen := congrArg List.length heq
      have := hlong entry (by simp)
      have := (hdump entry).1
      rw [List.length_append, List.length_singleton] at hlen
      omega
    rw [if_neg hnot, readEntries_dumpEntries]
    · have hnonempty : ∀ text ∈ (entry :: rest).map dumpEntry, 1 ≤ text.length := by
        intro text htext
        obtain ⟨e, -, rfl⟩ := List.mem_map.mp htext
        have := (hdump e).1
        omega
      have := length_le_separated hnonempty [',']
      rw [List.length_map] at this
      rw [@List.length_cons _ openBrace, List.length_append]
      omega
    · simp
    · intro e he
      have := hlong e he
      have := hdump e
      rw [@List.length_cons _ openBrace, List.length_append]
      omega

end JsonText
