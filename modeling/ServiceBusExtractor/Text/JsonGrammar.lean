import ServiceBusExtractor.Text.Numeral

/-!
# The grammar of JSON

JSON texts over code points, lone surrogates included, and a reader for them. Besides
the numbers of the grammar a reader may accept constants such as `NaN`, which stand
outside of it.

## The model

* `Raw` — a text as it is written: numbers are lexemes, members are kept in their
  order, with every name they repeat.
* `print` — the text of a `Raw`, without white space.
* `read accepted` — the reader; every step takes a code point, so the length of the
  text bounds the steps.

## What is proved

* `read_print`: what is printed is read back, unless it has a constant that is not accepted.
-/

namespace JsonGrammar

open Numeral

/-- A text: its code points. -/
abbrev Text := List ℕ

def code (c : Char) : ℕ := c.toNat

def codes (letters : List Char) : Text := letters.map code

def quote : ℕ := 34
def backslash : ℕ := 92

/-- A value without parts. A constant is kept as its word. -/
inductive Scalar where
  | null
  | bool (b : Bool)
  | number (l : Lexeme)
  | constant (word : Text)
  | str (text : Text)

/-- A text as it is written. -/
inductive Raw where
  | scalar (s : Scalar)
  | arr (items : List Raw)
  | obj (members : List (Text × Raw))

/-! ### Strings -/

/-- The code points with an escape of one letter. -/
def shortEscapes : List (ℕ × ℕ) :=
  [(quote, quote), (backslash, backslash), (8, code 'b'), (9, code 't'), (10, code 'n'), (12, code 'f'), (13, code 'r')]

def hexDigit (n : ℕ) : ℕ := if n < 10 then 48 + n else 87 + n

/-- `n` in four hexadecimal digits. -/
def hex4 (n : ℕ) : Text :=
  [hexDigit (n / 4096 % 16), hexDigit (n / 256 % 16), hexDigit (n / 16 % 16), hexDigit (n % 16)]

/-- A code point inside a string; everything but the control characters stays as it is. -/
def escape (c : ℕ) : Text :=
  match shortEscapes.lookup c with
  | some letter => [backslash, letter]
  | none => if c < 32 then backslash :: code 'u' :: hex4 c else [c]

def printString (text : Text) : Text := quote :: text.flatMap escape ++ [quote]

def hexValue (c : ℕ) : Option ℕ :=
  if 48 ≤ c ∧ c < 58 then some (c - 48)
  else if 97 ≤ c ∧ c < 103 then some (c - 87)
  else if 65 ≤ c ∧ c < 71 then some (c - 55)
  else none

/-- The code unit four hexadecimal digits name, and what follows them. -/
def readHex4 : Text → Option (ℕ × Text)
  | a :: b :: c :: d :: rest => do
    some (4096 * (← hexValue a) + 256 * (← hexValue b) + 16 * (← hexValue c) + (← hexValue d), rest)
  | _ => none

/-- A low surrogate behind `\u`. -/
def readLow : Text → Option (ℕ × Text)
  | c :: u :: rest =>
    if c = backslash ∧ u = code 'u' then (readHex4 rest).filter fun read => 56320 ≤ read.1 ∧ read.1 < 57344 else none
  | _ => none

/-- The code point behind `\u`: a high surrogate and a low one behind it are one. -/
def readUnit (text : Text) : Option (ℕ × Text) := do
  let (unit, rest) ← readHex4 text
  if 55296 ≤ unit ∧ unit < 56320 then
    match readLow rest with
    | some (low, rest) => some (65536 + 1024 * (unit - 55296) + (low - 56320), rest)
    | none => some (unit, rest)
  else some (unit, rest)

/-- The code point behind a backslash. -/
def readEscape : Text → Option (ℕ × Text)
  | [] => none
  | c :: rest =>
    if c = code 'u' then readUnit rest
    else if c = code '/' then some (c, rest)
    else (shortEscapes.find? fun escape => escape.2 = c).map fun escape => (escape.1, rest)

/-- One code point of a string. -/
def readChar : Text → Option (ℕ × Text)
  | [] => none
  | c :: rest =>
    if c = backslash then readEscape rest
    else if c < 32 ∨ c = quote then none
    else some (c, rest)

/-- A string behind its opening quote, up to the closing one. -/
def readChars : ℕ → Text → Option (Text × Text)
  | 0, _ => none
  | steps + 1, text =>
    if text.head? = some quote then some ([], text.tail)
    else do
      let (c, rest) ← readChar text
      let (chars, rest) ← readChars steps rest
      some (c :: chars, rest)

/-- A string with its quotes. -/
def readString : Text → Option (Text × Text)
  | [] => none
  | c :: rest => if c = quote then readChars rest.length rest else none

/-! ### Numbers -/

def digitCode (d : Digit) : ℕ := 48 + d

def printSign : Option Sign → Text
  | none => []
  | some .plus => [code '+']
  | some .minus => [code '-']

def printExponent (e : Exponent) : Text :=
  (if e.capital then code 'E' else code 'e') :: (printSign e.sign ++ e.digits.map digitCode)

def printFraction (fraction : List Digit) : Text := if fraction = [] then [] else code '.' :: fraction.map digitCode

def printNumber (l : Lexeme) : Text :=
  (if l.negative then [code '-'] else []) ++ (l.whole.map digitCode ++ (printFraction l.fraction ++
    (l.exponent.map printExponent).getD []))

def digitOf (c : ℕ) : Option Digit := if 48 ≤ c ∧ c < 58 then some (Fin.ofNat 10 (c - 48)) else none

/-- The digits a text starts with. -/
def readDigits : Text → List Digit × Text
  | [] => ([], [])
  | c :: rest =>
    match digitOf c with
    | some d => (d :: (readDigits rest).1, (readDigits rest).2)
    | none => ([], c :: rest)

/-- A zero, or digits that do not start with one. -/
def readWhole (text : Text) : Option (List Digit × Text) :=
  match readDigits text with
  | ([], _) => none
  | (d :: digits, rest) => if d = 0 then some ([0], text.tail) else some (d :: digits, rest)

/-- A point with digits behind it; else the text is left as it is. -/
def readFraction (text : Text) : List Digit × Text :=
  if text.head? = some (code '.') ∧ (readDigits text.tail).1 ≠ [] then readDigits text.tail else ([], text)

def readSign : Text → Option Sign × Text
  | [] => (none, [])
  | c :: rest =>
    if c = code '+' then (some .plus, rest) else if c = code '-' then (some .minus, rest) else (none, c :: rest)

/-- An exponent that has digits; else the text is left as it is. -/
def readExponent : Text → Option Exponent × Text
  | [] => (none, [])
  | c :: rest =>
    if (c = code 'e' ∨ c = code 'E') ∧ (readDigits (readSign rest).2).1 ≠ [] then
      (some ⟨c = code 'E', (readSign rest).1, (readDigits (readSign rest).2).1⟩, (readDigits (readSign rest).2).2)
    else (none, c :: rest)

def readMinus (text : Text) : Bool × Text := if text.head? = some (code '-') then (true, text.tail) else (false, text)

def readNumber (text : Text) : Option (Lexeme × Text) := do
  let (whole, rest) ← readWhole (readMinus text).2
  let fraction := readFraction rest
  let exponent := readExponent fraction.2
  some (⟨(readMinus text).1, whole, fraction.1, exponent.1⟩, exponent.2)

/-! ### Values -/

/-- What follows the word at the start of the text. -/
def dropWord : Text → Text → Option Text
  | [], text => some text
  | _ :: _, [] => none
  | d :: word, c :: text => if c = d then dropWord word text else none

/-- The first of the words that the text starts with, and what follows it. -/
def readWord {α : Type} (words : List (Text × α)) (text : Text) : Option (α × Text) :=
  words.findSome? fun word => (dropWord word.1 text).map fun rest => (word.2, rest)

def keywords : List (Text × Scalar) :=
  [(codes ['n', 'u', 'l', 'l'], .null), (codes ['t', 'r', 'u', 'e'], .bool true),
    (codes ['f', 'a', 'l', 's', 'e'], .bool false)]

def printScalar : Scalar → Text
  | .null => codes ['n', 'u', 'l', 'l']
  | .bool true => codes ['t', 'r', 'u', 'e']
  | .bool false => codes ['f', 'a', 'l', 's', 'e']
  | .number l => printNumber l
  | .constant word => word
  | .str text => printString text

/-- A keyword, an accepted constant or a number. -/
def readScalar (accepted : List Text) (text : Text) : Option (Scalar × Text) :=
  readWord (keywords ++ accepted.map fun word => (word, .constant word)) text <|>
    (readNumber text).map fun read => (.number read.1, read.2)

def isSpace (c : ℕ) : Bool := c = 32 ∨ c = 9 ∨ c = 10 ∨ c = 13

/-- The text behind its white space. -/
def skipSpace (text : Text) : Text := text.dropWhile isSpace

mutual

def readValue (accepted : List Text) : ℕ → Text → Option (Raw × Text)
  | 0, _ => none
  | _ + 1, [] => none
  | steps + 1, c :: rest =>
    if c = quote then (readString (c :: rest)).map fun read => (.scalar (.str read.1), read.2)
    else if c = code '[' then
      if (skipSpace rest).head? = some (code ']') then some (.arr [], (skipSpace rest).tail)
      else do
        let (item, rest) ← readValue accepted steps (skipSpace rest)
        let (items, rest) ← readItems accepted steps rest
        some (.arr (item :: items), rest)
    else if c = code '{' then
      if (skipSpace rest).head? = some (code '}') then some (.obj [], (skipSpace rest).tail)
      else do
        let (member, rest) ← readMember accepted steps (skipSpace rest)
        let (members, rest) ← readMembers accepted steps rest
        some (.obj (member :: members), rest)
    else (readScalar accepted (c :: rest)).map fun read => (.scalar read.1, read.2)

/-- The items of an array behind the first, up to the closing bracket. -/
def readItems (accepted : List Text) : ℕ → Text → Option (List Raw × Text)
  | 0, _ => none
  | steps + 1, text =>
    match skipSpace text with
    | [] => none
    | c :: rest =>
      if c = code ']' then some ([], rest)
      else if c = code ',' then do
        let (item, rest) ← readValue accepted steps (skipSpace rest)
        let (items, rest) ← readItems accepted steps rest
        some (item :: items, rest)
      else none

/-- One member of an object. -/
def readMember (accepted : List Text) : ℕ → Text → Option ((Text × Raw) × Text)
  | 0, _ => none
  | steps + 1, text => do
    let (name, rest) ← readString text
    match skipSpace rest with
    | [] => none
    | c :: rest =>
      if c = code ':' then do
        let (value, rest) ← readValue accepted steps (skipSpace rest)
        some ((name, value), rest)
      else none

/-- The members of an object behind the first, up to the closing brace. -/
def readMembers (accepted : List Text) : ℕ → Text → Option (List (Text × Raw) × Text)
  | 0, _ => none
  | steps + 1, text =>
    match skipSpace text with
    | [] => none
    | c :: rest =>
      if c = code '}' then some ([], rest)
      else if c = code ',' then do
        let (member, rest) ← readMember accepted steps (skipSpace rest)
        let (members, rest) ← readMembers accepted steps rest
        some (member :: members, rest)
      else none

end

/-- A text that is one value. -/
def read (accepted : List Text) (text : Text) : Option Raw := do
  let (r, rest) ← readValue accepted text.length (skipSpace text)
  if skipSpace rest = [] then some r else none

mutual

def print : Raw → Text
  | .scalar s => printScalar s
  | .arr [] => [code '[', code ']']
  | .arr (item :: items) => code '[' :: (print item ++ printItems items)
  | .obj [] => [code '{', code '}']
  | .obj (member :: members) => code '{' :: (printMember member ++ printMembers members)

def printItems : List Raw → Text
  | [] => [code ']']
  | item :: items => code ',' :: (print item ++ printItems items)

def printMember : Text × Raw → Text
  | (name, value) => printString name ++ (code ':' :: print value)

def printMembers : List (Text × Raw) → Text
  | [] => [code '}']
  | member :: members => code ',' :: (printMember member ++ printMembers members)

end

/-! ### Reading back a string -/

theorem readHex4_hex4 {n : ℕ} (h : n < 32) (rest : Text) : readHex4 (hex4 n ++ rest) = some (n, rest) := by
  have hdigits : ∀ n < 32, (do
      some (4096 * (← hexValue (hexDigit (n / 4096 % 16))) + 256 * (← hexValue (hexDigit (n / 256 % 16))) +
        16 * (← hexValue (hexDigit (n / 16 % 16))) + (← hexValue (hexDigit (n % 16))))) = some n := by decide
  have hvalue := hdigits n h
  simp only [Option.bind_eq_bind, Option.bind_eq_some_iff, Option.some.injEq] at hvalue
  obtain ⟨a, ha, b, hb, c, hc, d, hd, heq⟩ := hvalue
  simp only [hex4, List.cons_append, List.nil_append, readHex4, ha, hb, hc, hd, Option.bind_eq_bind, Option.bind_some,
    heq]

/-- The letters of the short escapes are read back. -/
theorem readEscape_short {c letter : ℕ} (h : shortEscapes.lookup c = some letter) (rest : Text) :
    readEscape (letter :: rest) = some (c, rest) := by
  obtain ⟨before, after, heq, -⟩ := List.lookup_eq_some_iff.mp h
  have hmem : (c, letter) ∈ shortEscapes := by
    rw [heq]
    simp
  simp only [shortEscapes, List.mem_cons, Prod.mk.injEq, List.not_mem_nil, or_false] at hmem
  rcases hmem with ⟨rfl, rfl⟩ | ⟨rfl, rfl⟩ | ⟨rfl, rfl⟩ | ⟨rfl, rfl⟩ | ⟨rfl, rfl⟩ | ⟨rfl, rfl⟩ | ⟨rfl, rfl⟩ <;> rfl

/-- A code point that has no short escape is neither a quote nor a backslash. -/
theorem ne_of_lookup_none {c : ℕ} (h : shortEscapes.lookup c = none) : c ≠ quote ∧ c ≠ backslash := by
  constructor <;> rintro rfl <;> cases h

theorem readChar_escape (c : ℕ) (rest : Text) : readChar (escape c ++ rest) = some (c, rest) := by
  unfold escape
  split
  · rename_i letter hshort
    show readChar (backslash :: letter :: rest) = _
    rw [readChar, if_pos rfl, readEscape_short hshort]
  · rename_i hnone
    obtain ⟨hquote, hback⟩ := ne_of_lookup_none hnone
    split
    · rename_i hcontrol
      show readChar (backslash :: code 'u' :: (hex4 c ++ rest)) = _
      rw [readChar, if_pos rfl, readEscape, if_pos rfl, readUnit, readHex4_hex4 hcontrol]
      exact if_neg (by omega)
    · rename_i hplain
      show readChar (c :: rest) = _
      rw [readChar, if_neg hback, if_neg (by tauto)]

theorem head_escape (c : ℕ) (rest : Text) : (escape c ++ rest).head? ≠ some quote := by
  unfold escape
  split
  · simp [quote, backslash]
  · rename_i hnone
    split
    · simp [quote, backslash]
    · simpa using (ne_of_lookup_none hnone).1

theorem readChars_flatMap {text : Text} {steps : ℕ} (hsteps : text.length < steps) (rest : Text) :
    readChars steps (text.flatMap escape ++ quote :: rest) = some (text, rest) := by
  induction text generalizing steps with
  | nil =>
    obtain ⟨steps, rfl⟩ : ∃ n, steps = n + 1 := ⟨steps - 1, by simp at hsteps; omega⟩
    rw [readChars]
    exact if_pos rfl
  | cons c text ih =>
    obtain ⟨steps, rfl⟩ : ∃ n, steps = n + 1 := ⟨steps - 1, by simp at hsteps; omega⟩
    have hrest : text.length < steps := by simpa using hsteps
    rw [List.flatMap_cons, List.append_assoc, readChars, if_neg (head_escape c _), readChar_escape]
    simp only [Option.bind_eq_bind, Option.bind_some, ih hrest]

theorem length_le_flatMap_escape (text : Text) : text.length ≤ (text.flatMap escape).length := by
  have hone : ∀ c, 1 ≤ (escape c).length := by
    intro c
    unfold escape
    split
    · simp
    · split <;> simp
  induction text with
  | nil => simp
  | cons c text ih =>
    have := hone c
    rw [List.flatMap_cons, List.length_append, List.length_cons]
    omega

/-- A string is read back. -/
theorem readString_printString (text rest : Text) : readString (printString text ++ rest) = some (text, rest) := by
  have hlength := length_le_flatMap_escape text
  show readString (quote :: (text.flatMap escape ++ [quote] ++ rest)) = _
  rw [readString, if_pos rfl, List.append_assoc, List.singleton_append, readChars_flatMap]
  rw [List.length_append, List.length_cons]
  omega

/-! ### Reading back a number -/

/-- No digit follows. -/
def NoDigit (text : Text) : Prop := ∀ c ∈ text.head?, digitOf c = none

/-- Nothing follows, or what may stand behind a value. -/
def Ends (text : Text) : Prop := ∀ c ∈ text.head?, c = code ',' ∨ c = code ']' ∨ c = code '}'

theorem noDigit_cons {c : ℕ} (h : digitOf c = none) (rest : Text) : NoDigit (c :: rest) := by
  intro c' hc'
  obtain rfl := Option.some.inj hc'
  exact h

theorem Ends.noDigit {text : Text} (h : Ends text) : NoDigit text := by
  intro c hc
  rcases h c hc with rfl | rfl | rfl <;> decide

theorem digitOf_digitCode : ∀ d : Digit, digitOf (digitCode d) = some d := by decide

theorem readDigits_of_noDigit {text : Text} (h : NoDigit text) : readDigits text = ([], text) := by
  cases text with
  | nil => rfl
  | cons c rest => rw [readDigits, h c rfl]

theorem readDigits_map (digits : List Digit) {rest : Text} (h : NoDigit rest) :
    readDigits (digits.map digitCode ++ rest) = (digits, rest) := by
  induction digits with
  | nil => exact readDigits_of_noDigit h
  | cons d digits ih => rw [List.map_cons, List.cons_append, readDigits, digitOf_digitCode, ih]

/-- A text that starts with a digit does not start with `c`. -/
theorem head_digits {digits : List Digit} (hne : digits ≠ []) {c : ℕ} (hc : digitOf c = none) (rest : Text) :
    (digits.map digitCode ++ rest).head? ≠ some c := by
  cases digits with
  | nil => exact absurd rfl hne
  | cons d digits =>
    intro hhead
    obtain rfl := Option.some.inj hhead
    rw [digitOf_digitCode] at hc
    cases hc

theorem readWhole_map {digits : List Digit} (hwhole : IsWhole digits) {rest : Text} (h : NoDigit rest) :
    readWhole (digits.map digitCode ++ rest) = some (digits, rest) := by
  rw [readWhole, readDigits_map digits h]
  rcases hwhole with rfl | ⟨d, digits, rfl, hne⟩
  · rfl
  · exact if_neg hne

theorem readFraction_print (fraction : List Digit) {rest : Text} (hno : NoDigit rest)
    (hpoint : rest.head? ≠ some (code '.')) : readFraction (printFraction fraction ++ rest) = (fraction, rest) := by
  by_cases hnil : fraction = []
  · subst hnil
    exact if_neg fun h => hpoint h.1
  · rw [printFraction, if_neg hnil, List.cons_append, readFraction, List.tail_cons, readDigits_map fraction hno]
    exact if_pos ⟨rfl, hnil⟩

theorem readSign_print (sign : Option Sign) {digits : List Digit} (hne : digits ≠ []) (rest : Text) :
    readSign (printSign sign ++ (digits.map digitCode ++ rest)) = (sign, digits.map digitCode ++ rest) := by
  cases sign with
  | some sign => cases sign <;> rfl
  | none =>
    have hplus := head_digits hne (c := code '+') (by decide) rest
    have hminus := head_digits hne (c := code '-') (by decide) rest
    show readSign (digits.map digitCode ++ rest) = _
    cases htext : digits.map digitCode ++ rest with
    | nil => rfl
    | cons c text =>
      rw [htext] at hplus hminus
      rw [readSign, if_neg fun h => hplus (congrArg some h), if_neg fun h => hminus (congrArg some h)]

theorem readExponent_print {e : Exponent} (hne : e.digits ≠ []) {rest : Text} (hno : NoDigit rest) :
    readExponent (printExponent e ++ rest) = (some e, rest) := by
  have htext : printExponent e ++ rest =
      (if e.capital then code 'E' else code 'e') :: (printSign e.sign ++ (e.digits.map digitCode ++ rest)) := by
    simp [printExponent]
  have hletter : (if e.capital then code 'E' else code 'e') = code 'e' ∨
      (if e.capital then code 'E' else code 'e') = code 'E' := by
    split
    · exact .inr rfl
    · exact .inl rfl
  have hcapital : decide ((if e.capital then code 'E' else code 'e') = code 'E') = e.capital := by
    cases e.capital <;> rfl
  rw [htext, readExponent, readSign_print e.sign hne, readDigits_map e.digits hno, if_pos ⟨hletter, hne⟩, hcapital]

theorem readExponent_of_ends {rest : Text} (h : Ends rest) : readExponent rest = (none, rest) := by
  cases rest with
  | nil => rfl
  | cons c rest =>
    refine if_neg fun hletter => ?_
    rcases h c rfl with rfl | rfl | rfl <;> exact absurd hletter.1 (by decide)

/-- A number is read back. -/
theorem readNumber_printNumber {l : Lexeme} (hl : l.WellFormed) {rest : Text} (hends : Ends rest) :
    readNumber (printNumber l ++ rest) = some (l, rest) := by
  obtain ⟨negative, whole, fraction, exponent⟩ := l
  obtain ⟨hwhole, hdigits⟩ := hl
  simp only at hwhole hdigits
  -- What the exponent leaves, and what stands before it.
  have hexponent : readExponent ((exponent.map printExponent).getD [] ++ rest) = (exponent, rest) := by
    cases exponent with
    | none => exact readExponent_of_ends hends
    | some e => exact readExponent_print (hdigits e rfl) hends.noDigit
  have hbefore : ∀ c ∈ ((exponent.map printExponent).getD [] ++ rest).head?,
      c = code 'e' ∨ c = code 'E' ∨ c = code ',' ∨ c = code ']' ∨ c = code '}' := by
    intro c hc
    cases exponent with
    | none =>
      have := hends c hc
      tauto
    | some e =>
      obtain rfl := Option.some.inj hc
      split
      · exact .inr (.inl rfl)
      · exact .inl rfl
  have hno : NoDigit ((exponent.map printExponent).getD [] ++ rest) := by
    intro c hc
    rcases hbefore c hc with rfl | rfl | rfl | rfl | rfl <;> decide
  have hpoint : ((exponent.map printExponent).getD [] ++ rest).head? ≠ some (code '.') := by
    intro h
    exact absurd (hbefore _ h) (by decide)
  have hafter : NoDigit (printFraction fraction ++ ((exponent.map printExponent).getD [] ++ rest)) := by
    by_cases hnil : fraction = []
    · rw [printFraction, if_pos hnil]
      exact hno
    · rw [printFraction, if_neg hnil]
      exact noDigit_cons (by decide) _
  have hminus : readMinus (printNumber ⟨negative, whole, fraction, exponent⟩ ++ rest) = (negative,
      whole.map digitCode ++ (printFraction fraction ++ ((exponent.map printExponent).getD [] ++ rest))) := by
    simp only [printNumber, List.append_assoc]
    cases negative with
    | true => rfl
    | false => exact if_neg (head_digits hwhole.ne_nil (by decide) _)
  rw [readNumber, hminus]
  dsimp only
  rw [readWhole_map hwhole hafter]
  simp only [Option.bind_eq_bind, Option.bind_some, readFraction_print fraction hno hpoint, hexponent]

/-! ### Reading back a value -/

/-- The words for what is no number: a letter that starts no keyword, behind a minus or not. -/
def IsConstant (word : Text) : Prop :=
  ∃ c tail, (c = code 'N' ∨ c = code 'I' ∨ c = code 's') ∧ (word = c :: tail ∨ word = code '-' :: c :: tail)

/-- The accepted words. -/
def constants (accepted : List Text) : List (Text × Scalar) := accepted.map fun word => (word, .constant word)

/-- A word is read where it is accepted, and no other is read in its place. -/
def Readable (accepted : List Text) (word : Text) : Prop :=
  ∀ rest, Ends rest → readWord (constants accepted) (word ++ rest) = if word ∈ accepted then some
    (.constant word, rest) else none

def Scalar.WellFormed (accepted : List Text) : Scalar → Prop
  | .number l => l.WellFormed
  | .constant word => IsConstant word ∧ Readable accepted word
  | _ => True

def Scalar.isAccepted (accepted : List Text) : Scalar → Bool
  | .constant word => word ∈ accepted
  | _ => true

mutual

/-- The scalars of a text, from left to right. -/
def Raw.scalars : Raw → List Scalar
  | .scalar s => [s]
  | .arr items => scalarsOfItems items
  | .obj members => scalarsOfMembers members

def scalarsOfItems : List Raw → List Scalar
  | [] => []
  | item :: items => item.scalars ++ scalarsOfItems items

def scalarsOfMembers : List (Text × Raw) → List Scalar
  | [] => []
  | (_, value) :: members => value.scalars ++ scalarsOfMembers members

end

variable {accepted : List Text}

theorem readWord_eq_none {α : Type} {words : List (Text × α)} {text : Text}
    (h : ∀ word ∈ words, dropWord word.1 text = none) : readWord words text = none := by
  rw [readWord, List.findSome?_eq_none_iff]
  intro word hword
  rw [h word hword]
  rfl

/-- A word that starts with another code point is not found. -/
theorem dropWord_of_ne {c d : ℕ} (h : c ≠ d) (text word : Text) : dropWord (d :: word) (c :: text) = none := if_neg h

/-- No constant starts with this code point, nor stands behind a minus before it. -/
theorem readWord_constants_of_head (haccepted : ∀ word ∈ accepted, IsConstant word) {c : ℕ} {text : Text}
    (hc : c ≠ code 'N' ∧ c ≠ code 'I' ∧ c ≠ code 's' ∧ c ≠ code '-') :
    readWord (constants accepted)
      (c :: text) = none ∧ readWord (constants accepted) (code '-' :: c :: text) = none := by
  constructor <;> refine readWord_eq_none fun entry hentry => ?_
  all_goals
    obtain ⟨word, hword, rfl⟩ := List.mem_map.mp hentry
    obtain ⟨letter, tail, hletter, rfl | rfl⟩ := haccepted word hword
  · refine dropWord_of_ne ?_ _ _
    rintro rfl
    tauto
  · exact dropWord_of_ne hc.2.2.2 _ _
  · refine dropWord_of_ne ?_ _ _
    rintro rfl
    exact absurd hletter (by decide)
  · show dropWord (code '-' :: letter :: tail) (code '-' :: c :: text) = none
    rw [dropWord, if_pos rfl]
    refine dropWord_of_ne ?_ _ _
    rintro rfl
    tauto

theorem readWord_keywords_of_head {c : ℕ} (hc : c ≠ code 'n' ∧ c ≠ code 't' ∧ c ≠ code 'f') (text : Text) :
    readWord keywords (c :: text) = none := by
  refine readWord_eq_none fun entry hentry => ?_
  simp only [keywords, List.mem_cons, List.not_mem_nil, or_false] at hentry
  rcases hentry with rfl | rfl | rfl
  · exact dropWord_of_ne hc.1 _ _
  · exact dropWord_of_ne hc.2.1 _ _
  · exact dropWord_of_ne hc.2.2 _ _

theorem readScalar_eq (text : Text) : readScalar accepted text =
    ((readWord keywords text).or (readWord (constants accepted) text) <|>
      (readNumber text).map fun read => (.number read.1, read.2)) := by
  rw [readScalar, readWord, List.findSome?_append]
  rfl

/-- The first code point of a number. -/
theorem printNumber_cons {l : Lexeme} (hl : l.WellFormed) : ∃ (d : Digit) (text : Text),
    printNumber l = digitCode d :: text ∨ printNumber l = code '-' :: digitCode d :: text := by
  obtain ⟨d, digits, hdigits⟩ := List.exists_cons_of_ne_nil hl.whole.ne_nil
  refine ⟨d, digits.map digitCode ++ (printFraction l.fraction ++ (l.exponent.map printExponent).getD []), ?_⟩
  rw [printNumber, hdigits]
  cases l.negative with
  | true => exact .inr rfl
  | false => exact .inl rfl

theorem ne_digitCode : ∀ d : Digit, (digitCode d ≠ code 'N' ∧ digitCode d ≠ code 'I' ∧ digitCode d ≠ code 's' ∧
    digitCode d ≠ code '-') ∧ (digitCode d ≠ code 'n' ∧ digitCode d ≠ code 't' ∧ digitCode d ≠ code 'f') ∧
    digitCode d ≠ quote ∧ digitCode d ≠ code '[' ∧ digitCode d ≠ code '{' ∧ digitCode d ≠ code ']' ∧
    isSpace (digitCode d) = false := by decide

theorem readScalar_number (haccepted : ∀ word ∈ accepted, IsConstant word) {l : Lexeme} (hl : l.WellFormed)
    {rest : Text} (hends : Ends rest) :
    readScalar accepted (printNumber l ++ rest) = some (.number l, rest) := by
  have hwords : readWord keywords (printNumber l ++ rest) = none ∧
      readWord (constants accepted) (printNumber l ++ rest) = none := by
    obtain ⟨d, text, htext | htext⟩ := printNumber_cons hl
    · obtain ⟨hconstant, hkeyword, -⟩ := ne_digitCode d
      rw [htext, List.cons_append]
      exact ⟨readWord_keywords_of_head hkeyword _, (readWord_constants_of_head haccepted hconstant).1⟩
    · obtain ⟨hconstant, -, -⟩ := ne_digitCode d
      rw [htext, List.cons_append, List.cons_append]
      exact ⟨readWord_keywords_of_head (by decide) _, (readWord_constants_of_head haccepted hconstant).2⟩
  rw [readScalar_eq, hwords.1, hwords.2, readNumber_printNumber hl hends]
  rfl

/-- What is no number is not read as one. -/
theorem readNumber_constant {word : Text} (h : IsConstant word) (rest : Text) : readNumber (word ++ rest) = none := by
  obtain ⟨c, tail, hc, rfl | rfl⟩ := h
  · rcases hc with rfl | rfl | rfl <;> rfl
  · rcases hc with rfl | rfl | rfl <;> rfl

theorem readScalar_constant {word : Text} (h : IsConstant word) (hreadable : Readable accepted word) {rest : Text}
    (hends : Ends rest) :
    readScalar accepted (word ++ rest) = if word ∈ accepted then some (.constant word, rest) else none := by
  have hkeywords : readWord keywords (word ++ rest) = none := by
    obtain ⟨c, tail, hc, rfl | rfl⟩ := h
    · refine readWord_keywords_of_head ?_ _
      rcases hc with rfl | rfl | rfl <;> decide
    · exact readWord_keywords_of_head (by decide) _
  rw [readScalar_eq, hkeywords, hreadable rest hends, readNumber_constant h]
  split <;> rfl

theorem readValue_other {c : ℕ} (hquote : c ≠ quote)
    (hbracket : c ≠ code '[') (hbrace : c ≠ code '{') (n : ℕ) (text : Text) :
    readValue accepted (n + 1)
      (c :: text) = (readScalar accepted (c :: text)).map fun read => (.scalar read.1, read.2) := by
  rw [readValue, if_neg hquote, if_neg hbracket, if_neg hbrace]

theorem readValue_scalar (haccepted : ∀ word ∈ accepted, IsConstant word) {s : Scalar} (hs : s.WellFormed accepted)
    {n : ℕ} {rest : Text} (hends : Ends rest) :
    readValue accepted (n + 1) (printScalar s ++ rest) =
      if s.isAccepted accepted then some (.scalar s, rest) else none := by
  cases s with
  | null => exact (readValue_other (by decide) (by decide) (by decide) _ _).trans rfl
  | bool b => cases b <;> exact (readValue_other (by decide) (by decide) (by decide) _ _).trans rfl
  | number l =>
    have hread := readScalar_number haccepted hs hends
    have hvalue : readValue accepted (n + 1) (printNumber l ++ rest) =
        (readScalar accepted (printNumber l ++ rest)).map fun read => (.scalar read.1, read.2) := by
      obtain ⟨d, text, htext | htext⟩ := printNumber_cons hs
      · obtain ⟨-, -, hquote, hbracket, hbrace, -, -⟩ := ne_digitCode d
        rw [htext]
        exact readValue_other hquote hbracket hbrace _ _
      · rw [htext]
        exact readValue_other (by decide) (by decide) (by decide) _ _
    rw [printScalar, hvalue, hread]
    rfl
  | constant word =>
    obtain ⟨hword, hreadable⟩ := hs
    have hread := readScalar_constant hword hreadable hends
    have hvalue : readValue accepted (n + 1) (word ++ rest) =
        (readScalar accepted (word ++ rest)).map fun read => (.scalar read.1, read.2) := by
      obtain ⟨c, tail, hc, rfl | rfl⟩ := hword
      · rcases hc with rfl | rfl | rfl <;> exact readValue_other (by decide) (by decide) (by decide) _ _
      · exact readValue_other (by decide) (by decide) (by decide) _ _
    rw [printScalar, hvalue, hread]
    by_cases hmem : word ∈ accepted <;> simp [Scalar.isAccepted, hmem]
  | str text =>
    show readValue accepted (n + 1) (quote :: (text.flatMap escape ++ [quote] ++ rest)) = _
    rw [readValue, if_pos rfl]
    show (readString (printString text ++ rest)).map _ = _
    rw [readString_printString]
    rfl

/-- The first code point of a value. -/
theorem print_cons {r : Raw} (hr : ∀ s ∈ r.scalars, s.WellFormed accepted) :
    ∃ c text, print r = c :: text ∧ isSpace c = false ∧ c ≠ code ']' := by
  cases r with
  | arr items => cases items <;> exact ⟨_, _, print.eq_def _, by decide, by decide⟩
  | obj members => cases members <;> exact ⟨_, _, print.eq_def _, by decide, by decide⟩
  | scalar s =>
    have hs := hr s (by simp [Raw.scalars])
    rw [print]
    cases s with
    | null => exact ⟨_, _, rfl, by decide, by decide⟩
    | bool b => cases b <;> exact ⟨_, _, rfl, by decide, by decide⟩
    | str text => exact ⟨_, _, rfl, by decide, by decide⟩
    | number l =>
      obtain ⟨d, text, htext | htext⟩ := printNumber_cons hs
      · obtain ⟨-, -, -, -, -, hbracket, hspace⟩ := ne_digitCode d
        exact ⟨_, _, htext, hspace, hbracket⟩
      · exact ⟨_, _, htext, by decide, by decide⟩
    | constant word =>
      obtain ⟨c, tail, hc, rfl | rfl⟩ := hs.1
      · rcases hc with rfl | rfl | rfl <;> exact ⟨_, _, rfl, by decide, by decide⟩
      · exact ⟨_, _, rfl, by decide, by decide⟩

theorem skipSpace_cons {c : ℕ} (hc : isSpace c = false) (text : Text) : skipSpace (c :: text) = c :: text := by
  rw [skipSpace, List.dropWhile_cons_of_neg (by simp [hc])]

theorem skipSpace_print {r : Raw} (hr : ∀ s ∈ r.scalars, s.WellFormed accepted) (rest : Text) :
    skipSpace (print r ++ rest) = print r ++ rest ∧ (print r ++ rest).head? ≠ some (code ']') := by
  obtain ⟨c, text, htext, hspace, hbracket⟩ := print_cons hr
  rw [htext, List.cons_append]
  exact ⟨skipSpace_cons hspace _, fun h => hbracket (Option.some.inj h)⟩

theorem skipSpace_printMember (member : Text × Raw) (rest : Text) :
    skipSpace (printMember member ++ rest) = printMember member ++ rest ∧
      (printMember member ++ rest).head? ≠ some (code '}') := by
  obtain ⟨name, value⟩ := member
  rw [printMember, printString]
  exact ⟨skipSpace_cons (by decide) _, fun h => absurd (Option.some.inj h) (by decide)⟩

theorem ends_printItems (items : List Raw) (rest : Text) : Ends (printItems items ++ rest) := by
  cases items <;> intro c hc <;> obtain rfl := Option.some.inj hc <;> decide

theorem ends_printMembers (members : List (Text × Raw)) (rest : Text) : Ends (printMembers members ++ rest) := by
  cases members <;> intro c hc <;> obtain rfl := Option.some.inj hc <;> decide

/-- The scalars of a text are accepted. -/
def allAccepted (accepted : List Text) (scalars : List Scalar) : Bool := scalars.all (Scalar.isAccepted accepted)

mutual

/-- What is printed is read back, unless it has a constant that is not accepted. -/
theorem readValue_print (haccepted : ∀ word ∈ accepted, IsConstant word) : ∀ (r : Raw) (n : ℕ) (rest : Text),
    (print r).length ≤ n → (∀ s ∈ r.scalars, s.WellFormed accepted) → Ends rest →
    readValue accepted n (print r ++ rest) = if allAccepted accepted r.scalars then some (r, rest) else none
  | .scalar s, 0, rest, hn, hr, _ => by
    obtain ⟨c, text, htext, -⟩ := print_cons hr
    rw [htext, List.length_cons] at hn
    omega
  | .scalar s, n + 1, rest, _, hr, hends => by
    have hs := readValue_scalar haccepted (n := n) (hr s (by simp [Raw.scalars])) hends
    simpa [print, Raw.scalars, allAccepted] using hs
  | .arr [], 0, rest, hn, _, _ => by simp [print] at hn
  | .arr [], n + 1, rest, _, _, _ => by
    rw [print, List.cons_append, readValue, if_neg (by decide), if_pos rfl]
    rfl
  | .arr (item :: items), 0, rest, hn, _, _ => by simp [print] at hn
  | .arr (item :: items), n + 1, rest, hn, hr, _ => by
    simp only [print, List.length_cons, List.length_append] at hn
    have hfirst : ∀ s ∈ item.scalars, s.WellFormed accepted :=
      fun s hs => hr s (by simp [Raw.scalars, scalarsOfItems, hs])
    have hmore : ∀ s ∈ scalarsOfItems items, s.WellFormed accepted :=
      fun s hs => hr s (by simp [Raw.scalars, scalarsOfItems, hs])
    obtain ⟨hspace, hbracket⟩ := skipSpace_print hfirst (printItems items ++ rest)
    have hitem := readValue_print haccepted item n (printItems items ++ rest) (by omega) hfirst (ends_printItems _ _)
    have hitems := readItems_print haccepted items n rest (by omega) hmore
    rw [print, List.cons_append, readValue, if_neg (by decide), if_pos rfl, List.append_assoc, hspace, if_neg hbracket,
      hitem]
    cases hok : allAccepted accepted item.scalars with
    | false => simp [allAccepted, Raw.scalars, scalarsOfItems] at hok ⊢; simp [hok]
    | true =>
      simp only [if_true, Option.bind_eq_bind, Option.bind_some, hitems]
      have hall : allAccepted accepted (Raw.arr (item :: items)).scalars = allAccepted accepted
          (scalarsOfItems items) := by
        simp only [allAccepted, Raw.scalars, scalarsOfItems, List.all_append] at hok ⊢
        rw [hok, Bool.true_and]
      rw [hall]
      cases allAccepted accepted (scalarsOfItems items) <;> rfl
  | .obj [], 0, rest, hn, _, _ => by simp [print] at hn
  | .obj [], n + 1, rest, _, _, _ => by
    rw [print, List.cons_append, readValue, if_neg (by decide), if_neg (by decide), if_pos rfl]
    rfl
  | .obj (member :: members), 0, rest, hn, _, _ => by simp [print] at hn
  | .obj (member :: members), n + 1, rest, hn, hr, _ => by
    simp only [print, List.length_cons, List.length_append] at hn
    have hfirst : ∀ s ∈ member.2.scalars, s.WellFormed accepted :=
      fun s hs => hr s (by simp [Raw.scalars, scalarsOfMembers, hs])
    have hmore : ∀ s ∈ scalarsOfMembers members, s.WellFormed accepted :=
      fun s hs => hr s (by simp [Raw.scalars, scalarsOfMembers, hs])
    have hmember := readMember_print haccepted member n (printMembers members ++ rest) (by omega) hfirst
      (ends_printMembers _ _)
    have hmembers := readMembers_print haccepted members n rest (by omega) hmore
    obtain ⟨hspace, hbrace⟩ := skipSpace_printMember member (printMembers members ++ rest)
    rw [print, List.cons_append, readValue, if_neg (by decide), if_neg (by decide), if_pos rfl, List.append_assoc,
      hspace,
      if_neg hbrace, hmember]
    cases hok : allAccepted accepted member.2.scalars with
    | false => simp [allAccepted, Raw.scalars, scalarsOfMembers] at hok ⊢; simp [hok]
    | true =>
      simp only [if_true, Option.bind_eq_bind, Option.bind_some, hmembers]
      have hall : allAccepted accepted (Raw.obj (member :: members)).scalars =
          allAccepted accepted (scalarsOfMembers members) := by
        simp only [allAccepted, Raw.scalars, scalarsOfMembers, List.all_append] at hok ⊢
        rw [hok, Bool.true_and]
      rw [hall]
      cases allAccepted accepted (scalarsOfMembers members) <;> rfl

theorem readItems_print (haccepted : ∀ word ∈ accepted, IsConstant word) : ∀ (items : List Raw) (n : ℕ) (rest : Text),
    (printItems items).length ≤ n → (∀ s ∈ scalarsOfItems items, s.WellFormed accepted) →
    readItems accepted n (printItems items ++ rest) =
      if allAccepted accepted (scalarsOfItems items) then some (items, rest) else none
  | [], 0, rest, hn, _ => by simp [printItems] at hn
  | [], n + 1, rest, _, _ => by
    rw [printItems, readItems, List.singleton_append, skipSpace_cons (by decide)]
    exact if_pos rfl
  | item :: items, 0, rest, hn, _ => by simp [printItems] at hn
  | item :: items, n + 1, rest, hn, hr => by
    simp only [printItems, List.length_cons, List.length_append] at hn
    have hfirst : ∀ s ∈ item.scalars, s.WellFormed accepted := fun s hs => hr s (by simp [scalarsOfItems, hs])
    have hmore : ∀ s ∈ scalarsOfItems items, s.WellFormed accepted := fun s hs => hr s (by simp [scalarsOfItems, hs])
    obtain ⟨hspace, -⟩ := skipSpace_print hfirst (printItems items ++ rest)
    have hitem := readValue_print haccepted item n (printItems items ++ rest) (by omega) hfirst (ends_printItems _ _)
    have hitems := readItems_print haccepted items n rest (by omega) hmore
    rw [printItems, List.cons_append, readItems, skipSpace_cons (by decide)]
    dsimp only
    rw [if_neg (by decide), if_pos rfl, List.append_assoc, hspace, hitem]
    cases hok : allAccepted accepted item.scalars with
    | false => simp [allAccepted, scalarsOfItems] at hok ⊢; simp [hok]
    | true =>
      simp only [if_true, Option.bind_eq_bind, Option.bind_some, hitems]
      have hall : allAccepted accepted (scalarsOfItems (item :: items)) = allAccepted accepted
          (scalarsOfItems items) := by
        simp only [allAccepted, scalarsOfItems, List.all_append] at hok ⊢
        rw [hok, Bool.true_and]
      rw [hall]
      cases allAccepted accepted (scalarsOfItems items) <;> rfl

theorem readMember_print (haccepted : ∀ word ∈ accepted, IsConstant word) : ∀ (member : Text × Raw) (n : ℕ)
    (rest : Text),
    (printMember member).length ≤ n → (∀ s ∈ member.2.scalars, s.WellFormed accepted) → Ends rest →
    readMember accepted n (printMember member ++ rest) =
      if allAccepted accepted member.2.scalars then some (member, rest) else none
  | (name, value), 0, rest, hn, _, _ => by simp [printMember, printString] at hn
  | (name, value), n + 1, rest, hn, hr, hends => by
    simp only [printMember, printString, List.length_cons, List.length_append] at hn
    obtain ⟨hspace, -⟩ := skipSpace_print hr rest
    have hvalue := readValue_print haccepted value n rest (by omega) hr hends
    rw [printMember, readMember, List.append_assoc, readString_printString]
    simp only [Option.bind_eq_bind, Option.bind_some, List.cons_append]
    rw [skipSpace_cons (by decide)]
    dsimp only
    rw [if_pos rfl, hspace, hvalue]
    cases allAccepted accepted value.scalars <;> rfl

theorem readMembers_print (haccepted : ∀ word ∈ accepted, IsConstant word) :
    ∀ (members : List (Text × Raw)) (n : ℕ) (rest : Text),
    (printMembers members).length ≤ n → (∀ s ∈ scalarsOfMembers members, s.WellFormed accepted) →
    readMembers accepted n (printMembers members ++ rest) =
      if allAccepted accepted (scalarsOfMembers members) then some (members, rest) else none
  | [], 0, rest, hn, _ => by simp [printMembers] at hn
  | [], n + 1, rest, _, _ => by
    rw [printMembers, readMembers, List.singleton_append, skipSpace_cons (by decide)]
    exact if_pos rfl
  | member :: members, 0, rest, hn, _ => by simp [printMembers] at hn
  | member :: members, n + 1, rest, hn, hr => by
    simp only [printMembers, List.length_cons, List.length_append] at hn
    have hfirst : ∀ s ∈ member.2.scalars, s.WellFormed accepted := fun s hs => hr s (by simp [scalarsOfMembers, hs])
    have hmore : ∀ s ∈ scalarsOfMembers members, s.WellFormed accepted :=
      fun s hs => hr s (by simp [scalarsOfMembers, hs])
    have hmember := readMember_print haccepted member n (printMembers members ++ rest) (by omega) hfirst
      (ends_printMembers _ _)
    have hmembers := readMembers_print haccepted members n rest (by omega) hmore
    obtain ⟨hspace, -⟩ := skipSpace_printMember member (printMembers members ++ rest)
    rw [printMembers, List.cons_append, readMembers, skipSpace_cons (by decide)]
    dsimp only
    rw [if_neg (by decide), if_pos rfl, List.append_assoc, hspace, hmember]
    cases hok : allAccepted accepted member.2.scalars with
    | false => simp [allAccepted, scalarsOfMembers] at hok ⊢; simp [hok]
    | true =>
      simp only [if_true, Option.bind_eq_bind, Option.bind_some, hmembers]
      have hall : allAccepted accepted (scalarsOfMembers (member :: members)) =
          allAccepted accepted (scalarsOfMembers members) := by
        simp only [allAccepted, scalarsOfMembers, List.all_append] at hok ⊢
        rw [hok, Bool.true_and]
      rw [hall]
      cases allAccepted accepted (scalarsOfMembers members) <;> rfl

end

/-- A printed text is read back, unless it has a constant that is not accepted. -/
theorem read_print (haccepted : ∀ word ∈ accepted, IsConstant word) {r : Raw}
    (hr : ∀ s ∈ r.scalars, s.WellFormed accepted) :
    read accepted (print r) = if allAccepted accepted r.scalars then some r else none := by
  have hends : Ends [] := by
    intro c hc
    cases hc
  have hvalue := readValue_print haccepted r (print r).length [] (le_refl _) hr hends
  have hspace := (skipSpace_print hr []).1
  rw [List.append_nil] at hvalue hspace
  rw [read, hspace, hvalue]
  cases allAccepted accepted r.scalars <;> rfl

end JsonGrammar
