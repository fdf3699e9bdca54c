import ServiceBusExtractor.Parameters
import ServiceBusExtractor.Sdk
import ServiceBusExtractor.Text.Masking

/-!
# Redaction

What a user may read of an error never shows a secret: neither one the run knows nor
one that an Azure text carries behind `SharedAccessKey=` or `sig=`.

## The model

* `redactSecrets` — the two substitutions, then one replacement for each secret.
* `LibraryText` — what `concise_details` takes from Python's libraries;
  `conciseDetails` — the meaningful part of an Azure error.
* `Redacted` — a text that shows nothing.

## What is proved

`redaction_hides_secrets`: what `redact_secrets` returns is redacted, whatever the text
and the order of the secrets, and so are the details of every error.
-/

namespace ServiceBusExtractor

open Masking

def mask : List Char := ['*', '*', '*']

/-! ### Patterns -/

/-- A character as a pattern that ignores case: the letters of other scripts whose simple case folds to an ASCII one are
the long s, the Kelvin sign and the two i of Turkish. -/
def ignoreCase (pattern c : Char) : Bool :=
  c.toLower == pattern.toLower ||
    [('s', 383), ('k', 8490), ('i', 304), ('i', 305)].contains (pattern.toLower, c.toNat)

/-- A literal text as a pattern that ignores case. -/
def word (text : String) : List (Char → Bool) := text.toList.map ignoreCase

/-- `\s`. -/
def isSpace (c : Char) : Bool := AuthConfiguration.isSpace c

/-- What ends a value behind `SharedAccessKey=`. -/
def endsKey (c : Char) : Bool := c == ';' || isSpace c

/-- What ends a value behind `sig=`. -/
def endsSig (c : Char) : Bool := c == '&' || c == ';' || isSpace c

def sasKeyPattern : List (Char → Bool) := word "SharedAccessKey="
def sigPattern : List (Char → Bool) := word "sig="

/-- `_SAS_KEY_RE.sub`. -/
def maskKeys (text : List Char) : List Char := rewrite (keyStep sasKeyPattern (fun c => !endsKey c) mask) none 0 text

/-- `_SIG_RE.sub`. -/
def maskSigs (text : List Char) : List Char := rewrite (keyStep sigPattern (fun c => !endsSig c) mask) none 0 text

/-- One secret replaced, unless it is empty. -/
def maskSecret (text secret : List Char) : List Char :=
  if secret = [] then text else rewrite (literalStep secret mask) none 0 text

/-- `redact_secrets`. -/
def redactSecrets (secrets : List (List Char)) (text : List Char) : List Char :=
  secrets.foldl maskSecret (maskSigs (maskKeys text))

/-! ### The details of an error -/

/-- What `concise_details` takes from Python's libraries. -/
structure LibraryText where
  /-- `html.unescape`. -/
  unescape : List Char → List Char
  /-- The letters and digits of `\w`. -/
  isAlnum : Char → Bool
  /-- `\d`. -/
  isDecimal : Char → Bool

/-- The first place behind which the pattern ends. -/
def after (pattern : List (Char → Bool)) : List Char → Option (List Char)
  | [] => if pattern = [] then some [] else none
  | c :: text => if spellsFront pattern (c :: text) then some ((c :: text).drop pattern.length) else after pattern text

/-- The detail of a response body, up to its closing tag or the end, before a last line break. -/
def upToDetailEnd : List Char → List Char
  | [] => []
  | c :: text =>
    if spellsFront (word "</Detail>") (c :: text) || c :: text = ['\n'] then [] else c :: upToDetailEnd text

/-- `_STATUS_DETAIL_RE` at a place: the reason and the detail. -/
def statusDetailAt (text : List Char) : Option (List Char × List Char) :=
  let opening := word "Operation returned an invalid status '"
  if spellsFront opening text then
    let rest := text.drop opening.length
    match rest.dropWhile (· ≠ '\'') with
    | [] => none
    | _ :: behind => (after (word "<Detail>") behind).map
      fun detail => (rest.takeWhile (· ≠ '\''), upToDetailEnd detail)
  else none

/-- What separates a fragment from the text before it. -/
def isSeparator (c : Char) : Bool := isSpace c || c == ',' || c == '.' || c == ';'

/-- The length of a marker at the front of the text, with the colon or equals sign behind it: a word, or two with or
without a blank between them. -/
def markerLength (text : List Char) (marker : String × String) : Option ℕ :=
  let first := word marker.1
  let second := word marker.2
  if spellsFront first text then
    let rest := text.drop first.length
    let blank := if rest.head?.any isSpace then 1 else 0
    if spellsFront second (rest.drop blank) then
      let behind := (rest.drop blank).drop second.length
      let gap := (behind.takeWhile isSpace).length
      if (behind.drop gap).head?.any (fun c => c == ':' || c == '=') then
        some (first.length + blank + second.length + gap + 1)
      else none
    else none
  else none

/-- A fragment to drop: separators, a word boundary, and what `fragment` takes behind it. -/
def fragmentStep (library : LibraryText) (fragment : List Char → Option ℕ) (before : Option Char) (text : List Char) :
    Option (ℕ × List Char) :=
  let separators := text.takeWhile isSeparator
  let last := (separators.getLast?).or before
  if last.any fun c => library.isAlnum c || c == '_' then none
  else (fragment (text.drop separators.length)).map fun taken => (separators.length + taken, [])

/-- The tracking data from its first marker to the end of the line. -/
def trackingTail (text : List Char) : Option ℕ :=
  ([("Tracking", "Id"), ("SystemTracker", ""), ("Trace", "ID"), ("Correlation", "ID"), ("Timestamp", "")].findSome?
    (markerLength text)).map fun taken => taken + ((text.drop taken).takeWhile (· ≠ '\n')).length

/-- A sub-code and its number. -/
def subCode (library : LibraryText) (text : List Char) : Option ℕ :=
  (markerLength text ("SubCode", "")).bind fun taken =>
    let gap := ((text.drop taken).takeWhile isSpace).length
    let digits := ((text.drop (taken + gap)).takeWhile library.isDecimal).length
    if digits = 0 then none else some (taken + gap + digits)

/-- `" ".join(text.split())`. -/
def collapseSpace (text : List Char) : List Char :=
  [' '].intercalate ((text.splitOnP isSpace).filter fun part => !part.isEmpty)

/-- `concise_details`. -/
def conciseDetails (library : LibraryText) (text : List Char) : List Char :=
  let meaning := match text.tails.findSome? statusDetailAt with
    | some (reason, detail) => reason ++ [':', ' '] ++ library.unescape detail
    | none => text
  let untracked := rewrite (fragmentStep library trackingTail) none 0 meaning
  let plain := rewrite (fragmentStep library (subCode library)) none 0 untracked
  let concise := ((collapseSpace plain).dropWhile fun c => [' ', ',', '.', ';', ':'].contains c).reverse.dropWhile
    (fun c => [' ', ',', ';', ':'].contains c) |>.reverse
  if concise = [] then collapseSpace text else concise

/-- The details `with_details` puts behind its message. -/
def errorDetails (library : LibraryText) (secrets : List (List Char)) (text : List Char) : List Char :=
  redactSecrets secrets (conciseDetails library text)

/-- ASCII texts without entities. -/
def asciiLibrary : LibraryText where
  unescape text := text
  isAlnum c := c.isAlphanum
  isDecimal c := c.isDigit

example : String.ofList (conciseDetails asciiLibrary ("Put token failed. status-code: 401, SubCode: 40100. " ++
    "status-description: InvalidSignature.").toList) =
    "Put token failed. status-code: 401. status-description: InvalidSignature." := by decide +kernel

example : String.ofList (conciseDetails asciiLibrary ("Operation returned an invalid status 'Forbidden'\n" ++
    "Content: <Error><Code>403</Code><Detail>Denied. TrackingId:5a1c9f0e_G3, SystemTr").toList) =
      "Forbidden: Denied" := by
  decide +kernel

/-! ### Nothing is shown -/

/-- A text that shows no secret, and no value behind a key. -/
structure Redacted (secrets : List (List Char)) (text : List Char) : Prop where
  secrets : ∀ secret ∈ secrets, secret ≠ [] → ¬ secret <:+: text
  keys : Guards mask sasKeyPattern endsKey text
  sigs : Guards mask sigPattern endsSig text

/-- The codec redacts as the program does. -/
structure Redacts (codec : Codec) (library : LibraryText) : Prop where
  redact : ∀ secrets text, codec.redactSecrets secrets text =
    String.ofList (redactSecrets (secrets.map String.toList) text.toList)
  concise : ∀ text, codec.conciseDetails text = String.ofList (conciseDetails library text.toList)

section Redacted

variable {text secret : List Char} {secrets seen : List (List Char)} {pattern : List (Char → Bool)} {ends : Char → Bool}

theorem mask_ne_nil : mask ≠ [] := by simp [mask]

theorem eq_star_of_mem_mask {c : Char} (h : c ∈ mask) : c = '*' := by
  simpa [mask] using h

/-- No pattern of letters and an equals sign finds a character of the mask. -/
theorem word_clean {literal : String} (h : (literal.toList.any fun p => ignoreCase p '*') = false) :
    ∀ kind ∈ word literal, ∀ c ∈ mask, kind c = false := by
  intro kind hkind c hc
  obtain ⟨p, hp, rfl⟩ := List.mem_map.mp hkind
  rw [eq_star_of_mem_mask hc]
  simpa using List.any_eq_false.mp h p hp

theorem sasKeyPattern_clean : ∀ kind ∈ sasKeyPattern, ∀ c ∈ mask, kind c = false := word_clean (by decide +kernel)

theorem sigPattern_clean : ∀ kind ∈ sigPattern, ∀ c ∈ mask, kind c = false := word_clean (by decide +kernel)

theorem sasKeyPattern_ne_nil : sasKeyPattern ≠ [] := by simp [sasKeyPattern, word]

theorem sigPattern_ne_nil : sigPattern ≠ [] := by simp [sigPattern, word]

theorem guards_maskKeys (text : List Char) : Guards mask sasKeyPattern endsKey (maskKeys text) :=
  guards_key mask_ne_nil sasKeyPattern_clean sasKeyPattern_ne_nil (by simp)

theorem guards_maskSigs (text : List Char) : Guards mask sigPattern endsSig (maskSigs text) :=
  guards_key mask_ne_nil sigPattern_clean sigPattern_ne_nil (by simp)

/-- Masking signatures leaves the keys masked. -/
theorem keys_maskSigs (h : Guards mask sasKeyPattern endsKey text) :
    Guards mask sasKeyPattern endsKey (maskSigs text) :=
  Masking.Guards.rewrite (masks_key sigPattern_clean sigPattern_ne_nil) mask_ne_nil sasKeyPattern_clean
    sasKeyPattern_ne_nil h

theorem clean_of_no_star (h : '*' ∉ secret) : ∀ c ∈ secret, c ∉ mask := by
  intro c hc hmem
  rw [eq_star_of_mem_mask hmem] at hc
  exact h hc

/-- Replacing a secret keeps what is redacted, and the secret is gone. -/
theorem Redacted.maskSecret (hseen : ∀ s ∈ seen, '*' ∉ s) (hsecret : '*' ∉ secret) (h : Redacted seen text) :
    Redacted (seen ++ [secret]) (maskSecret text secret) := by
  rw [ServiceBusExtractor.maskSecret]
  by_cases hne : secret = []
  · rw [if_pos hne]
    refine ⟨fun s hs hsne => ?_, h.keys, h.sigs⟩
    rcases List.mem_append.mp hs with hs | hs
    · exact h.secrets s hs hsne
    · rw [List.mem_singleton.mp hs] at hsne
      exact absurd hne hsne
  · rw [if_neg hne]
    have hstep : Masks mask (literalStep secret mask) := masks_literal hne (clean_of_no_star hsecret)
    refine ⟨fun s hs hsne hin => ?_, ?_, ?_⟩
    · rcases List.mem_append.mp hs with hs | hs
      · exact h.secrets s hs hsne (infix_of_rewrite hstep mask_ne_nil (clean_of_no_star (hseen s hs)) hsne hin)
      · rw [List.mem_singleton.mp hs] at hin
        exact not_infix_literal hne mask_ne_nil (clean_of_no_star hsecret) hin
    · exact h.keys.rewrite hstep mask_ne_nil sasKeyPattern_clean sasKeyPattern_ne_nil
    · exact h.sigs.rewrite hstep mask_ne_nil sigPattern_clean sigPattern_ne_nil

/-- By induction on the secrets still to be replaced. -/
theorem redacted_foldl (hseen : ∀ s ∈ seen, '*' ∉ s) (hsecrets : ∀ s ∈ secrets, '*' ∉ s) (h : Redacted seen text) :
    Redacted (seen ++ secrets) (secrets.foldl ServiceBusExtractor.maskSecret text) := by
  induction secrets generalizing seen text with
  | nil => simpa using h
  | cons secret rest ih =>
    have hsecret := hsecrets secret (by simp)
    have hmore : ∀ s ∈ seen ++ [secret], '*' ∉ s := by
      intro s hs
      rcases List.mem_append.mp hs with hs | hs
      · exact hseen s hs
      · rwa [List.mem_singleton.mp hs]
    rw [List.foldl_cons, List.append_cons]
    exact ih hmore (fun s hs => hsecrets s (by simp [hs])) (h.maskSecret hseen hsecret)

theorem redacted_redactSecrets (hsecrets : ∀ s ∈ secrets, '*' ∉ s) (text : List Char) :
    Redacted secrets (redactSecrets secrets text) := by
  have hpatterns : Redacted [] (maskSigs (maskKeys text)) :=
    ⟨by simp, keys_maskSigs (guards_maskKeys text), guards_maskSigs _⟩
  exact redacted_foldl (by simp) hsecrets hpatterns

/-- What `redact_secrets` returns shows no secret and no value behind a key, whatever the text and the order of the
secrets; nor do the details of an error, on their own or in the message for the user. -/
theorem redaction_hides_secrets (hsecrets : ∀ s ∈ secrets, '*' ∉ s) :
    (∀ text, Redacted secrets (redactSecrets secrets text)) ∧
    (∀ library text, Redacted secrets (errorDetails library secrets text)) ∧
    ∀ (row : Row) library, Redacts row.codec library → row.secrets.map String.toList = secrets → ∀ message text,
      ∃ details : String, row.withDetails message text = .user s!"{message} (details: {details})" ∧
        Redacted secrets details.toList := by
  refine ⟨redacted_redactSecrets hsecrets, fun library text => redacted_redactSecrets hsecrets _, ?_⟩
  intro row library hcodec hrow message text
  refine ⟨_, rfl, ?_⟩
  rw [Row.redact, hcodec.redact, hrow, String.toList_ofList]
  exact redacted_redactSecrets hsecrets _

/-- Two secrets that overlap, and a key. -/
theorem redaction_hides_secrets_overlapping :
    Redacted ["abc".toList, "bcd".toList]
      (redactSecrets ["abc".toList, "bcd".toList] "SharedAccessKey=x;abcd sig=".toList) :=
  (@redaction_hides_secrets ["abc".toList, "bcd".toList] (by decide)).1 _

example : String.ofList (redactSecrets ["s3cr3t".toList]
  "boom SharedAccessKey=c2Vj;sr=x&sig=abc%2Bdef&se=1 s3cr3t".toList) =
    "boom SharedAccessKey=***;sr=x&sig=***&se=1 ***" := by decide +kernel

end Redacted

end ServiceBusExtractor
