import Mathlib

/-!
# Masking a text

A substitution goes over a text once, from left to right, and edits the places it
finds. Where every edit leaves a mask, and no word that matters contains a character
of the mask, the result holds no word that the text did not hold.

## The model

* `rewrite step` — one pass: `step` sees the character before a place and the text
  from there on, and says how much to take and what to put.
* `literalStep`, `keyStep` — mask a word; mask the value behind a key.
* `Masks mask step` — every edit ends with the mask and keeps the front of what it takes.
* `Hidden`, `Guards` — behind each key is the mask, a delimiter or the end.

## What is proved

* `Pass.occurs`: a word of the result was in the text, and what follows it is linked
  to what followed it there.
* `not_infix_literal`, `guards_key`: a pass does what it is for.
* `infix_of_rewrite`, `Guards.rewrite`: it undoes nothing of what earlier passes did.
-/

namespace Masking

variable {α : Type}

/-! ### One pass -/

/-- One pass over a text, with the character before it and so many characters still to be skipped. An edit takes one
character at least. -/
def rewrite (step : Option α → List α → Option (ℕ × List α)) : Option α → ℕ → List α → List α
  | _, _, [] => []
  | _, skip + 1, c :: text => rewrite step (some c) skip text
  | before, 0, c :: text =>
    match step before (c :: text) with
    | some (taken, put) => put ++ rewrite step (some c) (taken - 1) text
    | none => c :: rewrite step (some c) 0 text

/-- How a pass goes: it keeps a character where it finds nothing, and edits where it does. -/
inductive Pass (step : Option α → List α → Option (ℕ × List α)) : Option α → List α → List α → Prop where
  | nil {before : Option α} : Pass step before [] []
  | keep {before : Option α} {c : α} {text out : List α} :
      step before (c :: text) = none → Pass step (some c) text out → Pass step before (c :: text) (c :: out)
  | edit {before before' : Option α} {gone rest put out : List α} :
      step before (gone ++ rest) = some (gone.length, put) → Pass step before' rest out →
      Pass step before (gone ++ rest) (put ++ out)

/-- Every edit takes something that is there. -/
def Fits (step : Option α → List α → Option (ℕ × List α)) : Prop :=
  ∀ before text taken put, step before text = some (taken, put) → 0 < taken ∧ taken ≤ text.length

section Pass

variable {step : Option α → List α → Option (ℕ × List α)} {before : Option α} {text out : List α}

/-- Skipped characters do not matter but for the last of them. -/
theorem rewrite_skip (skip : ℕ) (before : Option α) (text : List α) :
    ∃ before', rewrite step before skip text = rewrite step before' 0 (text.drop skip) := by
  induction skip generalizing before text with
  | zero => exact ⟨before, rfl⟩
  | succ skip ih =>
    cases text with
    | nil => exact ⟨before, rfl⟩
    | cons c text => exact ih (some c) text

theorem pass_rewrite (hstep : Fits step) (before : Option α) (text : List α) :
    Pass step before text (rewrite step before 0 text) := by
  induction hn : text.length using Nat.strong_induction_on generalizing before text with
  | _ n ih =>
    cases text with
    | nil => exact .nil
    | cons c text =>
      rw [List.length_cons] at hn
      rw [rewrite]
      cases hfound : step before (c :: text) with
      | none => exact .keep hfound (ih _ (by omega) (some c) text rfl)
      | some edit =>
        obtain ⟨taken, put⟩ := edit
        obtain ⟨hpos, hlen⟩ := hstep _ _ _ _ hfound
        rw [List.length_cons] at hlen
        obtain ⟨before', hskip⟩ := @rewrite_skip _ step (taken - 1) (some c) text
        have htake : (c :: text.take (taken - 1)).length = taken := by
          rw [List.length_cons, List.length_take]
          omega
        have hparts : c :: text = (c :: text.take (taken - 1)) ++ text.drop (taken - 1) := by
          rw [List.cons_append, List.take_append_drop]
        rw [hparts] at hfound ⊢
        dsimp only
        rw [hskip]
        refine @Pass.edit _ step before before' _ _ _ _ (by rw [hfound, htake]) (ih _ ?_ before' _ rfl)
        rw [List.length_drop]
        omega

end Pass

/-! ### Passes that mask -/

/-- Every edit puts the mask behind a front of what it takes, and none begins at a character of the mask. -/
structure Masks (mask : List α) (step : Option α → List α → Option (ℕ × List α)) : Prop where
  fits : Fits step
  puts : ∀ before text taken put, step before text = some (taken, put) →
    ∃ front, front <+: text.take taken ∧ put = front ++ mask ∧ ∀ c ∈ front, c ∉ mask
  marks : ∀ before c text, c ∈ mask → step before (c :: text) = none

/-- What follows a word after a pass: the mask, or what followed it before. -/
def Linked (mask rest rest' : List α) : Prop :=
  mask <+: rest' ∨ rest'.head? = rest.head? ∧ (mask <+: rest → mask <+: rest')

/-- Where a word of the result comes from: the pass found nothing at its first character, or an edit kept it. -/
inductive Origin (mask : List α) (step : Option α → List α → Option (ℕ × List α)) (word : List α) :
    List α → List α → Prop where
  | kept {before : Option α}
    {rest rest' : List α} : step before (word ++ rest) = none → Origin mask step word rest rest'
  | edited {before : Option α} {text start back tail rest : List α} {taken : ℕ} :
      step before text = some (taken, start ++ word ++ back ++ mask) → Origin mask step word rest (back ++ mask ++ tail)

/-- The mask, a delimiter or the end. -/
def Hidden (mask : List α) (delimiter : α → Bool) (rest : List α) : Prop :=
  mask <+: rest ∨ ∀ c, rest.head? = some c → delimiter c = true

/-- The word has a character of each kind. -/
def Spells (key : List (α → Bool)) (word : List α) : Prop := List.Forall₂ (fun kind c => kind c = true) key word

/-- Behind each place where the key is spelled, the rest is hidden. -/
def Guards (mask : List α) (key : List (α → Bool)) (delimiter : α → Bool) (text : List α) : Prop :=
  ∀ before word rest, text = before ++ word ++ rest → Spells key word → Hidden mask delimiter rest

section Masks

variable {mask : List α} {step : Option α → List α → Option (ℕ × List α)} {before : Option α} {text out : List α}
  {word rest : List α} {key : List (α → Bool)} {delimiter : α → Bool}

theorem Hidden.linked {rest' : List α} (h : Hidden mask delimiter rest) (hlinked : Linked mask rest rest') :
    Hidden mask delimiter rest' := by
  rcases hlinked with hmask | ⟨hhead, hkeeps⟩
  · exact .inl hmask
  · rcases h with hmask | hdelimiter
    · exact .inl (hkeeps hmask)
    · refine .inr fun c hc => hdelimiter c ?_
      rw [← hhead, hc]

/-- The characters of the mask at the front of a text stay. -/
theorem Pass.marks (hstep : Masks mask step) (h : Pass step before text out) (hword : ∀ c ∈ word, c ∈ mask)
    (hfront : word <+: text) : word <+: out := by
  induction h generalizing word with
  | nil => exact hfront
  | @keep before c text out _ _ ih =>
    cases word with
    | nil => exact List.nil_prefix
    | cons d word =>
      obtain ⟨rfl, htail⟩ := List.cons_prefix_cons.mp hfront
      exact List.cons_prefix_cons.mpr ⟨rfl, ih (fun c hc => hword c (by simp [hc])) htail⟩
  | @edit before before' gone rest put out hfound _ _ =>
    cases word with
    | nil => exact List.nil_prefix
    | cons d word =>
      obtain ⟨tail, htail⟩ := hfront
      rw [← htail, List.cons_append, hstep.marks before d _ (hword d (by simp))] at hfound
      cases hfound

/-- A word without the mask at the front of a masked part is at the front of what the edit kept. -/
theorem front_of_masked (hword : ∀ c ∈ word, c ∉ mask) (hmask : mask ≠ []) {front tail : List α}
    (h : front ++ mask ++ tail = word ++ rest) : ∃ back, front = word ++ back ∧ rest = back ++ mask ++ tail := by
  rw [List.append_assoc, List.append_eq_append_iff] at h
  rcases h with ⟨extra, hlong, htail⟩ | ⟨back, hfront, hrest⟩
  · cases extra with
    | nil => exact ⟨[], by simpa using hlong.symm, by simpa using htail.symm⟩
    | cons c extra =>
      -- the word would reach into the mask
      cases mask with
      | nil => exact absurd rfl hmask
      | cons m mask =>
        rw [List.cons_append, List.cons_append, List.cons.injEq] at htail
        have hmem : c ∈ word := by
          rw [hlong]
          simp
        exact absurd (by simp [htail.1]) (hword c hmem)
  · exact ⟨back, hfront, by rw [hrest, List.append_assoc]⟩

/-- What an edit kept is linked to what stood there. -/
theorem linked_of_masked {back gone tail : List α} (hback : ∀ c ∈ back, c ∉ mask) (hgone : back <+: gone)
    (rest : List α) : Linked mask (gone ++ rest) (back ++ mask ++ tail) := by
  cases back with
  | nil => exact .inl ⟨tail, by simp⟩
  | cons d back =>
    obtain ⟨more, rfl⟩ := hgone
    refine .inr ⟨by simp, fun hfront => ?_⟩
    cases mask with
    | nil => exact List.nil_prefix
    | cons m mask =>
      obtain ⟨rfl, -⟩ := List.cons_prefix_cons.mp hfront
      exact absurd (by simp) (hback m (by simp))

/-- A word without the mask at the front of the result was at the front of the text. -/
theorem Pass.front (hstep : Masks mask step) (hmask : mask ≠ []) (h : Pass step before text out)
    (hword : ∀ c ∈ word, c ∉ mask) (hout : out = word ++ rest) :
    ∃ rest', text = word ++ rest' ∧ Linked mask rest' rest ∧ (word ≠ [] → Origin mask step word rest' rest) := by
  induction h generalizing word with
  | nil =>
    obtain ⟨rfl, rfl⟩ := List.append_eq_nil_iff.mp hout.symm
    exact ⟨[], rfl, .inr ⟨rfl, id⟩, fun hne => absurd rfl hne⟩
  | @keep before c text out hnone hpass ih =>
    cases word with
    | nil =>
      rw [List.nil_append] at hout
      subst hout
      refine ⟨c :: text, rfl, .inr ⟨rfl, fun hfront => ?_⟩, fun hne => absurd rfl hne⟩
      exact Pass.marks hstep (.keep hnone hpass) (fun c hc => hc) hfront
    | cons d word =>
      rw [List.cons_append, List.cons.injEq] at hout
      obtain ⟨rfl, hout⟩ := hout
      obtain ⟨rest', rfl, hlinked, -⟩ := ih (fun c hc => hword c (by simp [hc])) hout
      exact ⟨rest', rfl, hlinked, fun _ => .kept hnone⟩
  | @edit before before' gone rest₁ put out hfound hpass _ =>
    obtain ⟨front, hfront, rfl, hclean⟩ := hstep.puts _ _ _ _ hfound
    rw [List.take_left' rfl] at hfront
    obtain ⟨back, rfl, rfl⟩ := front_of_masked hword hmask hout
    obtain ⟨more, rfl⟩ := hfront
    have hkept : step before ((word ++ back ++ more) ++ rest₁) =
        some ((word ++ back ++ more).length, [] ++ word ++ back ++ mask) := hfound
    refine ⟨back ++ more ++ rest₁, by simp, ?_, fun _ => .edited hkept⟩
    exact linked_of_masked (fun c hc => hclean c (by simp [hc])) (List.prefix_append back more) rest₁

/-- A word without the mask in the result was in the text, and what follows it is linked to what followed it. -/
theorem Pass.occurs (hstep : Masks mask step) (hmask : mask ≠ []) (h : Pass step before text out) {start : List α}
    (hword : ∀ c ∈ word, c ∉ mask) (hne : word ≠ []) (hout : out = start ++ word ++ rest) :
    ∃ start' rest', text = start' ++ word ++ rest' ∧ Linked mask rest' rest ∧ Origin mask step word rest' rest := by
  induction h generalizing start with
  | nil =>
    rw [eq_comm, List.append_eq_nil_iff, List.append_eq_nil_iff] at hout
    exact absurd hout.1.2 hne
  | @keep before c text out hnone hpass ih =>
    cases start with
    | nil =>
      obtain ⟨rest', htext, hlinked, horigin⟩ := Pass.front hstep hmask (.keep hnone hpass) hword hout
      exact ⟨[], rest', htext, hlinked, horigin hne⟩
    | cons d start =>
      rw [List.cons_append, List.cons_append, List.cons.injEq] at hout
      obtain ⟨rfl, hout⟩ := hout
      obtain ⟨start', rest', rfl, hlinked⟩ := ih hout
      exact ⟨c :: start', rest', rfl, hlinked⟩
  | @edit before before' gone rest₁ put out hfound hpass ih =>
    obtain ⟨front, hfront, rfl, hclean⟩ := hstep.puts _ _ _ _ hfound
    rw [List.take_left' rfl] at hfront
    obtain ⟨more, rfl⟩ := hfront
    rw [List.append_assoc start, List.append_assoc front, List.append_eq_append_iff] at hout
    rcases hout with ⟨start₁, rfl, hout⟩ | ⟨behind, rfl, hbehind⟩
    · -- the word begins behind what the edit kept
      rw [List.append_eq_append_iff] at hout
      rcases hout with ⟨start₂, rfl, hout⟩ | ⟨inside, hinside, hword'⟩
      · obtain ⟨start', rest', rfl, hlinked⟩ := ih (by rw [hout, List.append_assoc])
        exact ⟨front ++ more ++ start', rest', by simp, hlinked⟩
      · -- or within the mask
        cases inside with
        | nil =>
          rw [List.nil_append] at hword'
          obtain ⟨start', rest', rfl, hlinked⟩ := @ih [] (by rw [← hword', List.nil_append])
          exact ⟨front ++ more ++ start', rest', by simp, hlinked⟩
        | cons c inside =>
          obtain ⟨d, word', rfl⟩ := List.exists_cons_of_ne_nil hne
          rw [List.cons_append, List.cons_append, List.cons.injEq] at hword'
          have hmem : c ∈ mask := by
            rw [hinside]
            simp
          rw [← hword'.1] at hmem
          exact absurd hmem (hword d (by simp))
    · rw [← List.append_assoc] at hbehind
      obtain ⟨back, rfl, rfl⟩ := front_of_masked hword hmask hbehind.symm
      refine ⟨start, back ++ more ++ rest₁, by simp, ?_, ?_⟩
      · exact linked_of_masked (fun c hc => hclean c (by simp [hc])) (List.prefix_append back more) rest₁
      · rw [← List.append_assoc start] at hfound
        exact .edited hfound

/-! ### What a pass keeps -/

/-- A word that a key spells has no character of the mask. -/
theorem spells_clean (hkey : ∀ kind ∈ key, ∀ c ∈ mask, kind c = false) (h : Spells key word) :
    ∀ c ∈ word, c ∉ mask := by
  unfold Spells at h
  induction h with
  | nil => simp
  | @cons kind c key word hc _ ih =>
    refine List.forall_mem_cons.mpr ⟨fun hmem => ?_, ih fun kind hkind => hkey kind (by simp [hkind])⟩
    rw [hkey kind (by simp) c hmem] at hc
    cases hc

/-- A word without the mask that is in the result was in the text. -/
theorem infix_of_rewrite (hstep : Masks mask step) (hmask : mask ≠ []) (hword : ∀ c ∈ word, c ∉ mask) (hne : word ≠ [])
    (h : word <:+: rewrite step none 0 text) : word <:+: text := by
  obtain ⟨start, rest, hout⟩ := h
  obtain ⟨start', rest', rfl, -⟩ := (pass_rewrite hstep.fits none text).occurs hstep hmask hword hne hout.symm
  exact ⟨start', rest', rfl⟩

/-- What is hidden stays hidden. -/
theorem Guards.rewrite (hstep : Masks mask step) (hmask : mask ≠ []) (hkey : ∀ kind ∈ key, ∀ c ∈ mask, kind c = false)
    (hne : key ≠ []) (h : Guards mask key delimiter text) : Guards mask key delimiter (rewrite step none 0 text) := by
  intro start word rest hout hspells
  have hword : ∀ c ∈ word, c ∉ mask := spells_clean hkey hspells
  have hwordne : word ≠ [] := by
    rintro rfl
    cases hspells
    exact hne rfl
  obtain ⟨start', rest', htext, hlinked, -⟩ := (pass_rewrite hstep.fits none text).occurs hstep hmask hword hwordne hout
  exact (h start' word rest' htext hspells).linked hlinked

end Masks

/-! ### Masking a word -/

section Literal

variable [DecidableEq α] {mask word text : List α}

/-- Each occurrence of the word becomes the mask. -/
def literalStep (word mask : List α) (_before : Option α) (text : List α) : Option (ℕ × List α) :=
  if word.isPrefixOf text then some (word.length, mask) else none

theorem masks_literal (hne : word ≠ []) (hword : ∀ c ∈ word, c ∉ mask) : Masks mask (literalStep word mask) := by
  constructor
  · intro before text taken put h
    rw [literalStep] at h
    split at h
    · rename_i hfront
      cases h
      exact ⟨List.length_pos_of_ne_nil hne, (List.isPrefixOf_iff_prefix.mp hfront).length_le⟩
    · cases h
  · intro before text taken put h
    rw [literalStep] at h
    split at h
    · cases h
      exact ⟨[], List.nil_prefix, rfl, by simp⟩
    · cases h
  · intro before c text hc
    rw [literalStep, if_neg]
    intro hfront
    obtain ⟨d, word', rfl⟩ := List.exists_cons_of_ne_nil hne
    obtain ⟨rfl, -⟩ := List.cons_prefix_cons.mp (List.isPrefixOf_iff_prefix.mp hfront)
    exact hword d (by simp) hc

/-- A masked word is not in the result. -/
theorem not_infix_literal (hne : word ≠ []) (hmask : mask ≠ []) (hword : ∀ c ∈ word, c ∉ mask) :
    ¬ word <:+: rewrite (literalStep word mask) none 0 text := by
  have hstep := masks_literal hne hword
  rintro ⟨start, rest, hout⟩
  obtain ⟨start', rest', -, -, horigin⟩ := (pass_rewrite hstep.fits none text).occurs hstep hmask hword hne hout.symm
  cases horigin with
  | kept hnone =>
    rw [literalStep, if_pos (List.isPrefixOf_iff_prefix.mpr (List.prefix_append _ _))] at hnone
    cases hnone
  | edited hfound =>
    rw [literalStep] at hfound
    split at hfound
    · -- the edit put nothing but the mask
      have hput := congrArg List.length (congrArg Prod.snd (Option.some.inj hfound))
      have hpos := List.length_pos_of_ne_nil hne
      simp only [List.length_append] at hput
      omega
    · cases hfound

end Literal

/-! ### Masking the value behind a key -/

section Key

variable {mask text : List α} {key : List (α → Bool)} {value delimiter : α → Bool}

/-- The key is spelled at the front of the text. -/
def spellsFront : List (α → Bool) → List α → Bool
  | [], _ => true
  | _ :: _, [] => false
  | kind :: key, c :: text => kind c && spellsFront key text

/-- A value behind the key, of one character at least, becomes the mask. -/
def keyStep (key : List (α → Bool)) (value : α → Bool) (mask : List α) (_before : Option α) (text : List α) :
    Option (ℕ × List α) :=
  let found := (text.drop key.length).takeWhile value
  if spellsFront key text && !found.isEmpty then some
    (key.length + found.length, text.take key.length ++ mask) else none

theorem spellsFront_iff {word : List α} (hlen : word.length = key.length) (rest : List α) :
    spellsFront key (word ++ rest) = true ↔ Spells key word := by
  unfold Spells
  induction key generalizing word with
  | nil =>
    obtain rfl := List.eq_nil_of_length_eq_zero hlen
    simp [spellsFront]
  | cons kind key ih =>
    cases word with
    | nil => cases hlen
    | cons c word =>
      rw [List.cons_append, spellsFront, Bool.and_eq_true, ih (by simpa using hlen), List.forall₂_cons]

theorem length_of_spellsFront (h : spellsFront key text = true) : key.length ≤ text.length := by
  induction key generalizing text with
  | nil => simp
  | cons kind key ih =>
    cases text with
    | nil => cases h
    | cons c text =>
      rw [spellsFront, Bool.and_eq_true] at h
      have := ih h.2
      simp only [List.length_cons]
      omega

theorem spells_take (h : spellsFront key text = true) : Spells key (text.take key.length) := by
  have hlen := length_of_spellsFront h
  refine (spellsFront_iff ?_ (text.drop key.length)).mp ?_
  · rw [List.length_take]
    omega
  · rwa [List.take_append_drop]

/-- What an edit behind a key is. -/
theorem keyStep_eq_some {before : Option α} {taken : ℕ} {put : List α}
    (h : keyStep key value mask before text = some (taken, put)) :
    spellsFront key text = true ∧ key.length < taken ∧ taken ≤ text.length ∧ put = text.take key.length ++ mask := by
  rw [keyStep] at h
  split at h
  · rename_i hfound
    rw [Bool.and_eq_true, Bool.not_eq_true', List.isEmpty_eq_false_iff] at hfound
    cases h
    have hpos := List.length_pos_of_ne_nil hfound.2
    have hlen := length_of_spellsFront hfound.1
    have hshort := (List.takeWhile_prefix value (l := text.drop key.length)).length_le
    rw [List.length_drop] at hshort
    exact ⟨hfound.1, by omega, by omega, rfl⟩
  · cases h

theorem masks_key (hkey : ∀ kind ∈ key, ∀ c ∈ mask, kind c = false) (hne : key ≠ []) :
    Masks mask (keyStep key value mask) := by
  constructor
  · intro before text taken put h
    obtain ⟨-, hlow, hhigh, -⟩ := keyStep_eq_some h
    exact ⟨by omega, hhigh⟩
  · intro before text taken put h
    obtain ⟨hspells, hlow, -, rfl⟩ := keyStep_eq_some h
    refine ⟨text.take key.length, ?_, rfl, spells_clean hkey (spells_take hspells)⟩
    exact List.take_prefix_take_left (by omega)
  · intro before c text hc
    obtain ⟨kind, key, rfl⟩ := List.exists_cons_of_ne_nil hne
    rw [keyStep, spellsFront, hkey kind (by simp) c hc]
    rfl

/-- Behind each key of the result is the mask, a character that is no value, or the end. -/
theorem guards_key (hmask : mask ≠ []) (hkey : ∀ kind ∈ key, ∀ c ∈ mask, kind c = false) (hne : key ≠ [])
    (hdelimiter : ∀ c, value c = false → delimiter c = true) :
    Guards mask key delimiter (rewrite (keyStep key value mask) none 0 text) := by
  have hstep : Masks mask (keyStep key value mask) := masks_key hkey hne
  intro start word rest hout hspells
  have hlen : word.length = key.length := hspells.length_eq.symm
  have hwordne : word ≠ [] := by
    rintro rfl
    exact hne (List.eq_nil_of_length_eq_zero hlen.symm)
  obtain ⟨start', rest', -, hlinked, horigin⟩ :=
    (pass_rewrite hstep.fits none text).occurs hstep hmask (spells_clean hkey hspells) hwordne hout
  cases horigin with
  | kept hnone =>
    -- the key is spelled, so no value follows
    refine Hidden.linked (.inr fun c hc => ?_) hlinked
    rw [keyStep, (spellsFront_iff hlen rest').mpr hspells, List.drop_left' hlen] at hnone
    cases rest' with
    | nil => cases hc
    | cons d rest' =>
      obtain rfl : d = c := Option.some.inj hc
      cases hvalue : value d with
      | false => exact hdelimiter d hvalue
      | true => simp [hvalue] at hnone
  | @edited _ text' start₁ back tail _ taken hfound =>
    -- the edit kept the key alone
    obtain ⟨hspells', -, -, hput⟩ := keyStep_eq_some hfound
    rw [List.append_cancel_right_eq] at hput
    have hshort := congrArg List.length hput
    have hfew := length_of_spellsFront hspells'
    rw [List.length_append, List.length_append, List.length_take] at hshort
    obtain rfl : back = [] := List.eq_nil_of_length_eq_zero (by omega)
    exact .inl ⟨tail, by simp⟩

end Key

end Masking
