import Mathlib

/-!
# Inclusive ranges of integers

A set of integers is stored as a list of inclusive `[start, stop]` ranges, so
that a long run of consecutive numbers is one pair.

## The model

* `toRanges` — the ranges of a collection of numbers.
* `mergeRanges` — any ranges, sorted, with overlapping and adjacent ones joined
  and empty ones dropped.
* `iterRanges`, `countRanges` — the covered numbers, ascending, and how many.
* `covers rs q` — `q` is in one of the ranges.

## What is proved

Each operation keeps the covered numbers: `covers_toRanges`,
`covers_mergeRanges`, `mem_iterRanges`, `covers_tailRanges`; merging leaves the
ranges apart (`apart_mergeRanges`), so `iterRanges` is ascending.
-/

namespace ServiceBusExtractor

/-- An inclusive range; empty where the second number is below the first. -/
abbrev Range := ℤ × ℤ

/-- `q` is in one of the ranges. -/
def covers (ranges : List Range) (q : ℤ) : Prop := ∃ r ∈ ranges, r.1 ≤ q ∧ q ≤ r.2

instance (ranges : List Range) (q : ℤ) : Decidable (covers ranges q) :=
  inferInstanceAs (Decidable (∃ r ∈ ranges, r.1 ≤ q ∧ q ≤ r.2))

@[simp] theorem not_covers_nil (q : ℤ) : ¬ covers [] q := by
  simp [covers]

@[simp] theorem covers_cons {r : Range} {rs : List Range} {q : ℤ} :
    covers (r :: rs) q ↔ (r.1 ≤ q ∧ q ≤ r.2) ∨ covers rs q := by
  simp [covers]

theorem covers_append {rs ts : List Range} {q : ℤ} : covers (rs ++ ts) q ↔ covers rs q ∨ covers ts q := by
  simp [covers, or_and_right, exists_or]

/-- Two lists with the same ranges cover the same numbers. -/
theorem covers_congr {rs ts : List Range} (h : ∀ r, r ∈ rs ↔ r ∈ ts) (q : ℤ) : covers rs q ↔ covers ts q := by
  simp [covers, h]

/-! ### From numbers to ranges -/

/-- The ranges of ascending numbers, the first of them open at `start` and reaching `stop` so far. -/
def collapse (start stop : ℤ) : List ℤ → List Range
  | [] => [(start, stop)]
  | q :: rest => if q = stop + 1 then collapse start q rest else (start, stop) :: collapse q q rest

/-- The sorted, deduplicated numbers as ranges. -/
def toRanges (seqs : List ℤ) : List Range :=
  match seqs.dedup.insertionSort (· ≤ ·) with
  | [] => []
  | q :: rest => collapse q q rest

theorem covers_collapse {start stop q : ℤ} {rest : List ℤ} (hs : start ≤ stop) :
    covers (collapse start stop rest) q ↔ (start ≤ q ∧ q ≤ stop) ∨ q ∈ rest := by
  induction rest generalizing start stop with
  | nil => simp [collapse]
  | cons p rest ih =>
    simp only [collapse]
    split
    · rename_i h
      rw [ih (by omega), List.mem_cons]
      constructor
      · rintro (⟨h₁, h₂⟩ | h₁)
        · by_cases hq : q = p
          · exact .inr (.inl hq)
          · exact .inl ⟨h₁, by omega⟩
        · exact .inr (.inr h₁)
      · rintro (⟨h₁, h₂⟩ | rfl | h₁)
        · exact .inl ⟨h₁, by omega⟩
        · exact .inl ⟨by omega, le_refl q⟩
        · exact .inr h₁
    · rw [covers_cons, ih (le_refl p), List.mem_cons]
      have hp : (p ≤ q ∧ q ≤ p) ↔ q = p := by omega
      simp only [hp]

/-- The ranges of a collection cover exactly its numbers. -/
theorem covers_toRanges {seqs : List ℤ} {q : ℤ} : covers (toRanges seqs) q ↔ q ∈ seqs := by
  have hmem : q ∈ seqs.dedup.insertionSort (· ≤ ·) ↔ q ∈ seqs := by
    rw [List.mem_insertionSort, List.mem_dedup]
  rw [← hmem, toRanges]
  cases seqs.dedup.insertionSort (· ≤ ·) with
  | nil => simp
  | cons p rest =>
    rw [covers_collapse (le_refl p), List.mem_cons]
    have hp : (p ≤ q ∧ q ≤ p) ↔ q = p := by omega
    rw [hp]

/-! ### Merging -/

/-- Ascending by start, then by end. -/
def rangeLe (r t : Range) : Prop := r.1 < t.1 ∨ (r.1 = t.1 ∧ r.2 ≤ t.2)

instance : DecidableRel rangeLe := fun r t => inferInstanceAs (Decidable (r.1 < t.1 ∨ (r.1 = t.1 ∧ r.2 ≤ t.2)))

instance : Std.Total rangeLe where
  total r t := by
    unfold rangeLe
    omega

instance : IsTrans Range rangeLe where
  trans r t u h₁ h₂ := by
    unfold rangeLe at *
    omega

/-- Join `current` with what follows as long as it overlaps or touches it. -/
def joinRanges (current : Range) : List Range → List Range
  | [] => [current]
  | r :: rest =>
    if r.1 ≤ current.2 + 1 then joinRanges (current.1, max current.2 r.2) rest
    else current :: joinRanges r rest

/-- The ranges sorted, overlapping and adjacent ones joined, empty ones dropped. -/
def mergeRanges (ranges : List Range) : List Range :=
  match (ranges.filter fun r => r.1 ≤ r.2).insertionSort rangeLe with
  | [] => []
  | r :: rest => joinRanges r rest

/-- Ranges in order with a gap between each and the next, none of them empty. -/
def Apart (ranges : List Range) : Prop :=
  ranges.Pairwise (fun r t => r.2 + 1 < t.1) ∧ ∀ r ∈ ranges, r.1 ≤ r.2

theorem joinRanges_spec {current : Range} {rest : List Range} (hc : current.1 ≤ current.2) (hne : ∀ r ∈ rest, r.1 ≤ r.2)
    (hs : (current :: rest).Pairwise fun r t => r.1 ≤ t.1) :
    Apart (joinRanges current rest) ∧ (∀ r ∈ joinRanges current rest, current.1 ≤ r.1) ∧
      ∀ q, covers (joinRanges current rest) q ↔ covers (current :: rest) q := by
  induction rest generalizing current with
  | nil => simp [joinRanges, Apart, hc]
  | cons r rest ih =>
    have hr : current.1 ≤ r.1 := (List.pairwise_cons.mp hs).1 r (by simp)
    have hrest : (r :: rest).Pairwise fun r t => r.1 ≤ t.1 := (List.pairwise_cons.mp hs).2
    have hrne : r.1 ≤ r.2 := hne r (by simp)
    simp only [joinRanges]
    split
    · rename_i hjoin
      have hs' : ((current.1, max current.2 r.2) :: rest).Pairwise fun r t => r.1 ≤ t.1 := by
        refine List.pairwise_cons.mpr ⟨fun t ht => ?_, (List.pairwise_cons.mp hrest).2⟩
        exact (List.pairwise_cons.mp hs).1 t (by simp [ht])
      have hmax : current.1 ≤ max current.2 r.2 := le_trans hc (le_max_left _ _)
      obtain ⟨hapart, hlow, hcov⟩ := @ih (current.1, max current.2 r.2) hmax (fun t ht => hne t (by simp [ht])) hs'
      refine ⟨hapart, hlow, fun q => ?_⟩
      rw [hcov q, covers_cons, covers_cons, covers_cons, ← or_assoc]
      refine or_congr ?_ Iff.rfl
      simp only [le_max_iff]
      omega
    · rename_i hgap
      obtain ⟨⟨hpair, hnes⟩, hlow, hcov⟩ := @ih r hrne (fun t ht => hne t (by simp [ht])) hrest
      refine ⟨⟨List.pairwise_cons.mpr ⟨fun t ht => ?_, hpair⟩, ?_⟩, ?_, fun q => ?_⟩
      · have := hlow t ht
        omega
      · rintro t ht
        rcases List.mem_cons.mp ht with rfl | ht
        · exact hc
        · exact hnes t ht
      · rintro t ht
        rcases List.mem_cons.mp ht with rfl | ht
        · exact le_refl _
        · exact le_trans hr (hlow t ht)
      · rw [covers_cons, hcov q, covers_cons (r := current)]

theorem mergeRanges_spec (ranges : List Range) :
    Apart (mergeRanges ranges) ∧ ∀ q, covers (mergeRanges ranges) q ↔ covers ranges q := by
  have hmem : ∀ r, r ∈ (ranges.filter fun r => r.1 ≤ r.2).insertionSort rangeLe ↔ r ∈ ranges ∧ r.1 ≤ r.2 := by
    intro r
    rw [List.mem_insertionSort, List.mem_filter, decide_eq_true_eq]
  have hcov : ∀ q, covers ((ranges.filter fun r => r.1 ≤ r.2).insertionSort rangeLe) q ↔ covers ranges q := by
    intro q
    constructor
    · rintro ⟨r, hr, hq⟩
      exact ⟨r, ((hmem r).mp hr).1, hq⟩
    · rintro ⟨r, hr, hq⟩
      exact ⟨r, (hmem r).mpr ⟨hr, by omega⟩, hq⟩
  have hsorted := List.pairwise_insertionSort rangeLe (ranges.filter fun r => r.1 ≤ r.2)
  simp only [mergeRanges]
  cases hl : (ranges.filter fun r => r.1 ≤ r.2).insertionSort rangeLe with
  | nil =>
    rw [hl] at hcov
    exact ⟨⟨List.Pairwise.nil, by simp⟩, hcov⟩
  | cons r rest =>
    rw [hl] at hcov hmem hsorted
    have hne : ∀ t ∈ r :: rest, t.1 ≤ t.2 := fun t ht => ((hmem t).mp ht).2
    obtain ⟨hapart, -, hcov'⟩ := joinRanges_spec (hne r (by simp)) (fun t ht => hne t (by simp [ht]))
      (hsorted.imp fun h => by unfold rangeLe at h; omega)
    exact ⟨hapart, fun q => (hcov' q).trans (hcov q)⟩

theorem apart_mergeRanges (ranges : List Range) : Apart (mergeRanges ranges) := (mergeRanges_spec ranges).1

/-- Merging keeps the covered numbers. -/
theorem covers_mergeRanges {ranges : List Range} {q : ℤ} : covers (mergeRanges ranges) q ↔ covers ranges q :=
  (mergeRanges_spec ranges).2 q

/-! ### The canonical form -/

theorem Apart.tail {r : Range} {rs : List Range} (h : Apart (r :: rs)) : Apart rs :=
  ⟨(List.pairwise_cons.mp h.1).2, fun t ht => h.2 t (by simp [ht])⟩

/-- The ranges behind the first one begin after a gap. -/
theorem Apart.gap {r : Range} {rs : List Range} (h : Apart (r :: rs)) {q : ℤ} (hq : covers rs q) : r.2 + 1 < q := by
  obtain ⟨t, ht, hlow, -⟩ := hq
  have := (List.pairwise_cons.mp h.1).1 t ht
  omega

/-- The first range begins with the least number and ends before the first gap. -/
theorem Apart.head_le {r t : Range} {rs ts : List Range} (hr : Apart (r :: rs)) (ht : Apart (t :: ts))
    (h : ∀ q, covers (r :: rs) q → covers (t :: ts) q) : t.1 ≤ r.1 ∧ (r.1 = t.1 → r.2 ≤ t.2) := by
  have hrne : r.1 ≤ r.2 := hr.2 r (by simp)
  have htne : t.1 ≤ t.2 := ht.2 t (by simp)
  constructor
  · have hfirst : covers (t :: ts) r.1 := h r.1 (covers_cons.mpr (.inl ⟨le_refl _, hrne⟩))
    rcases covers_cons.mp hfirst with hin | hin
    · exact hin.1
    · have := ht.gap hin
      omega
  · intro heq
    by_contra hlong
    have hnext : covers (t :: ts) (t.2 + 1) := h (t.2 + 1) (covers_cons.mpr (.inl ⟨by omega, by omega⟩))
    rcases covers_cons.mp hnext with hin | hin
    · omega
    · have := ht.gap hin
      omega

/-- Ranges apart from each other are determined by the numbers they cover. -/
theorem Apart.ext {rs ts : List Range} (hr : Apart rs) (ht : Apart ts) (h : ∀ q, covers rs q ↔ covers ts q) :
    rs = ts := by
  induction rs generalizing ts with
  | nil =>
    cases ts with
    | nil => rfl
    | cons t ts =>
      have hone : covers (t :: ts) t.1 := covers_cons.mpr (.inl ⟨le_refl _, ht.2 t (by simp)⟩)
      exact absurd ((h t.1).mpr hone) (not_covers_nil _)
  | cons r rs ih =>
    cases ts with
    | nil =>
      have hone : covers (r :: rs) r.1 := covers_cons.mpr (.inl ⟨le_refl _, hr.2 r (by simp)⟩)
      exact absurd ((h r.1).mp hone) (not_covers_nil _)
    | cons t ts =>
      obtain ⟨hle, hend⟩ := hr.head_le ht fun q => (h q).mp
      obtain ⟨hle', hend'⟩ := ht.head_le hr fun q => (h q).mpr
      have hstart : r.1 = t.1 := by omega
      have hstop : r.2 = t.2 := le_antisymm (hend hstart) (hend' hstart.symm)
      obtain rfl : r = t := Prod.ext hstart hstop
      rw [ih hr.tail ht.tail fun q => ?_]
      constructor
      · intro hq
        have hgap := hr.gap hq
        exact (covers_cons.mp ((h q).mp (covers_cons.mpr (.inr hq)))).resolve_left (by omega)
      · intro hq
        have hgap := ht.gap hq
        exact (covers_cons.mp ((h q).mpr (covers_cons.mpr (.inr hq)))).resolve_left (by omega)

/-- Ranges that cover the same numbers are merged into the same. -/
theorem mergeRanges_congr {rs ts : List Range} (h : ∀ q, covers rs q ↔ covers ts q) : mergeRanges rs = mergeRanges ts :=
  (apart_mergeRanges rs).ext (apart_mergeRanges ts)
    fun q => covers_mergeRanges.trans ((h q).trans covers_mergeRanges.symm)

theorem mergeRanges_of_apart {rs : List Range} (h : Apart rs) : mergeRanges rs = rs :=
  (apart_mergeRanges rs).ext h fun _ => covers_mergeRanges

theorem apart_collapse {start stop : ℤ} {rest : List ℤ} (hs : start ≤ stop) (h : (stop :: rest).Pairwise (· < ·)) :
    Apart (collapse start stop rest) ∧ ∀ r ∈ collapse start stop rest, start ≤ r.1 := by
  induction rest generalizing start stop with
  | nil => simp [collapse, Apart, hs]
  | cons p rest ih =>
    obtain ⟨hlow, hrest⟩ := List.pairwise_cons.mp h
    have hp := hlow p (by simp)
    rw [collapse]
    split
    · exact ih (by omega) hrest
    · obtain ⟨⟨hpair, hne⟩, hstart⟩ := @ih p p (le_refl p) hrest
      refine ⟨⟨List.pairwise_cons.mpr ⟨fun t ht => ?_, hpair⟩, List.forall_mem_cons.mpr ⟨hs, hne⟩⟩,
        List.forall_mem_cons.mpr ⟨le_refl _, fun t ht => ?_⟩⟩
      · have := hstart t ht
        dsimp only
        omega
      · have := hstart t ht
        omega

/-- The ranges of numbers are apart. -/
theorem apart_toRanges (seqs : List ℤ) : Apart (toRanges seqs) := by
  have hsorted : (seqs.dedup.insertionSort (· ≤ ·)).Pairwise (· < ·) := by
    have hle := List.pairwise_insertionSort (· ≤ ·) seqs.dedup
    have hnodup : (seqs.dedup.insertionSort (· ≤ ·)).Nodup :=
      (List.perm_insertionSort _ _).nodup_iff.mpr (List.nodup_dedup seqs)
    exact hle.imp₂ (fun _ _ hle hne => lt_of_le_of_ne hle hne) hnodup
  rw [toRanges]
  cases hl : seqs.dedup.insertionSort (· ≤ ·) with
  | nil => exact ⟨.nil, by simp⟩
  | cons q rest =>
    rw [hl] at hsorted
    exact (apart_collapse (le_refl q) hsorted).1

/-- The ranges of numbers are the canonical form of their set. -/
theorem toRanges_eq (seqs : List ℤ) : toRanges seqs = mergeRanges (seqs.map fun q => (q, q)) := by
  refine (apart_toRanges seqs).ext (apart_mergeRanges _) fun q => ?_
  rw [covers_toRanges, covers_mergeRanges]
  constructor
  · intro hq
    exact ⟨(q, q), List.mem_map.mpr ⟨q, hq, rfl⟩, le_refl _, le_refl _⟩
  · rintro ⟨r, hr, hlow, hhigh⟩
    obtain ⟨p, hp, rfl⟩ := List.mem_map.mp hr
    obtain rfl : q = p := by omega
    exact hp

/-! ### The covered numbers -/

/-- The numbers of one range, ascending. -/
def rangeNumbers (r : Range) : List ℤ := (List.range (r.2 - r.1 + 1).toNat).map fun (i : ℕ) => r.1 + (i : ℤ)

/-- Every covered number, ascending and once. -/
def iterRanges (ranges : List Range) : List ℤ := (mergeRanges ranges).flatMap rangeNumbers

/-- How many distinct numbers are covered. -/
def countRanges (ranges : List Range) : ℤ := ((mergeRanges ranges).map fun r => r.2 - r.1 + 1).sum

theorem mem_rangeNumbers {r : Range} {q : ℤ} : q ∈ rangeNumbers r ↔ r.1 ≤ q ∧ q ≤ r.2 := by
  simp only [rangeNumbers, List.mem_map, List.mem_range]
  constructor
  · rintro ⟨i, hi, rfl⟩
    omega
  · rintro ⟨h₁, h₂⟩
    exact ⟨(q - r.1).toNat, by omega, by omega⟩

theorem mem_iterRanges {ranges : List Range} {q : ℤ} : q ∈ iterRanges ranges ↔ covers ranges q := by
  rw [← covers_mergeRanges]
  simp [iterRanges, covers, mem_rangeNumbers]

theorem pairwise_rangeNumbers (r : Range) : (rangeNumbers r).Pairwise (· < ·) := by
  refine List.pairwise_map.mpr (List.pairwise_lt_range.imp fun h => ?_)
  omega

/-- The covered numbers come in strictly ascending order. -/
theorem pairwise_iterRanges (ranges : List Range) : (iterRanges ranges).Pairwise (· < ·) := by
  rw [iterRanges, List.flatMap, List.pairwise_flatten]
  refine ⟨?_, ?_⟩
  · intro l hl
    obtain ⟨r, -, rfl⟩ := List.mem_map.mp hl
    exact pairwise_rangeNumbers r
  · refine List.pairwise_map.mpr ((apart_mergeRanges ranges).1.imp fun h x hx y hy => ?_)
    have h₁ := (mem_rangeNumbers.mp hx).2
    have h₂ := (mem_rangeNumbers.mp hy).1
    omega

/-- The count is the length of the list of numbers. -/
theorem countRanges_eq (ranges : List Range) : countRanges ranges = (iterRanges ranges).length := by
  have hone : ∀ rs : List Range, (∀ r ∈ rs, r.1 ≤ r.2) →
      (rs.map fun r => r.2 - r.1 + 1).sum = ((rs.flatMap rangeNumbers).length : ℤ) := by
    intro rs hrs
    induction rs with
    | nil => rfl
    | cons r rs ih =>
      have hr := hrs r (by simp)
      have hlen : ((rangeNumbers r).length : ℤ) = r.2 - r.1 + 1 := by
        rw [rangeNumbers, List.length_map, List.length_range]
        omega
      rw [List.map_cons, List.sum_cons, ih fun t ht => hrs t (by simp [ht]), List.flatMap_cons, List.length_append]
      omega
  exact hone _ (apart_mergeRanges ranges).2

/-! ### The tail -/

/-- The ranges restricted to the numbers from `first` on. -/
def tailRanges (ranges : List Range) (first : ℤ) : List Range :=
  ((mergeRanges ranges).filter fun r => first ≤ r.2).map fun r => (max r.1 first, r.2)

theorem covers_tailRanges {ranges : List Range} {first q : ℤ} :
    covers (tailRanges ranges first) q ↔ covers ranges q ∧ first ≤ q := by
  rw [← @covers_mergeRanges ranges]
  constructor
  · rintro ⟨r, hr, h₁, h₂⟩
    obtain ⟨t, ht, rfl⟩ := List.mem_map.mp hr
    have hle := le_max_right t.1 first
    have hle' := le_max_left t.1 first
    exact ⟨⟨t, (List.mem_filter.mp ht).1, by omega, h₂⟩, by omega⟩
  · rintro ⟨⟨r, hr, h₁, h₂⟩, hq⟩
    refine ⟨(max r.1 first, r.2), List.mem_map.mpr ⟨r, List.mem_filter.mpr ⟨hr, ?_⟩, rfl⟩, max_le h₁ hq, h₂⟩
    simp only [decide_eq_true_eq]
    omega

/-- The numbers of the tail are those from `first` on. -/
theorem countRanges_tailRanges (ranges : List Range) (first : ℤ) :
    countRanges (tailRanges ranges first) = ((iterRanges ranges).filter (first ≤ ·)).length := by
  have hnodup : ∀ rs : List Range, (iterRanges rs).Nodup := fun rs => (pairwise_iterRanges rs).imp fun h => ne_of_lt h
  have hperm : (iterRanges (tailRanges ranges first)).Perm ((iterRanges ranges).filter (first ≤ ·)) := by
    refine (List.perm_ext_iff_of_nodup (hnodup _) ((hnodup ranges).filter _)).mpr fun q => ?_
    rw [mem_iterRanges, covers_tailRanges, List.mem_filter, mem_iterRanges, decide_eq_true_eq]
  rw [countRanges_eq, hperm.length_eq]

end ServiceBusExtractor
