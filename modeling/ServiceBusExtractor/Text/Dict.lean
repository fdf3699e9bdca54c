import Mathlib

/-!
# Dictionaries that keep the order of insertion

A dictionary is the list of its entries, oldest first. Setting a key changes its
entry in place, or adds one at the end where the key is new.

## The model

* `Dict.set`, `Dict.update` — set one key, or all keys of another dictionary.

## What is proved

* a dictionary with distinct keys looks up what it has: `lookup_of_mem`;
* updating with new keys appends: `update_of_nodup`;
* an updated dictionary has each key once, and nothing of its own: `nodup_update`, `mem_update`.
-/

namespace Dict

variable {K V : Type} [DecidableEq K]

/-- Set a key: in place where the key is there, last where it is new. -/
def set (key : K) (value : V) : List (K × V) → List (K × V)
  | [] => [(key, value)]
  | (k, v) :: rest => if k = key then (k, value) :: rest else (k, v) :: set key value rest

/-- Set all keys of the second dictionary, one after the other. -/
def update (d : List (K × V)) (entries : List (K × V)) : List (K × V) :=
  entries.foldl (fun d entry => set entry.1 entry.2 d) d

variable {d entries : List (K × V)} {key : K} {value : V}

theorem set_of_not_mem (h : key ∉ d.map Prod.fst) : set key value d = d ++ [(key, value)] := by
  induction d with
  | nil => rfl
  | cons entry rest ih =>
    obtain ⟨k, v⟩ := entry
    rw [List.map_cons, List.mem_cons, not_or] at h
    rw [set, if_neg (Ne.symm h.1), ih h.2]
    rfl

/-- New keys are added in their order. -/
theorem update_of_nodup (h : ((d ++ entries).map Prod.fst).Nodup) : update d entries = d ++ entries := by
  induction entries generalizing d with
  | nil => simp [update]
  | cons entry rest ih =>
    have hnew : entry.1 ∉ d.map Prod.fst := by
      rw [List.map_append, List.nodup_append] at h
      intro hmem
      exact h.2.2 _ hmem _ (by simp) rfl
    rw [update, List.foldl_cons, set_of_not_mem hnew]
    have happ : d ++ entry :: rest = d ++ [entry] ++ rest := by simp
    rw [happ] at h ⊢
    exact ih h

/-- Setting a key leaves the keys that are there, and adds the key where it is new. -/
theorem keys_set (key : K) (value : V) (d : List (K × V)) :
    (set key value d).map Prod.fst = if key ∈ d.map Prod.fst then d.map Prod.fst else d.map Prod.fst ++ [key] := by
  induction d with
  | nil => rfl
  | cons entry rest ih =>
    obtain ⟨k, v⟩ := entry
    rw [set]
    by_cases hk : k = key
    · subst hk
      simp
    · rw [if_neg hk, List.map_cons, ih]
      by_cases hmem : key ∈ rest.map Prod.fst
      · rw [if_pos hmem]
        exact (if_pos (List.mem_cons_of_mem _ hmem)).symm
      · rw [if_neg hmem]
        exact (if_neg fun h => (List.mem_cons.mp h).elim (fun heq => hk heq.symm) hmem).symm

theorem nodup_set (h : (d.map Prod.fst).Nodup) : ((set key value d).map Prod.fst).Nodup := by
  rw [keys_set]
  by_cases hmem : key ∈ d.map Prod.fst
  · rwa [if_pos hmem]
  · rw [if_neg hmem]
    rw [← List.concat_eq_append]
    exact h.concat hmem

/-- An updated dictionary has each key once. -/
theorem nodup_update (h : (d.map Prod.fst).Nodup) : ((update d entries).map Prod.fst).Nodup := by
  induction entries generalizing d with
  | nil => exact h
  | cons entry rest ih => exact ih (nodup_set h)

/-- The keys of an updated dictionary are those of the two. -/
theorem mem_keys_update {k : K} :
    k ∈ (update d entries).map Prod.fst ↔ k ∈ d.map Prod.fst ∨ k ∈ entries.map Prod.fst := by
  induction entries generalizing d with
  | nil => simp [update]
  | cons entry rest ih =>
    have hset : k ∈ (set entry.1 entry.2 d).map Prod.fst ↔ k ∈ d.map Prod.fst ∨ k = entry.1 := by
      rw [keys_set]
      by_cases hmem : entry.1 ∈ d.map Prod.fst
      · rw [if_pos hmem]
        exact ⟨.inl, fun h => h.elim id fun heq => heq ▸ hmem⟩
      · rw [if_neg hmem, List.mem_append, List.mem_singleton]
    rw [update, List.foldl_cons, ← update, ih, hset, List.map_cons, List.mem_cons, or_assoc]

theorem mem_set {entry : K × V} (h : entry ∈ set key value d) : entry = (key, value) ∨ entry ∈ d := by
  induction d with
  | nil => exact .inl (List.mem_singleton.mp h)
  | cons first rest ih =>
    obtain ⟨k, v⟩ := first
    rw [set] at h
    by_cases hk : k = key
    · rw [if_pos hk] at h
      subst hk
      exact (List.mem_cons.mp h).imp_right (List.mem_cons_of_mem _)
    · rw [if_neg hk] at h
      rcases List.mem_cons.mp h with rfl | h
      · exact .inr (by simp)
      · exact (ih h).imp_right (List.mem_cons_of_mem _)

/-- What an updated dictionary has is from one of the two. -/
theorem mem_update {entry : K × V} (h : entry ∈ update d entries) : entry ∈ entries ∨ entry ∈ d := by
  induction entries generalizing d with
  | nil => exact .inr h
  | cons first rest ih =>
    rcases ih h with hrest | hset
    · exact .inl (List.mem_cons_of_mem _ hrest)
    · rcases mem_set hset with rfl | hmem
      · exact .inl List.mem_cons_self
      · exact .inr hmem

theorem mem_of_lookup (h : d.lookup key = some value) : (key, value) ∈ d := by
  obtain ⟨before, after, rfl, -⟩ := List.lookup_eq_some_iff.mp h
  simp

/-- Distinct keys: an entry is what its key looks up. -/
theorem lookup_of_mem (hd : (d.map Prod.fst).Nodup) (h : (key, value) ∈ d) : d.lookup key = some value := by
  obtain ⟨before, after, rfl⟩ := List.append_of_mem h
  refine List.lookup_eq_some_iff.mpr ⟨before, after, rfl, fun entry hentry => ?_⟩
  rw [List.map_append, List.nodup_append] at hd
  have hne := hd.2.2 entry.1 (List.mem_map_of_mem hentry) key (by simp)
  simpa using Ne.symm hne

theorem lookup_eq_none : d.lookup key = none ↔ key ∉ d.map Prod.fst := by
  rw [List.lookup_eq_none_iff]
  constructor
  · rintro h hmem
    obtain ⟨entry, hentry, rfl⟩ := List.mem_map.mp hmem
    simpa using h entry hentry
  · rintro h entry hentry
    have hne : key ≠ entry.1 := fun heq => h (heq ▸ List.mem_map_of_mem hentry)
    simpa using hne

theorem lookup_isSome : (d.lookup key).isSome = true ↔ key ∈ d.map Prod.fst := by
  rw [← not_iff_not, Bool.not_eq_true, Option.isSome_eq_false_iff, Option.isNone_iff_eq_none, lookup_eq_none]

omit [DecidableEq K] in
/-- Distinct values: a value has one key. -/
theorem key_unique (hv : (d.map Prod.snd).Nodup) {key' : K} (h : (key, value) ∈ d) (h' : (key', value) ∈ d) :
    key = key' := by
  obtain ⟨before, after, rfl⟩ := List.append_of_mem h
  rw [List.map_append, List.nodup_append, List.map_cons, List.nodup_cons] at hv
  obtain ⟨-, ⟨hafter, -⟩, hbefore⟩ := hv
  rcases List.mem_append.mp h' with hb | hb
  · exact absurd rfl (hbefore value (List.mem_map.mpr ⟨_, hb, rfl⟩) value (by simp))
  · rcases List.mem_cons.mp hb with heq | ha
    · exact (Prod.mk.injEq .. ▸ heq).1.symm
    · exact absurd (List.mem_map.mpr ⟨_, ha, rfl⟩) hafter

end Dict
