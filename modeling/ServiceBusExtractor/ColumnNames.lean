import ServiceBusExtractor.Script

/-!
# Fresh column names

A new field gets a column whose name no other column has. The search for it has no
bound of its own: it counts up behind the base name until a name is free.

## The model

* `PythonText.Documented` — what the documentation says of the two text functions.
* `ColumnText` — the characters a column name is made of.
* `FirstFree` — the name at which the unbounded search stops.

## What is proved

`unique_name_fresh`: the search stops, at a free name of the right form; the name is
short and begins with `body` as long as its number leaves room for that.
-/

namespace ServiceBusExtractor

/-- What is documented of Python's text functions, as far as the name of the path depends on it: a digest has forty
hexadecimal digits, and the compatibility decomposition leaves ASCII as it is. -/
structure PythonText.Documented (py : PythonText) (path : JsonPath) : Prop where
  sha1_length : (py.sha1 (utf8 (JsonText.dumpStrings JsonText.escapeAscii path))).toList.length = 40
  sha1_digits : ∀ c ∈ (py.sha1 (utf8 (JsonText.dumpStrings JsonText.escapeAscii path))).toList,
    c.isDigit ∨ c ∈ ['a', 'b', 'c', 'd', 'e', 'f']
  fold_ascii : ∀ ascii text : String, (∀ c ∈ ascii.toList, c.toNat < 128) →
    py.fold (ascii ++ text) = ascii ++ py.fold text

/-- Letters, digits and underscores of ASCII, the last of them no underscore. -/
structure ColumnText (name : List Char) : Prop where
  chars : ∀ c ∈ name, columnNameChar c = true
  last : name.getLast? ≠ some '_'

/-- The first of `base`, `base_2`, `base_3`, … that is not taken. -/
def FirstFree (base : String) (taken : List String) (name : String) : Prop :=
  (base ∉ taken ∧ name = base) ∨
    base ∈ taken ∧ ∃ n, 2 ≤ n ∧ name = candidateName base n ∧ candidateName base n ∉ taken ∧
      ∀ m, 2 ≤ m → m < n → candidateName base m ∈ taken

/-! ### The base name -/

section Base

variable {py : PythonText} {path : JsonPath}

theorem columnText_digest {front digest : List Char} (hfront : ∀ c ∈ front, columnNameChar c = true)
    (hlong : digest.length = 40) (hdigits : ∀ c ∈ digest, c.isDigit ∨ c ∈ ['a', 'b', 'c', 'd', 'e', 'f']) :
    ColumnText (front ++ '_' :: digest.take 8) := by
  have hlength : (digest.take 8).length = 8 := by
    rw [List.length_take, hlong]
    rfl
  have hdigit : ∀ c ∈ digest.take 8, columnNameChar c = true ∧ c ≠ '_' := by
    intro c hc
    rcases hdigits c (List.mem_of_mem_take hc) with hc | hc
    · constructor
      · simp [columnNameChar, Char.isAlphanum, hc]
      · rintro rfl
        revert hc
        decide
    · simp only [List.mem_cons, List.not_mem_nil, or_false] at hc
      rcases hc with rfl | rfl | rfl | rfl | rfl | rfl <;> decide
  constructor
  · intro c hc
    rw [List.mem_append, List.mem_cons] at hc
    rcases hc with hc | rfl | hc
    · exact hfront c hc
    · rfl
    · exact (hdigit c hc).1
  · have hne : digest.take 8 ≠ [] := List.ne_nil_of_length_pos (by omega)
    rw [List.getLast?_append, List.getLast?_cons, List.getLast?_eq_some_getLast hne]
    intro hlast
    exact (hdigit _ (List.getLast_mem hne)).2 (Option.some.inj hlast)

/-- What is left of a text without the underscores at its end. -/
theorem columnText_stripped {folded : List Char} (h : ∀ c ∈ folded, columnNameChar c = true) :
    ColumnText (folded.rdropWhile (· == '_')) := by
  constructor
  · intro c hc
    exact h c ((List.rdropWhile_prefix _ _).subset hc)
  · intro hlast
    have hne : folded.rdropWhile (· == '_') ≠ [] := by
      intro hnil
      rw [hnil] at hlast
      cases hlast
    have hnot := List.rdropWhile_last_not (· == '_') folded hne
    rw [List.getLast?_eq_some_getLast hne] at hlast
    rw [Option.some.inj hlast] at hnot
    exact hnot rfl

/-- Letters at the front of a text stay when the underscores at its end go. -/
theorem front_stripped {front : List Char} (rest : List Char) (hfront : ∀ c ∈ front, c ≠ '_') :
    front <+: (front ++ rest).rdropWhile (· == '_') := by
  have hkeep : front.rdropWhile (· == '_') = front := by
    by_cases hne : front = []
    · rw [hne]
      rfl
    · rw [List.rdropWhile_eq_self_iff]
      intro hne
      simpa using hfront _ (List.getLast_mem hne)
  rw [List.rdropWhile, List.reverse_append, List.dropWhile_append]
  split
  · exact ⟨[], (List.append_nil front).trans hkeep.symm⟩
  · rw [List.reverse_append, List.reverse_reverse]
    exact List.prefix_append _ _

/-- A base name has the form of a column name and begins with `body`. -/
theorem columnNameFor_spec (hpy : py.Documented path) :
    ColumnText (columnNameFor py path).toList ∧ "body".toList <+: (columnNameFor py path).toList := by
  rw [columnNameFor]
  split
  · exact ⟨⟨by simp [columnNameChar], by decide +kernel⟩, by decide +kernel⟩
  · have hascii : ∀ c ∈ "body_".toList, c.toNat < 128 := by simp
    have hclean : ∀ folded : List Char, ∀ c ∈ folded.map fun c => if columnNameChar c then c else '_',
        columnNameChar c = true := by
      intro folded c hc
      obtain ⟨d, -, rfl⟩ := List.mem_map.mp hc
      split
      · assumption
      · rfl
    rw [hpy.fold_ascii _ _ hascii, String.toList_append, List.map_append]
    have hbody : "body_".toList.map (fun c => if columnNameChar c then c else '_') = "body".toList ++ ['_'] := rfl
    have hall := hclean ("body_".toList ++ (py.fold ("_".intercalate path)).toList)
    rw [List.map_append, hbody, List.append_assoc] at hall
    rw [hbody, List.append_assoc]
    have hfront := @front_stripped "body".toList (['_'] ++ (py.fold ("_".intercalate path)).toList.map
      fun c => if columnNameChar c then c else '_') (by simp)
    have htext := columnText_stripped hall
    dsimp only
    rw [← List.rdropWhile]
    split
    · rename_i hlong
      rw [String.toList_ofList]
      refine ⟨columnText_digest (fun c hc => htext.chars c (List.mem_of_mem_take hc)) hpy.sha1_length hpy.sha1_digits,
        ?_⟩
      exact (List.prefix_take_iff.mpr ⟨hfront, by decide +kernel⟩).trans (List.prefix_append _ _)
    · rw [String.toList_ofList]
      exact ⟨htext, hfront⟩

end Base

/-! ### The candidates -/

theorem digitChar_columnNameChar {n : ℕ} {c : Char} (h : c ∈ (Nat.repr n).toList) :
    columnNameChar c = true ∧ c ≠ '_' := by
  refine ⟨?_, digit_of_mem_repr h⟩
  rw [Nat.repr_eq_ofList_toDigits, String.toList_ofList] at h
  have hdigit := Nat.isDigit_of_mem_toDigits (by omega) (by omega) h
  simp [columnNameChar, Char.isAlphanum, hdigit]

theorem mem_of_mem_sliceTo {text : List Char} {stop : ℤ} {c : Char} (h : c ∈ FlattenRegistry.sliceTo text stop) :
    c ∈ text := by
  unfold FlattenRegistry.sliceTo at h
  split at h
  · exact List.mem_of_mem_take h
  · exact List.mem_of_mem_take h

/-- A candidate ends with a digit. -/
theorem columnText_candidateName {base : String} (h : ColumnText base.toList) (n : ℕ) :
    ColumnText (candidateName base n).toList := by
  rw [candidateName, String.toList_append, String.toList_ofList, toList_suffix]
  constructor
  · intro c hc
    rw [List.mem_append, List.mem_cons] at hc
    rcases hc with hc | rfl | hc
    · exact h.chars c (mem_of_mem_sliceTo hc)
    · rfl
    · exact (digitChar_columnNameChar hc).1
  · have hne : (Nat.repr n).toList ≠ [] := by
      have hpos : 0 < (Nat.repr n).length := Nat.length_repr_pos
      rw [← String.length_toList] at hpos
      exact List.ne_nil_of_length_pos hpos
    rw [List.getLast?_append, List.getLast?_cons, List.getLast?_eq_some_getLast hne]
    intro hlast
    exact (digitChar_columnNameChar (List.getLast_mem hne)).2 (Option.some.inj hlast)

/-- With a number of at most 59 digits, a candidate begins as its base does. -/
theorem body_candidateName {base : String} (h : "body".toList <+: base.toList) {n : ℕ} (hn : n < 10 ^ 59) :
    "body".toList <+: (candidateName base n).toList := by
  obtain ⟨room, hroom, -, htext⟩ := toList_candidateName base (by omega) (by omega) hn
  have hfour : "body".toList.length = 4 := rfl
  rw [htext]
  exact (List.prefix_take_iff.mpr ⟨h, by omega⟩).trans (List.prefix_append _ _)

/-! ### The search -/

/-- The search stops at the first free name, and its number is small where few names are taken. -/
theorem uniqueName_first (codec : Codec) (registry : FlattenRegistry) (path : JsonPath) :
    FirstFree (codec.columnNameFor path) registry.taken (registry.uniqueName codec path) ∧
      (registry.uniqueName codec path = codec.columnNameFor path ∨ ∃ n ≤ registry.taken.dedup.length + 2,
        registry.uniqueName codec path = candidateName (codec.columnNameFor path) n) := by
  rw [FlattenRegistry.uniqueName]
  split
  · rename_i hbase
    obtain ⟨k, hk, hname, hfree, hbefore⟩ := FlattenRegistry.freeName_free (codec.columnNameFor path) registry.taken 2
    refine ⟨.inr ⟨hbase, 2 + k, by omega, hname, hfree, fun m hm hlt => ?_⟩, .inr ⟨2 + k, by omega, hname⟩⟩
    have := hbefore (m - 2) (by omega)
    rwa [show 2 + (m - 2) = m by omega] at this
  · rename_i hbase
    exact ⟨.inl ⟨hbase, rfl⟩, .inl rfl⟩

/-- A new column name is the first free one of those tried and has the form of a column name; it keeps within the limit
unless 10^63 names are taken, and begins with `body` unless 10^59 are. -/
theorem unique_name_fresh {codec : Codec} {py : PythonText} {path : JsonPath} (hcodec : Implements codec py)
    (hpy : py.Documented path) (registry : FlattenRegistry) :
    FirstFree (codec.columnNameFor path) registry.taken (registry.uniqueName codec path) ∧
      registry.uniqueName codec path ∉ registry.taken ∧
      ColumnText (registry.uniqueName codec path).toList ∧
      (registry.taken.dedup.length + 2 < 10 ^ 63 → (registry.uniqueName codec path).length ≤ maxColumnName) ∧
      (registry.taken.dedup.length + 2 < 10 ^ 59 → "body".toList <+: (registry.uniqueName codec path).toList) := by
  obtain ⟨hfirst, hcases⟩ := uniqueName_first codec registry path
  have hbase := columnNameFor_spec hpy
  rw [← hcodec.names] at hbase
  refine ⟨hfirst, registry.uniqueName_not_mem codec path, ?_⟩
  rcases hcases with hname | ⟨n, hn, hname⟩
  · rw [hname]
    exact ⟨hbase.1, fun _ => hcodec.short path, fun _ => hbase.2⟩
  · rw [hname]
    refine ⟨columnText_candidateName hbase.1 n, fun hfew => ?_, fun hfew => ?_⟩
    · exact length_candidateName _ (by omega)
    · exact body_candidateName hbase.2 (by omega)

theorem documented_asciiText : asciiText.Documented ["a"] := by
  have hdigest : asciiText.sha1 (utf8 (JsonText.dumpStrings JsonText.escapeAscii ["a"])) =
      "6b38d42036dacdcf081b8d1d0ee0c97b407c56c6" := by decide +kernel
  constructor
  · rw [hdigest]
    rfl
  · rw [hdigest]
    simp
  · exact fun _ _ _ => rfl

/-- A field `a` whose column is taken. -/
theorem unique_name_fresh_taken :
    ColumnText (({ taken := ["body_a"] } : FlattenRegistry).uniqueName flattenCodec ["a"]).toList :=
  (unique_name_fresh implements_flattenCodec documented_asciiText { taken := ["body_a"] }).2.2.1

/-- The base name of a root that is not an object, and the first 10^60 candidates behind it. -/
def crowdedNames : List String := "body_value" :: (List.range (10 ^ 60)).map fun k => candidateName "body_value" (2 + k)

theorem length_crowdedNames : crowdedNames.length = 10 ^ 60 + 1 := by
  rw [crowdedNames, List.length_cons, List.length_map, List.length_range]

theorem mem_crowdedNames {n : ℕ} (hn : 2 ≤ n) (h : n < 10 ^ 60 + 2) : candidateName "body_value" n ∈ crowdedNames := by
  refine List.mem_cons_of_mem _ (List.mem_map.mpr ⟨n - 2, List.mem_range.mpr (by omega), ?_⟩)
  rw [show 2 + (n - 2) = n by omega]

/-- Behind a number of 61 digits there is no room for `body`. -/
theorem no_body_candidateName {n : ℕ} (hlow : 10 ^ 60 ≤ n) (hhigh : n < 10 ^ 63) :
    ¬ "body".toList <+: (candidateName "body_value" n).toList := by
  obtain ⟨room, -, hroom, htext⟩ := toList_candidateName "body_value" (by omega) (by omega) hhigh
  have hdigits : 60 < (Nat.repr n).length := by
    by_contra hfew
    have := (Nat.length_repr_le_iff (by omega)).mp (Nat.le_of_not_lt hfew)
    omega
  have hmax : maxColumnName = 64 := rfl
  have hlen := length_suffix n
  have hthree : room = 0 ∨ room = 1 ∨ room = 2 := by omega
  rw [htext]
  rcases hthree with rfl | rfl | rfl <;> simp

/-- Where that many names are taken, the number of the next one leaves no room for `body`. -/
theorem crowded_name_without_body :
    ¬ "body".toList <+: (({ taken := crowdedNames } : FlattenRegistry).uniqueName flattenCodec []).toList := by
  have hbase : flattenCodec.columnNameFor [] = "body_value" := rfl
  obtain ⟨hfirst, -⟩ := uniqueName_first flattenCodec { taken := crowdedNames } []
  rw [hbase] at hfirst
  rcases hfirst with ⟨hfree, -⟩ | ⟨-, n, hn, hname, hfree, hbefore⟩
  · exact absurd List.mem_cons_self hfree
  · have hlarge : 10 ^ 60 + 2 ≤ n := by
      by_contra hsmall
      exact hfree (mem_crowdedNames hn (by omega))
    have hmany : n - 2 ≤ crowdedNames.dedup.length := by
      refine @FlattenRegistry.le_of_candidates_taken "body_value" crowdedNames 2 _ fun j hj => ?_
      exact hbefore (2 + j) (by omega) (by omega)
    have hfew := (List.dedup_sublist crowdedNames).length_le
    rw [length_crowdedNames] at hfew
    rw [hname]
    exact no_body_candidateName (by omega) (by omega)

end ServiceBusExtractor
