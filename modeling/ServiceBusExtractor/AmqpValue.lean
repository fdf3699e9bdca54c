import ServiceBusExtractor.CompactJson

/-!
# JSON cells of AMQP values

When the compact text of a decoded AMQP value is a JSON text that has what the value
has, and when flattening a map gives one field for each of its leaves.

## The model

* `Jsonable.flattenLeaf`, `Jsonable.flattenValue`, `Jsonable.leafCell` — flattening; a key is
  named by `str`, not as in a JSON text.
* `Mirrors v r` — the text has one member for each entry of each map, under the name of
  the key, and no name twice.
* `FaithfulCell v` — the text of `v` is valid and mirrors it, and a map is flattened to one
  field for each leaf.

## What is proved

`faithful_iff`: a value is faithful exactly where its numbers are finite, the names of
each map are distinct, and the paths of a map's leaves are distinct.

## Honest scope

Python's recursion limit is left out: on a value nested some hundreds of levels deep
`to_jsonable`, `_encode_json` and `_flatten_leaf` raise a `RecursionError`, where the
functions here go on to its leaves.
-/

namespace ServiceBusExtractor

open JsonGrammar
open Numeral (digitsOf)

/-! ### Flattening -/

/-- `str` of a key. -/
def strKey : JsonKey → Text
  | .str text => text
  | .bool true => codes ['T', 'r', 'u', 'e']
  | .bool false => codes ['F', 'a', 'l', 's', 'e']
  | .none => codes ['N', 'o', 'n', 'e']
  | .int n => printNumber (intLexeme n.value)

/-- `_leaf_cell`. -/
def Jsonable.leafCell : Jsonable → Text
  | .leaf (.bool true) => codes ['t', 'r', 'u', 'e']
  | .leaf (.bool false) => codes ['f', 'a', 'l', 's', 'e']
  | .leaf .none => []
  | .leaf (.str text) => text
  | .leaf (.int n) => printNumber (intLexeme n.value)
  | .leaf (.decimal d) => d.text
  | v => compactJson v.value

mutual

/-- `_flatten_leaf`. -/
def Jsonable.flattenLeaf : Jsonable → List Text → List (List Text × Text)
  | .dict (entry :: entries), path => flattenEntries (entry :: entries) path []
  | .dict [], path => [(path, codes ['{', '}'])]
  | v, path => [(path, v.leafCell)]

/-- The entries of a dict, one after the other, into the fields found so far. -/
def flattenEntries : List (JsonKey × Jsonable) → List Text → List (List Text × Text) → List (List Text × Text)
  | [], _, found => found
  | (key, value) :: entries, path, found =>
    flattenEntries entries path (Dict.update found (value.flattenLeaf (path ++ [strKey key])))

end

/-- `flatten_value`. -/
def Jsonable.flattenValue : Jsonable → List (List Text × Text)
  | .dict entries => flattenEntries entries [] []
  | v => [([], compactJson v.value)]

/-! ### What a value has -/

/-- The name of a key in a JSON text. -/
def Key.name (key : Key) : Text := jsonKey (jsonableKey key)

/-- Its name in the path of a field. -/
def Key.step (key : Key) : Text := strKey (jsonableKey key)

/-- A number that JSON can write. -/
def Leaf.Finite : Leaf → Prop
  | .float (.finite _) => True
  | .float _ => False
  | .decimal (.finite _) => True
  | .decimal _ => False
  | _ => True

mutual

/-- All numbers of the value are finite. -/
def Value.Finite : Value → Prop
  | .leaf l => l.Finite
  | .list items => FiniteItems items
  | .dict entries => FiniteEntries entries
  | _ => True

def FiniteItems : List Value → Prop
  | [] => True
  | item :: items => item.Finite ∧ FiniteItems items

def FiniteEntries : List (Key × Value) → Prop
  | [] => True
  | (_, value) :: entries => value.Finite ∧ FiniteEntries entries

end

mutual

/-- The keys of each map have distinct names. -/
def Value.DistinctNames : Value → Prop
  | .list items => DistinctItems items
  | .dict entries => (entries.map fun entry => entry.1.name).Nodup ∧ DistinctEntries entries
  | _ => True

def DistinctItems : List Value → Prop
  | [] => True
  | item :: items => item.DistinctNames ∧ DistinctItems items

def DistinctEntries : List (Key × Value) → Prop
  | [] => True
  | (_, value) :: entries => value.DistinctNames ∧ DistinctEntries entries

end

mutual

/-- The paths of the leaves below a path; an empty map is a leaf. -/
def Value.leafPaths : Value → List Text → List (List Text)
  | .dict (entry :: entries), path => entryPaths (entry :: entries) path
  | _, path => [path]

def entryPaths : List (Key × Value) → List Text → List (List Text)
  | [], _ => []
  | (key, value) :: entries, path => value.leafPaths (path ++ [key.step]) ++ entryPaths entries path

end

mutual

/-- The text has one member for each entry of each map, under its name and under no other's. -/
def Mirrors : Value → Raw → Prop
  | .list items, .arr rs => MirrorsItems items rs
  | .dict entries, .obj members => (members.map Prod.fst).Nodup ∧ MirrorsEntries entries members
  | .list _, _ => False
  | .dict _, _ => False
  | _, .scalar _ => True
  | _, _ => False

def MirrorsItems : List Value → List Raw → Prop
  | [], [] => True
  | item :: items, r :: rs => Mirrors item r ∧ MirrorsItems items rs
  | _, _ => False

def MirrorsEntries : List (Key × Value) → List (Text × Raw) → Prop
  | [], [] => True
  | (key, value) :: entries, (name, r) :: members => name = key.name ∧ Mirrors value r ∧ MirrorsEntries entries members
  | _, _ => False

end

/-- The JSON cell of a value is a valid text that has what the value has, and a map is flattened to one field for each
of its leaves. -/
structure FaithfulCell (v : Value) : Prop where
  text : ∃ r, read [] (compactJson v) = some r ∧ Mirrors v r
  fields : ∀ entries, v = .dict entries → (toJsonable v).flattenValue.length = (entryPaths entries []).length

/-! ### The text -/

theorem keys_jsonableEntries (entries : List (Key × Value)) :
    (jsonableEntries entries).map Prod.fst = entries.map fun entry => jsonableKey entry.1 := by
  induction entries with
  | nil => rfl
  | cons entry entries ih =>
    obtain ⟨key, value⟩ := entry
    rw [jsonableEntries, List.map_cons, List.map_cons, ih]

theorem names_rawEntries (entries : List (JsonKey × Jsonable)) :
    (rawEntries entries).map Prod.fst = entries.map fun entry => jsonKey entry.1 := by
  induction entries with
  | nil => rfl
  | cons entry entries ih =>
    obtain ⟨key, value⟩ := entry
    rw [rawEntries, List.map_cons, List.map_cons, ih]

/-- Keys with distinct names are distinct: no entry is dropped. -/
theorem update_jsonableEntries {entries : List (Key × Value)} (h : (entries.map fun entry => entry.1.name).Nodup) :
    Dict.update [] (jsonableEntries entries) = jsonableEntries entries := by
  have hkeys : ((entries.map fun entry => jsonableKey entry.1).map jsonKey).Nodup := by
    rw [List.map_map]
    exact h
  rw [Dict.update_of_nodup, List.nil_append]
  rw [List.nil_append, keys_jsonableEntries]
  exact hkeys.of_map

mutual

theorem mirrors_raw : ∀ {v : Value}, v.DistinctNames → Mirrors v (toJsonable v).raw
  | .leaf _, _ => trivial
  | .bytes _, _ => trivial
  | .datetime _, _ => trivial
  | .uuid _, _ => trivial
  | .list items, h => mirrors_rawItems h
  | .dict entries, h => by
    have hnames : (rawEntries (jsonableEntries entries)).map Prod.fst = entries.map fun entry => entry.1.name := by
      have hkeys := congrArg (List.map jsonKey) (keys_jsonableEntries entries)
      rw [List.map_map, List.map_map] at hkeys
      exact (names_rawEntries _).trans hkeys
    rw [toJsonable, update_jsonableEntries h.1]
    refine ⟨?_, mirrors_rawEntries h.2⟩
    rw [hnames]
    exact h.1

theorem mirrors_rawItems :
    ∀ {items : List Value}, DistinctItems items → MirrorsItems items (rawItems (toJsonables items))
  | [], _ => trivial
  | _ :: _, h => ⟨mirrors_raw h.1, mirrors_rawItems h.2⟩

theorem mirrors_rawEntries : ∀ {entries : List (Key × Value)}, DistinctEntries entries →
    MirrorsEntries entries (rawEntries (jsonableEntries entries))
  | [], _ => trivial
  | (_, _) :: _, h => ⟨rfl, mirrors_raw h.1, mirrors_rawEntries h.2⟩

end

/-- The members of a mirroring text have the names of the entries. -/
theorem names_of_mirrors {entries : List (Key × Value)} {members : List (Text × Raw)}
    (h : MirrorsEntries entries members) :
    members.map Prod.fst = entries.map fun entry => entry.1.name := by
  induction entries generalizing members with
  | nil =>
    cases members with
    | nil => rfl
    | cons member members => exact absurd h id
  | cons entry entries ih =>
    obtain ⟨key, value⟩ := entry
    cases members with
    | nil => exact absurd h id
    | cons member members =>
      obtain ⟨name, r⟩ := member
      obtain ⟨hname, -, hrest⟩ := h
      rw [List.map_cons, List.map_cons, ih hrest, hname]

mutual

theorem distinct_of_mirrors : ∀ {v : Value}, Mirrors v (toJsonable v).raw → v.DistinctNames
  | .leaf _, _ => trivial
  | .bytes _, _ => trivial
  | .datetime _, _ => trivial
  | .uuid _, _ => trivial
  | .list items, h => distinct_of_mirrorsItems h
  | .dict entries, h => by
    obtain ⟨hnodup, hentries⟩ := h
    have hnames : (entries.map fun entry => entry.1.name).Nodup := names_of_mirrors hentries ▸ hnodup
    rw [update_jsonableEntries hnames] at hentries
    exact ⟨hnames, distinct_of_mirrorsEntries hentries⟩

theorem distinct_of_mirrorsItems : ∀ {items : List Value}, MirrorsItems items (rawItems (toJsonables items)) →
    DistinctItems items
  | [], _ => trivial
  | _ :: _, h => ⟨distinct_of_mirrors h.1, distinct_of_mirrorsItems h.2⟩

theorem distinct_of_mirrorsEntries : ∀ {entries : List (Key × Value)},
    MirrorsEntries entries (rawEntries (jsonableEntries entries)) → DistinctEntries entries
  | [], _ => trivial
  | (_, _) :: _, h => ⟨distinct_of_mirrors h.2.1, distinct_of_mirrorsEntries h.2.2⟩

end

/-! ### The numbers -/

theorem isConstant_minus (negative : Bool) {c : ℕ} (hc : c = code 'N' ∨ c = code 'I' ∨ c = code 's') (tail : Text) :
    IsConstant (minus negative ++ c :: tail) := by
  cases negative with
  | true => exact ⟨c, tail, hc, .inr rfl⟩
  | false => exact ⟨c, tail, hc, .inl rfl⟩

/-- Every leaf is written as a scalar that JSON has, or as a constant. -/
theorem wellFormed_scalar (l : Leaf) : l.scalar.WellFormed [] := by
  have hreadable : ∀ word, Readable [] word := fun word rest _ => (if_neg List.not_mem_nil).symm
  cases l with
  | none => trivial
  | bool b => trivial
  | str text => trivial
  | int n => exact wellFormed_intLexeme n.value
  | float f =>
    cases f with
    | nan => exact ⟨isConstant_minus false (.inl rfl) _, hreadable _⟩
    | infinity negative => exact ⟨isConstant_minus negative (.inr (.inl rfl)) _, hreadable _⟩
    | finite repr => exact repr.wellFormed
  | decimal d =>
    cases d with
    | finite d => exact d.wellFormed_lexeme
    | infinity negative => exact ⟨isConstant_minus negative (.inr (.inl rfl)) _, hreadable _⟩
    | nan negative signaling payload =>
      refine ⟨?_, hreadable _⟩
      cases signaling with
      | true => exact isConstant_minus negative (.inr (.inr rfl)) _
      | false => exact isConstant_minus negative (.inl rfl) _

theorem isAccepted_scalar (l : Leaf) : l.scalar.isAccepted [] = true ↔ l.Finite := by
  have hconstant : ∀ word, (Scalar.constant word).isAccepted [] = true ↔ False := by simp [Scalar.isAccepted]
  cases l with
  | float f => cases f <;> first | exact hconstant _ | exact iff_of_true rfl trivial
  | decimal d => cases d <;> first | exact hconstant _ | exact iff_of_true rfl trivial
  | _ => exact iff_of_true rfl trivial

/-- The text of a value is valid where its numbers are finite. -/
theorem read_encodeJson_nil (v : Jsonable) :
    (∃ r, read [] (encodeJson v) = some r ∧ r = v.raw ∧ ∀ l ∈ v.leaves, l.Finite) ∨
      (read [] (encodeJson v) = none ∧ ¬ ∀ l ∈ v.leaves, l.Finite) := by
  have hwell : ∀ s ∈ v.raw.scalars, s.WellFormed [] := by
    rw [scalars_raw]
    intro s hs
    obtain ⟨l, -, rfl⟩ := List.mem_map.mp hs
    exact wellFormed_scalar l
  have hall : allAccepted [] v.raw.scalars = true ↔ ∀ l ∈ v.leaves, l.Finite := by
    rw [scalars_raw, allAccepted, List.all_map, List.all_eq_true]
    exact forall₂_congr fun l _ => isAccepted_scalar l
  rw [encodeJson_eq_print, read_print (by simp) hwell]
  by_cases haccepted : allAccepted [] v.raw.scalars = true
  · rw [if_pos haccepted]
    exact .inl ⟨_, rfl, rfl, hall.mp haccepted⟩
  · rw [if_neg haccepted]
    exact .inr ⟨rfl, fun h => haccepted (hall.mpr h)⟩

mutual

/-- The numbers of a value without dropped entries are those of its JSON value. -/
theorem finite_leaves_iff : ∀ {v : Value}, v.DistinctNames → ((∀ l ∈ (toJsonable v).leaves, l.Finite) ↔ v.Finite)
  | .leaf l, _ => by simp [toJsonable, Jsonable.leaves, Value.Finite]
  | .bytes _, _ => by simp [toJsonable, Jsonable.leaves, Value.Finite, Leaf.Finite]
  | .datetime _, _ => by simp [toJsonable, Jsonable.leaves, Value.Finite, Leaf.Finite]
  | .uuid _, _ => by simp [toJsonable, Jsonable.leaves, Value.Finite, Leaf.Finite]
  | .list items, h => finite_leavesOfItems_iff h
  | .dict entries, h => by
    rw [toJsonable, update_jsonableEntries h.1]
    exact finite_leavesOfEntries_iff h.2

theorem finite_leavesOfItems_iff : ∀ {items : List Value}, DistinctItems items →
    ((∀ l ∈ leavesOfItems (toJsonables items), l.Finite) ↔ FiniteItems items)
  | [], _ => by simp [toJsonables, leavesOfItems, FiniteItems]
  | item :: items, h => by
    rw [toJsonables, leavesOfItems, List.forall_mem_append, finite_leaves_iff h.1, finite_leavesOfItems_iff h.2,
      FiniteItems]

theorem finite_leavesOfEntries_iff : ∀ {entries : List (Key × Value)}, DistinctEntries entries →
    ((∀ l ∈ leavesOfEntries (jsonableEntries entries), l.Finite) ↔ FiniteEntries entries)
  | [], _ => by simp [jsonableEntries, leavesOfEntries, FiniteEntries]
  | (key, value) :: entries, h => by
    rw [jsonableEntries, leavesOfEntries, List.forall_mem_append, finite_leaves_iff h.1, finite_leavesOfEntries_iff h.2,
      FiniteEntries]

end

/-! ### The fields -/

mutual

/-- The paths of the leaves of a JSON value. -/
def Jsonable.leafPaths : Jsonable → List Text → List (List Text)
  | .dict (entry :: entries), path => jsonablePaths (entry :: entries) path
  | _, path => [path]

def jsonablePaths : List (JsonKey × Jsonable) → List Text → List (List Text)
  | [], _ => []
  | (key, value) :: entries, path => value.leafPaths (path ++ [strKey key]) ++ jsonablePaths entries path

end

mutual

/-- The fields of a value: one for each path that leads to a leaf. -/
theorem keys_flattenLeaf : ∀ (v : Jsonable) (path : List Text), ((v.flattenLeaf path).map Prod.fst).Nodup ∧
    ∀ p, p ∈ (v.flattenLeaf path).map Prod.fst ↔ p ∈ v.leafPaths path
  | .leaf _, path => by simp [Jsonable.flattenLeaf, Jsonable.leafPaths]
  | .list _, path => by simp [Jsonable.flattenLeaf, Jsonable.leafPaths]
  | .dict [], path => by simp [Jsonable.flattenLeaf, Jsonable.leafPaths]
  | .dict (entry :: entries), path => by
    obtain ⟨hnodup, hmem⟩ := keys_flattenEntries (entry :: entries) path [] List.nodup_nil
    rw [Jsonable.flattenLeaf, Jsonable.leafPaths]
    exact ⟨hnodup, fun p => (hmem p).trans (by simp)⟩

theorem keys_flattenEntries : ∀ (entries : List (JsonKey × Jsonable)) (path : List Text)
    (found : List (List Text × Text)),
    (found.map Prod.fst).Nodup → ((flattenEntries entries path found).map Prod.fst).Nodup ∧
      ∀ p, p ∈ (flattenEntries entries path found).map Prod.fst ↔ p ∈ found.map Prod.fst ∨
        p ∈ jsonablePaths entries path
  | [], path, found, hfound => by simpa [flattenEntries, jsonablePaths] using hfound
  | (key, value) :: entries, path, found, hfound => by
    obtain ⟨-, hvalue⟩ := keys_flattenLeaf value (path ++ [strKey key])
    obtain ⟨hnodup, hmem⟩ := keys_flattenEntries entries path
      (Dict.update found (value.flattenLeaf (path ++ [strKey key])))
      (Dict.nodup_update hfound)
    rw [flattenEntries, jsonablePaths]
    refine ⟨hnodup, fun p => ?_⟩
    rw [hmem p, Dict.mem_keys_update, hvalue p, List.mem_append, or_assoc]

end

mutual

theorem leafPaths_toJsonable : ∀ {v : Value}, v.DistinctNames → ∀ path, (toJsonable v).leafPaths path = v.leafPaths path
  | .leaf _, _, _ => rfl
  | .bytes _, _, _ => rfl
  | .datetime _, _, _ => rfl
  | .uuid _, _, _ => rfl
  | .list _, _, _ => rfl
  | .dict [], _, _ => rfl
  | .dict ((key, value) :: entries), h, path => by
    rw [toJsonable, update_jsonableEntries h.1]
    exact jsonablePaths_jsonableEntries h.2 path

theorem jsonablePaths_jsonableEntries : ∀ {entries : List (Key × Value)}, DistinctEntries entries →
    ∀ path, jsonablePaths (jsonableEntries entries) path = entryPaths entries path
  | [], _, _ => rfl
  | (key, value) :: entries, h, path => by
    rw [jsonableEntries, jsonablePaths, leafPaths_toJsonable h.1, jsonablePaths_jsonableEntries h.2, entryPaths]
    rfl

end

/-- A list that has each member of another once is as long only if the other has no member twice. -/
theorem length_eq_iff_nodup {α : Type} [DecidableEq α] {once all : List α} (honce : once.Nodup)
    (hmem : ∀ a, a ∈ once ↔ a ∈ all) : once.length = all.length ↔ all.Nodup := by
  have hperm : once.Perm all.dedup :=
    (List.perm_ext_iff_of_nodup honce (List.nodup_dedup all)).mpr fun a => (hmem a).trans List.mem_dedup.symm
  rw [hperm.length_eq]
  constructor
  · intro hlength
    rw [← (List.dedup_sublist all).eq_of_length hlength]
    exact List.nodup_dedup all
  · intro hall
    rw [hall.dedup]

/-- A map is flattened to one field for each leaf where the paths are distinct. -/
theorem length_flattenValue {entries : List (Key × Value)} (h : (Value.dict entries).DistinctNames) :
    (toJsonable (.dict entries)).flattenValue.length = (entryPaths entries []).length ↔
      (entryPaths entries []).Nodup := by
  obtain ⟨hnodup, hmem⟩ := keys_flattenEntries (jsonableEntries entries) [] [] List.nodup_nil
  rw [toJsonable, update_jsonableEntries h.1, Jsonable.flattenValue, ← length_eq_iff_nodup hnodup, List.length_map]
  intro p
  rw [hmem p, jsonablePaths_jsonableEntries h.2]
  simp

/-- The JSON cell of a value has what the value has exactly where its numbers are finite and the names of each map are
distinct; and a map is flattened without loss exactly where the paths of its leaves are distinct, too. -/
theorem faithful_iff (v : Value) : FaithfulCell v ↔
    v.DistinctNames ∧ v.Finite ∧ ∀ entries, v = .dict entries → (entryPaths entries []).Nodup := by
  rcases read_encodeJson_nil (toJsonable v) with ⟨r, hread, rfl, hfinite⟩ | ⟨hread, hfinite⟩
  · constructor
    · rintro ⟨⟨r, hr, hmirrors⟩, hfields⟩
      obtain rfl := Option.some.inj (hread.symm.trans hr)
      have hdistinct := distinct_of_mirrors hmirrors
      refine ⟨hdistinct, (finite_leaves_iff hdistinct).mp hfinite, fun entries hv => ?_⟩
      subst hv
      exact (length_flattenValue hdistinct).mp (hfields entries rfl)
    · rintro ⟨hdistinct, -, hpaths⟩
      refine ⟨⟨_, hread, mirrors_raw hdistinct⟩, fun entries hv => ?_⟩
      subst hv
      exact (length_flattenValue hdistinct).mpr (hpaths entries rfl)
  · constructor
    · rintro ⟨⟨r, hr, -⟩, -⟩
      rw [compactJson, hread] at hr
      cases hr
    · rintro ⟨hdistinct, hnumbers, -⟩
      exact absurd ((finite_leaves_iff hdistinct).mpr hnumbers) hfinite

/-- A map with two entries, `true` and `null`. -/
def twoEntries (first second : Key) : Value := .dict [(first, .leaf (.bool true)), (second, .leaf .none)]

/-- `NaN` is written bare, `b"a"` and `"a"` are merged, `None` and `"null"` get one name, and so do `True` and `"True"`
as fields. -/
theorem unfaithful_values : ¬ FaithfulCell (.leaf (.float .nan)) ∧
    ¬ FaithfulCell (twoEntries (.bytes [97]) (.plain (.str [97]))) ∧
    ¬ FaithfulCell (twoEntries (.plain .none) (.plain (.str (codes ['n', 'u', 'l', 'l'])))) ∧
    ¬ FaithfulCell (twoEntries (.plain (.bool true)) (.plain (.str (codes ['T', 'r', 'u', 'e'])))) := by
  refine ⟨?_, ?_, ?_, ?_⟩
  · rintro ⟨⟨r, hr, -⟩, -⟩
    have hnone : read [] (compactJson (.leaf (.float .nan))) = none := by rfl
    rw [hnone] at hr
    cases hr
  · rintro ⟨⟨r, hr, hmirrors⟩, -⟩
    obtain rfl : _ = r := Option.some.inj hr
    exact hmirrors.2.2.2
  · rintro ⟨⟨r, hr, hmirrors⟩, -⟩
    obtain rfl : _ = r := Option.some.inj hr
    exact absurd hmirrors.1 (by decide)
  · rintro ⟨-, hfields⟩
    exact absurd (hfields _ rfl) (by decide)

end ServiceBusExtractor
