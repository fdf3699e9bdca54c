import ServiceBusExtractor.Registry
import ServiceBusExtractor.Text.Json

/-!
# From a JSON body to columns

How a JSON value becomes fields, a field's path a column name, and the fields of a
message a row of the table.

## The model

* `flattenLeaf`, `flattenValue` — a value as a dictionary from paths to cells.
* `PythonText` — what the naming takes from Python's libraries; `columnNameFor`,
  `pathHash` — the naming itself.
* `Implements codec py` — the codec of a row computes with these.
* `Reachable` — the registries that runs from an empty state come to.

## What is proved

* `mem_flattenValue`: the fields of an object are its leaves, each once.
* `split_eq`: what splitting gives, where the names of the fields are distinct.
-/

namespace ServiceBusExtractor

/-! ### Flattening -/

section Flatten

variable {T : Type} [DecidableEq T] (leafCell rootCell : Json T → T)

mutual

/-- `_flatten_leaf`: an object that has a field is expanded. -/
def flattenLeaf : Json T → List T → List (List T × T)
  | .obj (field :: fields), path => flattenFields (field :: fields) path []
  | v, path => [(path, leafCell v)]

/-- The fields of an object, one after the other, into the fields found so far. -/
def flattenFields : List (T × Json T) → List T → List (List T × T) → List (List T × T)
  | [], _, found => found
  | (key, value) :: fields, path, found =>
    flattenFields fields path (Dict.update found (flattenLeaf value (path ++ [key])))

end

/-- `flatten_value`: any root but an object is a single field. -/
def flattenValue : Json T → List (List T × T)
  | .obj fields => flattenFields leafCell fields [] []
  | v => [([], rootCell v)]

variable {leafCell rootCell}

/-- The fields of a value below a path: the leaves of the value, each once. -/
structure FlatAt (leafCell : Json T → T) (v : Json T) (path : List T) : Prop where
  nodup : ((flattenLeaf leafCell v path).map Prod.fst).Nodup
  mem : ∀ p c, (p, c) ∈ flattenLeaf leafCell v path ↔ ∃ rest leaf, v.Leaf rest leaf ∧ p = path ++ rest ∧
    c = leafCell leaf

/-- A field's paths begin with its key. -/
theorem FlatAt.below {v : Json T} {path : List T} (h : FlatAt leafCell v path) {p : List T}
    (hp : p ∈ (flattenLeaf leafCell v path).map Prod.fst) : path <+: p := by
  obtain ⟨⟨p, c⟩, hmem, rfl⟩ := List.mem_map.mp hp
  obtain ⟨rest, leaf, -, rfl, -⟩ := (h.mem p c).mp hmem
  exact List.prefix_append path rest

omit [DecidableEq T] in
/-- The key of a field is read off each of its paths. -/
theorem key_eq_of_below {path p : List T} {key key' : T} (h : path ++ [key] <+: p) (h' : path ++ [key'] <+: p) :
    key = key' := by
  obtain ⟨rest, rfl⟩ := h
  obtain ⟨rest', heq⟩ := h'
  rw [List.append_assoc, List.append_assoc, List.append_cancel_left_eq] at heq
  exact (List.cons.inj heq).1.symm

/-- Fields with distinct keys are added one after the other. -/
theorem flattenFields_eq {fields : List (T × Json T)} {path : List T} {found : List (List T × T)}
    (hkeys : (fields.map Prod.fst).Nodup) (hflat : ∀ field ∈ fields, FlatAt leafCell field.2 (path ++ [field.1]))
    (hfound : (found.map Prod.fst).Nodup)
    (hnew : ∀ p ∈ found.map Prod.fst, ∀ field ∈ fields, ¬ path ++ [field.1] <+: p) :
    flattenFields leafCell fields path found =
        found ++ fields.flatMap (fun field => flattenLeaf leafCell field.2 (path ++ [field.1])) ∧
      ((flattenFields leafCell fields path found).map Prod.fst).Nodup := by
  induction fields generalizing found with
  | nil => exact ⟨by simp [flattenFields], by simpa [flattenFields] using hfound⟩
  | cons field fields ih =>
    obtain ⟨key, value⟩ := field
    have hvalue := hflat (key, value) (by simp)
    have hnodup : ((found ++ flattenLeaf leafCell value (path ++ [key])).map Prod.fst).Nodup := by
      rw [List.map_append]
      refine hfound.append hvalue.nodup fun p hp hp' => ?_
      exact hnew p hp (key, value) (by simp) (hvalue.below hp')
    rw [List.map_cons, List.nodup_cons] at hkeys
    rw [flattenFields, Dict.update_of_nodup hnodup, List.flatMap_cons, ← List.append_assoc]
    refine ih hkeys.2 (fun f hf => hflat f (by simp [hf])) hnodup fun p hp f hf hbelow => ?_
    rw [List.map_append, List.mem_append] at hp
    rcases hp with hp | hp
    · exact hnew p hp f (by simp [hf]) hbelow
    · have hkey : key = f.1 := key_eq_of_below (hvalue.below hp) hbelow
      rw [hkey] at hkeys
      exact hkeys.1 (List.mem_map.mpr ⟨f, hf, rfl⟩)

omit [DecidableEq T] in
/-- The leaves of an object are the leaves of its fields. -/
theorem leaf_obj {fields : List (T × Json T)} {path : List T} {leaf : Json T} (hne : fields ≠ []) :
    (Json.obj fields).Leaf path leaf ↔ ∃ field ∈ fields, ∃ rest, path = field.1 :: rest ∧ field.2.Leaf rest leaf := by
  constructor
  · rintro (h | ⟨hmem, h⟩)
    · exact absurd h hne
    · exact ⟨_, hmem, _, rfl, h⟩
  · rintro ⟨⟨key, v⟩, hmem, rest, rfl, h⟩
    exact .field hmem h

theorem mem_flattenFields {fields : List (T × Json T)} {path : List T} (hkeys : (fields.map Prod.fst).Nodup)
    (hflat : ∀ field ∈ fields, FlatAt leafCell field.2 (path ++ [field.1])) (p : List T) (c : T) :
    (p, c) ∈ flattenFields leafCell fields path [] ↔ ∃ field ∈ fields, ∃ rest leaf,
      field.2.Leaf rest leaf ∧ p = path ++ field.1 :: rest ∧ c = leafCell leaf := by
  rw [(flattenFields_eq hkeys hflat (by simp) (by simp)).1, List.nil_append, List.mem_flatMap]
  constructor
  · rintro ⟨field, hfield, hmem⟩
    obtain ⟨rest, leaf, hleaf, rfl, rfl⟩ := ((hflat field hfield).mem p c).mp hmem
    exact ⟨field, hfield, rest, leaf, hleaf, by simp, rfl⟩
  · rintro ⟨field, hfield, rest, leaf, hleaf, rfl, rfl⟩
    exact ⟨field, hfield, ((hflat field hfield).mem _ _).mpr ⟨rest, leaf, hleaf, by simp, rfl⟩⟩

/-- By induction on the value: distinct keys give distinct paths. -/
theorem flatAt {v : Json T} (hv : v.Distinct) (path : List T) : FlatAt leafCell v path := by
  have hleaf : ∀ v : Json T, v.IsLeaf → ∀ path, FlatAt leafCell v path := by
    intro v hv path
    have heq : flattenLeaf leafCell v path = [(path, leafCell v)] := by
      cases v with
      | obj fields =>
        obtain rfl : fields = [] := hv
        simp [flattenLeaf]
      | _ => simp [flattenLeaf]
    refine ⟨by simp [heq], fun p c => ?_⟩
    rw [heq, List.mem_singleton, Prod.mk.injEq]
    constructor
    · rintro ⟨rfl, rfl⟩
      exact ⟨[], v, .here hv, by simp, rfl⟩
    · rintro ⟨rest, leaf, h, rfl, rfl⟩
      cases h with
      | here => simp
      | field hmem h =>
        obtain rfl := hv
        cases hmem
  induction hv generalizing path with
  | leaf hv => exact hleaf _ hv path
  | @obj fields hkeys _ ih =>
    cases fields with
    | nil =>
      have hnil : (Json.obj ([] : List (T × Json T))).IsLeaf := rfl
      exact hleaf _ hnil path
    | cons field fields =>
      have hflat : ∀ f ∈ field :: fields, FlatAt leafCell f.2 (path ++ [f.1]) := fun f hf => ih f hf _
      constructor
      · rw [flattenLeaf]
        exact (flattenFields_eq hkeys hflat (by simp) (by simp)).2
      · intro p c
        rw [flattenLeaf, mem_flattenFields hkeys hflat]
        constructor
        · rintro ⟨f, hf, rest, leaf, h, rfl, rfl⟩
          exact ⟨f.1 :: rest, leaf, .field hf h, rfl, rfl⟩
        · rintro ⟨rest, leaf, h, rfl, rfl⟩
          obtain ⟨f, hf, rest, rfl, hrest⟩ := (leaf_obj (by simp)).mp h
          exact ⟨f, hf, rest, leaf, hrest, rfl, rfl⟩

/-- The fields of an object are its leaves, each under its path, and no path is there twice. -/
theorem mem_flattenValue {fields : List (T × Json T)} (hv : (Json.obj fields).Distinct) :
    ((flattenValue leafCell rootCell (.obj fields)).map Prod.fst).Nodup ∧
      ∀ p c, (p, c) ∈ flattenValue leafCell rootCell (.obj fields) ↔
        p ≠ [] ∧ ∃ leaf, (Json.obj fields).Leaf p leaf ∧ c = leafCell leaf := by
  cases fields with
  | nil =>
    refine ⟨by simp [flattenValue, flattenFields], fun p c => ?_⟩
    constructor
    · intro h
      simp [flattenValue, flattenFields] at h
    · rintro ⟨hne, leaf, h, -⟩
      cases h with
      | here => exact absurd rfl hne
      | field hmem h => cases hmem
  | cons field fields =>
    have heq : flattenValue leafCell rootCell (.obj (field :: fields)) = flattenLeaf leafCell
        (.obj (field :: fields)) [] := by
      rw [flattenValue, flattenLeaf]
    have hflat : FlatAt leafCell (.obj (field :: fields)) [] := flatAt hv []
    rw [heq]
    refine ⟨hflat.nodup, fun p c => (hflat.mem p c).trans ?_⟩
    constructor
    · rintro ⟨rest, leaf, h, rfl, rfl⟩
      refine ⟨?_, leaf, h, rfl⟩
      rintro rfl
      obtain ⟨_, _, _, heq, _⟩ := (leaf_obj (by simp)).mp h
      cases heq
    · rintro ⟨-, leaf, h, rfl⟩
      exact ⟨p, leaf, h, rfl, rfl⟩

end Flatten

/-! ### Naming -/

/-- What the naming takes from Python's libraries. -/
structure PythonText where
  /-- The hexadecimal SHA-1 digest of some bytes. -/
  sha1 : List UInt8 → String
  /-- The compatibility decomposition of a text, without its combining marks. -/
  fold : String → String

def utf8 (text : String) : List UInt8 := text.toList.flatMap String.utf8EncodeChar

/-- A character a column name may hold; any other becomes `_`. -/
def columnNameChar (c : Char) : Bool := c.isAlphanum || c == '_'

/-- `column_name_for`. -/
def columnNameFor (py : PythonText) (path : JsonPath) : String :=
  if path = [] then "body_value"
  else
    let folded := (py.fold ("body_" ++ "_".intercalate path)).toList.map fun c => if columnNameChar c then c else '_'
    let name := (folded.reverse.dropWhile (· == '_')).reverse
    if name.length > maxColumnName then
      let digest := (py.sha1 (utf8 (JsonText.dumpStrings JsonText.escapeAscii path))).toList.take 8
      String.ofList (name.take 55 ++ '_' :: digest)
    else String.ofList name

/-- `path_hash`. -/
def pathHash (py : PythonText) (path : JsonPath) : String :=
  py.sha1 (utf8 (JsonText.dumpStrings JsonText.escapeChar path))

/-- `_leaf_cell`. -/
def leafCell : Json String → String
  | .null => ""
  | .bool true => "true"
  | .bool false => "false"
  | .int n => toString n
  | .number text => text
  | .str text => text
  | .arr items => String.ofList (Json.arr items).dump
  | .obj _ => "\x7b\x7d"

/-- The cell of a root that is not an object. -/
def rootCell (v : Json String) : String := String.ofList v.dump

/-- The codec names columns, hashes paths and writes `body_unmapped` cells as the program does. -/
structure Implements (codec : Codec) (py : PythonText) : Prop where
  names : codec.columnNameFor = columnNameFor py
  hashes : codec.pathHash = pathHash py
  text : codec.compactJson = JsonText.dumpObject

/-- A base name is never too long: a longer one is cut, and eight digits of its hash added. -/
theorem Implements.short {codec : Codec} {py : PythonText} (h : Implements codec py) : codec.Short := by
  intro path
  rw [h.names, columnNameFor]
  have hmax : maxColumnName = 64 := rfl
  split
  · decide
  · dsimp only
    split
    · rw [String.length_ofList, List.length_append, List.length_cons, List.length_take, List.length_take]
      omega
    · rw [String.length_ofList]
      omega

/-- The registries that runs from an empty state come to: one run registers paths, and the next starts from what it
saved. -/
inductive Reachable (codec : Codec) : FlattenRegistry → Prop where
  | empty : Reachable codec (.seed [] metadataColumnNames)
  | register {registry : FlattenRegistry} (path : JsonPath) : Reachable codec registry →
      Reachable codec (registry.register codec path)
  | nextRun {registry : FlattenRegistry} : Reachable codec registry →
      Reachable codec (.seed registry.toState metadataColumnNames)

theorem columnsValid_nil : ColumnsValid [] := by
  constructor <;> simp

theorem Reachable.valid {codec : Codec} (hcodec : codec.Short) {registry : FlattenRegistry}
    (h : Reachable codec registry) : RegistryValid registry := by
  induction h with
  | empty => exact registryValid_seed columnsValid_nil
  | register path _ ih => exact ih.register hcodec
  | nextRun _ ih => exact registryValid_seed ih.toState

/-! ### The names of a row -/

section Names

variable {codec : Codec} {registry : FlattenRegistry} {path : JsonPath} {paths : List JsonPath}

/-- What `register` returns. -/
def FlattenRegistry.registeredName (codec : Codec) (registry : FlattenRegistry) (path : JsonPath) : String :=
  match registry.byHash.lookup (codec.pathHash path), registry.provisional.lookup (codec.pathHash path) with
  | some name, _ => name
  | none, some name => name
  | none, none => registry.uniqueName codec path

/-- The name that `register` returned is the name the registry has for the path. -/
theorem nameOf_register (codec : Codec) (registry : FlattenRegistry) (path : JsonPath) :
    (registry.register codec path).nameOf codec path = some (registry.registeredName codec path) := by
  unfold FlattenRegistry.register FlattenRegistry.nameOf FlattenRegistry.registeredName
  cases hb : registry.byHash.lookup (codec.pathHash path) with
  | some name => simp [List.lookup_append, hb]
  | none =>
    cases hp : registry.provisional.lookup (codec.pathHash path) with
    | some name => simp [List.lookup_append, hb, hp]
    | none =>
      simp only [hb, hp, Option.isSome_none, Bool.or_self, Bool.false_eq_true, if_false]
      split <;> simp [List.lookup_append, hb, hp]

/-- What has a name keeps one. -/
theorem FlattenRegistry.Extends.known {more : FlattenRegistry} (h : registry.Extends more)
    (hknown : registry.Known codec path) : more.Known codec path := by
  rw [FlattenRegistry.Known, FlattenRegistry.nameOf, Dict.lookup_isSome, List.map_append, List.mem_append] at hknown ⊢
  rcases hknown with hmem | hmem
  · exact .inl ((h.byHash.map Prod.fst).subset hmem)
  · exact .inr ((h.provisional.map Prod.fst).subset hmem)

/-- Every registered path has a name. -/
theorem known_registerAll (hp : path ∈ paths) :
    (paths.foldl (FlattenRegistry.register codec) registry).Known codec path := by
  induction paths generalizing registry with
  | nil => cases hp
  | cons first rest ih =>
    rw [List.foldl_cons]
    rcases List.mem_cons.mp hp with rfl | hp
    · have hname : (registry.register codec path).Known codec path := by
        rw [FlattenRegistry.Known, nameOf_register]
        rfl
      exact (FlattenRegistry.extends_registerAll rest).known hname
    · exact ih hp

/-- The name of a field's column or key. -/
def fieldName (codec : Codec) (registry : FlattenRegistry) (path : JsonPath) : String :=
  (registry.nameOf codec path).getD ""

theorem mem_of_known (h : registry.Known codec path) :
    (codec.pathHash path, fieldName codec registry path) ∈ registry.byHash ++ registry.provisional := by
  obtain ⟨name, hname⟩ := Option.isSome_iff_exists.mp h
  rw [fieldName, hname]
  exact Dict.mem_of_lookup hname

/-- Paths with distinct hashes have distinct names. -/
theorem nodup_fieldName (hv : RegistryValid registry) (hpaths : paths.Nodup)
    (hknown : ∀ p ∈ paths, registry.Known codec p)
    (hhash : ∀ p ∈ paths, ∀ q ∈ paths, codec.pathHash p = codec.pathHash q → p = q) :
    (paths.map (fieldName codec registry)).Nodup := by
  refine List.Nodup.map_on (fun p hp q hq heq => hhash p hp q hq ?_) hpaths
  have hmem := mem_of_known (hknown q hq)
  rw [← heq] at hmem
  exact Dict.key_unique hv.names (mem_of_known (hknown p hp)) hmem

/-! ### Splitting -/

/-- The fields under their names. -/
def namedCells (codec : Codec) (registry : FlattenRegistry) (fields : List (JsonPath × String)) :
    List (String × String) :=
  fields.map fun field => (fieldName codec registry field.1, field.2)

/-- The field has a column of the input state. -/
def hasColumn (codec : Codec) (registry : FlattenRegistry) (field : JsonPath × String) : Bool :=
  codec.pathHash field.1 ∈ registry.inputOrder

/-- A field goes where its path belongs, under its name. -/
theorem place_eq (hv : RegistryValid registry) {values unmapped : List (String × String)} {field : JsonPath × String}
    (hknown : registry.Known codec field.1) : registry.place codec (values, unmapped) field =
      .ok (if hasColumn codec registry field then (assign (fieldName codec registry field.1) field.2 values, unmapped)
        else (values, assign (fieldName codec registry field.1) field.2 unmapped)) := by
  unfold FlattenRegistry.place hasColumn fieldName
  rw [FlattenRegistry.Known, FlattenRegistry.nameOf, List.lookup_append] at hknown
  rw [FlattenRegistry.nameOf, List.lookup_append]
  cases hb : registry.byHash.lookup (codec.pathHash field.1) with
  | some name =>
    simp only [Option.some_or, Option.getD_some, hb, decide_eq_true_eq]
    split <;> rfl
  | none =>
    have hnot : codec.pathHash field.1 ∉ registry.inputOrder :=
      fun hmem => Dict.lookup_eq_none.mp hb (hv.input _ hmem)
    cases hp : registry.provisional.lookup (codec.pathHash field.1) with
    | some name => simp [hnot, hb, hp]
    | none => simp [hb, hp] at hknown

/-- The fields with distinct names, each where it belongs and in its order. -/
theorem foldlM_place (hv : RegistryValid registry) {fields : List (JsonPath × String)}
    {values unmapped : List (String × String)} (hknown : ∀ field ∈ fields, registry.Known codec field.1)
    (hnodup : (((values ++ unmapped) ++ namedCells codec registry fields).map Prod.fst).Nodup) :
    fields.foldlM (registry.place codec) (values, unmapped) =
      .ok (values ++ namedCells codec registry (fields.filter (hasColumn codec registry)),
        unmapped ++ namedCells codec registry (fields.filter fun field => !hasColumn codec registry field)) := by
  induction fields generalizing values unmapped with
  | nil => simp [namedCells, pure, Except.pure]
  | cons field fields ih =>
    have hnew : fieldName codec registry field.1 ∉ (values ++ unmapped).map Prod.fst := by
      rw [namedCells, List.map_cons, List.map_append, List.nodup_append] at hnodup
      exact fun hmem => hnodup.2.2 _ hmem _ (by simp) rfl
    rw [List.map_append, List.mem_append, not_or] at hnew
    rw [List.foldlM_cons, place_eq hv (hknown field (by simp)), assign_eq_set, assign_eq_set,
      Dict.set_of_not_mem hnew.1, Dict.set_of_not_mem hnew.2]
    have hknown' : ∀ f ∈ fields, registry.Known codec f.1 := fun f hf => hknown f (by simp [hf])
    cases hcolumn : hasColumn codec registry field with
    | true =>
      have hnodup' : ((((values ++ [(fieldName codec registry field.1, field.2)]) ++ unmapped) ++
          namedCells codec registry fields).map Prod.fst).Nodup := by
        refine (List.Perm.nodup_iff ?_).mp hnodup
        refine List.Perm.map _ ?_
        simp only [namedCells, List.map_cons, List.append_assoc, List.singleton_append]
        exact List.Perm.append_left _ List.perm_middle
      show List.foldlM _ (values ++ [_], unmapped) fields = _
      rw [ih hknown' hnodup', List.filter_cons_of_pos hcolumn, List.filter_cons_of_neg (by simp [hcolumn])]
      simp [namedCells]
    | false =>
      have hnodup' : (((values ++ (unmapped ++ [(fieldName codec registry field.1, field.2)])) ++
          namedCells codec registry fields).map Prod.fst).Nodup := by
        simpa [namedCells] using hnodup
      show List.foldlM _ (values, unmapped ++ [_]) fields = _
      rw [ih hknown' hnodup', List.filter_cons_of_neg (by simp [hcolumn]), List.filter_cons_of_pos (by simp [hcolumn])]
      simp [namedCells]

/-- The text of the `body_unmapped` cell. -/
def unmappedText (codec : Codec) (entries : List (String × String)) : String :=
  if entries = [] then "" else codec.compactJson entries

/-- The field goes under a column of the input state: one that is recorded. -/
def ownsColumn (codec : Codec) (registry : FlattenRegistry) (field : JsonPath × String) : Bool :=
  (registry.byHash.lookup (codec.pathHash field.1)).isSome && hasColumn codec registry field

/-- The entries of the `body_unmapped` cell: every other field under its name. -/
def unmappedCells (codec : Codec) (registry : FlattenRegistry) (fields : List (JsonPath × String)) :
    List (String × String) :=
  Dict.update [] (namedCells codec registry (fields.filter fun field => !ownsColumn codec registry field))

/-- The fields without a column gather in the `body_unmapped` cell, in any registry that has a name for each. -/
theorem foldlM_place_unmapped {fields : List (JsonPath × String)}
    (hknown : ∀ field ∈ fields, registry.Known codec field.1) (values unmapped : List (String × String)) :
    ∃ values', fields.foldlM (registry.place codec) (values, unmapped) =
      .ok (values', Dict.update unmapped
        (namedCells codec registry (fields.filter fun field => !ownsColumn codec registry field))) := by
  induction fields generalizing values unmapped with
  | nil => exact ⟨values, rfl⟩
  | cons field fields ih =>
    have hfield : ∃ values', registry.place codec (values, unmapped) field = .ok (values',
        if ownsColumn codec registry field then unmapped
        else Dict.set (fieldName codec registry field.1) field.2 unmapped) := by
      have hname := hknown field (by simp)
      rw [FlattenRegistry.Known, FlattenRegistry.nameOf, List.lookup_append] at hname
      unfold FlattenRegistry.place ownsColumn hasColumn fieldName
      rw [FlattenRegistry.nameOf, List.lookup_append, ← assign_eq_set]
      cases hb : registry.byHash.lookup (codec.pathHash field.1) with
      | some name =>
        by_cases hinput : codec.pathHash field.1 ∈ registry.inputOrder
        · exact ⟨_, by simp [hb, hinput]; rfl⟩
        · exact ⟨_, by simp [hb, hinput]; rfl⟩
      | none =>
        cases hp : registry.provisional.lookup (codec.pathHash field.1) with
        | some name => exact ⟨_, by simp [hb, hp]; rfl⟩
        | none => simp [hb, hp] at hname
    obtain ⟨values', hplace⟩ := hfield
    obtain ⟨values'', hrest⟩ := ih (fun f hf => hknown f (by simp [hf])) values'
      (if ownsColumn codec registry field then unmapped
        else Dict.set (fieldName codec registry field.1) field.2 unmapped)
    refine ⟨values'', ?_⟩
    rw [List.foldlM_cons, hplace]
    refine hrest.trans ?_
    by_cases howns : ownsColumn codec registry field = true
    · rw [if_pos howns, List.filter_cons_of_neg (by simp [howns])]
    · rw [if_neg howns, List.filter_cons_of_pos (by simp [howns])]
      rfl

/-- Splitting is refused exactly where the `body_unmapped` cell is over the limit. -/
theorem split_tooLarge_iff {fields : List (JsonPath × String)}
    (hknown : ∀ field ∈ fields, registry.Known codec field.1) :
    registry.split codec fields = .error .tooLarge ↔
      cellLimitBytes < (unmappedText codec (unmappedCells codec registry fields)).utf8ByteSize := by
  obtain ⟨values, hplaced⟩ := foldlM_place_unmapped hknown [] []
  have hsplit : registry.split codec fields =
      if (unmappedText codec (unmappedCells codec registry fields)).utf8ByteSize > cellLimitBytes then .error .tooLarge
      else .ok (values, unmappedText codec (unmappedCells codec registry fields)) := by
    rw [FlattenRegistry.split, hplaced]
    rfl
  rw [hsplit]
  split
  · rename_i hlarge
    exact ⟨fun _ => hlarge, fun _ => rfl⟩
  · rename_i hsmall
    exact ⟨fun h => (by cases h), fun hlarge => absurd hlarge hsmall⟩

/-- What splitting gives: the cells of the input columns and the text of the others, unless that is too large. -/
theorem split_eq (hv : RegistryValid registry) {fields : List (JsonPath × String)}
    (hknown : ∀ field ∈ fields, registry.Known codec field.1)
    (hnodup : ((namedCells codec registry fields).map Prod.fst).Nodup) :
    let text := unmappedText codec
      (namedCells codec registry (fields.filter fun field => !hasColumn codec registry field))
    registry.split codec fields = if text.utf8ByteSize > cellLimitBytes then .error .tooLarge
      else .ok (namedCells codec registry (fields.filter (hasColumn codec registry)), text) := by
  intro text
  have hnodup' : ((([] ++ []) ++ namedCells codec registry fields).map Prod.fst).Nodup := by simpa using hnodup
  rw [FlattenRegistry.split, foldlM_place hv hknown hnodup']
  simp only [List.nil_append]
  rfl

end Names

end ServiceBusExtractor
