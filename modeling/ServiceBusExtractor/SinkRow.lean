import ServiceBusExtractor.FlattenedRow

/-!
# A row that was checked reaches the table

A flattened row is split twice: when its message is mapped, which may reject it,
and when it is written, after the other messages of the batch have registered
their paths in the same registry. The second time nothing may go wrong.

## The model

* `FlattenRegistry.Serves registry more` — `more` has, for each path the registry
  knows, what the registry has for it.

## What is proved

* `serves_registerAll`: registering more paths keeps what is known, for every
  registry, past the cap as well.
* `validated_row_fits`: a row that mapping accepted is written as it was checked,
  into columns of the table, and over no metadata column.
-/

namespace ServiceBusExtractor

section Serves

variable {codec : Codec} {registry more : FlattenRegistry} {path : JsonPath} {fields : List (JsonPath × String)}

/-- The registry has a name for the hash. -/
def FlattenRegistry.Named (registry : FlattenRegistry) (hash : String) : Prop :=
  ((registry.byHash ++ registry.provisional).lookup hash).isSome = true

/-- What the first registry has for the hashes it has a name for, the second one has as well. -/
structure FlattenRegistry.Serves (registry more : FlattenRegistry) : Prop where
  byHash : ∀ hash, registry.Named hash → more.byHash.lookup hash = registry.byHash.lookup hash
  provisional : ∀ hash, registry.Named hash → more.provisional.lookup hash = registry.provisional.lookup hash
  inputOrder : more.inputOrder = registry.inputOrder

namespace FlattenRegistry.Serves

theorem refl : registry.Serves registry := ⟨fun _ _ => rfl, fun _ _ => rfl, rfl⟩

theorem named (h : registry.Serves more) {hash : String} (hnamed : registry.Named hash) : more.Named hash := by
  rw [Named, List.lookup_append, h.byHash hash hnamed, h.provisional hash hnamed, ← List.lookup_append]
  exact hnamed

theorem trans {last : FlattenRegistry} (h : registry.Serves more) (h' : more.Serves last) : registry.Serves last :=
  ⟨fun hash hnamed => (h'.byHash hash (h.named hnamed)).trans (h.byHash hash hnamed),
    fun hash hnamed => (h'.provisional hash (h.named hnamed)).trans (h.provisional hash hnamed),
    h'.inputOrder.trans h.inputOrder⟩

end FlattenRegistry.Serves

/-- A new entry under another key changes no lookup. -/
theorem lookup_concat_of_ne {entries : List (String × String)} {key other name : String} (h : key ≠ other) :
    (entries ++ [(other, name)]).lookup key = entries.lookup key := by
  have hne : (key == other) = false := by simpa using h
  rw [List.lookup_append, List.lookup_cons, hne]
  cases entries.lookup key <;> rfl

/-- Registering a path keeps what is known: a new path has another hash. -/
theorem serves_register (path : JsonPath) : registry.Serves (registry.register codec path) := by
  rcases registry.register_cases codec path with ⟨-, heq⟩ | ⟨hnew, ⟨-, heq⟩ | ⟨-, heq⟩⟩
  · rw [heq]
    exact .refl
  all_goals
    have hne : ∀ hash, registry.Named hash → hash ≠ codec.pathHash path := by
      rintro _ hnamed rfl
      exact hnew hnamed
    rw [heq]
  · exact ⟨fun _ _ => rfl, fun hash hnamed => lookup_concat_of_ne (hne hash hnamed), rfl⟩
  · exact ⟨fun hash hnamed => lookup_concat_of_ne (hne hash hnamed), fun _ _ => rfl, rfl⟩

theorem serves_registerAll (paths : List JsonPath) :
    registry.Serves (paths.foldl (FlattenRegistry.register codec) registry) := by
  induction paths generalizing registry with
  | nil => exact .refl
  | cons path paths ih => exact (serves_register path).trans ih

/-- A registered path is known. -/
theorem known_register : (registry.register codec path).Known codec path := by
  rw [FlattenRegistry.Known, nameOf_register]
  rfl

theorem known_of_registered {paths : List JsonPath} (h : path ∈ paths) :
    (paths.foldl (FlattenRegistry.register codec) registry).Known codec path := by
  induction paths generalizing registry with
  | nil => cases h
  | cons first rest ih =>
    rw [List.foldl_cons]
    rcases List.mem_cons.mp h with rfl | h
    · exact (serves_registerAll rest).named known_register
    · exact ih h

/-- Splitting fields that are known gives the same later on. -/
theorem FlattenRegistry.Serves.split (h : registry.Serves more)
    (hknown : ∀ field ∈ fields, registry.Known codec field.1) :
    more.split codec fields = registry.split codec fields := by
  have hplace : ∀ cells, fields.foldlM (more.place codec) cells = fields.foldlM (registry.place codec) cells := by
    intro cells
    induction fields generalizing cells with
    | nil => rfl
    | cons field fields ih =>
      have hfield := hknown field (by simp)
      have hone : more.place codec cells field = registry.place codec cells field := by
        rw [FlattenRegistry.place, FlattenRegistry.place, h.byHash _ hfield, h.provisional _ hfield, h.inputOrder]
      rw [List.foldlM_cons, List.foldlM_cons, hone]
      refine bind_congr fun cells' => ?_
      exact ih (fun f hf => hknown f (by simp [hf])) cells'
  rw [FlattenRegistry.split, FlattenRegistry.split, hplace]

/-- The keys of a dictionary with one more set. -/
theorem mem_assign {key name value : String} {cells : List (String × String)} :
    name ∈ (assign key value cells).map Prod.fst ↔ name = key ∨ name ∈ cells.map Prod.fst := by
  induction cells with
  | nil => simp [assign]
  | cons cell cells ih =>
    obtain ⟨k, v⟩ := cell
    rw [assign]
    by_cases hk : k = key
    · rw [if_pos hk, hk]
      simp
    · rw [if_neg hk, List.map_cons, List.mem_cons, ih, List.map_cons, List.mem_cons]
      exact or_left_comm

/-- A field that is placed in a column is placed in an input column. -/
theorem place_values {cells cells' : List (String × String) × List (String × String)} {field : JsonPath × String}
    (h : registry.place codec cells field = .ok cells') {name : String} (hname : name ∈ cells'.1.map Prod.fst) :
    name ∈ cells.1.map Prod.fst ∨ name ∈ registry.inputColumns := by
  unfold FlattenRegistry.place at h
  dsimp only at h
  split at h
  · rename_i column hcolumn
    split at h
    · rename_i hinput
      obtain rfl := Except.ok.inj h
      rcases mem_assign.mp hname with rfl | hname
      · refine .inr (List.mem_map.mpr ⟨_, hinput, ?_⟩)
        rw [hcolumn]
        rfl
      · exact .inl hname
    · obtain rfl := Except.ok.inj h
      exact .inl hname
  · obtain rfl := Except.ok.inj h
    exact .inl hname
  · cases h

/-- The cells of a split row are in input columns. -/
theorem split_values {values : List (String × String)} {text : String}
    (h : registry.split codec fields = .ok (values, text)) {name : String} (hname : name ∈ values.map Prod.fst) :
    name ∈ registry.inputColumns := by
  have hplace : ∀ (fields : List (JsonPath × String)) (cells cells' : List (String × String) × List (String × String)),
      fields.foldlM (registry.place codec) cells = .ok cells' → ∀ name ∈ cells'.1.map Prod.fst,
        name ∈ cells.1.map Prod.fst ∨ name ∈ registry.inputColumns := by
    intro fields
    induction fields with
    | nil =>
      intro cells cells' h name hname
      obtain rfl := Except.ok.inj h
      exact .inl hname
    | cons field fields ih =>
      intro cells cells' h name hname
      rw [List.foldlM_cons] at h
      cases hone : registry.place codec cells field with
      | error e =>
        rw [hone] at h
        cases h
      | ok between =>
        rw [hone] at h
        rcases ih between cells' h name hname with hname | hname
        · exact place_values hone hname
        · exact .inr hname
  unfold FlattenRegistry.split at h
  cases hcells : fields.foldlM (registry.place codec) ([], []) with
  | error e =>
    rw [hcells] at h
    cases h
  | ok cells =>
    rw [hcells] at h
    change (if (unmappedText codec cells.2).utf8ByteSize > cellLimitBytes then _ else _) = _ at h
    split at h
    · cases h
    · obtain ⟨rfl, -⟩ := Prod.mk.inj (Except.ok.inj h)
      rcases hplace fields ([], []) cells hcells name hname with hname | hname
      · cases hname
      · exact hname

/-- Each column of the state has its name at the start of a run. -/
theorem named_seed {columns : List FlattenColumn} {reserved : List String} :
    ∀ hash ∈ (FlattenRegistry.seed columns reserved).inputOrder,
      (FlattenRegistry.seed columns reserved).Named hash := by
  have hkeys : ∀ (columns : List FlattenColumn) (byHash : List (String × String)), ∀ hash,
      hash ∈ byHash.map Prod.fst ∨ hash ∈ columns.map FlattenColumn.pathSha1 →
        hash ∈ (columns.foldl (fun byHash entry => assign entry.pathSha1 entry.column byHash) byHash).map Prod.fst := by
    intro columns
    induction columns with
    | nil =>
      intro byHash hash h
      exact h.resolve_right (List.not_mem_nil)
    | cons entry columns ih =>
      intro byHash hash h
      refine ih _ hash ?_
      rw [List.map_cons, List.mem_cons] at h
      rw [mem_assign]
      tauto
  intro hash hhash
  rw [FlattenRegistry.Named, List.lookup_append, Option.isSome_or, Bool.or_eq_true]
  exact .inl (Dict.lookup_isSome.mpr (hkeys columns [] hash (.inr hhash)))

/-- An input column at the start of a run is a name the registry has recorded. -/
theorem mem_byHash_of_inputColumns {columns : List FlattenColumn} {reserved : List String} {name : String}
    (h : name ∈ (FlattenRegistry.seed columns reserved).inputColumns) :
    ∃ hash, (hash, name) ∈ (FlattenRegistry.seed columns reserved).byHash := by
  obtain ⟨hash, hhash, rfl⟩ := List.mem_map.mp h
  have hnamed := named_seed hash hhash
  have hprovisional : (FlattenRegistry.seed columns reserved).provisional = [] := rfl
  rw [FlattenRegistry.Named, hprovisional, List.append_nil] at hnamed
  obtain ⟨name, hname⟩ := Option.isSome_iff_exists.mp hnamed
  rw [hname]
  exact ⟨hash, Dict.mem_of_lookup hname⟩

/-- The values of a dictionary with one more set. -/
theorem mem_values_assign {key value other : String} {cells : List (String × String)}
    (h : other ∈ (assign key value cells).map Prod.snd) : other = value ∨ other ∈ cells.map Prod.snd := by
  induction cells with
  | nil => exact .inl (by simpa [assign] using h)
  | cons cell cells ih =>
    rw [assign] at h
    split at h
    · rw [List.map_cons, List.mem_cons] at h ⊢
      exact h.imp id .inr
    · rw [List.map_cons, List.mem_cons] at h ⊢
      rcases h with h | h
      · exact .inr (.inl h)
      · exact (ih h).imp id .inr

/-- The recorded names at the start of a run are in the state. -/
theorem mem_columns_of_byHash {columns : List FlattenColumn} {reserved : List String} {name : String}
    (h : name ∈ (FlattenRegistry.seed columns reserved).byHash.map Prod.snd) :
    name ∈ columns.map FlattenColumn.column := by
  have hvalues : ∀ (columns : List FlattenColumn) (byHash : List (String × String)),
      name ∈ (columns.foldl (fun byHash entry => assign entry.pathSha1 entry.column byHash) byHash).map Prod.snd →
        name ∈ byHash.map Prod.snd ∨ name ∈ columns.map FlattenColumn.column := by
    intro columns
    induction columns with
    | nil =>
      intro byHash h
      exact .inl h
    | cons entry columns ih =>
      intro byHash h
      rw [List.map_cons, List.mem_cons]
      rcases ih _ h with h | h
      · rcases mem_values_assign h with h | h
        · exact .inr (.inl h)
        · exact .inl h
      · exact .inr (.inr h)
  exact (hvalues columns [] h).resolve_left List.not_mem_nil

/-- The input columns stay what they were when the table was opened. -/
theorem FlattenRegistry.Serves.inputColumns (h : registry.Serves more)
    (hinput : ∀ hash ∈ registry.inputOrder, registry.Named hash) :
    more.inputColumns = registry.inputColumns := by
  rw [FlattenRegistry.inputColumns, FlattenRegistry.inputColumns, h.inputOrder]
  exact List.map_congr_left fun hash hhash => by rw [h.byHash hash (hinput hash hhash)]

end Serves

/-! ### The row in the table -/

/-- The row is written as it was checked: the same cells, each in a column of the table, and the metadata beside
them. -/
structure WrittenAs (row : Row) (opened sink : FlattenRegistry) (output : OutputRow) (fields : List (JsonPath × String))
    (values : List (String × String)) (text : String) : Prop where
  split : sink.split row.codec fields = .ok (values, text)
  record : rowRecord row (some sink) output = .ok ⟨output.metadata, assign unmappedColumn text values⟩
  header : ∃ header, fixedColumns row (some opened) = .ok header ∧ metadataColumnNames ⊆ header ∧
    (assign unmappedColumn text values).map Prod.fst ⊆ header

/-- What mapping a row has checked, where it accepted it. -/
theorem mapRow_accepted {row : Row} {registry : FlattenRegistry} {message : Message} {t : Time} {output : OutputRow}
    {size : ℕ} {fields : List (JsonPath × String)} (hfields : output.content = .fields fields)
    (hmap : (mapRow row (some registry) message t).1 = .ok (.ok (output, size))) :
    ∃ values text, (mapRow row (some registry) message t).2 =
        some ((fields.map Prod.fst).foldl (FlattenRegistry.register row.codec) registry) ∧
      ((fields.map Prod.fst).foldl (FlattenRegistry.register row.codec) registry).split row.codec fields =
        .ok (values, text) := by
  unfold mapRow at hmap ⊢
  cases hencoded : row.codec.encodeBody message row.config.body.bodyFormat with
  | error e =>
    rw [hencoded] at hmap
    cases e <;> cases hmap
  | ok encoded =>
    rw [hencoded] at hmap
    dsimp only at hmap ⊢
    cases hcontent : encoded.content with
    | cell text =>
      rw [hcontent] at hmap
      cases hmap
      cases hfields
    | fields found =>
      rw [hcontent] at hmap
      dsimp only at hmap ⊢
      cases hsplit : ((found.map Prod.fst).foldl (FlattenRegistry.register row.codec) registry).split row.codec
        found with
      | error e =>
        rw [hsplit] at hmap
        cases e <;> cases hmap
      | ok cells =>
        rw [hsplit] at hmap
        obtain ⟨rfl, -⟩ := Prod.mk.inj (Except.ok.inj (Except.ok.inj hmap))
        obtain rfl : found = fields := EncodedContent.fields.inj hfields
        exact ⟨cells.1, cells.2, rfl, hsplit⟩

/-- A row that mapping accepted cannot fail in the table. For every state the run started from, all paths registered
since the table was opened and all paths registered after the row was checked: the second split gives what the first
one gave, the record has only columns of the header, and none of its cells is a metadata column unless the state
itself has one of that name, which no state that runs have saved does. -/
theorem validated_row_fits {row : Row} {py : PythonText} (hcodec : Implements row.codec py)
    (hformat : row.config.body.bodyFormat = .jsonFlatten) (columns : List FlattenColumn) (earlier : List JsonPath)
    {message : Message} {t : Time} {output : OutputRow} {size : ℕ} {fields : List (JsonPath × String)}
    (hfields : output.content = .fields fields) :
    let opened := FlattenRegistry.seed columns metadataColumnNames
    let before := earlier.foldl (FlattenRegistry.register row.codec) opened
    (mapRow row (some before) message t).1 = .ok (.ok (output, size)) →
    ∃ accepted values text, (mapRow row (some before) message t).2 = some accepted ∧
      accepted.split row.codec fields = .ok (values, text) ∧
      (∀ later : List JsonPath,
        WrittenAs row opened (later.foldl (FlattenRegistry.register row.codec) accepted) output fields values text) ∧
      (∀ name ∈ (assign unmappedColumn text values).map Prod.fst, name ∈ metadataColumnNames →
        name ∈ columns.map FlattenColumn.column) ∧
      (Reachable row.codec opened → ∀ name ∈ (assign unmappedColumn text values).map Prod.fst,
        name ∉ metadataColumnNames) := by
  intro opened before hmap
  obtain ⟨values, text, hregistry, hsplit⟩ := mapRow_accepted hfields hmap
  refine ⟨_, values, text, hregistry, hsplit, ?_, ?_, ?_⟩
  all_goals
    have hserves : opened.Serves ((fields.map Prod.fst).foldl (FlattenRegistry.register row.codec) before) :=
      (serves_registerAll earlier).trans (serves_registerAll _)
    have hcolumns := hserves.inputColumns named_seed
    have hnames : ∀ name ∈ (assign unmappedColumn text values).map Prod.fst,
        name = unmappedColumn ∨ name ∈ opened.inputColumns := by
      intro name hname
      rw [← hcolumns]
      exact (mem_assign.mp hname).imp id fun hvalue => split_values hsplit hvalue
  · intro later
    have hknown : ∀ field ∈ fields,
        ((fields.map Prod.fst).foldl (FlattenRegistry.register row.codec) before).Known row.codec field.1 :=
      fun field hfield => known_of_registered (List.mem_map_of_mem hfield)
    have hlater := (@serves_registerAll row.codec _ later).split hknown
    rw [hsplit] at hlater
    refine ⟨hlater, ?_, metadataColumnNames ++ opened.inputColumns ++ [unmappedColumn], ?_, ?_, fun name hname => ?_⟩
    · unfold rowRecord
      rw [hformat]
      dsimp only
      rw [hfields]
      dsimp only
      rw [hlater]
    · unfold fixedColumns
      rw [hformat]
    · rw [List.append_assoc]
      exact List.subset_append_left _ _
    · rcases hnames name hname with rfl | hname
      · exact List.mem_append_right _ (List.mem_singleton_self _)
      · exact List.mem_append_left _ (List.mem_append_right _ hname)
  · intro name hname hmeta
    rcases hnames name hname with rfl | hname
    · exact absurd hmeta (by decide)
    · obtain ⟨hash, hmem⟩ := mem_byHash_of_inputColumns hname
      exact mem_columns_of_byHash (List.mem_map_of_mem hmem)
  · intro hreachable name hname hmeta
    rcases hnames name hname with rfl | hname
    · exact absurd hmeta (by decide)
    · obtain ⟨hash, hmem⟩ := mem_byHash_of_inputColumns hname
      exact ((hreachable.valid hcodec.short).free _ (List.mem_append_left _ hmem)).1 hmeta

/-- A message whose body is an object with the field `a`. -/
def fieldMessage : Message where
  sequenceNumber := 1
  body := jsonBody [("a", "x")]

/-- A state with a column for that field. -/
def fieldColumns : List FlattenColumn := [⟨"6b38d42036dacdcf081b8d1d0ee0c97b407c56c6", "body_a"⟩]

/-- The message's row, and another path registered after it. -/
theorem validated_row_fits_one :
    let opened := FlattenRegistry.seed fieldColumns metadataColumnNames
    let output : OutputRow := ⟨messageMetadata flattenRow fieldMessage 0, .fields [(["a"], "x")]⟩
    ∃ accepted values text, (mapRow flattenRow (some opened) fieldMessage 0).2 = some accepted ∧
      WrittenAs flattenRow opened (accepted.register flattenCodec ["b", "c"]) output [(["a"], "x")] values text := by
  intro opened output
  obtain ⟨accepted, values, text, hregistry, -, hlater, -⟩ :=
    @validated_row_fits flattenRow _ implements_flattenCodec rfl
    fieldColumns [] fieldMessage 0 output 9 [(["a"], "x")] rfl (by decide +kernel)
  exact ⟨accepted, values, text, hregistry, hlater [["b", "c"]]⟩

end ServiceBusExtractor
