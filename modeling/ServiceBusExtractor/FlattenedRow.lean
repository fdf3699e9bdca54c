import ServiceBusExtractor.Frame
import ServiceBusExtractor.Script

/-!
# The row of a flattened body

What mapping a message does to its row and to the flatten registry, where the body
is an object.

## The model

* `HasEachField` — the record has each field of the body once.
* `LeavesRegistry` — mapping the message cannot end in a rejection that has
  registered something.

## What is proved

* `flatten_loses_nothing`: the row of a flattened object has each of its leaves.
* `rejected_leaves_registry`: when a rejected message leaves the registry as it was.
-/

namespace ServiceBusExtractor

/-! ### The row of a flattened object -/

/-- The entries a `body_unmapped` cell stands for. -/
def unmappedEntries (text : String) : Option (List (String × String)) :=
  if text = "" then some [] else JsonText.loadObject text

theorem unmappedEntries_text {codec : Codec} (hcodec : codec.compactJson = JsonText.dumpObject)
    (entries : List (String × String)) : unmappedEntries (unmappedText codec entries) = some entries := by
  unfold unmappedEntries unmappedText
  split
  · rename_i h
    simp [h]
  · rename_i h
    have hne : codec.compactJson entries ≠ "" := by
      rw [hcodec]
      intro hnil
      have := congrArg String.length hnil
      simp [JsonText.dumpObject] at this
    rw [if_neg hne, hcodec, JsonText.loadObject_dumpObject]

/-- The record has each field once: the fields with a column under it, and the others, under their names, in the
`body_unmapped` cell. -/
structure HasEachField (codec : Codec) (registry : FlattenRegistry) (fields : List (JsonPath × String))
    (metadata : Metadata) (record : Record) : Prop where
  cells : ∃ text, record = ⟨metadata,
      namedCells codec registry (fields.filter (hasColumn codec registry)) ++ [(unmappedColumn, text)]⟩ ∧
    unmappedEntries text = some (namedCells codec registry (fields.filter fun field => !hasColumn codec registry field))
  named : ∀ field ∈ fields, registry.nameOf codec field.1 = some (fieldName codec registry field.1)
  distinct : ((namedCells codec registry fields).map Prod.fst).Nodup
  free : ∀ name ∈ (namedCells codec registry fields).map Prod.fst, name ∉ metadataColumnNames ∧ name ≠ unmappedColumn
  columns : ∀ field ∈ fields, hasColumn codec registry field = true →
    fieldName codec registry field.1 ∈ registry.inputColumns

/-- Flattening loses nothing: for every object with distinct keys and every registry that runs come to, once the paths
of the object's leaves are registered, the row has each leaf once, unless its `body_unmapped` cell is too large. -/
theorem flatten_loses_nothing {row : Row} {py : PythonText} (hcodec : Implements row.codec py)
    (hformat : row.config.body.bodyFormat = .jsonFlatten) {registry : FlattenRegistry}
    (hr : Reachable row.codec registry) {object : List (String × Json String)} (hv : (Json.obj object).Distinct)
    (hsha : ∀ p q leaf leaf', (Json.obj object).Leaf p leaf → (Json.obj object).Leaf q leaf' →
      row.codec.pathHash p = row.codec.pathHash q → p = q) :
    let fields := flattenValue leafCell rootCell (.obj object)
    let after := (fields.map Prod.fst).foldl (FlattenRegistry.register row.codec) registry
    (∀ p c, (p, c) ∈ fields ↔ p ≠ [] ∧ ∃ leaf, (Json.obj object).Leaf p leaf ∧ c = leafCell leaf) ∧
    (fields.map Prod.fst).Nodup ∧
    (∀ before p later, fields.map Prod.fst = before ++ p :: later → after.nameOf row.codec p =
      some ((before.foldl (FlattenRegistry.register row.codec) registry).registeredName row.codec p)) ∧
    ∀ metadata, (∃ record, rowRecord row (some after) ⟨metadata, .fields fields⟩ = .ok record ∧
        HasEachField row.codec after fields metadata record) ∨
      (unmappedText row.codec (namedCells row.codec after
          (fields.filter fun field => !hasColumn row.codec after field))).utf8ByteSize > cellLimitBytes := by
  intro fields after
  obtain ⟨hnodup, hmem⟩ := @mem_flattenValue _ _ leafCell rootCell object hv
  have hvalid := hr.valid hcodec.short
  have hafter : RegistryValid after := hvalid.registerAll hcodec.short _
  have hknown : ∀ field ∈ fields, after.Known row.codec field.1 :=
    fun field hfield => known_registerAll (List.mem_map_of_mem hfield)
  have hleaf : ∀ p ∈ fields.map Prod.fst, ∃ leaf, (Json.obj object).Leaf p leaf := by
    intro p hp
    obtain ⟨⟨p, c⟩, hpc, rfl⟩ := List.mem_map.mp hp
    obtain ⟨-, leaf, h, -⟩ := (hmem p c).mp hpc
    exact ⟨leaf, h⟩
  have hnames : ((namedCells row.codec after fields).map Prod.fst).Nodup := by
    have heq : (namedCells row.codec after fields).map Prod.fst = (fields.map Prod.fst).map
        (fieldName row.codec after) := by
      rw [namedCells, List.map_map, List.map_map]
      rfl
    rw [heq]
    refine nodup_fieldName hafter hnodup (fun p hp => known_registerAll hp) fun p hp q hq heq => ?_
    obtain ⟨leaf, hp⟩ := hleaf p hp
    obtain ⟨leaf', hq⟩ := hleaf q hq
    exact hsha p q leaf leaf' hp hq heq
  have hfree : ∀ field ∈ fields, fieldName row.codec after field.1 ∉ metadataColumnNames ∧
      fieldName row.codec after field.1 ≠ unmappedColumn :=
    fun field hfield => hafter.free _ (mem_of_known (hknown field hfield))
  refine ⟨hmem, hnodup, fun before p later heq => ?_, fun metadata => ?_⟩
  · have hsplit : after = later.foldl (FlattenRegistry.register row.codec)
        ((before.foldl (FlattenRegistry.register row.codec) registry).register row.codec p) := by
      show (fields.map Prod.fst).foldl _ registry = _
      rw [heq, List.foldl_append, List.foldl_cons]
    rw [hsplit] at hafter ⊢
    exact (FlattenRegistry.extends_registerAll later).nameOf hafter (nameOf_register row.codec _ p)
  · have hsplit := split_eq hafter hknown hnames
    dsimp only at hsplit
    split at hsplit
    · rename_i hlarge
      exact .inr hlarge
    · refine .inl ⟨_, ?_, ⟨_, rfl, unmappedEntries_text hcodec.text _⟩, fun field hfield => ?_, hnames, ?_, ?_⟩
      · have hnew : unmappedColumn ∉
            (namedCells row.codec after (fields.filter (hasColumn row.codec after))).map Prod.fst := by
          intro hin
          obtain ⟨cell, hcell, hname⟩ := List.mem_map.mp hin
          obtain ⟨field, hfield, rfl⟩ := List.mem_map.mp hcell
          exact (hfree field (List.mem_filter.mp hfield).1).2 hname
        unfold rowRecord
        rw [hformat]
        dsimp only
        rw [hsplit]
        dsimp only
        rw [assign_eq_set, Dict.set_of_not_mem hnew]
      · obtain ⟨name, hname⟩ := Option.isSome_iff_exists.mp (hknown field hfield)
        rw [fieldName, hname]
        rfl
      · intro name hname
        obtain ⟨cell, hcell, rfl⟩ := List.mem_map.mp hname
        obtain ⟨field, hfield, rfl⟩ := List.mem_map.mp hcell
        exact hfree field hfield
      · intro field hfield hcolumn
        have hinput : row.codec.pathHash field.1 ∈ after.inputOrder := by simpa [hasColumn] using hcolumn
        refine List.mem_map.mpr ⟨_, hinput, ?_⟩
        obtain ⟨entry, hentry, hhash⟩ := List.mem_map.mp (hafter.input _ hinput)
        have hlookup : after.byHash.lookup (row.codec.pathHash field.1) = some entry.2 := by
          refine Dict.lookup_of_mem ?_ (hhash ▸ hentry)
          have := hafter.hashes
          rw [List.map_append, List.nodup_append] at this
          exact this.1
        rw [fieldName, FlattenRegistry.nameOf, List.lookup_append, hlookup]
        rfl

/-- An object with two leaves, from an empty state: its row has both. -/
theorem flatten_loses_nothing_two :
    let fields := flattenValue leafCell rootCell (.obj [("a", .str "x"), ("b", .obj [("c", .int 1)])])
    let after := (fields.map Prod.fst).foldl (FlattenRegistry.register flattenCodec) (.seed [] metadataColumnNames)
    fields = [(["a"], "x"), (["b", "c"], "1")] ∧ ∀ metadata,
      (∃ record, rowRecord flattenRow (some after) ⟨metadata, .fields fields⟩ = .ok record ∧
        HasEachField flattenCodec after fields metadata record) ∨
      (unmappedText flattenCodec (namedCells flattenCodec after
          (fields.filter fun field => !hasColumn flattenCodec after field))).utf8ByteSize > cellLimitBytes := by
  have hv : (Json.obj [("a", .str "x"), ("b", .obj [("c", .int 1)])] : Json String).Distinct := by
    refine .obj (by decide) fun field hfield => ?_
    rcases List.mem_cons.mp hfield with rfl | hfield
    · exact .leaf trivial
    · obtain rfl := List.mem_singleton.mp hfield
      refine .obj (by decide) fun field hfield => ?_
      obtain rfl := List.mem_singleton.mp hfield
      exact .leaf trivial
  have hpaths : ∀ p leaf, (Json.obj [("a", .str "x"), ("b", .obj [("c", .int 1)])] : Json String).Leaf p leaf →
      p = ["a"] ∨ p = ["b", "c"] := by
    intro p leaf h
    have hne : p ≠ [] := by
      rintro rfl
      obtain ⟨_, _, _, ⟨⟩, _⟩ := (leaf_obj (by simp)).mp h
    have hmem := ((@mem_flattenValue _ _ leafCell rootCell _ hv).2 p _).mpr ⟨hne, leaf, h, rfl⟩
    have hfields : flattenValue leafCell rootCell (.obj [("a", .str "x"), ("b", .obj [("c", .int 1)])]) =
        [(["a"], "x"), (["b", "c"], "1")] := by decide +kernel
    rw [hfields] at hmem
    simp only [List.mem_cons, Prod.mk.injEq, List.not_mem_nil, or_false] at hmem
    tauto
  have hsha : flattenCodec.pathHash ["a"] ≠ flattenCodec.pathHash ["b", "c"] := by decide +kernel
  refine ⟨by decide +kernel, (@flatten_loses_nothing flattenRow _ implements_flattenCodec rfl _ .empty _ hv ?_).2.2.2⟩
  intro p q leaf leaf' hp hq heq
  rcases hpaths p leaf hp with rfl | rfl <;> rcases hpaths q leaf' hq with rfl | rfl
  · rfl
  · exact absurd heq hsha
  · exact absurd heq.symm hsha
  · rfl

/-! ### A rejected message -/

/-- The body does not decode or is a single cell, or each of its paths has a name already, or the text of its
`body_unmapped` cell, under the names its paths are registered with, has at most `cellLimitBytes` bytes. -/
def LeavesRegistry (row : Row) (registry : Option FlattenRegistry) (message : Message) : Prop :=
  ∀ encoded fields known, row.codec.encodeBody message row.config.body.bodyFormat = .ok encoded →
    encoded.content = .fields fields → registry = some known →
      (∀ path ∈ fields.map Prod.fst, known.Known row.codec path) ∨
        (unmappedText row.codec (unmappedCells row.codec
          ((fields.map Prod.fst).foldl (FlattenRegistry.register row.codec) known)
            fields)).utf8ByteSize ≤ cellLimitBytes

section Rejected

variable {codec : Codec} {registry : FlattenRegistry} {paths : List JsonPath}

theorem length_taken_le_registerAll (paths : List JsonPath) :
    registry.taken.length ≤ (paths.foldl (FlattenRegistry.register codec) registry).taken.length := by
  induction paths generalizing registry with
  | nil => exact Nat.le_refl _
  | cons path paths ih => exact FlattenRegistry.length_taken_le_register.trans ih

/-- Registering paths changes nothing exactly where each of them has a name. -/
theorem registerAll_eq_self :
    paths.foldl (FlattenRegistry.register codec) registry = registry ↔ ∀ path ∈ paths, registry.Known codec path := by
  induction paths generalizing registry with
  | nil => simp
  | cons path paths ih =>
    rw [List.foldl_cons, List.forall_mem_cons]
    by_cases hknown : registry.Known codec path
    · rw [FlattenRegistry.register_of_known hknown, ih]
      simp [hknown]
    · constructor
      · intro heq
        have hmore := @length_taken_le_registerAll codec (registry.register codec path) paths
        rw [heq, FlattenRegistry.length_taken_register hknown] at hmore
        omega
      · exact fun h => absurd h.1 hknown

/-- What mapping does where the body is an object: it registers the paths, and rejects what is over the limit. -/
theorem mapRow_fields {row : Row} {message : Message} {encoded : EncodedBody} {fields : List (JsonPath × String)}
    (hencoded : row.codec.encodeBody message row.config.body.bodyFormat = .ok encoded)
    (hfields : encoded.content = .fields fields) (registry : FlattenRegistry) (t : Time) :
    let after := (fields.map Prod.fst).foldl (FlattenRegistry.register row.codec) registry
    (mapRow row (some registry) message t).2 = some after ∧
      ((∃ error, (mapRow row (some registry) message t).1 = .ok (.error error)) ↔
        cellLimitBytes < (unmappedText row.codec (unmappedCells row.codec after fields)).utf8ByteSize) := by
  intro after
  rw [← split_tooLarge_iff fun field hfield => known_registerAll (List.mem_map_of_mem hfield)]
  unfold mapRow
  rw [hencoded]
  dsimp only
  rw [hfields]
  dsimp only
  split
  · rename_i h
    refine ⟨rfl, ?_, fun he => ?_⟩
    · rintro ⟨_, ⟨⟩⟩
    · rw [he] at h
      cases h
  · rename_i h
    exact ⟨rfl, fun _ => h, fun _ => ⟨_, rfl⟩⟩
  · rename_i e hne h
    refine ⟨rfl, ?_, fun he => ?_⟩
    · rintro ⟨_, ⟨⟩⟩
    · rw [he] at h
      cases h
      exact absurd rfl hne

end Rejected

/-- A message that is rejected leaves the registry as it was exactly where the condition holds. -/
theorem rejected_leaves_registry (row : Row) (registry : Option FlattenRegistry) (message : Message) (t : Time) :
    (∀ error, (mapRow row registry message t).1 = .ok (.error error) → (mapRow row registry message t).2 = registry) ↔
      LeavesRegistry row registry message := by
  constructor
  · rintro h encoded fields known hencoded hfields rfl
    obtain ⟨hafter, herror⟩ := mapRow_fields hencoded hfields known t
    refine or_iff_not_imp_right.mpr fun hlarge => ?_
    obtain ⟨error, herror⟩ := herror.mpr (not_le.mp hlarge)
    have hsame := h error herror
    rw [hafter, Option.some.injEq] at hsame
    exact registerAll_eq_self.mp hsame
  · intro h error herror
    cases hencoded : row.codec.encodeBody message row.config.body.bodyFormat with
    | error e =>
      unfold mapRow
      rw [hencoded]
      cases e <;> rfl
    | ok encoded =>
      cases hfields : encoded.content with
      | cell text =>
        unfold mapRow
        rw [hencoded]
        dsimp only
        rw [hfields]
      | fields fields =>
        cases registry with
        | none => exact mapRow_none row message t
        | some known =>
          obtain ⟨hafter, hiff⟩ := mapRow_fields hencoded hfields known t
          rw [hafter]
          rcases h encoded fields known hencoded hfields rfl with hknown | hsmall
          · rw [registerAll_eq_self.mpr hknown]
          · exact absurd (hiff.mp ⟨error, herror⟩) (not_lt.mpr hsmall)

/-- A text has at least one byte for each character. -/
theorem length_le_utf8ByteSize (text : String) : text.length ≤ text.utf8ByteSize := by
  have hchars : ∀ chars : List Char, chars.length ≤ String.utf8Len chars := by
    intro chars
    induction chars with
    | nil => exact Nat.le_refl _
    | cons c chars ih =>
      have := c.utf8Size_pos
      rw [String.utf8Len, List.length_cons]
      omega
  have := hchars text.toList
  rwa [← String.utf8ByteSize_ofList, String.ofList_toList, String.length_toList] at this

/-- An object of strings is longer than each of its texts. -/
theorem length_lt_dumpObject {entries : List (String × String)} {entry : String × String} (h : entry ∈ entries) :
    entry.2.length < (JsonText.dumpObject entries).length := by
  have hentry := JsonText.length_separated (List.mem_map_of_mem (f := JsonText.dumpEntry) h) [',']
  have hvalue := JsonText.length_le_dumpString entry.2
  rw [JsonText.dumpEntry, List.length_append, List.length_cons] at hentry
  rw [JsonText.dumpObject, String.length_ofList, List.length_append, List.length_cons]
  omega

/-- A text of single-byte characters is read back from its bytes. -/
theorem stringFields_utf8 {entries : List (String × String)}
    (h : ∀ c ∈ (JsonText.dumpObject entries).toList,
      (String.utf8EncodeChar c).map (fun byte => Char.ofNat byte.toNat) = [c]) :
    stringFields (utf8 (JsonText.dumpObject entries)) =
      some (flattenValue leafCell rootCell (.obj (entries.map fun entry => (entry.1, .str entry.2)))) := by
  have hchars : ∀ chars : List Char,
      (∀ c ∈ chars, (String.utf8EncodeChar c).map (fun byte => Char.ofNat byte.toNat) = [c]) →
        (chars.flatMap String.utf8EncodeChar).map (fun byte => Char.ofNat byte.toNat) = chars := by
    intro chars hchars
    induction chars with
    | nil => rfl
    | cons c chars ih =>
      rw [List.flatMap_cons, List.map_append, hchars c (by simp), ih fun c hc => hchars c (by simp [hc])]
      rfl
  rw [stringFields, utf8, hchars _ h, String.ofList_toList, JsonText.loadObject_dumpObject]
  rfl

/-- The object whose only field is `n` times the letter `x`. -/
def longObject (n : ℕ) : List (String × String) := [("a", String.ofList (List.replicate n 'x'))]

theorem ascii_longObject (n : ℕ) : ∀ c ∈ (JsonText.dumpObject (longObject n)).toList,
    (String.utf8EncodeChar c).map (fun byte => Char.ofNat byte.toNat) = [c] := by
  intro c hc
  have hx : ∀ c', c' ∈ (List.replicate n 'x').flatMap JsonText.escapeChar → c' = 'x' := by
    intro c' hc'
    obtain ⟨x, hx, hescape⟩ := List.mem_flatMap.mp hc'
    obtain rfl := List.eq_of_mem_replicate hx
    exact List.mem_singleton.mp hescape
  have hdump : (JsonText.dumpObject (longObject n)).toList = [JsonText.openBrace, JsonText.quote, 'a', JsonText.quote,
      ':',
      JsonText.quote] ++ ((List.replicate n 'x').flatMap JsonText.escapeChar ++ [JsonText.quote,
        JsonText.closeBrace]) := by
    rw [JsonText.dumpObject, String.toList_ofList, longObject, List.map_singleton, JsonText.separated,
      JsonText.dumpEntry,
      JsonText.dumpString, JsonText.dumpString, String.toList_ofList]
    show JsonText.openBrace :: (([JsonText.quote, 'a', JsonText.quote] ++ ':' :: (JsonText.quote :: _)) ++ _) = _
    simp
  have hfront : [JsonText.openBrace, JsonText.quote, 'a', JsonText.quote, ':', JsonText.quote] ⊆
      [JsonText.openBrace, JsonText.quote, 'a', ':', 'x', JsonText.closeBrace] := by decide
  have hend : [JsonText.quote, JsonText.closeBrace] ⊆
      [JsonText.openBrace, JsonText.quote, 'a', ':', 'x', JsonText.closeBrace] := by decide
  have hone : c ∈ [JsonText.openBrace, JsonText.quote, 'a', ':', 'x', JsonText.closeBrace] := by
    rw [hdump, List.mem_append, List.mem_append] at hc
    rcases hc with hc | hc | hc
    · exact hfront hc
    · rw [hx c hc]
      decide
    · exact hend hc
  have hall : ∀ c ∈ [JsonText.openBrace, JsonText.quote, 'a', ':', 'x', JsonText.closeBrace],
      (String.utf8EncodeChar c).map (fun byte => Char.ofNat byte.toNat) = [c] := by
    intro c hc
    simp only [List.mem_cons, List.not_mem_nil, or_false] at hc
    obtain rfl | rfl | rfl | rfl | rfl | rfl := hc <;> rfl
  exact hall c hone

/-- The fields of an object of strings, as the flattening format decodes it. -/
theorem encodeBody_flattenCodec {message : Message} {bytes : List (List UInt8)} {fields : List (JsonPath × String)}
    (hbody : message.body.sections = .ok bytes) (hfields : stringFields bytes.flatten = some fields) :
    flattenCodec.encodeBody message .jsonFlatten = .ok ⟨bytes.flatten.length, .fields fields⟩ := by
  simp only [flattenCodec, hbody, hfields]

/-- A field that fits by itself is too large in the `body_unmapped` cell, and its path is registered by then. -/
theorem rejected_long {message : Message} {long : String} {size : ℕ}
    (hencoded : flattenCodec.encodeBody message .jsonFlatten = .ok ⟨size, .fields [(["a"], long)]⟩)
    (hlong : cellLimitBytes ≤ long.length) (registry : FlattenRegistry)
    (hregistry : registry = FlattenRegistry.seed [] metadataColumnNames) :
    (∃ error, (mapRow flattenRow (some registry) message 0).1 = .ok (.error error)) ∧
      (mapRow flattenRow (some registry) message 0).2 = some (registry.register flattenCodec ["a"]) := by
  obtain ⟨hafter, herror⟩ := @mapRow_fields flattenRow _ _ _ hencoded rfl registry 0
  refine ⟨herror.mpr ?_, hafter⟩
  show cellLimitBytes < (unmappedText flattenCodec (unmappedCells flattenCodec (registry.register flattenCodec ["a"])
    [(["a"], long)])).utf8ByteSize
  have hname : fieldName flattenCodec (registry.register flattenCodec ["a"]) ["a"] = "body_a" := by
    rw [hregistry]
    decide +kernel
  have hcolumn : flattenCodec.pathHash ["a"] ∉ (registry.register flattenCodec ["a"]).inputOrder := by
    rw [hregistry]
    decide +kernel
  have htext : unmappedText flattenCodec (unmappedCells flattenCodec (registry.register flattenCodec ["a"])
      [(["a"], long)]) = JsonText.dumpObject [("body_a", long)] := by
    rw [unmappedCells, List.filter_cons_of_pos (by simp [ownsColumn, hasColumn, hcolumn]), List.filter_nil, namedCells,
      List.map_singleton, hname]
    rfl
  have hentry : long.length < (JsonText.dumpObject [("body_a", long)]).length :=
    @length_lt_dumpObject _ ("body_a", long) (by simp)
  have hbytes := length_le_utf8ByteSize (JsonText.dumpObject [("body_a", long)])
  rw [htext]
  omega

/-- Such a message is rejected, and the state has its column from then on. -/
theorem rejected_changes_registry : ∃ message error after,
    (mapRow flattenRow (some (.seed [] metadataColumnNames)) message 0).1 = .ok (.error error) ∧
      (mapRow flattenRow (some (.seed [] metadataColumnNames)) message 0).2 = some after ∧
      after.toState = [⟨"6b38d42036dacdcf081b8d1d0ee0c97b407c56c6", "body_a"⟩] := by
  obtain ⟨n, hn⟩ : ∃ n, cellLimitBytes ≤ n := ⟨_, Nat.le_refl _⟩
  have hstring : stringFields [utf8 (JsonText.dumpObject (longObject n))].flatten =
      some [(["a"], String.ofList (List.replicate n 'x'))] := by
    rw [List.flatten_singleton, stringFields_utf8 (ascii_longObject n)]
    rfl
  obtain ⟨⟨error, herror⟩, hafter⟩ := rejected_long
    (@encodeBody_flattenCodec { sequenceNumber := 1, body := jsonBody (longObject n) } _ _ rfl hstring)
    (by rwa [String.length_ofList, List.length_replicate]) _ rfl
  exact ⟨_, error, _, herror, hafter, by decide +kernel⟩

end ServiceBusExtractor
