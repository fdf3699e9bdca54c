import ServiceBusExtractor.Run
import ServiceBusExtractor.Output
import ServiceBusExtractor.Text.Dict

/-!
# What the flatten registry keeps

The names of a registry are distinct, none of them is reserved, and the recorded
ones come from the input state and are only ever added to.

## The model

* `ColumnsValid columns` — the columns a state may hold.
* `RegistryValid registry` — the invariant of a registry under registration.
* `FlattenRegistry.nameOf` — the name a registry has for a path.

## What is proved

* `freeName_not_mem`: the search for a free name ends with one.
* `registryValid_seed`, `RegistryValid.register`: the invariant holds at the start
  of a run and after each registration.
* `FlattenRegistry.Extends`: what registration leaves as it was.
-/

namespace ServiceBusExtractor

/-! ### A free name -/

/-- The `n`-th name tried for a base that is taken. -/
def candidateName (base : String) (n : ℕ) : String :=
  String.ofList (FlattenRegistry.sliceTo base.toList ((maxColumnName : ℤ) - ((s!"_{n}").length : ℤ))) ++ s!"_{n}"

theorem toList_suffix (n : ℕ) : (s!"_{n}").toList = '_' :: (Nat.repr n).toList := by
  simp [toString]

theorem digit_of_mem_repr {n : ℕ} {c : Char} (h : c ∈ (Nat.repr n).toList) : c ≠ '_' := by
  rintro rfl
  rw [Nat.repr_eq_ofList_toDigits, String.toList_ofList] at h
  exact Bool.false_ne_true (Nat.isDigit_of_mem_toDigits (by omega) (by omega) h)

/-- The digits after the last `_` of a candidate. -/
theorem candidateName_digits (base : String) (n : ℕ) :
    ((candidateName base n).toList.reverse.takeWhile (· ≠ '_')) = (Nat.repr n).toList.reverse := by
  rw [candidateName, String.toList_append, String.toList_ofList, toList_suffix, List.reverse_append, List.reverse_cons,
    List.append_assoc, List.takeWhile_append_of_pos]
  · simp
  · intro c hc
    simpa using digit_of_mem_repr (List.mem_reverse.mp hc)

/-- Two tries are two names. -/
theorem candidateName_injective (base : String) : Function.Injective (candidateName base) := by
  intro n m h
  have hreverse : (Nat.repr n).toList.reverse = (Nat.repr m).toList.reverse := by
    rw [← candidateName_digits base n, ← candidateName_digits base m, h]
  have hdigits : Nat.toDigits 10 n = Nat.toDigits 10 m := by
    simpa [Nat.repr_eq_ofList_toDigits] using hreverse
  rw [← @Nat.ofDigitChars_ten_toDigits n, hdigits, Nat.ofDigitChars_ten_toDigits]

namespace FlattenRegistry

theorem freeName_succ (base : String) (taken : List String) (tries n : ℕ) :
    freeName base taken (tries + 1) n =
      if candidateName base n ∈ taken then freeName base taken tries (n + 1) else candidateName base n := rfl

/-- The search ends with the first candidate that is free, or each of its tries was taken. -/
theorem freeName_spec (base : String) (taken : List String) (tries n : ℕ) :
    (∃ k < tries, freeName base taken tries n = candidateName base (n + k) ∧ candidateName base (n + k) ∉ taken ∧
      ∀ j < k, candidateName base (n + j) ∈ taken) ∨
      ∀ k < tries, candidateName base (n + k) ∈ taken := by
  induction tries generalizing n with
  | zero =>
    right
    omega
  | succ tries ih =>
    rw [freeName_succ]
    split
    · rename_i hmem
      have hsucc : ∀ k, n + 1 + k = n + (k + 1) := by omega
      have hshift : ∀ k, (∀ j < k, candidateName base (n + 1 + j) ∈ taken) →
          ∀ j < k + 1, candidateName base (n + j) ∈ taken := by
        intro k hall j hj
        cases j with
        | zero => exact hmem
        | succ j =>
          rw [← hsucc]
          exact hall j (by omega)
      rcases ih (n + 1) with ⟨k, hk, hname, hfree, hbefore⟩ | hall
      · rw [hsucc] at hname hfree
        exact .inl ⟨k + 1, by omega, hname, hfree, hshift k hbefore⟩
      · exact .inr (hshift tries hall)
    · rename_i hmem
      exact .inl ⟨0, by omega, rfl, hmem, by simp⟩

/-- There are no more candidates taken than there are names. -/
theorem le_of_candidates_taken {base : String} {taken : List String} {n k : ℕ}
    (hall : ∀ j < k, candidateName base (n + j) ∈ taken) : k ≤ taken.dedup.length := by
  have hnodup : ((List.range k).map fun j => candidateName base (n + j)).Nodup := by
    refine List.Nodup.map (fun j j' hj => ?_) List.nodup_range
    have := candidateName_injective base hj
    omega
  have hsub : ((List.range k).map fun j => candidateName base (n + j)) ⊆ taken.dedup := by
    intro name hname
    obtain ⟨j, hj, rfl⟩ := List.mem_map.mp hname
    exact List.mem_dedup.mpr (hall j (List.mem_range.mp hj))
  have hlen := (hnodup.subperm hsub).length_le
  rwa [List.length_map, List.length_range] at hlen

/-- One more try than there are taken names finds the first free one. -/
theorem freeName_free (base : String) (taken : List String) (n : ℕ) :
    ∃ k ≤ taken.dedup.length, freeName base taken (taken.length + 1) n = candidateName base (n + k) ∧
      candidateName base (n + k) ∉ taken ∧ ∀ j < k, candidateName base (n + j) ∈ taken := by
  rcases freeName_spec base taken (taken.length + 1) n with ⟨k, -, hname, hfree, hbefore⟩ | hall
  · exact ⟨k, le_of_candidates_taken hbefore, hname, hfree, hbefore⟩
  · have hmany := le_of_candidates_taken hall
    have hfew := (List.dedup_sublist taken).length_le
    omega

/-- A new name is free. -/
theorem uniqueName_not_mem (codec : Codec) (registry : FlattenRegistry) (path : JsonPath) :
    registry.uniqueName codec path ∉ registry.taken := by
  rw [uniqueName]
  split
  · obtain ⟨k, -, hname, hfree, -⟩ := freeName_free (codec.columnNameFor path) registry.taken 2
    rwa [hname]
  · assumption

/-- A new name is the base, or a candidate among as many as there are taken names. -/
theorem uniqueName_cases (codec : Codec) (registry : FlattenRegistry) (path : JsonPath) :
    registry.uniqueName codec path = codec.columnNameFor path ∨ ∃ n ≤ registry.taken.length + 2,
      registry.uniqueName codec path = candidateName (codec.columnNameFor path) n := by
  rw [uniqueName]
  split
  · obtain ⟨k, hk, hname, -⟩ := freeName_free (codec.columnNameFor path) registry.taken 2
    have hfew := (List.dedup_sublist registry.taken).length_le
    exact .inr ⟨2 + k, by omega, hname⟩
  · exact .inl rfl

end FlattenRegistry

theorem length_suffix (n : ℕ) : (s!"_{n}").length = (Nat.repr n).length + 1 := by
  rw [← String.length_toList, toList_suffix, List.length_cons, String.length_toList]

/-- As long as there is room for it, the suffix stands behind the front of the base. -/
theorem toList_candidateName (base : String) {n k : ℕ} (hpos : 0 < k) (hk : k ≤ 63) (hn : n < 10 ^ k) :
    ∃ room, 63 - k ≤ room ∧ room + (s!"_{n}").length = maxColumnName ∧
      (candidateName base n).toList = base.toList.take room ++ '_' :: (Nat.repr n).toList := by
  have hmax : maxColumnName = 64 := rfl
  have hlen := length_suffix n
  have hdigits : (Nat.repr n).length ≤ k := (Nat.length_repr_le_iff hpos).mpr hn
  refine ⟨maxColumnName - (s!"_{n}").length, by omega, by omega, ?_⟩
  have hroom : (maxColumnName : ℤ) - ((s!"_{n}").length : ℤ) = ((maxColumnName - (s!"_{n}").length : ℕ) : ℤ) := by
    omega
  rw [candidateName, String.toList_append, String.toList_ofList, toList_suffix, FlattenRegistry.sliceTo, hroom,
    if_pos (by omega), Int.toNat_natCast]

/-- A candidate keeps within the limit as long as its number has fewer digits than that. -/
theorem length_candidateName (base : String) {n : ℕ} (hn : n < 10 ^ 63) :
    (candidateName base n).length ≤ maxColumnName := by
  obtain ⟨room, -, hroom, htext⟩ := toList_candidateName base (by omega) (Nat.le_refl 63) hn
  have hlen := length_suffix n
  have hdigits : (Nat.repr n).toList.length = (Nat.repr n).length := String.length_toList
  rw [← String.length_toList, htext, List.length_append, List.length_take, List.length_cons]
  omega

/-! ### The invariant of a registry -/

/-- The columns a state may hold: distinct hashes, distinct names, none of them reserved or too long, and no more than
the cap. -/
structure ColumnsValid (columns : List FlattenColumn) : Prop where
  hashes : (columns.map FlattenColumn.pathSha1).Nodup
  names : (columns.map FlattenColumn.column).Nodup
  free : ∀ entry ∈ columns, entry.column ∉ metadataColumnNames ∧ entry.column ≠ unmappedColumn
  short : ∀ entry ∈ columns, entry.column.length ≤ maxColumnName
  capped : columns.length ≤ maxFlattenColumns

/-- What holds of a registry whose input columns are valid: it records at most as many names as the cap allows, gives
provisional ones only past it, and has no name twice. -/
structure RegistryValid (registry : FlattenRegistry) : Prop where
  hashes : ((registry.byHash ++ registry.provisional).map Prod.fst).Nodup
  names : ((registry.byHash ++ registry.provisional).map Prod.snd).Nodup
  taken : registry.taken.Perm
    (metadataColumnNames ++ unmappedColumn :: (registry.byHash ++ registry.provisional).map Prod.snd)
  free : ∀ entry ∈ registry.byHash ++ registry.provisional, entry.2 ∉ metadataColumnNames ∧ entry.2 ≠ unmappedColumn
  short : ∀ entry ∈ registry.byHash, entry.2.length ≤ maxColumnName
  capped : registry.byHash.length ≤ maxFlattenColumns
  full : registry.provisional ≠ [] → registry.byHash.length = maxFlattenColumns
  overflowed : registry.overflowed = true ↔ registry.provisional ≠ []
  input : ∀ h ∈ registry.inputOrder, h ∈ registry.byHash.map Prod.fst

/-- The name a registry has for a path. -/
def FlattenRegistry.nameOf (codec : Codec) (registry : FlattenRegistry) (path : JsonPath) : Option String :=
  (registry.byHash ++ registry.provisional).lookup (codec.pathHash path)

/-- The registry has a name for the path. -/
def FlattenRegistry.Known (codec : Codec) (registry : FlattenRegistry) (path : JsonPath) : Prop :=
  (registry.nameOf codec path).isSome = true

/-- The second registry has all the first one has: the recorded names and the provisional ones at the front, and the
same input columns. -/
structure FlattenRegistry.Extends (registry more : FlattenRegistry) : Prop where
  byHash : registry.byHash <+: more.byHash
  provisional : registry.provisional <+: more.provisional
  inputOrder : more.inputOrder = registry.inputOrder

/-- The text functions give no base name that is too long. -/
def Codec.Short (codec : Codec) : Prop := ∀ path, (codec.columnNameFor path).length ≤ maxColumnName

section Registry

variable {codec : Codec} {registry more : FlattenRegistry} {path : JsonPath}

namespace FlattenRegistry

/-- What registering a path does: nothing, or one more provisional name past the cap, or one more recorded name. -/
theorem register_cases (codec : Codec) (registry : FlattenRegistry) (path : JsonPath) :
    (registry.Known codec path ∧ registry.register codec path = registry) ∨
    ¬ registry.Known codec path ∧
      ((maxFlattenColumns ≤ registry.byHash.length ∧ registry.register codec path = { registry with
          provisional := registry.provisional ++ [(codec.pathHash path, registry.uniqueName codec path)]
          taken := registry.taken ++ [registry.uniqueName codec path]
          overflowed := true }) ∨
        (registry.byHash.length < maxFlattenColumns ∧ registry.register codec path = { registry with
          byHash := registry.byHash ++ [(codec.pathHash path, registry.uniqueName codec path)]
          taken := registry.taken ++ [registry.uniqueName codec path] })) := by
  have hknown : registry.Known codec path ↔ ((registry.byHash.lookup (codec.pathHash path)).isSome ||
      (registry.provisional.lookup (codec.pathHash path)).isSome) = true := by
    rw [Known, nameOf, List.lookup_append, Option.isSome_or]
  rw [register]
  split
  · rename_i h
    exact .inl ⟨hknown.mpr h, rfl⟩
  · rename_i h
    refine .inr ⟨fun hk => h (hknown.mp hk), ?_⟩
    split
    · rename_i hfull
      exact .inl ⟨hfull, rfl⟩
    · rename_i hfull
      exact .inr ⟨by omega, rfl⟩

theorem register_of_known (h : registry.Known codec path) : registry.register codec path = registry := by
  rcases register_cases codec registry path with ⟨-, heq⟩ | ⟨hnot, -⟩
  · exact heq
  · exact absurd h hnot

/-- A new path takes a name more. -/
theorem length_taken_register (h : ¬ registry.Known codec path) :
    (registry.register codec path).taken.length = registry.taken.length + 1 := by
  rcases register_cases codec registry path with ⟨hk, -⟩ | ⟨-, ⟨-, heq⟩ | ⟨-, heq⟩⟩
  · exact absurd hk h
  · rw [heq, List.length_append]
    rfl
  · rw [heq, List.length_append]
    rfl

theorem length_taken_le_register : registry.taken.length ≤ (registry.register codec path).taken.length := by
  by_cases h : registry.Known codec path
  · rw [register_of_known h]
  · rw [length_taken_register h]
    omega

theorem Extends.refl : registry.Extends registry := ⟨List.prefix_refl _, List.prefix_refl _, rfl⟩

theorem Extends.trans {last : FlattenRegistry} (h : registry.Extends more) (h' : more.Extends last) :
    registry.Extends last :=
  ⟨h.byHash.trans h'.byHash, h.provisional.trans h'.provisional, h'.inputOrder.trans h.inputOrder⟩

theorem extends_register : registry.Extends (registry.register codec path) := by
  rcases register_cases codec registry path with ⟨-, heq⟩ | ⟨-, ⟨-, heq⟩ | ⟨-, heq⟩⟩
  · rw [heq]
    exact .refl
  · rw [heq]
    exact ⟨List.prefix_refl _, List.prefix_append _ _, rfl⟩
  · rw [heq]
    exact ⟨List.prefix_append _ _, List.prefix_refl _, rfl⟩

theorem extends_registerAll (paths : List JsonPath) : registry.Extends (paths.foldl (register codec) registry) := by
  induction paths generalizing registry with
  | nil => exact .refl
  | cons path paths ih => exact extends_register.trans ih

end FlattenRegistry

/-- The name a longer registry has for a path the shorter one knows is the same. -/
theorem FlattenRegistry.Extends.nameOf (hv : RegistryValid more) (h : registry.Extends more) {name : String}
    (hname : registry.nameOf codec path = some name) : more.nameOf codec path = some name := by
  refine Dict.lookup_of_mem hv.hashes ?_
  rcases List.mem_append.mp (Dict.mem_of_lookup hname) with hmem | hmem
  · exact List.mem_append_left _ (h.byHash.subset hmem)
  · exact List.mem_append_right _ (h.provisional.subset hmem)

/-- A name that is taken by nothing is neither reserved nor in the registry. -/
theorem RegistryValid.not_mem_of_free (hv : RegistryValid registry) {name : String} (h : name ∉ registry.taken) :
    name ∉ metadataColumnNames ∧ name ≠ unmappedColumn ∧
      name ∉ (registry.byHash ++ registry.provisional).map Prod.snd := by
  rw [hv.taken.mem_iff, List.mem_append, List.mem_cons] at h
  push Not at h
  exact h

/-- As long as the registry records names, a new name keeps within the limit. -/
theorem RegistryValid.short_uniqueName (hcodec : codec.Short) (hv : RegistryValid registry)
    (hroom : registry.byHash.length < maxFlattenColumns) :
    (registry.uniqueName codec path).length ≤ maxColumnName := by
  rcases registry.uniqueName_cases codec path with hbase | ⟨n, hn, hcandidate⟩
  · rw [hbase]
    exact hcodec path
  · rw [hcandidate]
    refine length_candidateName _ ?_
    have hnone : registry.provisional = [] := by
      by_contra hne
      have := hv.full hne
      omega
    have htaken : registry.taken.length = metadataColumnNames.length + 1 + registry.byHash.length := by
      rw [hv.taken.length_eq, hnone]
      simp only [List.append_nil, List.length_append, List.length_cons, List.length_map]
      omega
    have hmeta : metadataColumnNames.length = 35 := rfl
    have hcap : maxFlattenColumns = 1000 := rfl
    have hbig : 1038 < 10 ^ 63 := by decide
    exact lt_of_le_of_lt (by omega) hbig

theorem RegistryValid.register (hcodec : codec.Short) (hv : RegistryValid registry) :
    RegistryValid (registry.register codec path) := by
  rcases registry.register_cases codec path with ⟨-, heq⟩ | ⟨hnew, ⟨hfull, heq⟩ | ⟨hroom, heq⟩⟩
  · rw [heq]
    exact hv
  all_goals
    obtain ⟨hmeta, hunmapped, hnames⟩ := hv.not_mem_of_free (registry.uniqueName_not_mem codec path)
    have hhash : codec.pathHash path ∉ (registry.byHash ++ registry.provisional).map Prod.fst :=
      fun hmem => hnew (Dict.lookup_isSome.mpr hmem)
    rw [heq]
  · refine ⟨?_, ?_, ?_, ?_, hv.short, hv.capped, fun _ => ?_, ?_, hv.input⟩
    · rw [← List.append_assoc, List.map_append]
      exact hv.hashes.append (List.nodup_singleton _) (by simpa using hhash)
    · rw [← List.append_assoc, List.map_append]
      exact hv.names.append (List.nodup_singleton _) (by simpa using hnames)
    · rw [← List.append_assoc, List.map_append, ← List.cons_append, ← List.append_assoc]
      exact hv.taken.append_right _
    · intro entry hentry
      rw [← List.append_assoc, List.mem_append, List.mem_singleton] at hentry
      rcases hentry with hentry | rfl
      · exact hv.free entry hentry
      · exact ⟨hmeta, hunmapped⟩
    · have := hv.capped
      dsimp only
      omega
    · simp
  · have hnone : registry.provisional = [] := by
      by_contra hne
      have := hv.full hne
      omega
    rw [hnone, List.append_nil] at hhash hnames
    refine ⟨?_, ?_, ?_, ?_, ?_, ?_, ?_, hv.overflowed, ?_⟩
    · rw [hnone, List.append_nil, List.map_append]
      have := hv.hashes
      rw [hnone, List.append_nil] at this
      exact this.append (List.nodup_singleton _) (by simpa using hhash)
    · rw [hnone, List.append_nil, List.map_append]
      have := hv.names
      rw [hnone, List.append_nil] at this
      exact this.append (List.nodup_singleton _) (by simpa using hnames)
    · have := hv.taken
      rw [hnone, List.append_nil] at this ⊢
      rw [List.map_append, ← List.cons_append, ← List.append_assoc]
      exact this.append_right _
    · intro entry hentry
      rw [hnone, List.append_nil, List.mem_append, List.mem_singleton] at hentry
      rcases hentry with hentry | rfl
      · exact hv.free entry (List.mem_append_left _ hentry)
      · exact ⟨hmeta, hunmapped⟩
    · intro entry hentry
      rcases List.mem_append.mp hentry with hentry | hentry
      · exact hv.short entry hentry
      · rw [List.mem_singleton] at hentry
        rw [hentry]
        exact hv.short_uniqueName hcodec hroom
    · rw [List.length_append, List.length_singleton]
      exact hroom
    · exact fun hne => absurd hnone hne
    · intro h hmem
      rw [List.map_append]
      exact List.mem_append_left _ (hv.input h hmem)

theorem RegistryValid.registerAll (hcodec : codec.Short) (hv : RegistryValid registry) (paths : List JsonPath) :
    RegistryValid (paths.foldl (FlattenRegistry.register codec) registry) := by
  induction paths generalizing registry with
  | nil => exact hv
  | cons path paths ih => exact ih (hv.register hcodec)

/-! ### From the state and to the state -/

theorem assign_eq_set (key value : String) (d : List (String × String)) :
    assign key value d = Dict.set key value d := by
  induction d with
  | nil => rfl
  | cons entry rest ih =>
    rw [assign, Dict.set, ih]

/-- The recorded names at the start of a run are those of the state. -/
theorem byHash_seed {columns : List FlattenColumn} (hc : ColumnsValid columns) (reserved : List String) :
    (FlattenRegistry.seed columns reserved).byHash = columns.map fun entry => (entry.pathSha1, entry.column) := by
  have hupdate : (FlattenRegistry.seed columns reserved).byHash =
      Dict.update [] (columns.map fun entry => (entry.pathSha1, entry.column)) := by
    simp only [FlattenRegistry.seed, Dict.update, List.foldl_map, assign_eq_set]
  rw [hupdate, Dict.update_of_nodup, List.nil_append]
  rw [List.nil_append, List.map_map]
  exact hc.hashes

theorem registryValid_seed {columns : List FlattenColumn} (hc : ColumnsValid columns) :
    RegistryValid (.seed columns metadataColumnNames) := by
  have hbyHash := byHash_seed hc metadataColumnNames
  have hprovisional : (FlattenRegistry.seed columns metadataColumnNames).provisional = [] := rfl
  constructor
  · rw [hbyHash, hprovisional, List.append_nil, List.map_map]
    exact hc.hashes
  · rw [hbyHash, hprovisional, List.append_nil, List.map_map]
    exact hc.names
  · rw [hbyHash, hprovisional, List.append_nil, List.map_map]
    exact .refl _
  · rw [hbyHash, hprovisional, List.append_nil]
    intro pair hpair
    obtain ⟨entry, hentry, rfl⟩ := List.mem_map.mp hpair
    exact hc.free entry hentry
  · rw [hbyHash]
    intro pair hpair
    obtain ⟨entry, hentry, rfl⟩ := List.mem_map.mp hpair
    exact hc.short entry hentry
  · rw [hbyHash, List.length_map]
    exact hc.capped
  · exact fun hne => absurd hprovisional hne
  · rw [hprovisional]
    simp [FlattenRegistry.seed]
  · intro h hmem
    rw [hbyHash, List.map_map]
    exact hmem

/-- The columns a registry leaves are valid. -/
theorem RegistryValid.toState (hv : RegistryValid registry) : ColumnsValid registry.toState := by
  have hentries : ∀ entry ∈ registry.toState, (entry.pathSha1, entry.column) ∈ registry.byHash := by
    intro entry hentry
    obtain ⟨e, he, rfl⟩ := List.mem_map.mp hentry
    exact he
  constructor
  · have := hv.hashes
    rw [List.map_append, List.nodup_append] at this
    rw [FlattenRegistry.toState, List.map_map]
    exact this.1
  · have := hv.names
    rw [List.map_append, List.nodup_append] at this
    rw [FlattenRegistry.toState, List.map_map]
    exact this.1
  · exact fun entry hentry => hv.free _ (List.mem_append_left _ (hentries entry hentry))
  · exact fun entry hentry => hv.short _ (hentries entry hentry)
  · rw [FlattenRegistry.toState, List.length_map]
    exact hv.capped

/-- A run starts from what its state had, and leaves it at the front. -/
theorem toState_seed {columns : List FlattenColumn} (hc : ColumnsValid columns) (reserved : List String) :
    (FlattenRegistry.seed columns reserved).toState = columns := by
  rw [FlattenRegistry.toState, byHash_seed hc, List.map_map]
  exact List.map_id'' (fun _ => rfl) columns

theorem FlattenRegistry.Extends.toState (h : registry.Extends more) : registry.toState <+: more.toState :=
  h.byHash.map _

/-- The input columns of a run are those of its state, whatever it has registered since. -/
theorem inputColumns_of_extends {columns : List FlattenColumn} (hc : ColumnsValid columns) (hv : RegistryValid more)
    (h : (FlattenRegistry.seed columns metadataColumnNames).Extends more) :
    more.inputColumns = columns.map FlattenColumn.column := by
  have hhashes : (more.byHash.map Prod.fst).Nodup := by
    have := hv.hashes
    rw [List.map_append, List.nodup_append] at this
    exact this.1
  rw [FlattenRegistry.inputColumns, h.inputOrder]
  show (columns.map FlattenColumn.pathSha1).map _ = _
  rw [List.map_map]
  refine List.map_congr_left fun entry hentry => ?_
  have hmem : (entry.pathSha1, entry.column) ∈ more.byHash := by
    refine h.byHash.subset ?_
    rw [byHash_seed hc]
    exact List.mem_map.mpr ⟨entry, hentry, rfl⟩
  rw [Function.comp_apply, Dict.lookup_of_mem hhashes hmem]
  rfl

end Registry

end ServiceBusExtractor
