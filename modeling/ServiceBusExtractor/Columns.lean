import ServiceBusExtractor.Armed
import ServiceBusExtractor.FlattenedRow
import ServiceBusExtractor.History

/-!
# Columns across runs

A flattening run gives names to the paths it sees. The names are kept with the
state, and the columns of a table are those the state had when the run began.

## The model

* `Grows` — what holds of the registry and of the table all through a run.
* `HasHeader h columns` — the table of the run has these columns.
* `PastRun.Ends run s` — the run is the beginning of one that ends with `s`.

## What is proved

* `columns_only_grow`: over any runs the columns of the state grow at the end, and
  so do the columns of the tables.
* `one_name_one_path`: a name stands for one path in a run, and for the same one in
  all later runs where it was recorded and kept with the state. Where the state was
  lost, a later run may give the name to another path: `one_name_two_paths`.
-/

namespace ServiceBusExtractor

open Interaction

/-- The columns the event gives a table. -/
def headerOf : Event sdk → Option (List String)
  | .call (.writeHeader columns) _ => some columns
  | _ => none

/-- The records the event writes, or tries to. -/
def recordsOf : Event sdk → Option (List Record)
  | .call (.writeRows records) _ => some records
  | _ => none

/-- The table has these columns. -/
def HasHeader (h : Trace sdk) (columns : List String) : Prop := columns ∈ h.filterMap headerOf

instance (h : Trace sdk) (columns : List String) : Decidable (HasHeader h columns) :=
  inferInstanceAs (Decidable (columns ∈ h.filterMap headerOf))

/-- The columns of a flattened table: those of the state, between the metadata and the rest. -/
def flattenedHeader (state : ExtractorState) : List String :=
  metadataColumnNames ++ state.flattenColumns.map FlattenColumn.column ++ [unmappedColumn]

/-- The run started from its input, its registry goes on from there, and its table has the input's columns. -/
structure Grows (row : Row) (input state : ExtractorState) (registry : Option FlattenRegistry) (h : Trace sdk) :
    Prop where
  started : state = input
  unseeded : row.config.body.bodyFormat ≠ .jsonFlatten → registry = none
  grown : ∀ registry', registry = some registry' →
    (FlattenRegistry.seed input.flattenColumns metadataColumnNames).Extends registry' ∧ RegistryValid registry'
  headed : row.config.body.bodyFormat = .jsonFlatten → ∀ columns, HasHeader h columns → columns = flattenedHeader input

section OneRun

variable {row : Row} {input state : ExtractorState} {registry : Option FlattenRegistry} {h : Trace sdk}

/-- Mapping a message registers its paths, if anything. -/
theorem Maps.paths {known : FlattenRegistry} {registry' : Option FlattenRegistry}
    (h : Maps row (some known) registry') :
    ∃ paths : List JsonPath, registry' = some (paths.foldl (FlattenRegistry.register row.codec) known) := by
  obtain ⟨message, t, rfl⟩ := h
  cases hencoded : row.codec.encodeBody message row.config.body.bodyFormat with
  | error e =>
    refine ⟨[], ?_⟩
    unfold mapRow
    rw [hencoded]
    cases e <;> rfl
  | ok encoded =>
    cases hcontent : encoded.content with
    | cell text =>
      refine ⟨[], ?_⟩
      unfold mapRow
      rw [hencoded]
      dsimp only
      rw [hcontent]
      rfl
    | fields fields => exact ⟨fields.map Prod.fst, (mapRow_fields hencoded hcontent known t).1⟩

theorem hasHeader_concat {e : Event sdk} {columns : List String} :
    HasHeader (h ++ [e]) columns ↔ HasHeader h columns ∨ headerOf e = some columns := by
  rw [HasHeader, List.filterMap_append, List.mem_append, HasHeader]
  cases he : headerOf e <;> simp [he, eq_comm]

/-- An event that creates no table. -/
theorem Grows.idle (hI : Grows row input state registry h) {e : Event sdk} (he : headerOf e = none) :
    Grows row input state registry (h ++ [e]) := by
  refine { hI with headed := fun hflatten columns hheader => hI.headed hflatten columns ?_ }
  rw [hasHeader_concat, he] at hheader
  obtain hheader | hheader := hheader
  · exact hheader
  · cases hheader

theorem throughout_grows (hcodec : row.codec.Short) (hc : ColumnsValid input.flattenColumns) :
    Throughout row (Grows row input) where
  event := by
    rintro e state registry h _ he ⟨-, rfl⟩ hI
    refine hI.idle ?_
    rcases e with ⟨c, a⟩ | n
    · cases c <;> first | rfl | exact he.elim
    · rfl
  header := by
    rintro columns a state registry h _ hcolumns ⟨-, rfl⟩ hI
    refine { hI with headed := fun hflatten columns' hheader => ?_ }
    rw [hasHeader_concat] at hheader
    obtain hheader | hheader := hheader
    · exact hI.headed hflatten columns' hheader
    · cases hheader
      cases hr : registry with
      | none =>
        simp only [fixedColumns, hflatten, hr] at hcolumns
        cases hcolumns
      | some known =>
        obtain ⟨hextends, hvalid⟩ := hI.grown known hr
        simp only [fixedColumns, hflatten, hr] at hcolumns
        cases hcolumns
        rw [inputColumns_of_extends hc hvalid hextends]
        rfl
  mapped := by
    intro state registry registry' h hmaps hI
    refine { hI with
      unseeded := fun hformat => (hI.unseeded hformat ▸ hmaps).none
      grown := ?_ }
    cases hr : registry with
    | none =>
      rw [hr] at hmaps
      rw [hmaps.none]
      rintro _ ⟨⟩
    | some known =>
      rw [hr] at hmaps
      obtain ⟨hextends, hvalid⟩ := hI.grown known hr
      obtain ⟨paths, rfl⟩ := hmaps.paths
      rintro _ ⟨⟩
      exact ⟨hextends.trans (FlattenRegistry.extends_registerAll paths), hvalid.registerAll hcodec paths⟩
  seeded := by
    intro hflatten state registry h hI
    refine { hI with unseeded := fun hformat => absurd hflatten hformat, grown := ?_ }
    rintro _ ⟨⟩
    rw [hI.started]
    exact ⟨.refl, registryValid_seed hc⟩
  deferred := by
    intro receiver seqs timeout a state registry h hI
    exact hI.idle rfl
  saves := by
    intro saved a state registry h hI
    exact hI.idle rfl

theorem grows_start : Grows row input input none [] :=
  ⟨rfl, fun _ => rfl, nofun, fun _ _ hheader => absurd hheader List.not_mem_nil⟩

/-- What a run saves goes on from its input. -/
theorem Grows.saved {s : RunState} {saved : ExtractorState} (hc : ColumnsValid input.flattenColumns)
    (hI : Grows row input s.state s.registry h) (hp : Projects row s saved) :
    input.flattenColumns <+: saved.flattenColumns ∧ ColumnsValid saved.flattenColumns := by
  rw [hp.columns, hI.started]
  cases hr : s.registry with
  | none => exact ⟨List.prefix_refl _, hc⟩
  | some known =>
    obtain ⟨hextends, hvalid⟩ := hI.grown known hr
    have hgrows := hextends.toState
    rw [toState_seed hc] at hgrows
    exact ⟨hgrows, hvalid.toState⟩

end OneRun

/-! ### The runs of a history -/

/-- The run is the beginning of one that ends with this state, whole where its own state is seen. -/
inductive PastRun.Ends (run : PastRun) (s : RunState) : Prop where
  /-- Its state is not seen. -/
  | lost {turns : ℕ} {es : Trace sdk} {r : Except Exn (Option Unit)} (hlost : run.Lost)
      (hrun : Prog.Exec (Component.run run.row turns) (.start run.input) es r s) (hcut : run.trace <+: es)
  /-- Its state is seen. -/
  | imported {turns : ℕ} {saved : ExtractorState} (hsaved : run.saved = some saved)
      (hrun : Prog.Exec (Component.run run.row turns) (.start run.input) run.trace (.ok (some ())) s)
      (hwrite : saved ∈ stateWrites run.trace)

theorem PastRun.Ends.ran {run : PastRun} {s : RunState} (h : run.Ends s) : run.Ran := by
  cases h with
  | lost hlost hrun hcut => exact .lost hlost hrun hcut
  | imported hsaved hrun hwrite => exact .imported hsaved hrun hwrite

theorem PastRun.Ran.ends {run : PastRun} (h : run.Ran) : ∃ s, run.Ends s := by
  cases h with
  | lost hlost hrun hcut => exact ⟨_, .lost hlost hrun hcut⟩
  | imported hsaved hrun hwrite => exact ⟨_, .imported hsaved hrun hwrite⟩

section Runs

variable {run : PastRun} {s : RunState} {u v : ExtractorState} {runs : List PastRun}

/-- A run from valid columns keeps the rules, and what is seen of it goes on from its input. -/
theorem PastRun.Ends.grows (h : run.Ends s) (hcodec : run.row.codec.Short)
    (hc : ColumnsValid run.input.flattenColumns) :
    Grows run.row run.input s.state s.registry run.trace ∧ run.input.flattenColumns <+: run.visible.flattenColumns ∧
      ColumnsValid run.visible.flattenColumns := by
  have hT := throughout_grows hcodec hc
  cases h with
  | lost hlost hrun hcut =>
    have hvisible : run.visible = run.input := by
      rw [PastRun.visible, hlost]
      rfl
    rw [hvisible]
    have hI := (hT.run grows_start hrun).1
    refine ⟨{ hI with headed := fun hflatten columns hheader => hI.headed hflatten columns ?_ }, List.prefix_refl _, hc⟩
    exact (hcut.filterMap headerOf).subset hheader
  | imported hsaved hrun hwrite =>
    obtain ⟨hI, hend⟩ := hT.run grows_start hrun
    obtain ⟨saved, hwrites, hp⟩ := hend rfl
    rw [hwrites, List.mem_singleton] at hwrite
    rw [PastRun.visible, hsaved, hwrite, Option.getD_some]
    exact ⟨hI, hI.saved hc hp⟩

/-- The columns of the state grow at the end and stay valid. -/
theorem History.columns (h : History u runs v) (hcodec : ∀ run ∈ runs, run.row.codec.Short)
    (hc : ColumnsValid u.flattenColumns) :
    u.flattenColumns <+: v.flattenColumns ∧ ColumnsValid v.flattenColumns := by
  induction h with
  | nil => exact ⟨List.prefix_refl _, hc⟩
  | cons hr _ ih =>
    obtain ⟨s, hends⟩ := hr.ends
    obtain ⟨-, hgrows, hvalid⟩ := hends.grows (hcodec _ List.mem_cons_self) hc
    obtain ⟨hgrows', hvalid'⟩ := ih (fun run hrun => hcodec run (List.mem_cons_of_mem _ hrun)) hvalid
    exact ⟨hgrows.trans hgrows', hvalid'⟩

/-- No path changes its column between a state and one that goes on from it. -/
theorem column_eq_of_grown {columns columns' : List FlattenColumn} (h : columns <+: columns')
    (hc : ColumnsValid columns') {entry entry' : FlattenColumn} (hentry : entry ∈ columns) (hentry' : entry' ∈ columns')
    (hhash : entry.pathSha1 = entry'.pathSha1) : entry.column = entry'.column := by
  have hsame : entry = entry' := List.inj_on_of_nodup_map hc.hashes (h.subset hentry) hentry' hhash
  rw [hsame]

/-- Over any runs, from the empty state: the columns of a flattened table are in each later flattened table, the columns
of the state grow at the end only, and they are valid. -/
theorem columns_only_grow {py : PythonText} (h : History {} runs v)
    (hcodec : ∀ run ∈ runs, Implements run.row.codec py) :
    (∀ before run between later after, runs = before ++ run :: (between ++ later :: after) →
      (run.row.config.body.bodyFormat = .jsonFlatten → later.row.config.body.bodyFormat = .jsonFlatten →
        ∀ columns columns', HasHeader run.trace columns → HasHeader later.trace columns' → columns ⊆ columns') ∧
      ∀ entry ∈ run.visible.flattenColumns, ∀ entry' ∈ later.visible.flattenColumns,
        entry.pathSha1 = entry'.pathSha1 → entry.column = entry'.column) ∧
    ∀ before run after, runs = before ++ run :: after →
      run.input.flattenColumns <+: run.visible.flattenColumns ∧ ColumnsValid run.visible.flattenColumns := by
  have hshort : ∀ run ∈ runs, run.row.codec.Short := fun run hrun => (hcodec run hrun).short
  have hone : ∀ before run after, runs = before ++ run :: after → ColumnsValid run.input.flattenColumns ∧
      (run.row.config.body.bodyFormat = .jsonFlatten → ∀ columns, HasHeader run.trace columns →
        columns = flattenedHeader run.input) ∧
      run.input.flattenColumns <+: run.visible.flattenColumns ∧ ColumnsValid run.visible.flattenColumns := by
    rintro before run after rfl
    obtain ⟨hbefore, hr, -⟩ := h.at
    obtain ⟨s, hends⟩ := hr.ends
    obtain ⟨-, hc⟩ := hbefore.columns (fun run hrun => hshort run (List.mem_append_left _ hrun)) columnsValid_nil
    obtain ⟨hI, hrest⟩ := hends.grows (hshort run (List.mem_append_right _ List.mem_cons_self)) hc
    exact ⟨hc, hI.headed, hrest⟩
  refine ⟨?_, fun before run after heq => (hone before run after heq).2.2⟩
  intro before run between later after heq
  obtain ⟨-, hheaded, hgrows, hvalid⟩ := hone before run (between ++ later :: after) heq
  have heq' : runs = (before ++ run :: between) ++ later :: after := by
    rw [heq, List.append_assoc]
    rfl
  obtain ⟨-, hheaded', hgrows', hvalid'⟩ := hone (before ++ run :: between) later after heq'
  have hbetween : run.visible.flattenColumns <+: later.input.flattenColumns := by
    rw [heq] at h
    obtain ⟨-, -, hrest⟩ := h.at
    refine (hrest.at.1.columns (fun run' hrun => hshort run' ?_) hvalid).1
    rw [heq]
    exact List.mem_append_right _ (List.mem_cons_of_mem _ (List.mem_append_left _ hrun))
  constructor
  · intro hflatten hflatten' columns columns' hheader hheader' name hname
    rw [hheaded hflatten columns hheader] at hname
    rw [hheaded' hflatten' columns' hheader']
    simp only [flattenedHeader, List.mem_append] at hname ⊢
    obtain (hname | hname) | hname := hname
    · exact .inl (.inl hname)
    · exact .inl (.inr ((hgrows.trans hbetween).map _ |>.subset hname))
    · exact .inr hname
  · intro entry hentry entry' hentry' hhash
    exact column_eq_of_grown (hbetween.trans hgrows') hvalid' hentry hentry' hhash

/-- The script of a run that receives one message, an object with one field. -/
def oneField (key value : String) : Script where
  receives := [.ok [{ sequenceNumber := 1, body := jsonBody [(key, value)] }]]

/-- The names of a state whose run saw the key `a b` first. -/
def spacedNamed : ExtractorState where
  flattenColumns := [⟨"d19dc7e3d07736eb09706460b9c67e069ddb225f", "body_a_b"⟩]

/-- The run that sees the key `a b` first. -/
def spacedRun : PastRun := scriptedRun flattenRow {} (oneField "a b" "x") spacedNamed

/-- The next run, which sees it again. -/
def spacedAgain : PastRun := scriptedRun flattenRow spacedNamed (oneField "a b" "y") spacedNamed

theorem ran_spacedRun : spacedRun.Ran := ran_scriptedRun (by decide +kernel) (by decide +kernel)

theorem ran_spacedAgain : spacedAgain.Ran := ran_scriptedRun (by decide +kernel) (by decide +kernel)

theorem history_spaced : History {} [spacedRun, spacedAgain] spacedNamed :=
  .cons ran_spacedRun (.cons ran_spacedAgain .nil)

theorem implements_spaced : ∀ run ∈ [spacedRun, spacedAgain], Implements run.row.codec asciiText := by
  intro run hrun
  simp only [List.mem_cons, List.not_mem_nil, or_false] at hrun
  obtain rfl | rfl := hrun <;> exact implements_flattenCodec

/-- The first table has no column of a body, the second one has. -/
theorem columns_only_grow_two :
    metadataColumnNames ++ [unmappedColumn] ⊆ metadataColumnNames ++ ["body_a_b"] ++ [unmappedColumn] :=
  ((columns_only_grow history_spaced implements_spaced).1 [] spacedRun [] spacedAgain [] rfl).1 rfl rfl _ _
    (by decide +kernel) (by decide +kernel)

/-- What the run registered is what it saves. -/
theorem PastRun.Ends.columns_eq (h : run.Ends s) (hkept : run.saved ≠ none) (hcodec : run.row.codec.Short)
    (hc : ColumnsValid run.input.flattenColumns) {known : FlattenRegistry} (hs : s.registry = some known) :
    run.visible.flattenColumns = known.toState := by
  cases h with
  | lost hlost _ _ => exact absurd hlost hkept
  | imported hsaved hrun hwrite =>
    obtain ⟨-, hend⟩ := (throughout_grows hcodec hc).run grows_start hrun
    obtain ⟨saved, hwrites, hp⟩ := hend rfl
    rw [hwrites, List.mem_singleton] at hwrite
    rw [PastRun.visible, hsaved, hwrite, Option.getD_some, hp.columns, hs]
    rfl

/-- A recorded name of a run whose state was kept is in the state for good. -/
theorem PastRun.Ends.recorded (h : History u runs v) (hends : run.Ends s) (hrun : run.visible = u)
    (hkept : run.saved ≠ none) (hshort : run.row.codec.Short) (hc : ColumnsValid run.input.flattenColumns)
    (hcodec : ∀ run ∈ runs, run.row.codec.Short) {known : FlattenRegistry} (hs : s.registry = some known)
    {hash name : String} (hname : (hash, name) ∈ known.byHash) :
    ⟨hash, name⟩ ∈ v.flattenColumns := by
  obtain ⟨-, -, hvalid⟩ := hends.grows hshort hc
  rw [hrun] at hvalid
  refine (h.columns hcodec hvalid).1.subset ?_
  rw [← hrun, hends.columns_eq hkept hshort hc hs]
  exact List.mem_map.mpr ⟨_, hname, rfl⟩

end Runs

/-! ### What a name stands for -/

/-- The rows of the run are in the table: it was imported, or it armed `write_always` before it failed. -/
def Uploaded (run : PastRun) : Prop := run.saved ≠ none ∨ Armed run.trace

/-- The run wrote the row of a message whose body has the path, under this name. A registry never changes a name, so the
names are those it has at the end. -/
def Denotes (run : PastRun) (registry : FlattenRegistry) (name : String) (path : JsonPath) : Prop :=
  ∃ records ∈ run.trace.filterMap recordsOf, ∃ record ∈ records, ∃ m t encoded fields,
    run.row.codec.encodeBody m run.row.config.body.bodyFormat = .ok encoded ∧ encoded.content = .fields fields ∧
      rowRecord run.row (some registry) ⟨messageMetadata run.row m t, encoded.content⟩ = .ok record ∧
      path ∈ fields.map Prod.fst ∧ registry.nameOf run.row.codec path = some name

/-- The hash tells the paths apart. -/
def TellsApart (py : PythonText) (path path' : JsonPath) : Prop := pathHash py path = pathHash py path' → path = path'

/-- A name has one hash in a valid registry. -/
theorem hash_eq_of_nameOf {codec : Codec} {registry : FlattenRegistry} (hv : RegistryValid registry)
    {hash name : String} (hmem : (hash, name) ∈ registry.byHash ++ registry.provisional) {path : JsonPath}
    (hname : registry.nameOf codec path = some name) : codec.pathHash path = hash := by
  have hsame : (codec.pathHash path, name) = (hash, name) :=
    List.inj_on_of_nodup_map hv.names (Dict.mem_of_lookup hname) hmem rfl
  exact congrArg Prod.fst hsame

/-- In the rows of one run a name stands for one path. A name the run recorded and kept with its state stands for the
same path in every later run, however that run ends and also past the cap. -/
theorem one_name_one_path {py : PythonText} {before after : List PastRun} {run : PastRun} {v : ExtractorState}
    (h : History {} (before ++ run :: after) v) (hcodec : ∀ run' ∈ before ++ run :: after, Implements run'.row.codec py)
    {s : RunState} (hends : run.Ends s) {registry : FlattenRegistry} (hs : s.registry = some registry) {name : String}
    {path : JsonPath} (hd : Denotes run registry name path) :
    (∀ path', TellsApart py path path' → Denotes run registry name path' → path = path') ∧
    (run.saved ≠ none → name ∈ registry.byHash.map Prod.snd →
      ∀ run' ∈ after, ∀ s' registry', run'.Ends s' → s'.registry = some registry' →
        ∀ path', TellsApart py path path' → Denotes run' registry' name path' → path = path') := by
  obtain ⟨-, -, -, -, -, -, -, -, -, -, -, -, hname⟩ := hd
  have hshort : ∀ run' ∈ before ++ run :: after, run'.row.codec.Short := fun run' hrun' => (hcodec run' hrun').short
  have hrun : Implements run.row.codec py := hcodec run (by simp)
  obtain ⟨hbefore, -, hafter⟩ := h.at
  obtain ⟨-, hc⟩ := hbefore.columns (fun run' hrun' => hshort run' (by simp [hrun'])) columnsValid_nil
  have hv := ((hends.grows hrun.short hc).1.grown registry hs).2
  constructor
  · intro path' hapart hd'
    obtain ⟨-, -, -, -, -, -, -, -, -, -, -, -, hname'⟩ := hd'
    refine hapart ?_
    have hhash := hash_eq_of_nameOf hv (Dict.mem_of_lookup hname') hname
    rwa [hrun.hashes] at hhash
  · intro hkept hrecorded run' hrun' s' registry' hends' hs' path' hapart hd'
    obtain ⟨-, -, -, -, -, -, -, -, -, -, -, -, hname'⟩ := hd'
    obtain ⟨between, rest, rfl⟩ := List.append_of_mem hrun'
    obtain ⟨hbetween, -, -⟩ := hafter.at
    have hcodec' : Implements run'.row.codec py := hcodec run' (by simp)
    have hshort' : ∀ run'' ∈ between, run''.row.codec.Short := fun run'' hrun'' => hshort run'' (by simp [hrun''])
    -- the recorded pair is in the state the later run starts from, and so in its registry
    obtain ⟨hash, hpair⟩ : ∃ hash, (hash, name) ∈ registry.byHash := by simpa using hrecorded
    have hhash := hash_eq_of_nameOf hv (List.mem_append_left _ hpair) hname
    have hinput := hends.recorded hbetween rfl hkept hrun.short hc hshort' hs hpair
    obtain ⟨-, -, hvalid⟩ := hends.grows hrun.short hc
    have hc' := (hbetween.columns hshort' hvalid).2
    obtain ⟨hextends, hv'⟩ := (hends'.grows hcodec'.short hc').1.grown registry' hs'
    have hpair' : (hash, name) ∈ registry'.byHash ++ registry'.provisional := by
      refine List.mem_append_left _ (hextends.byHash.subset ?_)
      rw [byHash_seed hc']
      exact List.mem_map.mpr ⟨_, hinput, rfl⟩
    have hhash' := hash_eq_of_nameOf hv' hpair' hname'
    refine hapart ?_
    rw [hrun.hashes] at hhash
    rw [hcodec'.hashes] at hhash'
    rw [hhash, hhash']

/-- A scripted run whose state is not seen. -/
def lostRun (row : Row) (input : ExtractorState) (script : Script) : PastRun where
  row := row
  input := input
  trace := scripted (Component.run row 8) (.start input) script
  saved := none

theorem ends_lostRun (row : Row) (input : ExtractorState) (script : Script) :
    (lostRun row input script).Ends (scriptedState (Component.run row 8) (.start input) script) :=
  .lost rfl (exec_scripted _ _ _) (List.prefix_refl _)

theorem ends_scriptedRun {row : Row} {input saved : ExtractorState} {script : Script}
    (hresult : scriptedResult (Component.run row 8) (.start input) script = .ok (some ()))
    (hwrite : saved ∈ stateWrites (scripted (Component.run row 8) (.start input) script)) :
    (scriptedRun row input script saved).Ends (scriptedState (Component.run row 8) (.start input) script) :=
  .imported rfl (exec_of_scriptedResult script hresult) hwrite

/-- Message 1, an object with one field. -/
def oneFieldMessage (key value : String) : Message where
  sequenceNumber := 1
  body := jsonBody [(key, value)]

/-- A written row of such a message. -/
theorem denotes_oneField {run : PastRun} (hrow : run.row = flattenRow) {registry : FlattenRegistry}
    {key value name : String} {record : Record} {size : ℕ} (hrecords : [record] ∈ run.trace.filterMap recordsOf)
    (hencoded : flattenCodec.encodeBody (oneFieldMessage key value) .jsonFlatten = .ok ⟨size, .fields [([key], value)]⟩)
    (hrecord : rowRecord flattenRow (some registry)
      ⟨messageMetadata flattenRow (oneFieldMessage key value) 0, .fields [([key], value)]⟩ = .ok record)
    (hname : registry.nameOf flattenCodec [key] = some name) : Denotes run registry name [key] := by
  have hcodec : flattenRow.codec = flattenCodec := rfl
  have hformat : flattenRow.config.body.bodyFormat = .jsonFlatten := rfl
  refine ⟨[record], hrecords, record, List.mem_singleton_self _, oneFieldMessage key value, 0,
    ⟨size, .fields [([key], value)]⟩, [([key], value)], ?_, rfl, ?_, List.mem_singleton_self _, ?_⟩
  · rw [hrow, hcodec, hformat]
    exact hencoded
  · rw [hrow]
    exact hrecord
  · rw [hrow, hcodec]
    exact hname

/-- A record of such a message. -/
def oneFieldRecord (key value : String) (cells : List (String × String)) : Record where
  metadata := messageMetadata flattenRow (oneFieldMessage key value) 0
  cells := cells

/-- The registry after a run that saw one key. -/
def keyRegistry (columns : List FlattenColumn) (key : String) : FlattenRegistry :=
  (FlattenRegistry.seed columns metadataColumnNames).register flattenCodec [key]

/-- Whatever the second run calls `body_a_b` is what the first one called so. -/
theorem one_name_one_path_two : ∃ s', spacedAgain.Ends s' ∧
    s'.registry = some (keyRegistry spacedNamed.flattenColumns "a b") ∧ ∀ path', TellsApart asciiText ["a b"] path' →
      Denotes spacedAgain (keyRegistry spacedNamed.flattenColumns "a b") "body_a_b" path' → ["a b"] = path' := by
  have hends : spacedRun.Ends _ := ends_scriptedRun (by decide +kernel) (by decide +kernel)
  have hends' : spacedAgain.Ends _ := ends_scriptedRun (by decide +kernel) (by decide +kernel)
  have hs' : (scriptedState (Component.run flattenRow 8) (.start spacedNamed) (oneField "a b" "y")).registry =
      some (keyRegistry spacedNamed.flattenColumns "a b") := by decide +kernel
  have hd : Denotes spacedRun (keyRegistry [] "a b") "body_a_b" ["a b"] :=
    @denotes_oneField _ rfl _ "a b" "x" _
      (oneFieldRecord "a b" "x" [("body_unmapped", "\x7b\"body_a_b\":\"x\"\x7d")]) 11
      (by decide +kernel) (by decide +kernel) (by decide +kernel) (by decide +kernel)
  have h : History {} ([] ++ spacedRun :: [spacedAgain]) spacedNamed := history_spaced
  exact ⟨_, hends', hs', (one_name_one_path h implements_spaced hends (by decide +kernel) hd).2
    (by rintro ⟨⟩) (by decide +kernel) spacedAgain (List.mem_singleton_self _) _ _ hends' hs'⟩

/-- The run that sees the key `a b` first, completes its message and then loses its connection twice: it fails after it
armed `write_always`. -/
def failedRun : PastRun := lostRun flattenRow {} {
  receives := [.ok [oneFieldMessage "a b" "x"], .error (.serviceBus { kind := .connection }),
    .error (.serviceBus { kind := .connection })] }

/-- The names of a state whose run saw the key `a_b` first. -/
def underscoredNamed : ExtractorState where
  flattenColumns := [⟨"9a0276427389065eb15b1d4b05d4c2b6c5bd2c79", "body_a_b"⟩]

/-- The next run, which sees the key `a_b` first. -/
def underscoredRun : PastRun := scriptedRun flattenRow {} (oneField "a_b" "y") underscoredNamed

theorem ran_failedRun : failedRun.Ran := (ends_lostRun _ _ _).ran

theorem ran_underscoredRun : underscoredRun.Ran := ran_scriptedRun (by decide +kernel) (by decide +kernel)

theorem history_failed : History {} [failedRun, underscoredRun] underscoredNamed := by
  have hrest : History {} [underscoredRun] underscoredNamed := .cons ran_underscoredRun .nil
  have hsame : failedRun.visible = {} := rfl
  have h : History failedRun.input [failedRun, underscoredRun] underscoredNamed := .cons ran_failedRun (by rwa [hsame])
  exact h

/-- The table has the rows of both runs, and `body_a_b` stands for two keys in them. -/
theorem one_name_two_paths : ∃ v s s', History {} [failedRun, underscoredRun] v ∧ Uploaded failedRun ∧
    Uploaded underscoredRun ∧ failedRun.Ends s ∧ underscoredRun.Ends s' ∧ s.registry = some (keyRegistry [] "a b") ∧
    s'.registry = some (keyRegistry [] "a_b") ∧ Denotes failedRun (keyRegistry [] "a b") "body_a_b" ["a b"] ∧
    Denotes underscoredRun (keyRegistry [] "a_b") "body_a_b" ["a_b"] := by
  have hends : failedRun.Ends _ := ends_lostRun _ _ _
  have hends' : underscoredRun.Ends _ := ends_scriptedRun (by decide +kernel) (by decide +kernel)
  refine ⟨_, _, _, history_failed, .inr (by decide +kernel), .inl (by rintro ⟨⟩), hends, hends',
    by decide +kernel, by decide +kernel, ?_, ?_⟩
  · exact @denotes_oneField _ rfl _ "a b" "x" _
      (oneFieldRecord "a b" "x" [("body_unmapped", "\x7b\"body_a_b\":\"x\"\x7d")]) 11
      (by decide +kernel) (by decide +kernel) (by decide +kernel) (by decide +kernel)
  · exact @denotes_oneField _ rfl _ "a_b" "y" _
      (oneFieldRecord "a_b" "y" [("body_unmapped", "\x7b\"body_a_b\":\"y\"\x7d")]) 11
      (by decide +kernel) (by decide +kernel) (by decide +kernel) (by decide +kernel)

end ServiceBusExtractor
