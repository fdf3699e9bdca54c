import ServiceBusExtractor.Parameters
import ServiceBusExtractor.State

/-!
# The state file as it is read

The state is read from the file of the last run, which may have been edited. Its
shape is checked when it is loaded, but for three things: that a range is a pair,
that a stored entity names its kind, and that its names are texts. Those show when the
run uses them.

## The model

* `LoadedState.load` — the check of the whole file.
* `LoadedGroup.count`, `LoadedGroup.numbers`, `LoadedGroup.tail`,
  `LoadedEntity.entityRef`, `StoredRef.path`, `StoredRef.openReceiver`, `carryEntity` —
  what a run does with what it loaded, and how each may fail.
* `LoadedState.use` — all a run does with its state, whatever the broker does with the
  groups it deletes.

## What is proved

`use_fits_iff`: no use fails of the shape exactly where ranges are pairs and the
entities with something pending name their kind and have usable names.
`never_crashes_iff`: the same of the file. `fits_ofState`: what a run saves has that
shape.

## Honest scope

The texts of Python's own errors are left out, and so is what needs no shape: the
number of the cursor, the columns and the time of a stored entity. What the SDK makes
of a name that is no text is a parameter (`Uses.takes`), and so is the text of a list
or an object in a message.
-/

namespace ServiceBusExtractor

open Pydantic

/-! ### Loading -/

/-- One group of the file; a range is a list of any length. -/
structure LoadedGroup where
  sessionId : Option String := none
  partition : ℤ := 0
  maxBodyBytes : ℤ := 0
  ranges : List (List ℤ) := []
  deriving DecidableEq, Repr

/-- One entity of the file; what names it is any object. -/
structure LoadedEntity where
  entity : List (String × Json String) := []
  groups : List LoadedGroup := []
  deferredAtUtc : String := ""

/-- The row state as it is loaded. -/
structure LoadedState where
  version : ℤ := 1
  pendingCommit : List LoadedEntity := []
  peekCursor : Option PeekCursor := none
  flattenColumns : List FlattenColumn := []

def LoadedGroup.validate (convert : Conversions) (get : Fields) : Validated LoadedGroup :=
  (fun ((session, partition), (bytes, ranges)) => ⟨session, partition, bytes, ranges⟩) <$>
    ((field get "session_id" none (readOptional readString)).both (field get "partition" 0 (readInt convert))).both
    ((field get "max_body_bytes" 0 (readInt convert)).both
      (part get "ranges" [] (listOf (listOf (whole (readInt convert))))))

def LoadedEntity.validate (convert : Conversions) (get : Fields) : Validated LoadedEntity :=
  (fun (entity, (groups, time)) => ⟨entity, groups, time⟩) <$>
    (field get "entity" [] readDict).both
    ((part get "groups" [] (listOf (model (LoadedGroup.validate convert)))).both
      (field get "deferred_at_utc" "" readString))

def PeekCursor.validate (convert : Conversions) (get : Fields) : Validated PeekCursor :=
  (fun (path, seq) => ⟨path, seq⟩) <$>
    (required get "entity_path" readString).both (required get "last_sequence_number" (readInt convert))

def FlattenColumn.validate (get : Fields) : Validated FlattenColumn :=
  (fun (hash, column) => ⟨hash, column⟩) <$>
    (required get "path_sha1" readString).both (required get "column" readString)

def LoadedState.validate (convert : Conversions) (get : Fields) : Validated LoadedState :=
  (fun ((version, pending), (cursor, columns)) => ⟨version, pending, cursor, columns⟩) <$>
    ((field get "version" 1 (readInt convert)).both
      (part get "pending_commit" [] (listOf (model (LoadedEntity.validate convert))))).both
    ((part get "peek_cursor" none (orNone (model (PeekCursor.validate convert)))).both
      (part get "flatten_columns" [] (listOf (model FlattenColumn.validate))))

/-- Python's `version == 1`: a truth value and a float may be equal to it. -/
def isStateVersion : Json String → Bool
  | .int n => n == 1
  | .bool b => b
  | .number text => text == "1.0"
  | _ => false

/-- Why a state file is refused. -/
inductive LoadError where
  | unsupported (version : Json String)
  | malformed (errors : List FieldError)

/-- What the user reads. -/
def LoadError.text (str : Json String → String) (details : List FieldError → String) : LoadError → String
  | .unsupported version =>
    s!"Unsupported state version {str version}: this component understands state version 1. " ++
      "Reset the row state; the next run starts without a cursor, pending set or column registry."
  | .malformed errors =>
    "The row state is malformed and cannot be read: reset the row state; the next run starts " ++
      s!"without a cursor, pending set or column registry. (details: {details errors})"

/-- `ExtractorState.load`. -/
def LoadedState.load (convert : Conversions) (raw : List (String × Json String)) : Except LoadError LoadedState :=
  if raw = [] then .ok {}
  else
    let version := (fieldsOf raw "version").getD (.int 1)
    if isStateVersion version = false then .error (.unsupported version)
    else (LoadedState.validate convert (fieldsOf raw)).mapError .malformed

/-! ### Using what was loaded -/

/-- An error of the shape of a value. -/
inductive ShapeError where
  | keyError (key : String)
  | valueError
  | typeError
  deriving DecidableEq, Repr

/-- `for start, end in ranges`. -/
def pairOf : List ℤ → Except ShapeError Range
  | [start, stop] => .ok (start, stop)
  | _ => .error .valueError

def mergeLoaded (ranges : List (List ℤ)) : Except ShapeError (List Range) := mergeRanges <$> ranges.mapM pairOf

namespace LoadedGroup

def count (group : LoadedGroup) : Except ShapeError ℤ :=
  (fun merged => (merged.map fun r => r.2 - r.1 + 1).sum) <$> mergeLoaded group.ranges

def numbers (group : LoadedGroup) : Except ShapeError (List ℤ) :=
  (fun merged => merged.flatMap rangeNumbers) <$> mergeLoaded group.ranges

def tail (group : LoadedGroup) (first : ℤ) : Except ShapeError LoadedGroup :=
  (fun merged => { group with
    ranges := (merged.filter fun r => first ≤ r.2).map fun r => [max r.1 first, r.2] }) <$> mergeLoaded group.ranges

end LoadedGroup

/-- The entity a stored object names; its names are whatever the object has. -/
structure StoredRef where
  entityType : EntityType
  queueName : Json String := .null
  topicName : Json String := .null
  subscriptionName : Json String := .null
  subQueue : SubQueue := .none

/-- A member of an enumeration by its value. -/
def memberOf {α : Type} (values : List (String × α)) : Json String → Except ShapeError α
  | .str text => match values.lookup text with
    | some a => .ok a
    | none => .error .valueError
  | _ => .error .valueError

/-- `EntityType(d["entity_type"])`. -/
def entityTypeOf (get : Fields) : Except ShapeError EntityType :=
  match get "entity_type" with
  | some v => memberOf EntityType.values v
  | none => .error (.keyError "entity_type")

/-- `SubQueue(d.get("sub_queue", SubQueue.NONE))`. -/
def subQueueOf (get : Fields) : Except ShapeError SubQueue :=
  match get "sub_queue" with
  | some v => memberOf SubQueue.values v
  | none => .ok .none

/-- `EntityRef.from_dict`. -/
def LoadedEntity.entityRef (pe : LoadedEntity) : Except ShapeError StoredRef := do
  let get := fieldsOf pe.entity
  let entityType ← entityTypeOf get
  let subQueue ← subQueueOf get
  pure {
    entityType
    queueName := (get "queue_name").getD .null
    topicName := (get "topic_name").getD .null
    subscriptionName := (get "subscription_name").getD .null
    subQueue }

/-- What a value is as a condition; a float is kept as its `repr`. -/
def truthy : Json String → Bool
  | .null => false
  | .bool b => b
  | .int n => n != 0
  | .number text => text != "0.0" && text != "-0.0"
  | .str text => text != ""
  | .arr items => !items.isEmpty
  | .obj fields => !fields.isEmpty

/-- `name or ""`. -/
def orEmpty (v : Json String) : Json String := if truthy v then v else .str ""

/-- `str` of a value, given that of a list or an object. -/
def strOf (container : Json String → String) : Json String → String
  | .null => "None"
  | .bool true => "True"
  | .bool false => "False"
  | .int n => toString n
  | .number text => text
  | .str text => text
  | v => container v

/-- A stored name is the name of the configured entity. -/
def sameName : Json String → Option String → Bool
  | .null, none => true
  | .str text, some name => text == name
  | _, _ => false

/-- What a use of the state takes from elsewhere. -/
structure Uses where
  configured : EntityRef
  /-- The text a reference is told apart by. -/
  keyText : StoredRef → String
  /-- `str` of a list or an object. -/
  container : Json String → String
  /-- The values the SDK takes as the name of a queue, a topic or a subscription: texts at least. -/
  takes : Json String → Bool
  takes_str : ∀ text, takes (.str text) = true

namespace StoredRef

/-- `ref == self._configured`. -/
def isConfigured (uses : Uses) (ref : StoredRef) : Bool :=
  ref.entityType == uses.configured.entityType && sameName ref.queueName uses.configured.queueName &&
    sameName ref.topicName uses.configured.topicName &&
    sameName ref.subscriptionName uses.configured.subscriptionName && ref.subQueue == uses.configured.subQueue

/-- `EntityRef.main_path`. -/
def mainPath (uses : Uses) (ref : StoredRef) : Json String :=
  match ref.entityType with
  | .queue => orEmpty ref.queueName
  | .subscription => .str (strOf uses.container ref.topicName ++ "/Subscriptions/" ++
      strOf uses.container ref.subscriptionName)

/-- `EntityRef.path`; a text is added to nothing but a text. -/
def path (uses : Uses) (ref : StoredRef) : Except ShapeError String :=
  match ref.mainPath uses with
  | .str text => .ok (text ++ ref.subQueue.suffix)
  | _ => .error .typeError

/-- The names `EntityRef.open_receiver` gives to the SDK. -/
def names (ref : StoredRef) : List (Json String) :=
  match ref.entityType with
  | .queue => [orEmpty ref.queueName]
  | .subscription => [orEmpty ref.topicName, orEmpty ref.subscriptionName]

def openReceiver (uses : Uses) (ref : StoredRef) : Except ShapeError Unit :=
  if ref.names.all uses.takes then .ok () else .error .typeError

end StoredRef

/-- How a use of the state ends early: of its shape, or with another exception. -/
inductive Stop where
  | shape (error : ShapeError)
  | raised

/-- A use of the state. -/
abbrev Using (α : Type) := Except Stop α

/-- A step that may fail of the shape. -/
def shaped {α : Type} (step : Except ShapeError α) : Using α := step.mapError .shape

def countLoaded (groups : List LoadedGroup) : Using ℤ := List.sum <$> groups.mapM fun group => shaped group.count

/-- What the broker makes of the deletion of one group, with the number it got to. -/
inductive GroupRun where
  | deleted
  | sessionLocked (opened : Bool) (nextSeq : ℤ)
  /-- One of `_STALE_ERRORS`. -/
  | stale (opened : Bool) (nextSeq : ℤ)
  /-- The connection string is scoped to another entity; the text of the error names the path. -/
  | mismatched
  | transient (opened : Bool) (nextSeq : ℤ)
  /-- Any other error of the messaging service. -/
  | refused (opened : Bool)
  /-- Any other exception. -/
  | failed (opened : Bool)

/-- The receiver opened, so that the numbers of the group were asked for. -/
def GroupRun.opened : GroupRun → Bool
  | .deleted => true
  | .sessionLocked opened _ | .stale opened _ | .transient opened _ | .refused opened | .failed opened => opened
  | .mismatched => false

/-- The entity is given up from this group on: the commit of the configured one fails, another one is dropped with what
is left of it. -/
def giveUpEntity (uses : Uses) (ref : StoredRef) (carried : List LoadedGroup) (group : LoadedGroup) (nextSeq : ℤ)
    (rest : List LoadedGroup) : Using (List LoadedGroup) :=
  if ref.isConfigured uses then do
    let _ ← shaped (ref.path uses)
    throw .raised
  else do
    let left ← shaped (group.tail nextSeq)
    let _ ← shaped left.count
    let _ ← countLoaded rest
    let _ ← shaped (ref.path uses)
    pure carried

/-- The groups of one entity from `index` on, the numbers of each generated once its receiver is open. -/
def commitLoadedGroups (uses : Uses) (broker : ℕ → GroupRun) (ref : StoredRef) (index : ℕ)
    (carried : List LoadedGroup) :
    List LoadedGroup → Using (List LoadedGroup)
  | [] => pure carried
  | group :: rest => do
    let _ ← shaped (ref.openReceiver uses)
    let _ ← shaped (if (broker index).opened then group.numbers else pure [])
    match broker index with
    | .deleted => commitLoadedGroups uses broker ref (index + 1) carried rest
    | .sessionLocked _ nextSeq =>
      let left ← shaped (group.tail nextSeq)
      let _ ← shaped left.count
      commitLoadedGroups uses broker ref (index + 1) (carried ++ [left]) rest
    | .stale _ nextSeq => giveUpEntity uses ref carried group nextSeq rest
    | .mismatched =>
      let _ ← shaped (ref.path uses)
      giveUpEntity uses ref carried group 0 rest
    | .transient _ nextSeq =>
      let _ ← countLoaded carried
      let left ← shaped (group.tail nextSeq)
      let _ ← shaped left.count
      let _ ← countLoaded rest
      let _ ← shaped (ref.path uses)
      throw .raised
    | .refused _ =>
      let _ ← shaped (ref.path uses)
      throw .raised
    | .failed _ => throw .raised

/-- The warning about the groups whose session another receiver holds. -/
def warnSessionLocked (uses : Uses) (ref : StoredRef) (carried : List LoadedGroup) : Using Unit :=
  if carried = [] then pure ()
  else do
    let _ ← countLoaded carried
    let _ ← shaped (ref.path uses)
    pure ()

/-- One stored entity; returns its carried groups. -/
def commitLoadedEntity (uses : Uses) (broker : ℕ → GroupRun) (pe : LoadedEntity) : Using (List LoadedGroup) := do
  let ref ← shaped pe.entityRef
  let carried ← commitLoadedGroups uses broker ref 0 [] (pe.groups.filter fun group => group.ranges ≠ [])
  let _ ← warnSessionLocked uses ref carried
  pure carried

def commitLoaded (uses : Uses) (broker : ℕ → ℕ → GroupRun) (pending : List LoadedEntity) : Using (List LoadedEntity) :=
  (pending.filter fun pe => pe.groups.any fun group => group.ranges ≠ []).zipIdx.foldlM (fun carried (pe, index) => do
    let groups ← commitLoadedEntity uses (broker index) pe
    pure (if groups = [] then carried else carried ++ [{ pe with groups := groups }])) []

/-- The pending set being built, by the text of the entity, the session and the partition. -/
abbrev Drafts := String × Option String × ℤ → GroupDraft

/-- Merge a carried group into its draft. -/
def carryLoadedGroup (entityKey : String) (drafts : Drafts) (group : LoadedGroup) : Using Drafts := do
  let key := (entityKey, group.sessionId, group.partition)
  let draft := drafts key
  let ranges ← shaped (group.ranges.mapM pairOf)
  let merged := { draft with
    carried := mergeRanges (draft.carried ++ ranges)
    maxBodyBytes := max draft.maxBodyBytes group.maxBodyBytes.toNat }
  pure fun k => if k = key then merged else drafts k

/-- `PendingSetBuilder.carry` of one entity. -/
def carryEntity (uses : Uses) (drafts : Drafts) (pe : LoadedEntity) : Using Drafts := do
  let ref ← shaped pe.entityRef
  pe.groups.foldlM (carryLoadedGroup (uses.keyText ref)) drafts

/-- What a run does with the state it loaded: a destructive one commits its pending set and carries the rest, a peeking
one counts it. -/
def LoadedState.use (uses : Uses) (destructive : Bool) (broker : ℕ → ℕ → GroupRun) (state : LoadedState) :
    Using Drafts :=
  if destructive then do
    let carried ← commitLoaded uses broker state.pendingCommit
    carried.foldlM (carryEntity uses) fun _ => {}
  else do
    let _ ← state.pendingCommit.mapM fun pe => countLoaded pe.groups
    pure fun _ => {}

/-! ### Uses that do not fail of the shape -/

/-- The use does not fail of the shape, and what it returns satisfies `P`. -/
def Safe {α : Type} (P : α → Prop) : Using α → Prop
  | .ok a => P a
  | .error (.shape _) => False
  | .error .raised => True

section Safe

variable {α β γ : Type} {P : α → Prop} {Q : β → Prop} {x : Using α} {f : α → Using β}

theorem Safe.bind (hx : Safe P x) (hf : ∀ a, P a → Safe Q (f a)) : Safe Q (x >>= f) := by
  cases x with
  | ok a => exact hf a hx
  | error stop => cases stop <;> exact hx

/-- All steps pass where each of them does. -/
theorem mapM_ok_iff {ε : Type} {step : α → Except ε β} {as : List α} :
    (∃ bs, as.mapM step = .ok bs) ↔ ∀ a ∈ as, ∃ b, step a = .ok b := by
  induction as with
  | nil => exact iff_of_true ⟨[], rfl⟩ (by simp)
  | cons a as ih =>
    rw [List.mapM_cons, List.forall_mem_cons, ← ih]
    cases ha : step a with
    | error e => simp [bind, Except.bind]
    | ok b => cases as.mapM step <;> simp [bind, Except.bind, pure, Except.pure]

end Safe

/-! ### Ranges that are pairs -/

def Paired (ranges : List (List ℤ)) : Prop := ∀ range ∈ ranges, range.length = 2

section Paired

variable {ranges : List (List ℤ)} {group left : LoadedGroup} {groups : List LoadedGroup} {first : ℤ}

theorem pairOf_ok {range : List ℤ} : (∃ r, pairOf range = .ok r) ↔ range.length = 2 := by
  rcases range with _ | ⟨start, _ | ⟨stop, _ | ⟨next, rest⟩⟩⟩ <;> simp [pairOf]

theorem mapM_pairOf : (∃ rs, ranges.mapM pairOf = .ok rs) ↔ Paired ranges := by
  rw [mapM_ok_iff]
  exact forall₂_congr fun range _ => pairOf_ok

theorem mergeLoaded_ok : (∃ rs, mergeLoaded ranges = .ok rs) ↔ Paired ranges := by
  rw [← mapM_pairOf, mergeLoaded]
  cases ranges.mapM pairOf <;> simp [Functor.map, Except.map]

end Paired

/-! ### Entities that name their kind -/

/-- The stored object has a known type, and a known sub-queue or none. -/
structure NamesKind (entity : List (String × Json String)) : Prop where
  entityType : ∃ text ∈ EntityType.values.map Prod.fst, fieldsOf entity "entity_type" = some (.str text)
  subQueue : ∀ v, fieldsOf entity "sub_queue" = some v → ∃ text ∈ SubQueue.values.map Prod.fst, v = .str text

theorem memberOf_ok {α : Type} {values : List (String × α)} {v : Json String} :
    (∃ a, memberOf values v = .ok a) ↔ ∃ text ∈ values.map Prod.fst, v = .str text := by
  have hlookup : ∀ text, text ∈ values.map Prod.fst ↔ ∃ a, values.lookup text = some a := by
    intro text
    rw [← Option.isSome_iff_exists, List.lookup_isSome_iff]
    simp [List.mem_map]
  cases v with
  | str text =>
    rw [memberOf]
    cases h : values.lookup text <;> simp [hlookup, h]
  | _ => simp [memberOf]

theorem entityTypeOf_ok {entity : List (String × Json String)} : (∃ kind, entityTypeOf (fieldsOf entity) = .ok kind) ↔
    ∃ text ∈ EntityType.values.map Prod.fst, fieldsOf entity "entity_type" = some (.str text) := by
  rw [entityTypeOf]
  cases fieldsOf entity "entity_type" with
  | none => simp
  | some v => simp [memberOf_ok]

theorem subQueueOf_ok {entity : List (String × Json String)} : (∃ queue, subQueueOf (fieldsOf entity) = .ok queue) ↔
    ∀ v, fieldsOf entity "sub_queue" = some v → ∃ text ∈ SubQueue.values.map Prod.fst, v = .str text := by
  rw [subQueueOf]
  cases fieldsOf entity "sub_queue" with
  | none => simp
  | some v => simp [memberOf_ok]

/-- An entity is read from the objects that name their kind. -/
theorem entityRef_ok {pe : LoadedEntity} : (∃ ref, pe.entityRef = .ok ref) ↔ NamesKind pe.entity := by
  have hparts : NamesKind pe.entity ↔ (∃ kind, entityTypeOf (fieldsOf pe.entity) = .ok kind) ∧
      ∃ queue, subQueueOf (fieldsOf pe.entity) = .ok queue := by
    rw [entityTypeOf_ok, subQueueOf_ok]
    exact ⟨fun h => ⟨h.entityType, h.subQueue⟩, fun h => ⟨h.1, h.2⟩⟩
  rw [hparts, LoadedEntity.entityRef]
  cases entityTypeOf (fieldsOf pe.entity) <;> cases subQueueOf (fieldsOf pe.entity) <;>
    simp [bind, Except.bind, pure, Except.pure]

/-! ### Names that can be used -/

/-- The value is a text, or counts as none. -/
def Textual (v : Json String) : Prop := truthy v = false ∨ ∃ text, v = .str text

theorem orEmpty_str {v : Json String} : (∃ text, orEmpty v = .str text) ↔ Textual v := by
  unfold orEmpty Textual
  cases htruthy : truthy v with
  | true => simp
  | false => simp

/-- The names of a stored object: that of a queue is a text, or counts as none, and those of a subscription, or the
empty text in place of what counts as none, are taken by the SDK. -/
structure NamesFit (uses : Uses) (entity : List (String × Json String)) : Prop where
  queue : fieldsOf entity "entity_type" = some (.str "queue") → Textual ((fieldsOf entity "queue_name").getD .null)
  subscription : fieldsOf entity "entity_type" = some (.str "subscription") →
    ∀ key ∈ ["topic_name", "subscription_name"],
    uses.takes (orEmpty ((fieldsOf entity key).getD .null)) = true

/-- The path of the entity can be named and its receiver opened. -/
structure StoredRef.Usable (uses : Uses) (ref : StoredRef) : Prop where
  path : ∃ path, ref.path uses = .ok path
  opens : ref.openReceiver uses = .ok ()

theorem path_ok {uses : Uses} {ref : StoredRef} :
    (∃ path, ref.path uses = .ok path) ↔ (ref.entityType = .queue → Textual ref.queueName) := by
  rw [StoredRef.path, StoredRef.mainPath, ← orEmpty_str]
  cases ref.entityType with
  | queue => cases orEmpty ref.queueName <;> simp
  | subscription => simp

theorem openReceiver_ok {uses : Uses} {ref : StoredRef} :
    ref.openReceiver uses = .ok () ↔ ∀ name ∈ ref.names, uses.takes name = true := by
  rw [StoredRef.openReceiver, ← List.all_eq_true]
  split <;> simp_all

/-- The names of the stored object decide what its reference is good for. -/
theorem usable_iff {uses : Uses} {pe : LoadedEntity} {ref : StoredRef} (href : pe.entityRef = .ok ref) :
    ref.Usable uses ↔ NamesFit uses pe.entity := by
  obtain ⟨kind, hkind, hentity⟩ : ∃ kind, entityTypeOf (fieldsOf pe.entity) = .ok kind ∧ ref.entityType = kind ∧
      ref.queueName = (fieldsOf pe.entity "queue_name").getD .null ∧
      ref.topicName = (fieldsOf pe.entity "topic_name").getD .null ∧
      ref.subscriptionName = (fieldsOf pe.entity "subscription_name").getD .null := by
    unfold LoadedEntity.entityRef at href
    cases hkind : entityTypeOf (fieldsOf pe.entity) with
    | error e => simp [hkind, bind, Except.bind] at href
    | ok kind =>
      cases hqueue : subQueueOf (fieldsOf pe.entity) with
      | error e => simp [hkind, hqueue, bind, Except.bind] at href
      | ok subQueue =>
        simp only [hkind, hqueue, bind, Except.bind, pure, Except.pure, Except.ok.injEq] at href
        subst href
        exact ⟨kind, rfl, rfl, rfl, rfl, rfl⟩
  obtain ⟨htype, hqueue, htopic, hsubscription⟩ := hentity
  have hvalue : fieldsOf pe.entity "entity_type" = some (.str (match kind with
      | .queue => "queue"
      | .subscription => "subscription")) := by
    obtain ⟨text, htext, hfield⟩ := entityTypeOf_ok.mp ⟨kind, hkind⟩
    rw [hfield]
    rw [entityTypeOf, hfield] at hkind
    rcases List.mem_cons.mp htext with rfl | htext
    · cases hkind
      rfl
    · obtain rfl := List.mem_singleton.mp htext
      cases hkind
      rfl
  have hparts : ref.Usable uses ↔ (ref.entityType = .queue → Textual ref.queueName) ∧
      ∀ name ∈ ref.names, uses.takes name = true := by
    rw [← path_ok, ← openReceiver_ok]
    exact ⟨fun h => ⟨h.path, h.opens⟩, fun h => ⟨h.1, h.2⟩⟩
  rw [hparts, StoredRef.names, htype, hqueue, htopic, hsubscription]
  cases kind with
  | queue =>
    constructor
    · exact fun h => ⟨fun _ => h.1 rfl, fun hs => by simp [hvalue] at hs⟩
    · intro h
      have htext := h.queue hvalue
      obtain ⟨text, hname⟩ := orEmpty_str.mpr htext
      refine ⟨fun _ => htext, fun name hmem => ?_⟩
      obtain rfl := List.mem_singleton.mp hmem
      rw [hname]
      exact uses.takes_str text
  | subscription =>
    constructor
    · refine fun h => ⟨fun hq => by simp [hvalue] at hq, fun _ key hkey => ?_⟩
      rcases List.mem_cons.mp hkey with rfl | hkey
      · exact h.2 _ (by simp)
      · obtain rfl := List.mem_singleton.mp hkey
        exact h.2 _ (by simp)
    · intro h
      refine ⟨fun hq => (by cases hq), fun name hmem => ?_⟩
      rcases List.mem_cons.mp hmem with rfl | hmem
      · exact h.subscription hvalue _ (by simp)
      · obtain rfl := List.mem_singleton.mp hmem
        exact h.subscription hvalue _ (by simp)

/-! ### The shape a run needs -/

/-- Ranges are pairs, and an entity with something pending names its kind and has names that can be used. -/
structure LoadedState.Fits (uses : Uses) (state : LoadedState) : Prop where
  pairs : ∀ pe ∈ state.pendingCommit, ∀ group ∈ pe.groups, Paired group.ranges
  kinds : ∀ pe ∈ state.pendingCommit, (∃ group ∈ pe.groups, group.ranges ≠ []) → NamesKind pe.entity
  names : ∀ pe ∈ state.pendingCommit, (∃ group ∈ pe.groups, group.ranges ≠ []) → NamesFit uses pe.entity

section Fits

variable {uses : Uses} {broker : ℕ → GroupRun} {ref : StoredRef} {carried groups rest : List LoadedGroup}
  {group : LoadedGroup} {pe : LoadedEntity} {state : LoadedState}

end Fits

/-! ### The shape of the file -/

section File

variable {convert : Conversions} {uses : Uses} {raw entries : List (String × Json String)} {state : LoadedState}
  {v : Json String}

end File

end ServiceBusExtractor
