import ServiceBusExtractor.LoadedState

/-!
# The state file as it is written

What a run saves is read back by the next one as it was.

## The model

* `ExtractorState.toDict` — the JSON object of a state.
* `LoadedState.ofState` — what a state is once it is loaded.

## What is proved

`load_toDict`: loading undoes saving. `fits_ofState`: a saved state has the shape
that a run needs. `saved_state_resumes`: what a run does with a loaded state is what
it does with the state.
-/

namespace ServiceBusExtractor

open Pydantic

/-! ### Writing -/

/-- A text, or `null`. -/
def textOrNull : Option String → Json String
  | some text => .str text
  | none => .null

def EntityType.text : EntityType → String
  | .queue => "queue"
  | .subscription => "subscription"

def SubQueue.text : SubQueue → String
  | .none => "none"
  | .deadLetter => "dead_letter"
  | .transferDeadLetter => "transfer_dead_letter"

namespace EntityRef

def toDict (entity : EntityRef) : List (String × Json String) :=
  [("entity_type", .str entity.entityType.text), ("queue_name", textOrNull entity.queueName),
    ("topic_name", textOrNull entity.topicName), ("subscription_name", textOrNull entity.subscriptionName),
    ("sub_queue", .str entity.subQueue.text)]

end EntityRef

def PendingGroup.toJson (group : PendingGroup) : Json String :=
  .obj [("session_id", textOrNull group.sessionId), ("partition", .int group.partition),
    ("max_body_bytes", .int group.maxBodyBytes), ("ranges", .arr (group.ranges.map fun r => .arr [.int r.1, .int r.2]))]

def PendingEntity.toJson (pe : PendingEntity) : Json String :=
  .obj [("entity", .obj pe.entity.toDict), ("groups", .arr (pe.groups.map PendingGroup.toJson)),
    ("deferred_at_utc", .str pe.deferredAtUtc)]

def PeekCursor.toJson (cursor : PeekCursor) : Json String :=
  .obj [("entity_path", .str cursor.entityPath), ("last_sequence_number", .int cursor.lastSequenceNumber)]

def FlattenColumn.toJson (entry : FlattenColumn) : Json String :=
  .obj [("path_sha1", .str entry.pathSha1), ("column", .str entry.column)]

/-- `ExtractorState.to_dict`. -/
def ExtractorState.toDict (state : ExtractorState) : List (String × Json String) :=
  [("version", .int 1), ("pending_commit", .arr (state.pendingCommit.map PendingEntity.toJson)),
    ("peek_cursor", (state.peekCursor.map PeekCursor.toJson).getD .null),
    ("flatten_columns", .arr (state.flattenColumns.map FlattenColumn.toJson))]

/-! ### What is loaded of it -/

def LoadedGroup.ofGroup (group : PendingGroup) : LoadedGroup where
  sessionId := group.sessionId
  partition := group.partition
  maxBodyBytes := group.maxBodyBytes
  ranges := group.ranges.map fun r => [r.1, r.2]

def LoadedEntity.ofEntity (pe : PendingEntity) : LoadedEntity where
  entity := pe.entity.toDict
  groups := pe.groups.map .ofGroup
  deferredAtUtc := pe.deferredAtUtc

def LoadedState.ofState (state : ExtractorState) : LoadedState where
  pendingCommit := state.pendingCommit.map .ofEntity
  peekCursor := state.peekCursor
  flattenColumns := state.flattenColumns

section Reading

variable {convert : Conversions}

/-- A written list is read item by item. -/
theorem listOf_map {α β : Type} {check : Check β} {write : α → Json String} {value : α → β} {as : List α}
    (h : ∀ a, check (write a) = .ok (value a)) : listOf check (.arr (as.map write)) = .ok (as.map value) := by
  refine listOf_ok.mpr ⟨_, rfl, ?_⟩
  rw [List.forall₂_map_left_iff, List.forall₂_map_right_iff]
  exact List.forall₂_same.mpr fun a _ => h a

theorem read_range (r : Range) : listOf (whole (readInt convert)) (.arr [.int r.1, .int r.2]) = .ok [r.1, r.2] :=
  @listOf_map _ _ (whole (readInt convert)) .int id [r.1, r.2] fun _ => rfl

theorem read_session (sessionId : Option String) : readOptional readString (textOrNull sessionId) = .ok sessionId := by
  cases sessionId <;> rfl

theorem read_group (group : PendingGroup) :
    model (LoadedGroup.validate convert) group.toJson = .ok (.ofGroup group) := by
  refine model_ok.mpr ⟨_, rfl,
    Validated.map_ok.mpr ⟨((_, _), (_, _)), Validated.both_ok.mpr ⟨Validated.both_ok.mpr ⟨?_, ?_⟩,
    Validated.both_ok.mpr ⟨?_, ?_⟩⟩, rfl⟩⟩
  · exact field_ok.mpr (.inr ⟨_, rfl, read_session group.sessionId⟩)
  · exact field_ok.mpr (.inr ⟨_, rfl, rfl⟩)
  · exact field_ok.mpr (.inr ⟨_, rfl, rfl⟩)
  · exact part_ok.mpr (.inr ⟨_, rfl, listOf_map read_range⟩)

theorem read_entity (pe : PendingEntity) :
    model (LoadedEntity.validate convert) pe.toJson = .ok (.ofEntity pe) := by
  refine model_ok.mpr ⟨_, rfl,
    Validated.map_ok.mpr ⟨(_, _, _), Validated.both_ok.mpr ⟨?_, Validated.both_ok.mpr ⟨?_, ?_⟩⟩, rfl⟩⟩
  · exact field_ok.mpr (.inr ⟨_, rfl, rfl⟩)
  · exact part_ok.mpr (.inr ⟨_, rfl, listOf_map read_group⟩)
  · exact field_ok.mpr (.inr ⟨_, rfl, rfl⟩)

theorem read_columns (columns : List FlattenColumn) :
    listOf (model FlattenColumn.validate) (.arr (columns.map FlattenColumn.toJson)) = .ok columns := by
  have h := @listOf_map _ _ (model FlattenColumn.validate) FlattenColumn.toJson id columns fun _ => rfl
  rwa [List.map_id] at h

theorem read_cursor (cursor : Option PeekCursor) :
    orNone (model (PeekCursor.validate convert)) ((cursor.map PeekCursor.toJson).getD .null) = .ok cursor := by
  cases cursor <;> rfl

/-- Loading undoes saving. -/
theorem load_toDict (state : ExtractorState) : LoadedState.load convert state.toDict = .ok (.ofState state) := by
  have hvalid : LoadedState.validate convert (fieldsOf state.toDict) = .ok (.ofState state) := by
    refine Validated.map_ok.mpr ⟨((_, _), (_, _)), Validated.both_ok.mpr ⟨Validated.both_ok.mpr ⟨?_, ?_⟩,
      Validated.both_ok.mpr ⟨?_, ?_⟩⟩, rfl⟩
    · exact field_ok.mpr (.inr ⟨_, rfl, rfl⟩)
    · exact part_ok.mpr (.inr ⟨_, rfl, listOf_map read_entity⟩)
    · exact part_ok.mpr (.inr ⟨_, rfl, read_cursor state.peekCursor⟩)
    · exact part_ok.mpr (.inr ⟨_, rfl, read_columns state.flattenColumns⟩)
  have hne : state.toDict ≠ [] := List.cons_ne_nil _ _
  rw [LoadedState.load, if_neg hne]
  show (LoadedState.validate convert (fieldsOf state.toDict)).mapError _ = _
  rw [hvalid]
  rfl

end Reading

/-! ### Using it -/

section Using

variable {group : PendingGroup}

theorem mergeLoaded_map (ranges : List Range) :
    mergeLoaded (ranges.map fun r => [r.1, r.2]) = .ok (mergeRanges ranges) := by
  have hpairs : (ranges.map fun r => [r.1, r.2]).mapM pairOf = .ok ranges := by
    induction ranges with
    | nil => rfl
    | cons r rest ih =>
      rw [List.map_cons, List.mapM_cons, ih]
      rfl
  rw [mergeLoaded, hpairs]
  rfl

theorem count_ofGroup : (LoadedGroup.ofGroup group).count = .ok group.count := by
  rw [LoadedGroup.count, LoadedGroup.ofGroup, mergeLoaded_map]
  rfl

theorem numbers_ofGroup : (LoadedGroup.ofGroup group).numbers = .ok (iterRanges group.ranges) := by
  rw [LoadedGroup.numbers, LoadedGroup.ofGroup, mergeLoaded_map]
  rfl

theorem tail_ofGroup (first : ℤ) : (LoadedGroup.ofGroup group).tail first = .ok (.ofGroup (group.tail first)) := by
  rw [LoadedGroup.tail, LoadedGroup.ofGroup, mergeLoaded_map]
  simp [Functor.map, Except.map, LoadedGroup.ofGroup, PendingGroup.tail, tailRanges]

/-- A stored entity is read as the entity that was stored. -/
theorem entityRef_ofEntity (pe : PendingEntity) : (LoadedEntity.ofEntity pe).entityRef = .ok {
    entityType := pe.entity.entityType
    queueName := textOrNull pe.entity.queueName
    topicName := textOrNull pe.entity.topicName
    subscriptionName := textOrNull pe.entity.subscriptionName
    subQueue := pe.entity.subQueue } := by
  obtain ⟨⟨entityType, queueName, topicName, subscriptionName, subQueue⟩, groups, time⟩ := pe
  cases entityType <;> cases subQueue <;> rfl

/-- The name of an entity is a text, or none. -/
theorem orEmpty_textOrNull (name : Option String) : orEmpty (textOrNull name) = .str (name.getD "") := by
  cases name with
  | none => rfl
  | some text =>
    by_cases hempty : text = ""
    · subst hempty
      rfl
    · simp [orEmpty, textOrNull, truthy, hempty]

theorem strOf_textOrNull (container : Json String → String) (name : Option String) :
    strOf container (textOrNull name) = name.getD "None" := by
  cases name <;> rfl

/-- A stored entity has the path of the entity that was stored. -/
theorem path_ofEntity (uses : Uses) (pe : PendingEntity) :
    ((LoadedEntity.ofEntity pe).entityRef >>= fun ref => ref.path uses) = .ok pe.entity.path := by
  rw [entityRef_ofEntity]
  show StoredRef.path uses _ = _
  rw [StoredRef.path, StoredRef.mainPath, EntityRef.path, EntityRef.mainPath]
  cases pe.entity.entityType with
  | queue =>
    dsimp only
    rw [orEmpty_textOrNull]
  | subscription =>
    dsimp only
    rw [strOf_textOrNull, strOf_textOrNull]

theorem namesFit_ofEntity (uses : Uses) (pe : PendingEntity) : NamesFit uses (LoadedEntity.ofEntity pe).entity := by
  refine (usable_iff (entityRef_ofEntity pe)).mp ⟨⟨pe.entity.path, ?_⟩, ?_⟩
  · have hpath := path_ofEntity uses pe
    rwa [entityRef_ofEntity] at hpath
  · refine openReceiver_ok.mpr fun name hname => ?_
    obtain ⟨text, rfl⟩ : ∃ text, name = .str text := by
      rw [StoredRef.names] at hname
      cases hkind : pe.entity.entityType with
      | queue =>
        simp only [hkind, List.mem_singleton] at hname
        exact ⟨_, hname.trans (orEmpty_textOrNull _)⟩
      | subscription =>
        simp only [hkind, List.mem_cons, List.not_mem_nil, or_false] at hname
        rcases hname with hname | hname
        · exact ⟨_, hname.trans (orEmpty_textOrNull _)⟩
        · exact ⟨_, hname.trans (orEmpty_textOrNull _)⟩
    exact uses.takes_str text

/-- What a run saves has the shape the next one needs. -/
theorem fits_ofState (uses : Uses) (state : ExtractorState) : (LoadedState.ofState state).Fits uses := by
  refine ⟨fun pe hpe group hgroup => ?_, fun pe hpe _ => ?_, fun pe hpe _ => ?_⟩
  · obtain ⟨pe, -, rfl⟩ := List.mem_map.mp hpe
    obtain ⟨group, -, rfl⟩ := List.mem_map.mp hgroup
    exact mergeLoaded_ok.mp ⟨_, mergeLoaded_map group.ranges⟩
  · obtain ⟨pe, -, rfl⟩ := List.mem_map.mp hpe
    exact entityRef_ok.mp ⟨_, entityRef_ofEntity pe⟩
  · obtain ⟨pe, -, rfl⟩ := List.mem_map.mp hpe
    exact namesFit_ofEntity uses pe

/-- A loaded group is as good as the group that was saved. -/
structure ResumesGroup (loaded : LoadedGroup) (group : PendingGroup) : Prop where
  key : loaded.sessionId = group.sessionId ∧ loaded.partition = group.partition
  size : loaded.maxBodyBytes = group.maxBodyBytes
  count : loaded.count = .ok group.count
  numbers : loaded.numbers = .ok (iterRanges group.ranges)
  /-- What is left of it after a part was deleted. -/
  tail : ∀ first, ∃ rest, loaded.tail first = .ok rest ∧ rest.numbers = .ok (iterRanges (group.tail first).ranges)

theorem resumes_ofGroup (group : PendingGroup) : ResumesGroup (.ofGroup group) group where
  key := ⟨rfl, rfl⟩
  size := rfl
  count := count_ofGroup
  numbers := numbers_ofGroup
  tail first := ⟨_, tail_ofGroup first, numbers_ofGroup⟩

/-- A loaded entity is as good as the entity that was saved. -/
structure ResumesEntity (loaded : LoadedEntity) (pe : PendingEntity) : Prop where
  entity : loaded.entityRef = .ok {
    entityType := pe.entity.entityType
    queueName := textOrNull pe.entity.queueName
    topicName := textOrNull pe.entity.topicName
    subscriptionName := textOrNull pe.entity.subscriptionName
    subQueue := pe.entity.subQueue }
  deferredAt : loaded.deferredAtUtc = pe.deferredAtUtc
  groups : List.Forall₂ ResumesGroup loaded.groups pe.groups

end Using

/-- Every state a run can write is loaded by the next one, and what that reads of it, entity by entity and group by
group, is what was written: the entity, the session, the numbers still to delete, how many they are, and what is left
of them. -/
theorem saved_state_resumes (convert : Conversions) (state : ExtractorState) :
    ∃ loaded, LoadedState.load convert state.toDict = .ok loaded ∧ (∀ uses, loaded.Fits uses) ∧
      loaded.peekCursor = state.peekCursor ∧
      loaded.flattenColumns = state.flattenColumns ∧
        List.Forall₂ ResumesEntity loaded.pendingCommit state.pendingCommit := by
  have hentity : ∀ pe : PendingEntity, ResumesEntity (.ofEntity pe) pe := by
    refine fun pe => ⟨entityRef_ofEntity pe, rfl, List.forall₂_map_left_iff.mpr ?_⟩
    exact List.forall₂_same.mpr fun group _ => resumes_ofGroup group
  refine ⟨.ofState state, load_toDict state, fun uses => fits_ofState uses state, rfl, rfl,
    List.forall₂_map_left_iff.mpr ?_⟩
  exact List.forall₂_same.mpr fun pe _ => hentity pe

end ServiceBusExtractor
