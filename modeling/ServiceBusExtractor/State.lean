import ServiceBusExtractor.Entity
import ServiceBusExtractor.Ranges

/-!
# The row state

What a run leaves for the next one: the deferred messages it has to delete, the
peek cursor and the flattened columns.

## The model

* `PendingGroup`, `PendingEntity` — the pending set as the state stores it: an
  entity, a session, a partition and ranges of sequence numbers.
* `PendingSetBuilder` — the pending set while a run builds it.
* `ExtractorState` — the whole row state.
* `Deferral` — one deferred message: its entity, session and sequence number;
  `Pending d entities` and `PendingSetBuilder.Holds d` say that a set has it.

## What is proved

What adding, carrying and building do to the deferrals of a set: `holds_add`,
`holds_carry`, `pending_build`.

## Honest scope

A stored entity is an `EntityRef`; `LoadedState` reads it from the dictionary of the
state file.
-/

namespace ServiceBusExtractor

/-- The state a deferring run may save, in bytes. -/
def stateBudgetBytes : ℕ := 256 * 1024

/-- One (entity, session, partition) group of deferred sequence numbers. -/
structure PendingGroup where
  sessionId : Option String := none
  partition : ℤ := 0
  maxBodyBytes : ℕ := 0
  ranges : List Range := []
  deriving DecidableEq, Repr

namespace PendingGroup

def count (group : PendingGroup) : ℤ := countRanges group.ranges

/-- What is still pending of the group once everything below `first` is deleted. -/
def tail (group : PendingGroup) (first : ℤ) : PendingGroup :=
  { group with ranges := tailRanges group.ranges first }

end PendingGroup

/-- A stored entity and its groups. -/
structure PendingEntity where
  entity : EntityRef
  groups : List PendingGroup := []
  deferredAtUtc : String := ""
  deriving DecidableEq, Repr

structure PeekCursor where
  entityPath : String
  lastSequenceNumber : ℤ
  deriving DecidableEq, Repr

/-- One registry entry: the hash of a JSON path and its output column. -/
structure FlattenColumn where
  pathSha1 : String
  column : String
  deriving DecidableEq, Repr

structure ExtractorState where
  pendingCommit : List PendingEntity := []
  peekCursor : Option PeekCursor := none
  flattenColumns : List FlattenColumn := []
  deriving DecidableEq, Repr

/-! ### Deferrals -/

/-- A deferred message, as the broker identifies it, with the session it was deferred in. -/
structure Deferral where
  entity : EntityRef
  sessionId : Option String
  sequenceNumber : ℤ
  deriving DecidableEq, Repr

/-- A stored group has the deferral's number in its session. -/
def PendingGroup.Has (group : PendingGroup) (sessionId : Option String) (q : ℤ) : Prop :=
  group.sessionId = sessionId ∧ covers group.ranges q

/-- The deferral is in a stored pending set. -/
def Pending (d : Deferral) (entities : List PendingEntity) : Prop :=
  ∃ pe ∈ entities, pe.entity = d.entity ∧ ∃ g ∈ pe.groups, g.Has d.sessionId d.sequenceNumber

@[simp] theorem not_pending_nil (d : Deferral) : ¬ Pending d [] := by
  simp [Pending]

theorem pending_cons {d : Deferral} {pe : PendingEntity} {rest : List PendingEntity} :
    Pending d (pe :: rest) ↔
      (pe.entity = d.entity ∧ ∃ g ∈ pe.groups, g.Has d.sessionId d.sequenceNumber) ∨ Pending d rest := by
  simp [Pending]

theorem pending_append {d : Deferral} {xs ys : List PendingEntity} :
    Pending d (xs ++ ys) ↔ Pending d xs ∨ Pending d ys := by
  simp [Pending, or_and_right, exists_or]

@[simp] theorem PendingGroup.has_tail {group : PendingGroup} {first q : ℤ} {sessionId : Option String} :
    (group.tail first).Has sessionId q ↔ group.Has sessionId q ∧ first ≤ q := by
  simp [PendingGroup.Has, PendingGroup.tail, covers_tailRanges, and_assoc]

/-! ### The pending set being built -/

/-- What the groups of a pending set are told apart by. -/
structure GroupKey where
  entity : EntityRef
  sessionId : Option String
  partition : ℤ
  deriving DecidableEq, Repr

/-- A group being built: the numbers deferred in this run and the ranges carried from earlier ones. -/
structure GroupDraft where
  seqs : List ℤ := []
  carried : List Range := []
  maxBodyBytes : ℕ := 0
  deriving DecidableEq, Repr

def GroupDraft.ranges (draft : GroupDraft) : List Range := mergeRanges (draft.carried ++ toRanges draft.seqs)

/-- The groups in the order they were first met. -/
structure PendingSetBuilder where
  groups : List (GroupKey × GroupDraft) := []
  deriving DecidableEq, Repr

/-- Change the draft of a key, an empty one where the key is new. -/
def upsert (key : GroupKey) (change : GroupDraft → GroupDraft) :
    List (GroupKey × GroupDraft) → List (GroupKey × GroupDraft)
  | [] => [(key, change {})]
  | (k, draft) :: rest => if k = key then (k, change draft) :: rest else (k, draft) :: upsert key change rest

namespace PendingSetBuilder

def add (builder : PendingSetBuilder) (entity : EntityRef) (sequenceNumber : ℤ) (sessionId : Option String)
    (bodyBytes : ℕ) : PendingSetBuilder :=
  { groups := upsert ⟨entity, sessionId, partitionOf sequenceNumber⟩
      (fun draft => { draft with
        seqs := draft.seqs.insert sequenceNumber
        maxBodyBytes := max draft.maxBodyBytes bodyBytes }) builder.groups }

def carryGroup (entity : EntityRef) (builder : PendingSetBuilder) (group : PendingGroup) : PendingSetBuilder :=
  { groups := upsert ⟨entity, group.sessionId, group.partition⟩
      (fun draft => { draft with
        carried := mergeRanges (draft.carried ++ group.ranges)
        maxBodyBytes := max draft.maxBodyBytes group.maxBodyBytes }) builder.groups }

/-- Merge stored groups into the groups being built. -/
def carry (builder : PendingSetBuilder) (entities : List PendingEntity) : PendingSetBuilder :=
  entities.foldl (fun builder pe => pe.groups.foldl (carryGroup pe.entity) builder) builder

/-- The order of the groups of one stored entity. -/
def groupLe (g h : PendingGroup) : Prop :=
  g.sessionId.getD "" < h.sessionId.getD "" ∨ (g.sessionId.getD "" = h.sessionId.getD "" ∧ g.partition ≤ h.partition)

instance : DecidableRel groupLe := fun g h => inferInstanceAs (Decidable (g.sessionId.getD "" < h.sessionId.getD "" ∨
  (g.sessionId.getD "" = h.sessionId.getD "" ∧ g.partition ≤ h.partition)))

/-- The groups of one entity, as the state stores them. -/
def groupsOf (builder : PendingSetBuilder) (entity : EntityRef) : List PendingGroup :=
  ((builder.groups.filter fun g => g.1.entity = entity).map fun g =>
    { sessionId := g.1.sessionId, partition := g.1.partition, maxBodyBytes := g.2.maxBodyBytes,
      ranges := g.2.ranges : PendingGroup }).insertionSort groupLe

/-- The pending set the state stores. -/
def build (builder : PendingSetBuilder) (deferredAtUtc : String) : List PendingEntity :=
  (builder.groups.map fun g => g.1.entity).eraseDups.map fun entity =>
    { entity, groups := builder.groupsOf entity, deferredAtUtc }

def count (builder : PendingSetBuilder) : ℤ := (builder.groups.map fun g => countRanges g.2.ranges).sum

/-- The set being built has the deferral. -/
def Holds (builder : PendingSetBuilder) (d : Deferral) : Prop :=
  ∃ g ∈ builder.groups, g.1.entity = d.entity ∧ g.1.sessionId = d.sessionId ∧
    (d.sequenceNumber ∈ g.2.seqs ∨ covers g.2.carried d.sequenceNumber)

theorem not_holds_empty (d : Deferral) : ¬ Holds {} d := by
  simp [Holds]

/-- A change that adds numbers to one draft adds them to the set. -/
theorem holds_upsert {groups : List (GroupKey × GroupDraft)} {key : GroupKey} {change : GroupDraft → GroupDraft}
    {N : ℤ → Prop} (hchange : ∀ draft q, (q ∈ (change draft).seqs ∨ covers (change draft).carried q) ↔
      (q ∈ draft.seqs ∨ covers draft.carried q) ∨ N q) {d : Deferral} :
    Holds ⟨upsert key change groups⟩ d ↔
      Holds ⟨groups⟩ d ∨ (key.entity = d.entity ∧ key.sessionId = d.sessionId ∧ N d.sequenceNumber) := by
  induction groups with
  | nil =>
    have h := hchange {} d.sequenceNumber
    simp only [List.not_mem_nil, not_covers_nil, or_self, false_or] at h
    simp [Holds, upsert, h]
  | cons g rest ih =>
    obtain ⟨k, draft⟩ := g
    simp only [Holds] at ih
    simp only [upsert]
    split
    · rename_i hk
      subst hk
      simp only [Holds, List.mem_cons, exists_eq_or_imp, hchange]
      grind
    · simp only [Holds, List.mem_cons, exists_eq_or_imp, ih]
      grind

/-- Adding a deferral adds it and nothing else. -/
@[simp] theorem holds_add {builder : PendingSetBuilder} {entity : EntityRef} {q : ℤ} {sessionId : Option String}
    {bodyBytes : ℕ} {d : Deferral} :
    (builder.add entity q sessionId bodyBytes).Holds d ↔ builder.Holds d ∨ d = ⟨entity, sessionId, q⟩ := by
  refine (holds_upsert (N := fun p => p = q) fun draft p => ?_).trans (or_congr Iff.rfl ?_)
  · simp only [List.mem_insert_iff]
    grind
  · cases d
    simp only [Deferral.mk.injEq]
    grind

theorem holds_carryGroup {builder : PendingSetBuilder} {entity : EntityRef} {group : PendingGroup} {d : Deferral} :
    (carryGroup entity builder group).Holds d ↔
      builder.Holds d ∨ (entity = d.entity ∧ group.Has d.sessionId d.sequenceNumber) := by
  refine (holds_upsert (N := covers group.ranges) fun draft p => ?_).trans (or_congr Iff.rfl ?_)
  · simp only [covers_mergeRanges, covers_append]
    grind
  · rfl

theorem holds_foldl_carryGroup {builder : PendingSetBuilder} {entity : EntityRef} {groups : List PendingGroup}
    {d : Deferral} : (groups.foldl (carryGroup entity) builder).Holds d ↔
      builder.Holds d ∨ (entity = d.entity ∧ ∃ g ∈ groups, g.Has d.sessionId d.sequenceNumber) := by
  induction groups generalizing builder with
  | nil => simp
  | cons g rest ih =>
    simp only [List.foldl_cons, ih, holds_carryGroup, List.mem_cons, exists_eq_or_imp]
    grind

/-- Carrying stored groups adds exactly their deferrals. -/
@[simp] theorem holds_carry {builder : PendingSetBuilder} {entities : List PendingEntity} {d : Deferral} :
    (builder.carry entities).Holds d ↔ builder.Holds d ∨ Pending d entities := by
  simp only [carry]
  induction entities generalizing builder with
  | nil => simp
  | cons pe rest ih =>
    rw [List.foldl_cons, ih, holds_foldl_carryGroup, pending_cons]
    exact or_assoc

theorem covers_ranges {draft : GroupDraft} {q : ℤ} :
    covers draft.ranges q ↔ q ∈ draft.seqs ∨ covers draft.carried q := by
  rw [GroupDraft.ranges, covers_mergeRanges, covers_append, covers_toRanges, or_comm]

theorem mem_groupsOf {builder : PendingSetBuilder} {entity : EntityRef} {group : PendingGroup} :
    group ∈ builder.groupsOf entity ↔ ∃ g ∈ builder.groups, g.1.entity = entity ∧
      (⟨g.1.sessionId, g.1.partition, g.2.maxBodyBytes, g.2.ranges⟩ : PendingGroup) = group := by
  simp [groupsOf, List.mem_filter, and_assoc]

/-- The stored set has exactly the deferrals of the set that was built. -/
@[simp] theorem pending_build {builder : PendingSetBuilder} {deferredAtUtc : String} {d : Deferral} :
    Pending d (builder.build deferredAtUtc) ↔ builder.Holds d := by
  constructor
  · rintro ⟨pe, hpe, he, group, hgroup, hs, hc⟩
    simp only [build, List.mem_map] at hpe
    obtain ⟨entity, -, rfl⟩ := hpe
    obtain ⟨g, hg, hge, rfl⟩ := mem_groupsOf.mp hgroup
    exact ⟨g, hg, hge.trans he, hs, covers_ranges.mp hc⟩
  · rintro ⟨g, hg, he, hs, hq⟩
    refine ⟨⟨g.1.entity, builder.groupsOf g.1.entity, deferredAtUtc⟩, ?_, he, ?_⟩
    · exact List.mem_map.mpr ⟨g.1.entity, List.mem_eraseDups.mpr (List.mem_map.mpr ⟨g, hg, rfl⟩), rfl⟩
    · exact ⟨_, mem_groupsOf.mpr ⟨g, hg, rfl, rfl⟩, hs, covers_ranges.mpr hq⟩

end PendingSetBuilder

end ServiceBusExtractor
