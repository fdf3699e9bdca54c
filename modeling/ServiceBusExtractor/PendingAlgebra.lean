import ServiceBusExtractor.State

/-!
# The algebra of the pending set

What a set of ranges says is the set of numbers it covers, and every way of building
the same set gives the same ranges. A pending set is built by calls that add single
numbers and calls that carry stored groups, in any order.

## The model

* `BuilderCall` — a call that builds the set; `buildCalls` — the set after some calls.
* `Contribution` — what a call adds under one key.
* `storedAt` — the groups a state has under a key.

## What is proved

* `represents_buildCalls`: the drafts hold what the calls contributed.
* `pending_range_algebra`: ranges are canonical, and the group of a key depends only on
  the numbers and the sizes contributed to it.
-/

namespace ServiceBusExtractor

/-- A call of `PendingSetBuilder`. -/
inductive BuilderCall where
  | add (entity : EntityRef) (sequenceNumber : ℤ) (sessionId : Option String) (bodyBytes : ℕ)
  | carry (entities : List PendingEntity)

def BuilderCall.apply (builder : PendingSetBuilder) : BuilderCall → PendingSetBuilder
  | .add entity q sessionId bodyBytes => builder.add entity q sessionId bodyBytes
  | .carry entities => builder.carry entities

/-- The set after some calls, from an empty one. -/
def buildCalls (calls : List BuilderCall) : PendingSetBuilder := calls.foldl BuilderCall.apply {}

/-- Ranges and a body size, under a key. -/
structure Contribution where
  key : GroupKey
  ranges : List Range
  bodyBytes : ℕ

/-- What a stored entity contributes when it is carried. -/
def PendingEntity.contributions (pe : PendingEntity) : List Contribution :=
  pe.groups.map fun group => ⟨⟨pe.entity, group.sessionId, group.partition⟩, group.ranges, group.maxBodyBytes⟩

def BuilderCall.contributions : BuilderCall → List Contribution
  | .add entity q sessionId bodyBytes => [⟨⟨entity, sessionId, partitionOf q⟩, [(q, q)], bodyBytes⟩]
  | .carry entities => entities.flatMap PendingEntity.contributions

/-- What the calls contribute to a key. -/
def contributed (key : GroupKey) (given : List Contribution) : List Contribution := given.filter fun c => c.key = key

/-- The groups a state has under a key. -/
def storedAt (key : GroupKey) (entities : List PendingEntity) : List PendingGroup :=
  entities.flatMap fun pe =>
    if pe.entity = key.entity then
      pe.groups.filter fun group => group.sessionId = key.sessionId ∧ group.partition = key.partition
    else []

/-- The group that some contributions make: the canonical ranges of the union and the largest size. -/
def unionGroup (key : GroupKey) (given : List Contribution) : PendingGroup where
  sessionId := key.sessionId
  partition := key.partition
  maxBodyBytes := (given.map Contribution.bodyBytes).foldr max 0
  ranges := mergeRanges (given.flatMap Contribution.ranges)

/-! ### Drafts -/

/-- The draft has what some contributions give it. -/
structure DraftOf (given : List Contribution) (draft : GroupDraft) : Prop where
  numbers : ∀ q, (q ∈ draft.seqs ∨ covers draft.carried q) ↔ covers (given.flatMap Contribution.ranges) q
  bytes : draft.maxBodyBytes = (given.map Contribution.bodyBytes).foldr max 0

/-- A change of a draft that adds a contribution. -/
def Adds (c : Contribution) (change : GroupDraft → GroupDraft) : Prop :=
  ∀ draft, (∀ q, (q ∈ (change draft).seqs ∨ covers (change draft).carried q) ↔
      (q ∈ draft.seqs ∨ covers draft.carried q) ∨ covers c.ranges q) ∧
    (change draft).maxBodyBytes = max draft.maxBodyBytes c.bodyBytes

/-- Every key has one draft, which has what was contributed to it. -/
structure Represents (builder : PendingSetBuilder) (given : List Contribution) : Prop where
  nodup : (builder.groups.map Prod.fst).Nodup
  keys : ∀ key, key ∈ builder.groups.map Prod.fst ↔ ∃ c ∈ given, c.key = key
  drafts : ∀ g ∈ builder.groups, DraftOf (contributed g.1 given) g.2

section Drafts

variable {given more : List Contribution} {c : Contribution} {change : GroupDraft → GroupDraft} {draft : GroupDraft}
  {groups : List (GroupKey × GroupDraft)} {key : GroupKey} {builder : PendingSetBuilder}

theorem foldr_max_append (ms : List ℕ) (m : ℕ) : (ms ++ [m]).foldr max 0 = max (ms.foldr max 0) m := by
  induction ms with
  | nil => simp
  | cons k ms ih =>
    rw [List.cons_append, List.foldr_cons, List.foldr_cons, ih, max_assoc]

theorem DraftOf.adds (h : DraftOf given draft) (hchange : Adds c change) : DraftOf (given ++ [c]) (change draft) := by
  obtain ⟨hnumbers, hbytes⟩ := hchange draft
  constructor
  · intro q
    rw [hnumbers, h.numbers, List.flatMap_append, covers_append, List.flatMap_singleton]
  · rw [hbytes, h.bytes, List.map_append, List.map_singleton, foldr_max_append]

theorem draftOf_nil : DraftOf [] {} := by
  constructor
  · simp
  · rfl

theorem keys_upsert : (upsert key change groups).map Prod.fst =
    if key ∈ groups.map Prod.fst then groups.map Prod.fst else groups.map Prod.fst ++ [key] := by
  induction groups with
  | nil => simp [upsert]
  | cons g rest ih =>
    obtain ⟨k, draft⟩ := g
    rw [upsert]
    by_cases hk : k = key
    · simp [hk]
    · rw [if_neg hk, List.map_cons, List.map_cons, ih]
      by_cases hmem : key ∈ rest.map Prod.fst
      · rw [if_pos hmem, if_pos (List.mem_cons_of_mem _ hmem)]
      · have hnew : key ∉ k :: rest.map Prod.fst := by
          rw [List.mem_cons, not_or]
          exact ⟨Ne.symm hk, hmem⟩
        rw [if_neg hmem, if_neg hnew]
        rfl

/-- What holds of the drafts before a change holds of those it does not concern, and of the changed one what follows. -/
theorem forall_mem_upsert {P Q : GroupKey → GroupDraft → Prop} (hnodup : (groups.map Prod.fst).Nodup)
    (h : ∀ g ∈ groups, P g.1 g.2) (hother : ∀ k draft, k ≠ key → P k draft → Q k draft)
    (hchanged : ∀ draft, P key draft → Q key (change draft)) (hnew : key ∉ groups.map Prod.fst → Q key (change {})) :
    ∀ g ∈ upsert key change groups, Q g.1 g.2 := by
  induction groups with
  | nil =>
    intro g hg
    obtain rfl := List.mem_singleton.mp hg
    exact hnew (by simp)
  | cons g rest ih =>
    obtain ⟨k, draft⟩ := g
    rw [List.map_cons, List.nodup_cons] at hnodup
    rw [upsert]
    by_cases hk : k = key
    · subst hk
      rw [if_pos rfl]
      refine List.forall_mem_cons.mpr ⟨hchanged draft (h (k, draft) (by simp)), fun g hg => ?_⟩
      refine hother _ _ (fun heq => ?_) (h g (by simp [hg]))
      exact hnodup.1 (List.mem_map.mpr ⟨g, hg, heq⟩)
    · rw [if_neg hk]
      refine List.forall_mem_cons.mpr ⟨hother k draft hk (h (k, draft) (by simp)), ?_⟩
      refine ih hnodup.2 (fun g hg => h g (by simp [hg])) fun hmem => hnew ?_
      simpa [Ne.symm hk] using hmem

theorem contributed_append_of_eq (h : c.key = key) : contributed key (given ++ [c]) = contributed key given ++ [c] := by
  rw [contributed, List.filter_append, List.filter_singleton]
  simp [h, contributed]

theorem contributed_append_of_ne (h : c.key ≠ key) : contributed key (given ++ [c]) = contributed key given := by
  rw [contributed, List.filter_append, List.filter_singleton]
  simp [h, contributed]

/-- A contribution is added to the draft of its key. -/
theorem Represents.upsert (h : Represents builder given) (hchange : Adds c change) :
    Represents ⟨upsert c.key change builder.groups⟩ (given ++ [c]) := by
  constructor
  · rw [keys_upsert]
    split
    · exact h.nodup
    · rename_i hnew
      exact h.nodup.append (List.nodup_singleton _) (by simpa using hnew)
  · intro key
    have hkeys : key ∈ (ServiceBusExtractor.upsert c.key change builder.groups).map Prod.fst ↔
        key ∈ builder.groups.map Prod.fst ∨ c.key = key := by
      rw [keys_upsert]
      by_cases hmem : c.key ∈ builder.groups.map Prod.fst
      · rw [if_pos hmem]
        constructor
        · exact .inl
        · rintro (hold | rfl)
          · exact hold
          · exact hmem
      · rw [if_neg hmem, List.mem_append, List.mem_singleton, eq_comm (a := key)]
    rw [hkeys, h.keys]
    simp [or_and_right, exists_or]
  · refine forall_mem_upsert (P := fun k draft => DraftOf (contributed k given) draft)
      (Q := fun k draft => DraftOf (contributed k (given ++ [c])) draft) h.nodup h.drafts ?_ ?_ ?_
    · intro k draft hk hdraft
      rwa [contributed_append_of_ne (Ne.symm hk)]
    · intro draft hdraft
      rw [contributed_append_of_eq rfl]
      exact hdraft.adds hchange
    · intro hnew
      have hnone : contributed c.key given = [] := by
        rw [contributed, List.filter_eq_nil_iff]
        intro d hd hkey
        exact hnew ((h.keys _).mpr ⟨d, hd, by simpa using hkey⟩)
      rw [contributed_append_of_eq rfl, hnone]
      exact draftOf_nil.adds hchange

/-! ### Calls -/

theorem Represents.add (h : Represents builder given) (entity : EntityRef) (q : ℤ) (sessionId : Option String)
    (bodyBytes : ℕ) :
    Represents (builder.add entity q sessionId bodyBytes)
      (given ++ (BuilderCall.add entity q sessionId bodyBytes).contributions) := by
  refine @Represents.upsert given ⟨⟨entity, sessionId, partitionOf q⟩, [(q, q)], bodyBytes⟩ _ builder h
    fun draft => ⟨fun p => ?_, rfl⟩
  have hone : covers [(q, q)] p ↔ p = q := by
    rw [covers_cons]
    simp only [not_covers_nil, or_false]
    omega
  rw [hone, List.mem_insert_iff]
  tauto

theorem Represents.carryGroups {entity : EntityRef} {groups : List PendingGroup} (h : Represents builder given) :
    Represents (groups.foldl (PendingSetBuilder.carryGroup entity) builder)
      (given ++ groups.map fun group =>
        ⟨⟨entity, group.sessionId, group.partition⟩, group.ranges, group.maxBodyBytes⟩) := by
  induction groups generalizing builder given with
  | nil => simpa using h
  | cons group rest ih =>
    rw [List.map_cons, List.append_cons]
    refine ih (@Represents.upsert given
      ⟨⟨entity, group.sessionId, group.partition⟩, group.ranges, group.maxBodyBytes⟩ _ builder
      h fun draft => ⟨fun q => ?_, rfl⟩)
    rw [covers_mergeRanges, covers_append, or_assoc]

theorem Represents.carry {entities : List PendingEntity} (h : Represents builder given) :
    Represents (builder.carry entities) (given ++ (BuilderCall.carry entities).contributions) := by
  unfold PendingSetBuilder.carry
  induction entities generalizing builder given with
  | nil => simpa [BuilderCall.contributions] using h
  | cons pe rest ih =>
    have hparts : (BuilderCall.carry (pe :: rest)).contributions =
        pe.contributions ++ (BuilderCall.carry rest).contributions := List.flatMap_cons
    rw [hparts, ← List.append_assoc]
    exact ih h.carryGroups

/-- Any calls, in any order, leave the drafts of what they contributed. -/
theorem represents_buildCalls (calls : List BuilderCall) :
    Represents (buildCalls calls) (calls.flatMap BuilderCall.contributions) := by
  have hall : ∀ builder given, Represents builder given →
      Represents (calls.foldl BuilderCall.apply builder) (given ++ calls.flatMap BuilderCall.contributions) := by
    induction calls with
    | nil =>
      intro builder given h
      simpa using h
    | cons call rest ih =>
      intro builder given h
      rw [List.flatMap_cons, ← List.append_assoc]
      refine ih _ _ ?_
      cases call with
      | add entity q sessionId bodyBytes => exact h.add entity q sessionId bodyBytes
      | carry entities => exact h.carry
  exact hall {} [] ⟨by simp, by simp, by simp⟩

end Drafts

/-! ### The stored groups -/

section Stored

variable {given given' : List Contribution} {key : GroupKey} {builder : PendingSetBuilder} {draft : GroupDraft}

theorem nodup_eraseDups {α : Type} [DecidableEq α] (l : List α) : l.eraseDups.Nodup := by
  induction hn : l.length using Nat.strong_induction_on generalizing l with
  | _ n ih =>
    cases l with
    | nil => simp
    | cons a l =>
      rw [List.eraseDups_cons, List.nodup_cons, List.mem_eraseDups]
      have hlen := List.length_filter_le (fun b => !b == a) l
      rw [List.length_cons] at hn
      exact ⟨by simp, ih _ (by omega) _ rfl⟩

/-- Of distinct entries one is picked. -/
theorem flatMap_single {α β : Type} [DecidableEq α] {l : List α} (hnodup : l.Nodup) (a : α) (f : α → List β) :
    (l.flatMap fun b => if b = a then f b else []) = if a ∈ l then f a else [] := by
  induction l with
  | nil => rfl
  | cons b l ih =>
    rw [List.nodup_cons] at hnodup
    rw [List.flatMap_cons, ih hnodup.2]
    by_cases hb : b = a
    · subst hb
      simp [hnodup.1]
    · simp [hb, Ne.symm hb]

/-- A key has one draft. -/
theorem filter_key {groups : List (GroupKey × GroupDraft)} (hnodup : (groups.map Prod.fst).Nodup)
    (hmem : (key, draft) ∈ groups) : (groups.filter fun g => g.1 = key) = [(key, draft)] := by
  induction groups with
  | nil => cases hmem
  | cons g rest ih =>
    rw [List.map_cons, List.nodup_cons] at hnodup
    rcases List.mem_cons.mp hmem with rfl | hmem
    · rw [List.filter_cons_of_pos (by simp), List.filter_eq_nil_iff.mpr]
      intro g hg hkey
      exact hnodup.1 (List.mem_map.mpr ⟨g, hg, by simpa using hkey⟩)
    · have hne : g.1 ≠ key := by
        rintro rfl
        exact hnodup.1 (List.mem_map.mpr ⟨_, hmem, rfl⟩)
      rw [List.filter_cons_of_neg (by simpa using hne), ih hnodup.2 hmem]

/-- The group of a draft as the state stores it. -/
def storedGroup (g : GroupKey × GroupDraft) : PendingGroup where
  sessionId := g.1.sessionId
  partition := g.1.partition
  maxBodyBytes := g.2.maxBodyBytes
  ranges := g.2.ranges

theorem DraftOf.storedGroup (h : DraftOf given draft) : storedGroup (key, draft) = unionGroup key given := by
  have hranges : draft.ranges = mergeRanges (given.flatMap Contribution.ranges) := by
    refine mergeRanges_congr fun q => ?_
    rw [covers_append, covers_toRanges, or_comm, h.numbers]
  rw [ServiceBusExtractor.storedGroup, unionGroup, h.bytes, hranges]

/-- The groups a built set has under a key are those of the key's drafts. -/
theorem storedAt_build (deferredAtUtc : String) : (storedAt key (builder.build deferredAtUtc)).Perm
    ((builder.groups.filter fun g => g.1 = key).map storedGroup) := by
  rw [storedAt, PendingSetBuilder.build, List.flatMap_map, flatMap_single (nodup_eraseDups _)]
  split
  · refine ((List.perm_insertionSort _ _).filter _).trans (List.Perm.of_eq ?_)
    rw [List.filter_map, List.filter_filter]
    refine congrArg (List.map storedGroup) (List.filter_congr fun g _ => ?_)
    obtain ⟨⟨entity, sessionId, partition⟩, draft⟩ := g
    cases key
    simp only [Function.comp_apply, GroupKey.mk.injEq]
    grind
  · rename_i hnone
    rw [List.filter_eq_nil_iff.mpr]
    · exact .refl _
    · intro g hg hkey
      obtain rfl : g.1 = key := by simpa using hkey
      exact hnone (List.mem_eraseDups.mpr (List.mem_map.mpr ⟨g, hg, rfl⟩))

/-- Under each key a built set stores the union of what was contributed to it, and nothing where nothing was. -/
theorem Represents.storedAt (h : Represents builder given) (deferredAtUtc : String) (key : GroupKey) :
    storedAt key (builder.build deferredAtUtc) =
      if contributed key given = [] then [] else [unionGroup key (contributed key given)] := by
  have hperm := @storedAt_build key builder deferredAtUtc
  split
  · rename_i hnone
    rw [List.filter_eq_nil_iff.mpr] at hperm
    · exact hperm.eq_nil
    · intro g hg hkey
      obtain rfl : g.1 = key := by simpa using hkey
      obtain ⟨c, hc, hckey⟩ := (h.keys g.1).mp (List.mem_map.mpr ⟨g, hg, rfl⟩)
      exact List.filter_eq_nil_iff.mp hnone c hc (by simpa using hckey)
  · rename_i hsome
    obtain ⟨c, hc⟩ := List.exists_mem_of_ne_nil _ hsome
    obtain ⟨hc, hckey⟩ := List.mem_filter.mp hc
    obtain ⟨⟨k, draft⟩, hg, rfl⟩ := List.mem_map.mp ((h.keys key).mpr ⟨c, hc, by simpa using hckey⟩)
    rw [filter_key h.nodup hg, List.map_singleton, (h.drafts _ hg).storedGroup] at hperm
    exact List.perm_singleton.mp hperm

/-- The union does not depend on the order of what was contributed. -/
theorem unionGroup_perm (h : given.Perm given') : unionGroup key given = unionGroup key given' := by
  have hbytes : (given.map Contribution.bodyBytes).foldr max 0 = (given'.map Contribution.bodyBytes).foldr max 0 :=
    (h.map _).foldr_eq 0
  have hranges : mergeRanges (given.flatMap Contribution.ranges) = mergeRanges (given'.flatMap Contribution.ranges) :=
    mergeRanges_congr (covers_congr fun r => (h.flatMap_right _).mem_iff)
  rw [unionGroup, unionGroup, hbytes, hranges]

end Stored

/-! ### The algebra -/

/-- The count of ranges is the number of integers they cover. -/
theorem countRanges_eq_ncard (ranges : List Range) : countRanges ranges = {q | covers ranges q}.ncard := by
  have hset : {q | covers ranges q} = ((iterRanges ranges).toFinset : Set ℤ) := by
    ext q
    simp [mem_iterRanges]
  have hnodup : (iterRanges ranges).Nodup := (pairwise_iterRanges ranges).imp fun h => ne_of_lt h
  rw [hset, Set.ncard_coe_finset, List.toFinset_card_of_nodup hnodup, countRanges_eq]

/-- Ranges are canonical: merging gives ranges with gaps between them that cover the same numbers, and the same ones
for the same numbers; expanding, counting, collapsing and cutting them mean what they say of the set. And after any
calls a pending set has under each key the canonical ranges and the largest size of what they contributed, in any
order. -/
theorem pending_range_algebra :
    (∀ ranges, Apart (mergeRanges ranges) ∧ ∀ q, covers (mergeRanges ranges) q ↔ covers ranges q) ∧
    (∀ ranges ranges', (∀ q, covers ranges q ↔ covers ranges' q) → mergeRanges ranges = mergeRanges ranges') ∧
    (∀ ranges, mergeRanges (mergeRanges ranges) = mergeRanges ranges) ∧
    (∀ ranges, (iterRanges ranges).Pairwise (· < ·) ∧ ∀ q, q ∈ iterRanges ranges ↔ covers ranges q) ∧
    (∀ ranges, countRanges ranges = {q | covers ranges q}.ncard) ∧
    (∀ seqs, toRanges seqs = mergeRanges (seqs.map fun q => (q, q)) ∧ ∀ q, covers (toRanges seqs) q ↔ q ∈ seqs) ∧
    (∀ (group : PendingGroup) first q, covers (group.tail first).ranges q ↔ covers group.ranges q ∧ first ≤ q) ∧
    (∀ calls deferredAtUtc key, storedAt key ((buildCalls calls).build deferredAtUtc) =
      if contributed key (calls.flatMap BuilderCall.contributions) = [] then []
      else [unionGroup key (contributed key (calls.flatMap BuilderCall.contributions))]) ∧
    ∀ calls calls' deferredAtUtc key, calls.Perm calls' → storedAt key ((buildCalls calls).build deferredAtUtc) =
      storedAt key ((buildCalls calls').build deferredAtUtc) := by
  have hstored := fun calls deferredAtUtc key => (represents_buildCalls calls).storedAt deferredAtUtc key
  refine ⟨mergeRanges_spec, fun _ _ => mergeRanges_congr, fun ranges => mergeRanges_of_apart (apart_mergeRanges ranges),
    fun ranges => ⟨pairwise_iterRanges ranges, fun q => mem_iterRanges⟩, countRanges_eq_ncard,
    fun seqs => ⟨toRanges_eq seqs, fun q => covers_toRanges⟩, fun group first q => covers_tailRanges, hstored, ?_⟩
  intro calls calls' deferredAtUtc key hperm
  have hgiven : (contributed key (calls.flatMap BuilderCall.contributions)).Perm
      (contributed key (calls'.flatMap BuilderCall.contributions)) := (hperm.flatMap_right _).filter _
  have hnone : contributed key (calls.flatMap BuilderCall.contributions) = [] ↔
      contributed key (calls'.flatMap BuilderCall.contributions) = [] := by
    rw [← List.length_eq_zero_iff, ← List.length_eq_zero_iff, hgiven.length_eq]
  rw [hstored, hstored, unionGroup_perm hgiven]
  simp only [hnone]

end ServiceBusExtractor
