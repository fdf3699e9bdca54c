import ServiceBusExtractor.Committed
import ServiceBusExtractor.Script

/-!
# The calls that delete a pending set

The broker refuses a deferred receive of no number, of more than 250, of numbers of
two partitions, and one whose bodies it cannot send at once. What holds at the call
was settled when the set was built, runs before: each number of a group was added
to it with a size the group's maximum covers.

## The model

* `Building builder stored adds` — what runs do with pending sets: they add, carry,
  build and keep tails, in any order.
* `Sound` — every number of every group was added under the group's key.
* `CallLimits` — what the broker asks of a call for numbers of a group.

## What is proved

`Building.sound`: the steps of the runs keep the sets sound.
`deferred_calls_within_limits`: each call of a commit is within the limits, and the
calls of a group that meet no error divide its numbers.
-/

namespace ServiceBusExtractor

open Interaction

/-! ### The sets that runs build -/

/-- What runs make of pending sets: the set being built, the entities stored so far and the deferrals added, with the
size each was added with. -/
inductive Building : PendingSetBuilder → List PendingEntity → List (Deferral × ℕ) → Prop where
  | start : Building {} [] []
  | add {builder stored adds} (entity : EntityRef) (q : ℤ) (sessionId : Option String) (bodyBytes : ℕ) (hpos : 0 ≤ q)
      (h : Building builder stored adds) :
      Building (builder.add entity q sessionId bodyBytes) stored (adds ++ [(⟨entity, sessionId, q⟩, bodyBytes)])
  | carry {builder stored adds} (entities : List PendingEntity) (hstored : ∀ pe ∈ entities, pe ∈ stored)
      (h : Building builder stored adds) : Building (builder.carry entities) stored adds
  | build {builder stored adds} (deferredAtUtc : String) (h : Building builder stored adds) :
      Building builder (stored ++ builder.build deferredAtUtc) adds
  | tail {builder stored adds} (pe : PendingEntity) (groups : List PendingGroup) (hstored : pe ∈ stored)
      (hgroups : ∀ group ∈ groups, group ∈ pe.groups ∨ ∃ whole ∈ pe.groups, ∃ first, group = whole.tail first)
      (h : Building builder stored adds) : Building builder (stored ++ [{ pe with groups := groups }]) adds
  | nextRun {builder stored adds} (h : Building builder stored adds) : Building {} stored adds

/-- The number was added under the key, with a size of at most `maxBodyBytes`. -/
def Added (adds : List (Deferral × ℕ)) (key : GroupKey) (maxBodyBytes : ℕ) (q : ℤ) : Prop :=
  partitionOf q = key.partition ∧ ∃ bodyBytes ≤ maxBodyBytes, (⟨key.entity, key.sessionId, q⟩, bodyBytes) ∈ adds

def SoundDraft (adds : List (Deferral × ℕ)) (g : GroupKey × GroupDraft) : Prop :=
  ∀ q, q ∈ g.2.seqs ∨ covers g.2.carried q → Added adds g.1 g.2.maxBodyBytes q

def SoundGroup (adds : List (Deferral × ℕ)) (entity : EntityRef) (group : PendingGroup) : Prop :=
  ∀ q, covers group.ranges q → Added adds ⟨entity, group.sessionId, group.partition⟩ group.maxBodyBytes q

/-- Every number of the set being built and of the stored ones was added under its key. -/
structure Sound (builder : PendingSetBuilder) (stored : List PendingEntity) (adds : List (Deferral × ℕ)) : Prop where
  drafts : ∀ g ∈ builder.groups, SoundDraft adds g
  groups : ∀ pe ∈ stored, ∀ group ∈ pe.groups, SoundGroup adds pe.entity group

section Sound

variable {builder : PendingSetBuilder} {stored : List PendingEntity} {adds adds' : List (Deferral × ℕ)}
  {entity : EntityRef} {group : PendingGroup} {key : GroupKey} {m m' : ℕ} {q : ℤ}

theorem Added.mono (h : Added adds key m q) (hadds : adds ⊆ adds') (hm : m ≤ m') : Added adds' key m' q := by
  obtain ⟨hpartition, bodyBytes, hle, hmem⟩ := h
  exact ⟨hpartition, bodyBytes, hle.trans hm, hadds hmem⟩

/-- What holds of every draft holds after one of them changed. -/
theorem forall_upsert {P : GroupKey × GroupDraft → Prop} {change : GroupDraft → GroupDraft}
    {groups : List (GroupKey × GroupDraft)} (hnew : P (key, change {}))
    (hchange : ∀ draft, P (key, draft) → P (key, change draft)) (h : ∀ g ∈ groups, P g) :
    ∀ g ∈ upsert key change groups, P g := by
  induction groups with
  | nil =>
    intro g hg
    obtain rfl := List.mem_singleton.mp hg
    exact hnew
  | cons g rest ih =>
    obtain ⟨k, draft⟩ := g
    have hrest : ∀ g ∈ rest, P g := fun g hg => h g (by simp [hg])
    rw [upsert]
    split
    · rename_i hk
      subst hk
      exact List.forall_mem_cons.mpr ⟨hchange draft (h _ (by simp)), hrest⟩
    · exact List.forall_mem_cons.mpr ⟨h _ (by simp), ih hrest⟩

theorem soundDraft_carry {draft : GroupDraft} (hgroup : SoundGroup adds entity group)
    (hdraft : SoundDraft adds (⟨entity, group.sessionId, group.partition⟩, draft)) :
    SoundDraft adds (⟨entity, group.sessionId, group.partition⟩, { draft with
      carried := mergeRanges (draft.carried ++ group.ranges)
      maxBodyBytes := max draft.maxBodyBytes group.maxBodyBytes }) := by
  intro q hq
  rw [covers_mergeRanges, covers_append, ← or_assoc] at hq
  rcases hq with hq | hq
  · exact (hdraft q hq).mono (List.Subset.refl _) (le_max_left _ _)
  · exact (hgroup q hq).mono (List.Subset.refl _) (le_max_right _ _)

theorem soundDraft_empty : SoundDraft adds (key, {}) := by
  rintro q (hq | hq)
  · cases hq
  · exact absurd hq (not_covers_nil q)

/-- Carrying sound groups keeps the drafts sound. -/
theorem sound_carryGroups {groups : List PendingGroup} (hgroups : ∀ group ∈ groups, SoundGroup adds entity group)
    (h : ∀ g ∈ builder.groups, SoundDraft adds g) :
    ∀ g ∈ (groups.foldl (PendingSetBuilder.carryGroup entity) builder).groups, SoundDraft adds g := by
  induction groups generalizing builder with
  | nil => exact h
  | cons group rest ih =>
    have hgroup := hgroups group (by simp)
    exact ih (fun group hg => hgroups group (by simp [hg])) (forall_upsert (soundDraft_carry hgroup soundDraft_empty)
      (fun draft => soundDraft_carry hgroup) h)

theorem sound_carry {entities : List PendingEntity}
    (hentities : ∀ pe ∈ entities, ∀ group ∈ pe.groups, SoundGroup adds pe.entity group)
    (h : ∀ g ∈ builder.groups, SoundDraft adds g) : ∀ g ∈ (builder.carry entities).groups, SoundDraft adds g := by
  unfold PendingSetBuilder.carry
  induction entities generalizing builder with
  | nil => exact h
  | cons pe rest ih =>
    exact ih (fun pe hpe => hentities pe (by simp [hpe])) (sound_carryGroups (hentities pe (by simp)) h)

theorem soundGroup_tail (h : SoundGroup adds entity group) (first : ℤ) : SoundGroup adds entity (group.tail first) :=
  fun q hq => h q (covers_tailRanges.mp hq).1

/-- The sets that runs build are sound. -/
theorem Building.sound (h : Building builder stored adds) : Sound builder stored adds := by
  induction h with
  | start => exact ⟨by simp, by simp⟩
  | add entity q sessionId bodyBytes hpos h ih =>
    rename_i adds
    have hgrown : adds ⊆ adds ++ [(⟨entity, sessionId, q⟩, bodyBytes)] := List.subset_append_left _ _
    have hchange : ∀ draft : GroupDraft,
        SoundDraft (adds ++ [(⟨entity, sessionId, q⟩, bodyBytes)]) (⟨entity, sessionId, partitionOf q⟩, draft) →
        SoundDraft (adds ++ [(⟨entity, sessionId, q⟩, bodyBytes)]) (⟨entity, sessionId, partitionOf q⟩,
          { draft with seqs := draft.seqs.insert q, maxBodyBytes := max draft.maxBodyBytes bodyBytes }) := by
      intro draft hdraft p hp
      rw [List.mem_insert_iff, or_assoc] at hp
      rcases hp with rfl | hp
      · exact ⟨rfl, bodyBytes, le_max_right _ _, by simp⟩
      · exact (hdraft p hp).mono (List.Subset.refl _) (le_max_left _ _)
    refine ⟨forall_upsert (hchange {} soundDraft_empty) hchange fun g hg p hp => ?_, fun pe hpe group hgroup p hp => ?_⟩
    · exact (ih.drafts g hg p hp).mono hgrown (Nat.le_refl _)
    · exact (ih.groups pe hpe group hgroup p hp).mono hgrown (Nat.le_refl _)
  | carry entities hstored h ih =>
    exact ⟨sound_carry (fun pe hpe => ih.groups pe (hstored pe hpe)) ih.drafts, ih.groups⟩
  | build deferredAtUtc h ih =>
    refine ⟨ih.drafts, fun pe hpe group hgroup q hq => ?_⟩
    rcases List.mem_append.mp hpe with hpe | hpe
    · exact ih.groups pe hpe group hgroup q hq
    · obtain ⟨entity, -, rfl⟩ := List.mem_map.mp hpe
      obtain ⟨g, hg, rfl, rfl⟩ := PendingSetBuilder.mem_groupsOf.mp hgroup
      exact ih.drafts g hg q (PendingSetBuilder.covers_ranges.mp hq)
  | tail pe groups hstored hgroups h ih =>
    refine ⟨ih.drafts, fun pe' hpe' group hgroup => ?_⟩
    rcases List.mem_append.mp hpe' with hpe' | hpe'
    · exact ih.groups pe' hpe' group hgroup
    · obtain rfl := List.mem_singleton.mp hpe'
      rcases hgroups group hgroup with hgroup | ⟨whole, hwhole, first, rfl⟩
      · exact ih.groups pe hstored group hgroup
      · exact soundGroup_tail (ih.groups pe hstored whole hwhole) first
  | nextRun h ih => exact ⟨by simp, ih.groups⟩

end Sound

/-! ### The limits of a call -/

/-- What the broker asks of a deferred receive for numbers of a group: of one partition and in order, at most 250 of
them, and their bodies within 16 MiB unless it is a single number. -/
structure CallLimits (adds : List (Deferral × ℕ)) (entity : EntityRef) (group : PendingGroup) (seqs : List ℤ) :
    Prop where
  nonempty : seqs ≠ []
  count : seqs.length ≤ commitMaxCount
  ascending : seqs.Pairwise (· < ·)
  covered : ∀ q ∈ seqs, covers group.ranges q
  partition : ∀ q ∈ seqs, partitionOf q = group.partition
  bytes : ∀ bodyBytes : Deferral → ℕ, (∀ add ∈ adds, bodyBytes add.1 ≤ add.2) →
    seqs.length = 1 ∨ (seqs.map fun q => bodyBytes ⟨entity, group.sessionId, q⟩).sum ≤ commitMaxBytes

section Limits

variable {adds : List (Deferral × ℕ)} {entity : EntityRef} {group : PendingGroup} {chunk seqs : List ℤ}

/-- Bodies of at most `m` bytes, no more of them than a chunk has numbers. -/
theorem chunk_bytes_le {m : ℕ} (hlen : seqs.length ≤ commitChunkSize m) (hmany : seqs.length ≠ 1) (hne : seqs ≠ [])
    {bodyBytes : ℤ → ℕ} (hm : ∀ q ∈ seqs, bodyBytes q ≤ m) : (seqs.map bodyBytes).sum ≤ commitMaxBytes := by
  have hpos := List.length_pos_of_ne_nil hne
  -- two numbers or more: the floor of one number per call did not apply
  have hquotient : seqs.length ≤ commitMaxBytes / max 1 m := by
    unfold commitChunkSize at hlen
    omega
  calc (seqs.map bodyBytes).sum
      ≤ (seqs.map bodyBytes).length • m := List.sum_le_card_nsmul _ _ fun x hx => by
        obtain ⟨q, hq, rfl⟩ := List.mem_map.mp hx
        exact hm q hq
    _ = seqs.length * m := by rw [List.length_map, smul_eq_mul]
    _ ≤ seqs.length * max 1 m := Nat.mul_le_mul_left _ (le_max_right 1 m)
    _ ≤ commitMaxBytes := (Nat.le_div_iff_mul_le (by omega)).mp hquotient

/-- A call for a part of a chunk of a sound group. -/
theorem SoundGroup.callLimits (hsound : SoundGroup adds entity group) (hasks : group.Asks seqs) :
    CallLimits adds entity group seqs := by
  obtain ⟨chunk, hchunk, hne, hpart⟩ := hasks
  have hlen : seqs.length ≤ commitChunkSize group.maxBodyBytes :=
    hpart.length_le.trans (length_le_of_mem_batched hchunk)
  have hnumbers : seqs.Sublist (iterRanges group.ranges) :=
    hpart.trans (sublist_of_mem_batched (commitChunkSize_pos _) hchunk)
  have hcovered : ∀ q ∈ seqs, covers group.ranges q := fun q hq => mem_iterRanges.mp (hnumbers.subset hq)
  refine ⟨hne, ?_, (pairwise_iterRanges _).sublist hnumbers, hcovered, fun q hq => (hsound q (hcovered q hq)).1, ?_⟩
  · unfold commitChunkSize commitMaxCount at *
    omega
  · intro bodyBytes hbodies
    by_cases hone : seqs.length = 1
    · exact .inl hone
    · refine .inr (chunk_bytes_le hlen hone hne fun q hq => ?_)
      obtain ⟨-, size, hle, hmem⟩ := hsound q (hcovered q hq)
      exact (hbodies _ hmem).trans hle

end Limits

/-! ### The calls of a commit -/

/-- The numbers a deferred receive asks for. -/
def deferredNumbers : Event sdk → Option (List ℤ)
  | .call (.receiveDeferredMessages _ seqs _) _ => some seqs
  | _ => none

/-- A deferred receive that failed. -/
def failedDeferred : Event sdk → Bool
  | .call (.receiveDeferredMessages _ _ _) (.error _) => true
  | _ => false

/-- The deferred receives of a run, in their order. -/
def deferredCalls (es : Trace sdk) : List (List ℤ) := es.filterMap deferredNumbers

/-- No deferred receive of the run failed. -/
def NoneFailed (es : Trace sdk) : Prop := ∀ e ∈ es, failedDeferred e = false

/-- A deferred receive is for numbers of a stored group, within the limits. -/
def WithinLimits (adds : List (Deferral × ℕ)) (pending : List PendingEntity) (e : Event sdk) : Prop :=
  ∀ seqs, deferredNumbers e = some seqs → ∃ pe ∈ pending, ∃ group ∈ pe.groups, CallLimits adds pe.entity group seqs

section Calls

variable {row : Row} {adds : List (Deferral × ℕ)} {pending : List PendingEntity} {group : PendingGroup}
  {client receiver : Handle} {ref : EntityRef} {W : Type} {w : W} {c : CommitState} {h h' : Trace sdk} {seqs : List ℤ}
  {e : Event sdk}

theorem deferredNumbers_of_quiet (he : Quiet e) : deferredNumbers e = none := by
  rcases e with ⟨call, reply⟩ | note
  · cases call <;> first | rfl | exact absurd he Bool.false_ne_true
  · rfl

/-- Every call of a commit is within the limits. -/
theorem keeps_withinLimits (hsound : ∀ pe ∈ pending, ∀ group ∈ pe.groups, SoundGroup adds pe.entity group) :
    Keeps Recorded (fun _ h => ∀ e ∈ h, WithinLimits adds pending e) (runCommit row pending) := by
  have hevent : ∀ (h : Trace sdk)
      (e : Event sdk), (∀ e ∈ h, WithinLimits adds pending e) → WithinLimits adds pending e →
      ∀ e' ∈ h ++ [e], WithinLimits adds pending e' := by
    intro h e hh he e' he'
    rcases List.mem_append.mp he' with he' | he'
    · exact hh e' he'
    · obtain rfl := List.mem_singleton.mp he'
      exact he
  refine keeps_runCommit_for { stats := fun _ _ hI => hI, info := fun _ hI => hI, quiet := ?_ } ?_
  · rintro e s h _ he ⟨-, rfl⟩ hI
    refine hevent _ _ hI fun seqs hseqs => ?_
    rw [deferredNumbers_of_quiet he] at hseqs
    cases hseqs
  · rintro pe hpe group hgroup receiver seqs timeout hasks reply s h _ ⟨-, rfl⟩ hI
    refine hevent _ _ hI fun seqs' hseqs => ?_
    obtain rfl : seqs = seqs' := Option.some.inj hseqs
    exact ⟨pe, hpe, group, hgroup, (hsound pe hpe group hgroup).callLimits hasks⟩

/-- What a run did before it met no error either. -/
theorem NoneFailed.initial (hnone : NoneFailed h') (hp : h <+: h') : NoneFailed h :=
  fun e he => hnone e (hp.subset he)

@[simp] theorem deferredCalls_concat : deferredCalls (h ++ [e]) = deferredCalls h ++ (deferredNumbers e).toList := by
  rw [deferredCalls, List.filterMap_append]
  cases he : deferredNumbers e <;> simp [deferredCalls, he]

theorem keeps_deferredCalls {calls : List (List ℤ)} : QuietKeeps Recorded fun (_ : W) h => deferredCalls h = calls := by
  rintro e c h _ he ⟨-, rfl⟩ hI
  rw [deferredCalls_concat, deferredNumbers_of_quiet he, hI]
  exact List.append_nil calls

/-- A call that does not fail is made once. -/
theorem wp_receiveOnce (sessionLocked : Bool) (delays : List ℤ) :
    Wp Recorded (withTransientRetry (retryable sessionLocked)
        (receiveDeferredMessages receiver seqs deferredReceiveTimeoutSeconds) delays)
      (fun r _ h' => NoneFailed h' → (∃ messages, r = .ok messages) ∧
        deferredCalls h' = deferredCalls h ++ [seqs]) w h := by
  have hone : Wp Recorded (receiveDeferredMessages receiver seqs deferredReceiveTimeoutSeconds) (fun r _ h' =>
      NoneFailed h' → (∃ messages, r = .ok messages) ∧ deferredCalls h' = deferredCalls h ++ [seqs]) w h := by
    rw [receiveDeferredMessages, wp_request]
    rintro reply _ ⟨-, rfl⟩ hnone
    cases reply with
    | ok messages => exact ⟨⟨messages, rfl⟩, deferredCalls_concat⟩
    | error fault =>
      exact absurd (hnone _ (List.mem_append_right _ (List.mem_singleton_self _))) (by simp [failedDeferred])
  cases delays with
  | nil => exact hone
  | cons delay delays =>
    rw [withTransientRetry, wp_tryCatch]
    refine hone.mono fun r w' h₁ h₂ => ?_
    cases r with
    | ok messages => exact h₂
    | error error =>
      -- the first call failed, whatever comes after it
      refine wp_extends.mono fun r w'' h'' hp hnone => ?_
      obtain ⟨⟨messages, hok⟩, -⟩ := h₂ (hnone.initial hp)
      cases hok

/-- Halving starts with the whole list, and ends there where that call does not fail. -/
theorem wp_bisect_once (sessionLocked : Bool) (halvings : ℕ) (hne : seqs ≠ []) :
    Wp Recorded (bisect receiver sessionLocked (halvings + 1) seqs)
      (fun _ _ h' => NoneFailed h' → deferredCalls h' = deferredCalls h ++ [seqs]) w h := by
  rw [bisect, if_neg hne, wp_bind, wp_attempt]
  refine (wp_receiveOnce sessionLocked _).mono fun r w' h₁ h₂ => ?_
  cases r with
  | ok messages => exact wp_pure.mpr fun hnone => (h₂ hnone).2
  | error error =>
    rw [onOk_ok]
    refine wp_extends.mono fun r w'' h'' hp hnone => ?_
    obtain ⟨⟨messages, hok⟩, -⟩ := h₂ (hnone.initial hp)
    cases hok

/-- A chunk whose calls do not fail takes one call. -/
theorem wp_deleteChunk_once (sessionLocked : Bool) {chunk : List ℤ} (hne : chunk ≠ []) :
    Wp Recorded (deleteChunk receiver sessionLocked chunk)
      (fun _ _ h' => NoneFailed h' → deferredCalls h' = deferredCalls h ++ [chunk]) c h := by
  obtain ⟨halvings, hlen⟩ : ∃ halvings, chunk.length = halvings + 1 :=
    Nat.exists_eq_succ_of_ne_zero (List.length_pos_of_ne_nil hne).ne'
  rw [deleteChunk, receiveDeferredBisect, hlen, wp_bind]
  refine (wp_bisect_once sessionLocked halvings hne).mono fun r c' h' hcalls => ?_
  cases r with
  | ok _ =>
    rw [onOk_ok, wp_bind, onCommitRun, wp_embed, tally, wp_modify, onOk_ok, wp_modify]
    exact hcalls
  | error _ => exact hcalls

/-- Steps that make one call each, where none fails, make theirs in order. -/
theorem wp_forM_once {chunks : List (List ℤ)} {g : List ℤ → Program W Unit} (hg : ∀ chunk ∈ chunks, ∀ w h,
      Wp Recorded (g chunk) (fun _ _ h' => NoneFailed h' → deferredCalls h' = deferredCalls h ++ [chunk]) w h) :
    Wp Recorded (chunks.forM g)
      (fun r _ h' => r = .ok () → NoneFailed h' → deferredCalls h' = deferredCalls h ++ chunks) w h := by
  -- the calls made and the chunks to come are the chunks
  refine Wp.forM (fun left _ h' => (∀ chunk ∈ left, chunk ∈ chunks) ∧
    (NoneFailed h' → deferredCalls h' ++ left = deferredCalls h ++ chunks)) ?_ ?_ ⟨fun _ hchunk => hchunk, fun _ => rfl⟩
  · rintro chunk left w₁ h₁ ⟨hleft, hcalls⟩
    refine ((hg chunk (hleft chunk (by simp)) w₁ h₁).and wp_extends).mono ?_
    rintro r w₂ h₂ ⟨hnext, hp⟩
    cases r with
    | error e =>
      intro hr
      cases hr
    | ok _ =>
      refine ⟨fun chunk hchunk => hleft chunk (by simp [hchunk]), fun hnone => ?_⟩
      rw [hnext hnone, List.append_assoc, List.singleton_append]
      exact hcalls (hnone.initial hp)
  · rintro w₁ h₁ ⟨-, hcalls⟩ - hnone
    rw [← hcalls hnone, List.append_nil]

/-- Chunks whose calls do not fail take one call each, in their order. -/
theorem wp_deleteChunks_once {chunks : List (List ℤ)} (hne : ∀ chunk ∈ chunks, chunk ≠ []) :
    Wp Recorded (deleteChunks receiver chunks)
      (fun r _ h' => r = .ok () → NoneFailed h' → deferredCalls h' = deferredCalls h ++ chunks) c h := by
  cases chunks with
  | nil => exact wp_pure.mpr fun _ _ => (List.append_nil _).symm
  | cons chunk rest =>
    rw [deleteChunks, wp_bind]
    refine (wp_deleteChunk_once true (hne chunk (by simp))).mono fun r c₁ h₁ hfirst => ?_
    cases r with
    | error e =>
      intro hr
      cases hr
    | ok _ =>
      rw [onOk_ok]
      have hrest := @wp_forM_once CommitState c₁ h₁ rest _ fun chunk hchunk c h =>
        @wp_deleteChunk_once receiver c h false chunk (hne chunk (by simp [hchunk]))
      refine (hrest.and wp_extends).mono fun r c₂ h₂ hr hok hnone => ?_
      obtain ⟨hcalls, hp⟩ := hr
      rw [hcalls hok hnone, hfirst (hnone.initial hp), List.append_assoc, List.singleton_append]

/-- A group whose calls do not fail takes one call for each chunk. -/
theorem wp_deleteGroup_once : Wp Recorded (deleteGroup row client ref group)
    (fun r _ h' => r = .ok () → NoneFailed h' → deferredCalls h' = deferredCalls h ++ group.chunks) c h := by
  have hne : ∀ chunk ∈ group.chunks, chunk ≠ [] :=
    fun chunk hchunk => ne_nil_of_mem_batched (commitChunkSize_pos _) hchunk
  rw [deleteGroup, wp_bind]
  refine (keeps_openCommitReceiver keeps_deferredCalls client ref _).wp rfl fun r c₁ h₁ hopened => ?_
  cases r with
  | error e =>
    intro hr
    cases hr
  | ok receiver =>
    rw [onOk_ok, wp_ensuring]
    refine (wp_deleteChunks_once hne).mono fun r c₂ h₂ hcalls => ?_
    rw [closeReceiver, wp_request]
    rintro reply _ ⟨-, rfl⟩ hr hnone
    obtain rfl : r = .ok () := by
      cases reply with
      | ok _ => exact hr
      | error fault => cases hr
    rw [deferredCalls_concat, ← hopened]
    exact (List.append_nil _).trans (hcalls rfl (hnone.initial (List.prefix_append _ _)))

end Calls

/-- Every call of a commit is within the broker's limits, whatever runs built the pending set; and the calls of a
group that meet no error are disjoint and cover exactly its numbers. -/
theorem deferred_calls_within_limits {builder : PendingSetBuilder} {stored pending : List PendingEntity}
    {adds : List (Deferral × ℕ)} (hbuilt : Building builder stored adds) (hpending : ∀ pe ∈ pending, pe ∈ stored) :
    (∀ (row : Row) s es r s', Prog.Exec (runCommit row pending) s es r s' → ∀ e ∈ es, WithinLimits adds pending e) ∧
    ∀ pe ∈ pending, ∀ group ∈ pe.groups, ∀ (row : Row) client c es c',
      Prog.Exec (deleteGroup row client pe.entity group) c es (.ok ()) c' → NoneFailed es →
        (deferredCalls es).Pairwise List.Disjoint ∧
          ∀ q, (∃ seqs ∈ deferredCalls es, q ∈ seqs) ↔ covers group.ranges q := by
  constructor
  · intro row s es r s' hexec
    have hsound : ∀ pe ∈ pending, ∀ group ∈ pe.groups, SoundGroup adds pe.entity group :=
      fun pe hpe => hbuilt.sound.groups pe (hpending pe hpe)
    simpa using wp_logged.mp (keeps_withinLimits hsound s [] (by simp)) es r s' hexec fun _ _ => trivial
  · intro pe _ group _ row client c es c' hexec hnone
    have hcalls : deferredCalls es = group.chunks :=
      wp_logged.mp (wp_deleteGroup_once (h := [])) es (.ok ()) c' hexec (fun _ _ => trivial) rfl hnone
    have hnodup := nodup_chunks group
    rw [hcalls]
    refine ⟨(List.nodup_flatten.mp hnodup).2, fun q => ?_⟩
    rw [covers_chunks, List.mem_flatten]

/-- A run that deferred messages 1 and 2, of three and five bytes. -/
def twoDeferred : PendingSetBuilder :=
  (PendingSetBuilder.add {} deferRow.entity 1 none 3).add deferRow.entity 2 none 5

theorem building_twoDeferred : Building twoDeferred (twoDeferred.build "0")
    [(⟨deferRow.entity, none, 1⟩, 3), (⟨deferRow.entity, none, 2⟩, 5)] :=
  .build "0" (.add _ 2 none 5 (by decide) (.add _ 1 none 3 (by decide) .start))

/-- Both messages are deleted by one call, within the limits. -/
theorem deferred_calls_within_limits_two : ∃ pe ∈ twoDeferred.build "0", ∃ group ∈ pe.groups, ∃ es c',
    Prog.Exec (deleteGroup deferRow 1 pe.entity group) { run := .start {} } es (.ok ()) c' ∧
      deferredCalls es = [[1, 2]] ∧ (∀ q, (∃ seqs ∈ deferredCalls es, q ∈ seqs) ↔ covers group.ranges q) ∧
      ∀ e ∈ scripted (runCommit deferRow (twoDeferred.build "0")) (.start {}) {},
        ∀ seqs, deferredNumbers e = some seqs →
        seqs.length ≤ 250 := by
  obtain ⟨hlimits, honce⟩ := deferred_calls_within_limits building_twoDeferred fun pe hpe => hpe
  let group : PendingGroup := { maxBodyBytes := 5, ranges := [(1, 2)] }
  let pe : PendingEntity := { entity := deferRow.entity, groups := [group], deferredAtUtc := "0" }
  have hpe : pe ∈ twoDeferred.build "0" := by decide +kernel
  have hgroup : group ∈ pe.groups := List.mem_singleton_self _
  let script : Script := { deferredReceives := [.ok [{ sequenceNumber := 1 }, { sequenceNumber := 2 }]] }
  have hresult : scriptedResult (deleteGroup deferRow 1 pe.entity group) { run := .start {} } script = .ok () :=
    by decide +kernel
  have hexec := exec_of_scriptedResult script hresult
  have hnone : NoneFailed (scripted (deleteGroup deferRow 1 pe.entity group) { run := .start {} } script) :=
    by unfold NoneFailed; decide +kernel
  refine ⟨pe, hpe, group, hgroup, _, _, hexec, by decide +kernel, (honce pe hpe group hgroup _ _ _ _ _ hexec hnone).2,
    ?_⟩
  intro e he seqs hseqs
  obtain ⟨_, _, _, _, hcall⟩ := hlimits _ _ _ _ _ (exec_scripted _ _ _) e he seqs hseqs
  exact hcall.count

end ServiceBusExtractor
