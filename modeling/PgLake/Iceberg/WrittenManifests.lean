/-
  The manifests a commit writes (`metadata_operations.c`, `operations/manifest_merge.c`).
-/
import PgLake.Iceberg.SnapshotBuilder

namespace PgLake.Iceberg

open BestFit Grouping List

variable {P : Type}

/-! ## Passes over manifests -/

/-- Each manifest was replaced by some, numbered from some index. -/
structure Pass (f : Manifest P → ℕ → List (Manifest P)) (before after : List (Manifest P)) :
    Prop where
  source : ∀ m' ∈ after, ∃ m ∈ before, ∃ i, m' ∈ f m i
  result : ∀ m ∈ before, ∃ i, ∀ m' ∈ f m i, m' ∈ after

namespace Pass

variable {f : Manifest P → ℕ → List (Manifest P)} {before after : List (Manifest P)}

theorem nil : Pass f [] [] := ⟨by simp, by simp⟩

theorem cons (m : Manifest P) (i : ℕ) (h : Pass f before after) :
    Pass f (m :: before) (f m i ++ after) := by
  constructor
  · intro m' hm'
    rcases mem_append.mp hm' with hm' | hm'
    · exact ⟨m, mem_cons_self, i, hm'⟩
    · rcases h.source m' hm' with ⟨m₀, hm₀, j, hj⟩
      exact ⟨m₀, mem_cons_of_mem _ hm₀, j, hj⟩
  · intro m₀ hm₀
    rcases mem_cons.mp hm₀ with rfl | hm₀
    · exact ⟨i, fun m' hm' => mem_append_left _ hm'⟩
    · rcases h.result m₀ hm₀ with ⟨j, hj⟩
      exact ⟨j, fun m' hm' => mem_append_right _ (hj m' hm')⟩

variable {before' after' : List (Manifest P)}

theorem append (h : Pass f before after)
    (h' : Pass f before' after') : Pass f (before ++ before') (after ++ after') := by
  constructor
  · intro m' hm'
    rcases mem_append.mp hm' with hm' | hm'
    · rcases h.source m' hm' with ⟨m, hm, hi⟩
      exact ⟨m, mem_append_left _ hm, hi⟩
    · rcases h'.source m' hm' with ⟨m, hm, hi⟩
      exact ⟨m, mem_append_right _ hm, hi⟩
  · intro m hm
    rcases mem_append.mp hm with hm | hm
    · rcases h.result m hm with ⟨i, hi⟩
      exact ⟨i, fun m' hm' => mem_append_left _ (hi m' hm')⟩
    · rcases h'.result m hm with ⟨i, hi⟩
      exact ⟨i, fun m' hm' => mem_append_right _ (hi m' hm')⟩

theorem of_perm (h : Pass f before after)
    (hb : before.Perm before') (ha : after'.Perm after) : Pass f before' after' := by
  constructor
  · intro m' hm'
    rcases h.source m' (ha.mem_iff.mp hm') with ⟨m, hm, hi⟩
    exact ⟨m, hb.mem_iff.mp hm, hi⟩
  · intro m hm
    rcases h.result m (hb.mem_iff.mpr hm) with ⟨i, hi⟩
    exact ⟨i, fun m' hm' => ha.mem_iff.mpr (hi m' hm')⟩

theorem refl (hf : ∀ m ∈ before, ∀ i, f m i = [m]) : Pass f before before := by
  constructor
  · intro m hm
    exact ⟨m, hm, 0, by simp [hf m hm]⟩
  · intro m hm
    refine ⟨0, ?_⟩
    intro m' hm'
    rw [hf m hm, mem_singleton] at hm'
    exact hm' ▸ hm

end Pass

/-! ## Entries kept and removed -/

namespace SnapshotBuilder

variable (builder : SnapshotBuilder P) (mergeOnWrite : Bool)

/-- Does the commit drop the deleted entries of the base snapshot? -/
def dropsDeleted : Bool := builder.applyManifestCompaction || mergeOnWrite

def keptEntries (manifest : Manifest P) : List (ManifestEntry P) :=
  if builder.dropsDeleted mergeOnWrite then manifest.entries.filter ManifestEntry.isScannable
  else manifest.entries

def removes (entry : ManifestEntry P) : Bool :=
  if builder.removeAllEntries then decide (entry.status ≠ .deleted)
  else decide (entry.path ∈ builder.removedEntries)

def remaining (entries : List (ManifestEntry P)) : List (ManifestEntry P) :=
  entries.filter fun entry => !builder.removes entry

/-- Is a base manifest written again, without some of its entries? -/
def Rewrites (manifest : Manifest P) : Prop :=
  (builder.keptEntries mergeOnWrite manifest).length ≠ manifest.entries.length ∨
    ∃ entry ∈ builder.keptEntries mergeOnWrite manifest, builder.removes entry = true

end SnapshotBuilder

/-- The entries of a manifest after the removed files are marked. -/
def SnapshotBuilder.adjusted (builder : SnapshotBuilder P) (manifest : Manifest P) :
    List (ManifestEntry P × ℕ) :=
  (findAndAdjustDeletedManifestEntries builder.removedEntries builder.newSnapshot.snapshotId
    builder.removeAllEntries manifest.counts manifest.entries).2

open ManifestEntry Draft

variable (builder : SnapshotBuilder P)

/-- **What is marked**, for both kinds of removal. -/
theorem SnapshotBuilder.adjusted_eq_map (manifest : Manifest P) :
    ∃ f : ManifestEntry P → ManifestEntry P × ℕ,
      builder.adjusted manifest = manifest.entries.map f ∧
      (∀ e, builder.removes e = true → (f e).2 ≠ 0 ∧ (f e).1.status = .deleted) ∧
      ∀ e, builder.removes e = false → f e = (e, 0) := by
  unfold adjusted removes
  cases builder.removeAllEntries with
  | true =>
    refine ⟨_, findAndAdjustDeletedManifestEntries_all _ _ _ _, ?_, ?_⟩
    · intro e he
      have hs : e.status ≠ .deleted := by simpa using he
      simp [adjustedByTruncate, hs, markDeleted]
    · intro e he
      have hs : e.status = .deleted := by simpa using he
      simp [adjustedByTruncate, hs]
  | false =>
    refine ⟨_, findAndAdjustDeletedManifestEntries_eq _ _ _ _, ?_, ?_⟩
    · intro e he
      have hp : e.path ∈ builder.removedEntries := by simpa using he
      exact ⟨(count_pos_iff.mpr hp).ne', by
        simp [adjustedEntry, hp, markDeleted]⟩
    · intro e he
      have hp : e.path ∉ builder.removedEntries := by simpa using he
      simp [adjustedEntry, hp, count_eq_zero.mpr hp]

theorem SnapshotBuilder.remaining_adjusted (manifest : Manifest P) :
    remainingManifestEntries (builder.adjusted manifest) = builder.remaining manifest.entries := by
  rcases builder.adjusted_eq_map manifest with ⟨f, hf, hrem, hk⟩
  rw [hf]
  unfold remainingManifestEntries remaining
  generalize manifest.entries = entries
  induction entries with
  | nil => rfl
  | cons e entries ih =>
    rw [map_cons, filter_cons, filter_cons]
    cases he : builder.removes e with
    | true => simpa [(hrem e he).1] using ih
    | false => simpa [hk e he] using ih

theorem SnapshotBuilder.deleted_adjusted (manifest : Manifest P) :
    ∀ e ∈ deletedManifestEntries (builder.adjusted manifest), e.status = .deleted := by
  rcases builder.adjusted_eq_map manifest with ⟨f, hf, hrem, hk⟩
  intro e he
  rw [hf] at he
  simp only [deletedManifestEntries, mem_flatMap, mem_map, mem_replicate] at he
  rcases he with ⟨_, ⟨original, -, rfl⟩, hc, rfl⟩
  cases ho : builder.removes original with
  | true => exact (hrem original ho).2
  | false => exact absurd (by rw [hk original ho]) hc

theorem SnapshotBuilder.deleted_adjusted_isEmpty (manifest : Manifest P) :
    (deletedManifestEntries (builder.adjusted manifest)).isEmpty = true ↔
      ∀ e ∈ manifest.entries, builder.removes e = false := by
  rcases builder.adjusted_eq_map manifest with ⟨f, hf, hrem, hk⟩
  simp only [List.isEmpty_iff, deletedManifestEntries, hf, flatMap_eq_nil_iff, mem_map,
    forall_exists_index, and_imp, forall_apply_eq_imp_iff₂, replicate_eq_nil_iff]
  refine forall₂_congr fun e _ => ?_
  cases he : builder.removes e with
  | true => simp [(hrem e he).1]
  | false => simp [hk e he]

/-! ## Where manifests come from -/

variable {groups : List (Int32 × List (ManifestEntry P))}

section

variable (env : CommitEnv P) (base : Option (Snapshot P)) (builder : SnapshotBuilder P)

/-- Manifests are merged at every commit. -/
def CommitEnv.mergeOnWrite : Bool := env.settings.enableManifestMergeOnWrite

def remainingManifest (manifest : Manifest P) (entries : List (ManifestEntry P))
    (manifestIndex : ℕ) : Manifest P :=
  env.writer.write builder.newSnapshot manifest.partitionSpecId manifest.content
    (builder.remaining entries)
    (setExistingStatusForOldSnapshotAddedEntries builder.newSnapshot.snapshotId
      (builder.remaining entries)) manifestIndex

/-- The manifest of a base manifest's live entries, written for the base snapshot. -/
def cleanedManifest (snapshot : Snapshot P) (manifest : Manifest P) (manifestIndex : ℕ) :
    Manifest P :=
  env.writer.write snapshot.header manifest.partitionSpecId manifest.content
    (builder.keptEntries env.mergeOnWrite manifest) (builder.keptEntries env.mergeOnWrite manifest)
    manifestIndex

/-- Where a manifest of the draft comes from, before manifests are merged. -/
inductive Origin : Manifest P → Prop
  | base {manifest} (hm : manifest ∈ currentManifests base) : Origin manifest
  /-- Deleted entries were dropped and no file removed. -/
  | cleaned {snapshot manifest} (hbase : base = some snapshot)
      (hm : manifest ∈ snapshot.manifests)
      (hdropped : (builder.keptEntries env.mergeOnWrite manifest).length ≠ manifest.entries.length)
      (hne : builder.keptEntries env.mergeOnWrite manifest ≠ [])
      (hkept : ∀ entry ∈ builder.keptEntries env.mergeOnWrite manifest,
        builder.removes entry = false)
      (manifestIndex : ℕ) : Origin (cleanedManifest env builder snapshot manifest manifestIndex)
  | remaining {manifest source} (hm : manifest ∈ currentManifests base)
      (hremoved : ∃ entry ∈ builder.keptEntries env.mergeOnWrite manifest,
        builder.removes entry = true)
      (manifestIndex : ℕ) :
      Origin (remainingManifest env builder source
        (builder.keptEntries env.mergeOnWrite manifest) manifestIndex)
  /-- The removed files, among them an old or a new one. -/
  | deleted {entries} (h : ∀ entry ∈ entries, entry.status = .deleted)
      (hremoved : (∃ manifest ∈ currentManifests base,
          ∃ entry ∈ builder.keptEntries env.mergeOnWrite manifest, builder.removes entry = true) ∨
        ∃ entry ∈ builder.newEntries, builder.removes entry = true)
      (partitionSpecId : Int32) (content : ManifestContent) (manifestIndex : ℕ) :
      Origin (env.writer.write builder.newSnapshot partitionSpecId content entries entries
        manifestIndex)
  | added {written counted}
      (h : ∀ entry ∈ written, entry ∈ builder.newEntries)
      (hgroups : builder.dataEntries ≠ [] ∨ builder.positionalDeleteEntries ≠ [])
      (hcounted : counted = written ∨ counted = setExistingStatusForOldSnapshotAddedEntries
        builder.newSnapshot.snapshotId written)
      (partitionSpecId : Int32) (content : ManifestContent) (manifestIndex : ℕ) :
      Origin (env.writer.write builder.newSnapshot partitionSpecId content written counted
        manifestIndex)

/-! ### Dropping deleted entries -/

/-- What becomes of a base manifest when deleted entries are dropped. -/
def cleanedManifests (manifest : Manifest P) (manifestIndex : ℕ) : List (Manifest P) :=
  match base with
  | none => [manifest]
  | some snapshot =>
    if builder.dropsDeleted env.mergeOnWrite then
      (removeDeletedManifestEntriesInternal env.writer snapshot.header manifest.content manifest
        manifestIndex).1.toList
    else [manifest]

theorem removeDeletedManifestEntries_pass (snapshot : SnapshotHeader) (content : ManifestContent)
    (ms : List (Manifest P)) (hc : ∀ manifest ∈ ms, manifest.content = content) :
    ∀ manifestIndex : ℕ,
      Pass (fun manifest i => (removeDeletedManifestEntriesInternal env.writer snapshot
          manifest.content manifest i).1.toList) ms
        (removeDeletedManifestEntries env.writer snapshot content ms manifestIndex).1 := by
  induction ms with
  | nil =>
    intro manifestIndex
    exact .nil
  | cons manifest rest ih =>
    intro manifestIndex
    rcases forall_mem_cons.mp hc with ⟨hf, hr⟩
    have hp := (ih hr (removeDeletedManifestEntriesInternal env.writer snapshot content
      manifest manifestIndex).2.2).cons manifest manifestIndex
    rw [hf] at hp
    exact hp

theorem draftWithoutDeleted_pass : Pass (cleanedManifests env base builder) (currentManifests base)
      (draftWithoutDeleted env base builder).manifests := by
  have hs := perm_fetchManifestsFromSnapshot base
  have hkinds := start_separated base builder
  unfold draftWithoutDeleted
  split_ifs with hd
  · rcases base with _ | snapshot
    · refine (Pass.refl fun manifest hm => ?_).of_perm hs (.refl _)
      exact fun i => rfl
    · have hf : cleanedManifests env (some snapshot) builder = fun manifest i =>
          (removeDeletedManifestEntriesInternal env.writer snapshot.header manifest.content
            manifest i).1.toList := by
        funext manifest i
        exact if_pos hd
      rw [hf]
      refine Pass.of_perm ?_ hs (.refl _)
      exact (removeDeletedManifestEntries_pass env _ _ _ hkinds.data _).append
        (removeDeletedManifestEntries_pass env _ _ _ hkinds.deletes _)
  · refine (Pass.refl fun manifest hm => ?_).of_perm hs (.refl _)
    intro i
    unfold cleanedManifests
    split
    · rfl
    · exact if_neg hd

variable {manifest : Manifest P}

theorem keptEntries_of_length
    (h : (builder.keptEntries env.mergeOnWrite manifest).length = manifest.entries.length) :
    builder.keptEntries env.mergeOnWrite manifest = manifest.entries := by
  unfold SnapshotBuilder.keptEntries at h ⊢
  split_ifs at h ⊢ with hd
  · exact filter_eq_self.mpr (length_filter_eq_length_iff.mp h)
  · rfl

variable {manifestIndex : ℕ}

variable {env base builder} in
theorem mem_cleanedManifests {manifest' : Manifest P}
    (h : manifest' ∈ cleanedManifests env base builder manifest manifestIndex) :
    (manifest' = manifest ∧ builder.keptEntries env.mergeOnWrite manifest = manifest.entries ∨
        base = none ∧ manifest' = manifest) ∨
      ∃ snapshot, base = some snapshot ∧
        (builder.keptEntries env.mergeOnWrite manifest).length ≠ manifest.entries.length ∧
        builder.keptEntries env.mergeOnWrite manifest ≠ [] ∧
        manifest' = cleanedManifest env builder snapshot manifest manifestIndex := by
  unfold cleanedManifests at h
  split at h
  · exact Or.inl (Or.inr ⟨rfl, mem_singleton.mp h⟩)
  · next snapshot =>
    split_ifs at h with hd
    · have hk : builder.keptEntries env.mergeOnWrite manifest =
          manifest.entries.filter isScannable := if_pos hd
      unfold removeDeletedManifestEntriesInternal at h
      simp only [← hk] at h
      split_ifs at h with he hlen
      · simp at h
      · exact Or.inr ⟨snapshot, rfl, hlen, by simpa using he, mem_singleton.mp h⟩
      · exact Or.inl (Or.inl ⟨by simpa using h,
          keptEntries_of_length env builder (not_not.mp hlen)⟩)
    · exact Or.inl (Or.inl ⟨mem_singleton.mp h, if_neg hd⟩)

variable {builder} in
theorem cleanedManifests_of_length_ne (snapshot : Snapshot P)
    (hne : builder.keptEntries env.mergeOnWrite manifest ≠ [])
    (hlen : (builder.keptEntries env.mergeOnWrite manifest).length ≠ manifest.entries.length)
    (manifestIndex : ℕ) :
    cleanedManifests env (some snapshot) builder manifest manifestIndex =
      [cleanedManifest env builder snapshot manifest manifestIndex] := by
  have hd : builder.dropsDeleted env.mergeOnWrite = true := by
    by_contra hd
    exact hlen (congrArg List.length (if_neg hd))
  have hk : builder.keptEntries env.mergeOnWrite manifest =
      manifest.entries.filter isScannable := if_pos hd
  have hc : cleanedManifests env (some snapshot) builder manifest manifestIndex =
      (removeDeletedManifestEntriesInternal env.writer snapshot.header manifest.content manifest
        manifestIndex).1.toList := if_pos hd
  rw [hc]
  unfold removeDeletedManifestEntriesInternal
  simp only [← hk]
  rw [if_neg (by simpa using hne), if_pos hlen]
  rfl

variable {builder} in
theorem cleanedManifests_of_length_eq (hne : manifest.entries ≠ [])
    (hlen : (builder.keptEntries env.mergeOnWrite manifest).length = manifest.entries.length)
    (manifestIndex : ℕ) :
    cleanedManifests env base builder manifest manifestIndex = [manifest] := by
  have hall := keptEntries_of_length env builder hlen
  unfold cleanedManifests
  split
  · rfl
  · split_ifs with hd
    · have hk : manifest.entries.filter isScannable = manifest.entries :=
        (if_pos hd).symm.trans hall
      unfold removeDeletedManifestEntriesInternal
      simp only [hk]
      rw [if_neg (by simpa using hne), if_neg (by simp)]
      rfl
    · rfl

/-! ### Adding new files -/

variable {newSnapshot : SnapshotHeader}

theorem mem_createNewManifests {content : ManifestContent}
    (h : manifest ∈ (createNewManifests env newSnapshot content groups manifestIndex).1) :
    ∃ g ∈ groups, ∃ i,
      manifest = env.writer.write newSnapshot g.1 content g.2 g.2 i := by
  induction groups generalizing manifestIndex with
  | nil => simp [createNewManifests] at h
  | cons g rest ih =>
    simp only [createNewManifests, mem_cons] at h
    rcases h with rfl | h
    · exact ⟨g, mem_cons_self, manifestIndex, rfl⟩
    · rcases ih h with ⟨g', hg', hi⟩
      exact ⟨g', mem_cons_of_mem _ hg', hi⟩

def IsNewManifest (manifest : Manifest P) : Prop :=
  (builder.dataEntries ≠ [] ∨ builder.positionalDeleteEntries ≠ []) ∧
  ∃ entries partitionSpecId content i, (∀ entry ∈ entries, entry ∈ builder.newEntries) ∧
    manifest = env.writer.write builder.newSnapshot partitionSpecId content entries entries i

variable {env builder} in
theorem isNewManifest_of_mem
    (hgs : ∀ g ∈ groups, ∀ e ∈ g.2, e ∈ builder.newEntries)
    (hs : groups ≠ [] → builder.dataEntries ≠ [] ∨ builder.positionalDeleteEntries ≠ [])
    {content : ManifestContent} (h : manifest ∈ (createNewManifests env builder.newSnapshot content
      (env.entryOrder.seq groups) manifestIndex).1) : IsNewManifest env builder manifest := by
  rcases mem_createNewManifests env h with ⟨g, hg, i, rfl⟩
  rw [(env.entryOrder.perm _).mem_iff] at hg
  exact ⟨hs (ne_nil_of_mem hg), g.2, g.1, content, i, hgs g hg, rfl⟩

theorem mem_draftWithNewEntries (h : manifest ∈ (draftWithNewEntries env base builder).manifests) :
    manifest ∈ (draftWithoutDeleted env base builder).manifests ∨
      IsNewManifest env builder manifest := by
  have hda : ∀ g ∈ builder.dataEntries, ∀ e ∈ g.2, e ∈ builder.newEntries :=
    fun g hg e he =>
      mem_append_left _ (mem_flatMap.mpr ⟨g, hg, he⟩)
  have hd : ∀ g ∈ builder.positionalDeleteEntries, ∀ e ∈ g.2,
      e ∈ builder.newEntries :=
    fun g hg e he =>
      mem_append_right _ (mem_flatMap.mpr ⟨g, hg, he⟩)
  rcases mem_append.mp h with h | h <;> rcases mem_append.mp h with h | h
  · exact Or.inl (mem_append_left _ h)
  · exact Or.inr (isNewManifest_of_mem hda Or.inl h)
  · exact Or.inl (mem_append_right _ h)
  · exact Or.inr (isNewManifest_of_mem hd Or.inr h)

theorem mem_draftWithNewEntries_of_mem
    (h : manifest ∈ (draftWithoutDeleted env base builder).manifests) :
    manifest ∈ (draftWithNewEntries env base builder).manifests := by
  rcases mem_append.mp h with h | h
  · exact mem_append_left _ (mem_append_left _ h)
  · exact mem_append_right _ (mem_append_left _ h)

/-! ### Removing files -/

def removalManifests (manifest : Manifest P) (manifestIndex : ℕ) : List (Manifest P) :=
  rewrittenManifests env builder.newSnapshot builder.removedEntries builder.removeAllEntries
    manifest manifestIndex

variable {builder} in
theorem removalManifests_of_none
    (h : ∀ e ∈ manifest.entries, builder.removes e = false) (manifestIndex : ℕ) :
    removalManifests env builder manifest manifestIndex = [manifest] :=
  if_pos ((builder.deleted_adjusted_isEmpty manifest).mpr h)

variable {builder} in
theorem removalManifests_of_some
    (h : ∃ e ∈ manifest.entries, builder.removes e = true) (manifestIndex : ℕ) :
    removalManifests env builder manifest manifestIndex =
      (createNewManifestsForDeletedEntries env builder.newSnapshot manifest.partitionSpecId
        manifest.content (builder.adjusted manifest) manifestIndex).1 := by
  refine if_neg ?_
  rcases h with ⟨e, he, hrem⟩
  intro hem
  have hk := (builder.deleted_adjusted_isEmpty manifest).mp hem e he
  rw [hk] at hrem
  cases hrem

variable {env builder} in
theorem mem_removalManifests {manifest' : Manifest P}
    (h : manifest' ∈ removalManifests env builder manifest manifestIndex) :
    ((∀ e ∈ manifest.entries, builder.removes e = false) ∧ manifest' = manifest) ∨
    ((∃ e ∈ manifest.entries, builder.removes e = true) ∧
      ∃ es i, (∀ e ∈ es, e.status = .deleted) ∧
        manifest' = env.writer.write builder.newSnapshot manifest.partitionSpecId manifest.content
          es es i) ∨
    ((∃ e ∈ manifest.entries, builder.removes e = true) ∧
      ∃ i, manifest' = remainingManifest env builder manifest manifest.entries i) := by
  by_cases hs : ∃ e ∈ manifest.entries, builder.removes e = true
  · rw [removalManifests_of_some env hs] at h
    unfold createNewManifestsForDeletedEntries at h
    simp only [builder.remaining_adjusted] at h
    have hdel := builder.deleted_adjusted manifest
    split_ifs at h
    · exact Or.inr (Or.inl ⟨hs, _, _, hdel, mem_singleton.mp h⟩)
    · rcases mem_cons.mp h with h | h
      · exact Or.inr (Or.inl ⟨hs, _, _, hdel, h⟩)
      · exact Or.inr (Or.inr ⟨hs, _, mem_singleton.mp h⟩)
  · have hn : ∀ e ∈ manifest.entries, builder.removes e = false := by
      intro e he
      by_contra hrem
      exact hs ⟨e, he, by simpa using hrem⟩
    rw [removalManifests_of_none env hn, mem_singleton] at h
    exact Or.inl ⟨hn, h⟩

variable {env builder} in
theorem remaining_mem_removalManifests
    (hs : ∃ e ∈ manifest.entries, builder.removes e = true)
    (hne : builder.remaining manifest.entries ≠ []) (manifestIndex : ℕ) :
    remainingManifest env builder manifest manifest.entries (manifestIndex + 1) ∈
      removalManifests env builder manifest manifestIndex := by
  rw [removalManifests_of_some env hs]
  unfold createNewManifestsForDeletedEntries
  simp only [builder.remaining_adjusted]
  rw [if_neg (by simpa using hne)]
  exact mem_cons_of_mem _ (mem_singleton.mpr rfl)

variable [DecidableEq P]

theorem foldl_rewriteManifestForRemoval_pass (pending : List (Manifest P)) :
    ∀ (visited : List (Manifest P)) (draft : Draft P), draft.Separated →
      draft.manifests.Perm (pending ++ visited) →
      ∃ replaced, Pass (removalManifests env builder) pending replaced ∧
        (pending.foldl (rewriteManifestForRemoval env builder.newSnapshot builder.removedEntries
          builder.removeAllEntries) draft).manifests.Perm (replaced ++ visited) := by
  induction pending with
  | nil =>
    intro visited draft _ hp
    exact ⟨[], .nil, hp⟩
  | cons manifest pending ih =>
    intro visited draft hsep hp
    have hme : manifest ∈ draft.manifests := hp.mem_iff.mpr (by simp)
    rcases rewriteManifestForRemoval_perm env builder.newSnapshot builder.removedEntries
      builder.removeAllEntries hsep hme with ⟨hm, hsep'⟩
    have hp' := (hp.erase manifest).append_right
      (removalManifests env builder manifest draft.manifestIndex)
    rw [cons_append, erase_cons_head, append_assoc] at hp'
    rcases ih (visited ++ _) _ hsep' (hm.trans hp') with
      ⟨replaced, hpa, hr⟩
    refine ⟨_, hpa.cons manifest draft.manifestIndex, hr.trans ?_⟩
    rw [← append_assoc]
    refine perm_append_comm.trans ?_
    rw [append_assoc]

theorem draftAfterRemoval_pass :
    Pass (removalManifests env builder) (draftWithNewEntries env base builder).manifests
      (draftAfterRemoval env base builder).manifests := by
  unfold draftAfterRemoval
  split_ifs with hact
  · rcases foldl_rewriteManifestForRemoval_pass env builder
      (draftWithNewEntries env base builder).manifests [] (draftWithNewEntries env base builder)
      (draftWithNewEntries_separated env base builder) (by simp) with ⟨replaced, hpa, hp⟩
    rw [append_nil] at hp
    exact hpa.of_perm (.refl _) hp
  · refine Pass.refl fun manifest _ => removalManifests_of_none env ?_
    intro e _
    simp only [Bool.or_eq_true, Bool.not_eq_true', isEmpty_eq_false_iff, ne_eq, not_or,
      not_not, Bool.not_eq_true] at hact
    simp [SnapshotBuilder.removes, hact.1, hact.2]

variable {env base builder} in
/-- **Where the manifests come from.** -/
theorem origin_of_mem (h : manifest ∈ (draftAfterRemoval env base builder).manifests) :
    Origin env base builder manifest := by
  rcases (draftAfterRemoval_pass env base builder).source manifest h with ⟨src, hsrc, i, hi⟩
  rcases mem_draftWithNewEntries env base builder hsrc with hsrc | hsrc
  · rcases (draftWithoutDeleted_pass env base builder).source src hsrc with
      ⟨original, ho, j, hj⟩
    rcases mem_cleanedManifests hj with
      (⟨rfl, hall⟩ | ⟨rfl, -⟩) | ⟨snapshot, rfl, hlen, hne, rfl⟩
    · rcases mem_removalManifests hi with
        ⟨-, rfl⟩ | ⟨hs, es, k, hdel, rfl⟩ | ⟨hs, k, rfl⟩
      · exact .base ho
      · rw [← hall] at hs
        exact .deleted hdel (Or.inl ⟨_, ho, hs⟩) _ _ k
      · rw [← hall] at hs ⊢
        exact .remaining ho hs k
    · simp [currentManifests] at ho
    · rcases mem_removalManifests hi with
        ⟨hn, rfl⟩ | ⟨hs, es, k, hdel, rfl⟩ | ⟨hs, k, rfl⟩
      · exact .cleaned rfl ho hlen hne hn j
      · exact .deleted hdel (Or.inl ⟨_, ho, hs⟩) _ _ k
      · exact .remaining ho hs k
  · rcases hsrc with ⟨hgs, es, spec, content, j, hnew, rfl⟩
    rcases mem_removalManifests hi with
      ⟨-, rfl⟩ | ⟨⟨e, he, hg⟩, es, k, hdel, rfl⟩ | ⟨-, k, rfl⟩
    · exact .added hnew hgs (Or.inl rfl) _ _ j
    · exact .deleted hdel (Or.inr ⟨e, hnew e he, hg⟩) _ _ k
    · refine .added ?_ hgs (Or.inr rfl) _ _ k
      intro e he
      exact hnew e (mem_of_mem_filter he)

variable {builder} in
theorem cleaned_mem {snapshot : Snapshot P} (hm : manifest ∈ snapshot.manifests)
    (hlen : (builder.keptEntries env.mergeOnWrite manifest).length ≠ manifest.entries.length)
    (hne : builder.keptEntries env.mergeOnWrite manifest ≠ [])
    (hk : ∀ e ∈ builder.keptEntries env.mergeOnWrite manifest,
      builder.removes e = false) :
    ∃ i, cleanedManifest env builder snapshot manifest i ∈
      (draftAfterRemoval env (some snapshot) builder).manifests := by
  rcases (draftWithoutDeleted_pass env (some snapshot) builder).result manifest hm with ⟨i, hi⟩
  rw [cleanedManifests_of_length_ne env snapshot hne hlen] at hi
  have hd := mem_draftWithNewEntries_of_mem env (some snapshot) builder
    (hi _ (mem_singleton.mpr rfl))
  rcases (draftAfterRemoval_pass env (some snapshot) builder).result _ hd with ⟨j, hj⟩
  rw [removalManifests_of_none env hk] at hj
  exact ⟨i, hj _ (mem_singleton.mpr rfl)⟩

omit [DecidableEq P] in
variable {base builder} in
theorem exists_source_of_kept (hm : manifest ∈ currentManifests base)
    (hne : builder.keptEntries env.mergeOnWrite manifest ≠ []) :
    ∃ src ∈ (draftWithNewEntries env base builder).manifests,
      src.entries = builder.keptEntries env.mergeOnWrite manifest := by
  rcases (draftWithoutDeleted_pass env base builder).result manifest hm with ⟨i, hi⟩
  by_cases hl : (builder.keptEntries env.mergeOnWrite manifest).length =
      manifest.entries.length
  · have hall := keptEntries_of_length env builder hl
    rw [cleanedManifests_of_length_eq env base (hall ▸ hne) hl] at hi
    exact ⟨manifest, mem_draftWithNewEntries_of_mem env base builder
      (hi _ (mem_singleton.mpr rfl)), hall.symm⟩
  · rcases base with _ | snapshot
    · simp [currentManifests] at hm
    · rw [cleanedManifests_of_length_ne env snapshot hne hl] at hi
      exact ⟨_, mem_draftWithNewEntries_of_mem env (some snapshot) builder
        (hi _ (mem_singleton.mpr rfl)), rfl⟩

variable {base builder} in
theorem remaining_mem (hm : manifest ∈ currentManifests base)
    (hrem : ∃ e ∈ builder.keptEntries env.mergeOnWrite manifest,
      builder.removes e = true)
    (hne : builder.remaining (builder.keptEntries env.mergeOnWrite manifest) ≠ []) :
    ∃ src i, remainingManifest env builder src
        (builder.keptEntries env.mergeOnWrite manifest) i ∈
      (draftAfterRemoval env base builder).manifests := by
  rcases hrem with ⟨e, he, hg⟩
  rcases exists_source_of_kept env hm (ne_nil_of_mem he) with ⟨src, hsrc, hes⟩
  rcases (draftAfterRemoval_pass env base builder).result src hsrc with ⟨j, hj⟩
  rw [← hes] at hne he ⊢
  exact ⟨src, j + 1, hj _ (remaining_mem_removalManifests ⟨e, he, hg⟩ hne j)⟩

/-! ### Without a new snapshot -/

omit [DecidableEq P] in
theorem removeDeletedManifestEntries_unmodified (writer : ManifestWriter P)
    (snapshot : SnapshotHeader) (content : ManifestContent) (manifests : List (Manifest P)) :
    ∀ manifestIndex : ℕ,
      (removeDeletedManifestEntries writer snapshot content manifests manifestIndex).2.1 = false →
      (removeDeletedManifestEntries writer snapshot content manifests manifestIndex).1 =
        manifests := by
  induction manifests with
  | nil =>
    intro manifestIndex _
    rfl
  | cons manifest rest ih =>
    intro manifestIndex h
    simp only [removeDeletedManifestEntries, Bool.or_eq_false_iff] at h ⊢
    rw [ih _ h.2]
    have hf : (removeDeletedManifestEntriesInternal writer snapshot content manifest
        manifestIndex).1 = some manifest := by
      have hfl := h.1
      unfold removeDeletedManifestEntriesInternal at hfl ⊢
      simp only at hfl ⊢
      split_ifs at hfl ⊢
      rfl
    rw [hf]
    rfl

omit [DecidableEq P] in
variable {env base builder} in
theorem mem_base_of_draftWithNewEntries
    (hf : (draftWithNewEntries env base builder).createNewSnapshot = false)
    (hm : manifest ∈ (draftWithNewEntries env base builder).manifests) :
    manifest ∈ currentManifests base := by
  simp only [draftWithNewEntries, addNewEntries, Bool.or_eq_false_iff, Bool.not_eq_false',
    List.isEmpty_iff] at hf
  rcases hf with ⟨⟨hd, hda⟩, hde⟩
  have hs : (draftWithNewEntries env base builder).manifests =
      (draftWithoutDeleted env base builder).manifests := by
    simp [draftWithNewEntries, addNewEntries, hda, hde, createNewManifests, manifests]
  rw [hs] at hm
  refine (perm_fetchManifestsFromSnapshot base).mem_iff.mp ?_
  unfold draftWithoutDeleted at hd hm
  split_ifs at hd hm
  · rcases base with _ | snapshot
    · exact hm
    · simp only [removeDeleted, Bool.or_eq_false_iff] at hd
      simp only [removeDeleted, manifests] at hm
      rw [removeDeletedManifestEntries_unmodified _ _ _ _ _ hd.1.2,
        removeDeletedManifestEntries_unmodified _ _ _ _ _ hd.2] at hm
      exact hm
  · exact hm

theorem rewriteManifestForRemoval_eq_self {removed : List FilePath}
    {removeAll : Bool} {draft : Draft P}
    (h : (rewriteManifestForRemoval env newSnapshot removed removeAll draft
      manifest).createNewSnapshot = false) :
    rewriteManifestForRemoval env newSnapshot removed removeAll draft manifest = draft := by
  unfold rewriteManifestForRemoval at h ⊢
  simp only at h ⊢
  split_ifs at h ⊢ with hn
  · rfl
  · split at h <;> cases h

theorem foldl_rewriteManifestForRemoval_eq_self
    {removed : List FilePath} {removeAll : Bool} {draft : Draft P} {ms : List (Manifest P)}
    (h : (ms.foldl (rewriteManifestForRemoval env newSnapshot removed removeAll)
      draft).createNewSnapshot = false) :
    ms.foldl (rewriteManifestForRemoval env newSnapshot removed removeAll) draft =
      draft := by
  induction ms generalizing draft with
  | nil => rfl
  | cons manifest ms ih =>
    rw [foldl_cons] at h ⊢
    have hr := ih h
    rw [hr] at h ⊢
    exact rewriteManifestForRemoval_eq_self env h

variable {env base builder} in
theorem mem_base_of_draftAfterRemoval
    (hf : (draftAfterRemoval env base builder).createNewSnapshot = false)
    (hm : manifest ∈ (draftAfterRemoval env base builder).manifests) :
    manifest ∈ currentManifests base := by
  unfold draftAfterRemoval at hf hm
  split_ifs at hf hm
  · unfold removeEntries at hf hm
    have hs := foldl_rewriteManifestForRemoval_eq_self env hf
    rw [hs] at hf hm
    exact mem_base_of_draftWithNewEntries hf hm
  · exact mem_base_of_draftWithNewEntries hf hm

/-! ### Merging -/

omit [DecidableEq P] in
def mergedManifest (sources : List (Manifest P)) (partitionSpecId : Int32) (manifestIndex : ℕ) :
    Manifest P :=
  let entries := sources.flatMap fun manifest =>
    setExistingStatusForOldSnapshotAddedEntries builder.newSnapshot.snapshotId manifest.entries
  env.writer.write builder.newSnapshot partitionSpecId .data entries entries manifestIndex

variable {env builder} in
theorem mem_mergeManifestGroups {latest : Manifest P} {groups : List (ManifestGroup P)}
    (h : manifest ∈ (mergeManifestGroups env.settings env.writer builder.newSnapshot latest
        groups manifestIndex).1 ++
      (mergeManifestGroups env.settings env.writer builder.newSnapshot latest groups
        manifestIndex).2.1) :
    ∃ g ∈ groups, manifest ∈ g.manifests ∨
      ∃ i, manifest = mergedManifest env builder g.manifests g.partitionSpecId i := by
  rcases source_of_mem_mergeManifestGroups h with ⟨g, hg, hm | ⟨i, hme⟩⟩
  · exact ⟨g, hg, Or.inl hm⟩
  · exact ⟨g, hg, Or.inr ⟨i, (eq_of_mergeManifestGroup hme).2⟩⟩

variable {env builder} in
theorem mem_unmerged {latest : Manifest P} {groups : List (ManifestGroup P)}
    {g : ManifestGroup P} (hg : g ∈ groups)
    (ha : isMergeableManifestGroup env.settings latest g = false)
    (hm : manifest ∈ g.manifests) (manifestIndex : ℕ) :
    manifest ∈ (mergeManifestGroups env.settings env.writer builder.newSnapshot latest
      groups manifestIndex).2.1 := by
  induction groups generalizing manifestIndex with
  | nil => simp at hg
  | cons first rest ih =>
    simp only [mergeManifestGroups]
    rcases mem_cons.mp hg with rfl | hg
    · rw [if_neg (by simp [ha])]
      exact mem_append_left _ hm
    · split_ifs
      · split
        · exact ih hg _
        · exact ih hg _
      · exact mem_append_right _ (ih hg _)

variable {env base builder} in
theorem mem_finalDraft (h : manifest ∈ (finalDraft env base builder).manifests) :
    manifest ∈ (draftAfterRemoval env base builder).manifests ∨
      ∃ sources, (∀ src ∈ sources, src ∈ (draftAfterRemoval env base builder).manifests) ∧
        ∃ spec i, manifest = mergedManifest env builder sources spec i := by
  unfold finalDraft at h
  simp only at h
  split_ifs at h
  · rcases mem_append.mp h with h | h
    · simp only [Draft.merge, mergeDataManifests] at h
      split at h
      · simp at h
      · rcases mem_mergeManifestGroups h with ⟨g, hg, hm⟩
        have hs : ∀ src ∈ g.manifests,
            src ∈ (draftAfterRemoval env base builder).manifests := by
          intro src hsrc
          exact mem_append_left _
            ((mem_manifestGroups_iff env.settings env.mergeOrder).mp ⟨g, hg, hsrc⟩)
        rcases hm with hm | ⟨i, rfl⟩
        · exact Or.inl (hs manifest hm)
        · exact Or.inr ⟨g.manifests, hs, g.partitionSpecId, i, rfl⟩
    · exact Or.inl (mem_append_right _ h)
  · exact Or.inl h

variable {env base builder} in
theorem mem_finalDraft_of_mem (ht : env.settings.targetSize = 0)
    (hlen : ∀ manifest ∈ (draftAfterRemoval env base builder).manifests, 0 ≤ manifest.length)
    (hm : manifest ∈ (draftAfterRemoval env base builder).manifests)
    (hpos : 0 < manifest.length) : manifest ∈ (finalDraft env base builder).manifests := by
  unfold finalDraft
  simp only
  split_ifs
  · rcases mem_append.mp hm with hd | hde
    · refine mem_append_left _ ?_
      simp only [Draft.merge, mergeDataManifests]
      split
      · next hn =>
        rw [getLast?_eq_none_iff] at hn
        rw [hn] at hd
        simp at hd
      · -- its group is a bin of its own
        rcases (mem_manifestGroups_iff env.settings env.mergeOrder).mpr hd with
          ⟨g, hg, hin⟩
        have ha : g.manifests = [manifest] := by
          rcases mem_flatMap.mp hg with ⟨specGroup, hs, hp⟩
          rw [ht] at hp
          rcases mem_map.mp hp with ⟨bin, hbin, rfl⟩
          refine pack_zero_singleton Manifest.length ?_ hbin hin hpos
          intro m hm
          refine hlen m (mem_append_left _ ?_)
          refine (perm_flatMap_groupBy Manifest.partitionSpecId _).mem_iff.mp ?_
          exact mem_flatMap.mpr
            ⟨specGroup, (env.mergeOrder.perm _).mem_iff.mp hs, hm⟩
        refine mem_append_right _ (mem_unmerged hg ?_ hin _)
        simp [isMergeableManifestGroup, ha]
    · exact mem_append_right _ hde
  · exact hm

end

/-! ## New entries -/

/-- An entry for a new file of a snapshot. -/
structure ManifestEntry.IsNew (snapshot : SnapshotHeader) (entry : ManifestEntry P) : Prop where
  status : entry.status = .added
  hasSnapshotId : entry.hasSnapshotId = true
  snapshotId : entry.snapshotId = snapshot.snapshotId
  hasSequenceNumber : entry.hasSequenceNumber = true
  sequenceNumber : entry.sequenceNumber = snapshot.sequenceNumber

theorem isNew_newManifestEntry (snapshot : SnapshotHeader) (p : String)
    (content : DataFileContent) (part : P) (recordCount : ℤ) :
    (newManifestEntry snapshot p content part recordCount).IsNew snapshot :=
  ⟨rfl, rfl, rfl, rfl, rfl⟩

/-- A builder for a snapshot, whose entries are entries of that snapshot. -/
structure SnapshotBuilder.Builds (builder : SnapshotBuilder P) (snapshot : SnapshotHeader) :
    Prop where
  newSnapshot : builder.newSnapshot = snapshot
  isNew : ∀ entry ∈ builder.newEntries, entry.IsNew snapshot

theorem mem_flatMap_addToGroup {spec : Int32} {e e' : ManifestEntry P}
    (h : e' ∈ (addToGroup spec e groups).flatMap Prod.snd) :
    e' = e ∨ e' ∈ groups.flatMap Prod.snd :=
  mem_cons.mp ((perm_flatMap_addToGroup spec e groups).mem_iff.mp h)

variable {builder : SnapshotBuilder P} {snapshot : SnapshotHeader}

theorem processOperation_builds {builder' : SnapshotBuilder P}
    (h : builder.Builds snapshot) {op : MetadataOperation P}
    (hs : processOperation builder op = .ok builder') : builder'.Builds snapshot := by
  cases op with
  | add p content part recordCount =>
    have hnew := isNew_newManifestEntry builder.newSnapshot p content part recordCount
    rw [h.newSnapshot] at hnew
    cases content with
    | data =>
      cases hs
      refine ⟨h.newSnapshot, fun e he => ?_⟩
      rcases mem_append.mp he with he | he
      · rcases mem_flatMap_addToGroup he with rfl | he
        · rw [h.newSnapshot]
          exact hnew
        · exact h.isNew e (mem_append_left _ he)
      · exact h.isNew e (mem_append_right _ he)
    | positionDeletes =>
      cases hs
      refine ⟨h.newSnapshot, fun e he => ?_⟩
      rcases mem_append.mp he with he | he
      · exact h.isNew e (mem_append_left _ he)
      · rcases mem_flatMap_addToGroup he with rfl | he
        · rw [h.newSnapshot]
          exact hnew
        · exact h.isNew e (mem_append_right _ he)
    | equalityDeletes => cases hs
  | _ =>
    cases hs
    exact ⟨h.newSnapshot, h.isNew⟩

theorem foldlM_processOperation_builds (ops : List (MetadataOperation P)) :
    ∀ {builder builder' : SnapshotBuilder P}, builder.Builds snapshot →
      ops.foldlM processOperation builder = .ok builder' → builder'.Builds snapshot := by
  induction ops with
  | nil =>
    intro builder builder' h hrun
    cases hrun
    exact h
  | cons op ops ih =>
    intro builder builder' h hrun
    rcases Fallible.bind_eq_ok_iff.mp hrun with ⟨next, hn, hr⟩
    exact ih (processOperation_builds h hn) hr

theorem builds_of_operations {ops : List (MetadataOperation P)}
    (h : processIcebergMetadataOperations ops snapshot = .ok builder) :
    builder.Builds snapshot :=
  foldlM_processOperation_builds ops ⟨rfl, by simp [SnapshotBuilder.newEntries]⟩ h

/-! ## Manifests that are published -/

theorem exists_length_bound (ms : List (Manifest P)) :
    ∃ bound : ℤ, 0 < bound ∧ ∀ manifest ∈ ms, manifest.length < bound := by
  induction ms with
  | nil => exact ⟨1, by omega, by simp⟩
  | cons manifest rest ih =>
    rcases ih with ⟨bound, hpos, hr⟩
    refine ⟨max bound (manifest.length + 1), by omega, ?_⟩
    intro m hm
    rcases mem_cons.mp hm with rfl | hm
    · omega
    · have := hr m hm
      omega

/-- An environment whose manifest files have one size, and where none of that size is merged. -/
def unmergingEnv (P : Type) (mergeOnWrite : Bool) (size : ℤ) : CommitEnv P where
  settings := ⟨mergeOnWrite, 0, 2⟩
  writer := ⟨"", "", fun _ => size⟩
  pathOrder := ⟨id, List.Perm.refl⟩
  entryOrder := ⟨id, List.Perm.refl⟩
  mergeOrder := ⟨id, List.Perm.refl⟩

theorem targetSize_unmergingEnv (mergeOnWrite : Bool) (size : ℤ) :
    (unmergingEnv P mergeOnWrite size).settings.targetSize = 0 := by
  simp [unmergingEnv, MergeSettings.targetSize]

variable {mergeOnWrite : Bool}

theorem length_of_origin {size : ℤ} {base : Option (Snapshot P)} {manifest : Manifest P}
    (h : Origin (unmergingEnv P mergeOnWrite size) base builder manifest) :
    manifest ∈ currentManifests base ∨ manifest.length = size := by
  cases h with
  | base hm => exact Or.inl hm
  | _ => exact Or.inr rfl

section

variable [DecidableEq P] {base : Option (Snapshot P)} {builder : SnapshotBuilder P}

theorem published_of_written {size : ℤ} (hpos : 0 < size)
    (hlen : ∀ manifest ∈ currentManifests base, 0 ≤ manifest.length)
    (hs : ∀ manifest ∈ currentManifests base, manifest.length < size) {manifest : Manifest P}
    (hw : manifest.length = size) (hm : manifest ∈
      (draftAfterRemoval (unmergingEnv P mergeOnWrite size) base builder).manifests) :
    manifest ∉ currentManifests base ∧
      ∃ snapshot, finalizeNewSnapshot (unmergingEnv P mergeOnWrite size) base builder =
        some snapshot ∧ snapshot.header = builder.newSnapshot ∧ manifest ∈ snapshot.manifests := by
  have hnew : manifest ∉ currentManifests base := by
    intro hold
    have := hs manifest hold
    omega
  have hd : ∀ m ∈ (draftAfterRemoval (unmergingEnv P mergeOnWrite size) base
      builder).manifests, 0 ≤ m.length := by
    intro m hm
    rcases length_of_origin (origin_of_mem hm) with hold | hs
    · exact hlen m hold
    · omega
  have hf := mem_finalDraft_of_mem (targetSize_unmergingEnv _ _) hd hm (by omega)
  have hfl : (finalDraft (unmergingEnv P mergeOnWrite size) base builder).createNewSnapshot =
      true := by
    by_contra hfl
    rw [Bool.not_eq_true] at hfl
    refine hnew (mem_base_of_draftAfterRemoval ?_ hm)
    unfold finalDraft at hfl
    simp only at hfl
    split_ifs at hfl
    · exact of_merge_createNewSnapshot hfl
    · exact hfl
  exact ⟨hnew, _, if_pos hfl, rfl, hf⟩

theorem exists_written_of_rewrites (size : ℤ) {manifest : Manifest P}
    (hm : manifest ∈ currentManifests base) (hre : builder.Rewrites mergeOnWrite manifest)
    (hne : builder.remaining (builder.keptEntries mergeOnWrite manifest) ≠ []) :
    ∃ w ∈ (draftAfterRemoval (unmergingEnv P mergeOnWrite size) base builder).manifests,
      w.length = size ∧
        w.entries = builder.remaining (builder.keptEntries mergeOnWrite manifest) := by
  by_cases hr : ∃ e ∈ builder.keptEntries mergeOnWrite manifest,
      builder.removes e = true
  · rcases remaining_mem (unmergingEnv P mergeOnWrite size) hm hr hne with
      ⟨src, i, hi⟩
    exact ⟨_, hi, rfl, rfl⟩
  · have hk : ∀ e ∈ builder.keptEntries mergeOnWrite manifest,
        builder.removes e = false := by
      intro e he
      by_contra hg
      exact hr ⟨e, he, by simpa using hg⟩
    have hall : builder.remaining (builder.keptEntries mergeOnWrite manifest) =
        builder.keptEntries mergeOnWrite manifest :=
      filter_eq_self.mpr fun e he => by simp [hk e he]
    have hlen := hre.resolve_right hr
    rw [hall] at hne ⊢
    rcases base with _ | snapshot
    · simp [currentManifests] at hm
    · rcases cleaned_mem (unmergingEnv P mergeOnWrite size) hm hlen hne hk with
        ⟨i, hi⟩
      exact ⟨_, hi, rfl, rfl⟩

end

end PgLake.Iceberg
