/-
  Manifest compaction, round after round (`metadata_operations.c`).

  A round is a commit whose only operation is `DATA_FILE_MERGE_MANIFESTS`.

  Main result: `compaction_reaches_fixed_point`.
-/
import PgLake.Iceberg.SnapshotBuilder

namespace PgLake.Iceberg

open Grouping List

variable {P : Type}

/-! ## Rounds -/

/-- What `ProcessIcebergMetadataOperations` makes of `DATA_FILE_MERGE_MANIFESTS`. -/
def compactionBuilder (newSnapshot : SnapshotHeader) : SnapshotBuilder P :=
  { newSnapshot := newSnapshot, applyManifestCompaction := true }

theorem processIcebergMetadataOperations_mergeManifests (new : SnapshotHeader) :
    processIcebergMetadataOperations [MetadataOperation.mergeManifests (P := P)] new =
      .ok (compactionBuilder new) := rfl

/-- Rounds of compaction with the same settings.  Each has its own snapshot id, file names and
    orders of hash tables. -/
structure Rounds (P : Type) where
  settings : MergeSettings
  env : ℕ → CommitEnv P
  newSnapshot : ℕ → SnapshotHeader
  settings_eq : ∀ round, (env round).settings = settings

namespace Rounds

variable [DecidableEq P] (rounds : Rounds P) (start : Option (Snapshot P))

def created (round : ℕ) (base : Option (Snapshot P)) : Option (Snapshot P) :=
  finalizeNewSnapshot (rounds.env round) base (compactionBuilder (rounds.newSnapshot round))

def current : ℕ → Option (Snapshot P)
  | 0 => start
  | round + 1 => (rounds.created round (current round)).or (current round)

def Creates (round : ℕ) : Prop := (rounds.created round (rounds.current start round)).isSome = true

def dataManifestCount (round : ℕ) : ℕ :=
  (fetchManifestsFromSnapshot (rounds.current start round) .data).length

end Rounds

/-! ## Manifests without deleted entries -/

def Manifest.Compacted (manifest : Manifest P) : Prop :=
  manifest.entries ≠ [] ∧ ∀ entry ∈ manifest.entries, entry.isScannable = true

section Removal
variable {writer : ManifestWriter P} {snapshot : SnapshotHeader} {content : ManifestContent}

theorem removeDeletedManifestEntriesInternal_of_compacted {m : Manifest P}
    (h : m.Compacted) (i : ℕ) :
    removeDeletedManifestEntriesInternal writer snapshot content m i =
      (some m, false, i) := by
  have hf : m.entries.filter ManifestEntry.isScannable = m.entries :=
    filter_eq_self.mpr h.2
  simp [removeDeletedManifestEntriesInternal, hf, h.1]

theorem removeDeletedManifestEntriesInternal_of_not_compacted {m : Manifest P}
    (h : ¬m.Compacted) (i : ℕ) :
    (removeDeletedManifestEntriesInternal writer snapshot content m i).2.1 =
        true ∧
      ∀ kept ∈ (removeDeletedManifestEntriesInternal writer snapshot content m
        i).1, kept.Compacted := by
  unfold removeDeletedManifestEntriesInternal
  simp only
  split_ifs with hem hlen
  · simp
  · refine ⟨rfl, fun kept hk => ?_⟩
    cases hk
    rw [List.isEmpty_iff] at hem
    exact ⟨hem, fun e he => (mem_filter.mp he).2⟩
  · -- nothing is filtered out, so the manifest has entries and all are live
    rw [not_not, length_filter_eq_length_iff] at hlen
    refine absurd ⟨fun hnil => ?_, hlen⟩ h
    simp [hnil] at hem

theorem removeDeletedManifestEntries_of_compacted {ms : List (Manifest P)}
    (h : ∀ m ∈ ms, m.Compacted) (i : ℕ) :
    removeDeletedManifestEntries writer snapshot content ms i =
      (ms, false, i) := by
  induction ms with
  | nil => rfl
  | cons m rest ih =>
    obtain ⟨hf, hr⟩ := forall_mem_cons.mp h
    simp [removeDeletedManifestEntries, ih hr,
      removeDeletedManifestEntriesInternal_of_compacted hf]

theorem compacted_of_removeDeletedManifestEntries (ms : List (Manifest P)) :
    ∀ i : ℕ,
      (∀ kept ∈ (removeDeletedManifestEntries writer snapshot content ms i).1,
        kept.Compacted) ∧
      ((removeDeletedManifestEntries writer snapshot content ms i).2.1 = false →
        ∀ m ∈ ms, m.Compacted) := by
  induction ms with
  | nil => simp [removeDeletedManifestEntries]
  | cons m rest ih =>
    intro i
    simp only [removeDeletedManifestEntries, forall_mem_append, Option.mem_toList,
      Bool.or_eq_false_iff, forall_mem_cons]
    by_cases hf : m.Compacted
    · rw [removeDeletedManifestEntriesInternal_of_compacted hf]
      refine ⟨⟨?_, (ih _).1⟩, fun h => ⟨hf, (ih _).2 h.2⟩⟩
      rintro kept ⟨⟩
      exact hf
    · obtain ⟨hm, hk⟩ :=
        @removeDeletedManifestEntriesInternal_of_not_compacted P writer snapshot content m
          hf i
      exact ⟨⟨hk, (ih _).1⟩, fun h => Bool.noConfusion (hm.symm.trans h.1)⟩

end Removal

/-! ## One round -/

open Draft Rounds

section Round
variable {env : CommitEnv P} {header : SnapshotHeader} {base : Option (Snapshot P)}

def cleanedDraft (env : CommitEnv P) (header : SnapshotHeader) (base : Option (Snapshot P)) :
    Draft P :=
  (Draft.start base (compactionBuilder header)).removeDeleted env base

theorem cleanedDraft_compacted :
    ∀ m ∈ (cleanedDraft env header base).manifests, m.Compacted := by
  unfold cleanedDraft removeDeleted
  cases base with
  | none => simp [start, manifests, fetchManifestsFromSnapshot, currentManifests]
  | some =>
    exact forall_mem_append.mpr ⟨(compacted_of_removeDeletedManifestEntries _ _).1,
      (compacted_of_removeDeletedManifestEntries _ _).1⟩

theorem cleanedDraft_separated : (cleanedDraft env header base).Separated :=
  removeDeleted_separated ⟨fun _ => content_of_mem_fetchManifestsFromSnapshot,
    fun _ => content_of_mem_fetchManifestsFromSnapshot⟩ base

theorem cleanedDraft_of_compacted (h : ∀ m ∈ currentManifests base, m.Compacted) :
    (cleanedDraft env header base).dataManifests = fetchManifestsFromSnapshot base .data ∧
      (cleanedDraft env header base).createNewSnapshot = false := by
  have hfetch : ∀ content, ∀ m ∈ fetchManifestsFromSnapshot base content,
      m.Compacted := fun content m hm => h m (mem_of_mem_filter hm)
  unfold cleanedDraft removeDeleted
  cases base with
  | none => exact ⟨rfl, rfl⟩
  | some =>
    simp [start, compactionBuilder, removeDeletedManifestEntries_of_compacted (hfetch _)]

theorem compacted_of_createNewSnapshot
    (h : (cleanedDraft env header base).createNewSnapshot = false) :
    ∀ m ∈ currentManifests base, m.Compacted := by
  cases base with
  | none => simp [currentManifests]
  | some snapshot =>
    simp only [cleanedDraft, removeDeleted, Bool.or_eq_false_iff] at h
    intro m hm
    rw [← (perm_fetchManifestsFromSnapshot (some snapshot)).mem_iff, mem_append] at hm
    rcases hm with hm | hm
    · exact (compacted_of_removeDeletedManifestEntries _ _).2 h.1.2 m hm
    · exact (compacted_of_removeDeletedManifestEntries _ _).2 h.2 m hm

theorem isScannable_setExistingStatus {currentSnapshotId : Int64} {es : List (ManifestEntry P)}
    (h : ∀ e ∈ es, e.isScannable = true) :
    ∀ e ∈ setExistingStatusForOldSnapshotAddedEntries currentSnapshotId es,
      e.isScannable = true := by
  unfold setExistingStatusForOldSnapshotAddedEntries
  rw [forall_mem_map]
  intro e he
  split_ifs
  · rfl
  · exact h e he

variable {draft : Draft P} {snapshot : Snapshot P}

theorem Draft.Separated.fetch (h : draft.Separated)
    (hma : snapshot.manifests = draft.manifests) :
    fetchManifestsFromSnapshot (some snapshot) .data = draft.dataManifests := by
  have hda : draft.dataManifests.filter (fun m => m.content = .data) =
      draft.dataManifests := filter_eq_self.mpr fun m hm => by simp [h.data m hm]
  have hd : draft.deleteManifests.filter (fun m => m.content = .data) = [] :=
    filter_eq_nil_iff.mpr fun m hm => by simp [h.deletes m hm]
  rw [fetchManifestsFromSnapshot, currentManifests, hma, manifests,
    filter_append, hda, hd, append_nil]

variable [DecidableEq P]

theorem finalDraft_compactionBuilder : finalDraft env base (compactionBuilder header) =
      (cleanedDraft env header base).merge env header := by
  have hn : env.entryOrder.seq [] = [] := (env.entryOrder.perm []).eq_nil
  have hnew : draftWithNewEntries env base (compactionBuilder header) =
      cleanedDraft env header base := by
    simp [draftWithNewEntries, draftWithoutDeleted, addNewEntries, compactionBuilder, hn,
      createNewManifests, cleanedDraft]
  have hr : draftAfterRemoval env base (compactionBuilder header) =
      cleanedDraft env header base := by
    rw [← hnew]
    rfl
  rw [finalDraft, hr]
  rfl

theorem hasMergeableManifests_order {cfg : MergeSettings}
    (order order' : HashOrder (Int32 × List (Manifest P))) (dataManifests : List (Manifest P)) :
    hasMergeableManifests cfg order dataManifests =
      hasMergeableManifests cfg order' dataManifests := by
  have hp : (manifestGroups cfg order dataManifests).Perm
      (manifestGroups cfg order' dataManifests) :=
    ((order.perm _).trans (order'.perm _).symm).flatMap_right _
  unfold hasMergeableManifests
  split
  · rfl
  · rw [Bool.eq_iff_iff, any_eq_true, any_eq_true]
    exact exists_congr fun g => and_congr_left' hp.mem_iff

theorem finalizeNewSnapshot_eq_none_iff :
    finalizeNewSnapshot env base (compactionBuilder header) = none ↔
      (∀ m ∈ currentManifests base, m.Compacted) ∧
        hasMergeableManifests env.settings env.mergeOrder
          (fetchManifestsFromSnapshot base .data) = false := by
  have hm : ∀ draft : Draft P, (draft.merge env header).createNewSnapshot = false ↔
      draft.createNewSnapshot = false ∧
        hasMergeableManifests env.settings env.mergeOrder draft.dataManifests = false := by
    intro draft
    have hlen := @hasMergeableManifests_iff P _ env.settings env.mergeOrder env.writer header
      draft.dataManifests draft.manifestIndex
    rw [Bool.eq_false_iff (b := hasMergeableManifests _ _ _), Ne, hlen]
    simp [Draft.merge]
  unfold finalizeNewSnapshot
  rw [ite_eq_right_iff, finalDraft_compactionBuilder]
  simp only [reduceCtorEq, imp_false, Bool.not_eq_true, hm]
  constructor
  · rintro ⟨hc, hn⟩
    have hco := compacted_of_createNewSnapshot hc
    rw [(cleanedDraft_of_compacted hco).1] at hn
    exact ⟨hco, hn⟩
  · rintro ⟨hco, hn⟩
    obtain ⟨hd, hc⟩ := @cleanedDraft_of_compacted P env header base hco
    exact ⟨hc, hd ▸ hn⟩

theorem eq_of_finalizeNewSnapshot
    (h : finalizeNewSnapshot env base (compactionBuilder header) = some snapshot) :
    snapshot.manifests = ((cleanedDraft env header base).merge env header).manifests := by
  unfold finalizeNewSnapshot at h
  simp only at h
  split_ifs at h
  rw [← Option.some.inj h, finalDraft_compactionBuilder]
  rfl

theorem Draft.merge_compacted (h : ∀ m ∈ draft.manifests, m.Compacted) :
    ∀ m ∈ (draft.merge env header).manifests, m.Compacted := by
  obtain ⟨hda, hd⟩ := forall_mem_append.mp h
  refine forall_mem_append.mpr ⟨forall_mem_mergeDataManifests hda ?_, hd⟩
  intro g i merged hg hme
  obtain ⟨hne, rfl⟩ := eq_of_mergeManifestGroup hme
  refine ⟨hne, fun e he => ?_⟩
  obtain ⟨m, hm, he⟩ := mem_flatMap.mp he
  exact isScannable_setExistingStatus (hg m hm).2 e he

theorem Draft.Separated.merge (h : draft.Separated) : (draft.merge env header).Separated := by
  refine ⟨forall_mem_mergeDataManifests h.data ?_, h.deletes⟩
  intro g i merged _ hm
  rw [(eq_of_mergeManifestGroup hm).2]
  rfl

theorem compacted_of_creates
    (h : finalizeNewSnapshot env base (compactionBuilder header) = some snapshot) :
    ∀ m ∈ snapshot.manifests, m.Compacted := by
  rw [eq_of_finalizeNewSnapshot h]
  exact merge_compacted cleanedDraft_compacted

/-- **Where there are no deleted entries, a new snapshot has fewer data manifests.** -/
theorem length_lt_of_creates (hb : ∀ m ∈ currentManifests base, m.Compacted)
    (h : finalizeNewSnapshot env base (compactionBuilder header) = some snapshot) :
    (fetchManifestsFromSnapshot (some snapshot) .data).length <
      (fetchManifestsFromSnapshot base .data).length := by
  have hmrg : hasMergeableManifests env.settings env.mergeOrder
      (fetchManifestsFromSnapshot base .data) = true := by
    by_contra hn
    have heq := (@finalizeNewSnapshot_eq_none_iff P env header base _).mpr
      ⟨hb, Bool.eq_false_iff.mpr hn⟩
    cases heq.symm.trans h
  have hd := (@cleanedDraft_of_compacted P env header base hb).1
  rw [cleanedDraft_separated.merge.fetch (eq_of_finalizeNewSnapshot h), ← hd]
  rw [← hd] at hmrg
  exact hasMergeableManifests_iff.mp hmrg

end Round

/-! ## All rounds -/

namespace Rounds

variable [DecidableEq P] {rounds : Rounds P} {start : Option (Snapshot P)} {round : ℕ}

theorem current_succ_of_creates (h : rounds.Creates start round) :
    ∃ snapshot, rounds.created round (rounds.current start round) = some snapshot ∧
      rounds.current start (round + 1) = some snapshot := by
  obtain ⟨snapshot, hsn⟩ := Option.isSome_iff_exists.mp h
  exact ⟨snapshot, hsn, by rw [current, hsn, Option.some_or]⟩

theorem created_eq_none (h : ¬rounds.Creates start round) :
    rounds.created round (rounds.current start round) = none := by
  simpa [Creates] using h

theorem current_succ_of_not_creates (h : ¬rounds.Creates start round) :
    rounds.current start (round + 1) = rounds.current start round := by
  rw [current, created_eq_none h, Option.none_or]

theorem compacted_of_lt {first : ℕ} (hf : rounds.Creates start first) :
    ∀ {round : ℕ}, first < round →
      ∀ m ∈ currentManifests (rounds.current start round), m.Compacted := by
  intro round hr
  induction round, hr using Nat.le_induction with
  | base =>
    obtain ⟨snapshot, hc, hcu⟩ := current_succ_of_creates hf
    rw [hcu]
    exact compacted_of_creates hc
  | succ round _ ih =>
    by_cases hcr : rounds.Creates start round
    · obtain ⟨snapshot, hc, hcu⟩ := current_succ_of_creates hcr
      rw [hcu]
      exact compacted_of_creates hc
    · rw [current_succ_of_not_creates hcr]
      exact ih

theorem count_lt
    (hco : ∀ m ∈ currentManifests (rounds.current start round), m.Compacted)
    (h : rounds.Creates start round) :
    rounds.dataManifestCount start (round + 1) < rounds.dataManifestCount start round := by
  obtain ⟨snapshot, hc, hcu⟩ := current_succ_of_creates h
  rw [dataManifestCount, hcu]
  exact length_lt_of_creates hco hc

theorem settled {round later : ℕ} (h : ¬rounds.Creates start round) (hle : round ≤ later) :
    ¬rounds.Creates start later := by
  induction later, hle using Nat.le_induction with
  | base => exact h
  | succ later _ ih =>
    have hn := finalizeNewSnapshot_eq_none_iff.mp (created_eq_none ih)
    rw [rounds.settings_eq] at hn
    have ha : rounds.created (later + 1) (rounds.current start later) = none := by
      refine finalizeNewSnapshot_eq_none_iff.mpr ⟨hn.1, ?_⟩
      rw [rounds.settings_eq, hasMergeableManifests_order _ (rounds.env later).mergeOrder]
      exact hn.2
    rw [Creates, current_succ_of_not_creates ih, ha]
    simp

theorem exists_not_creates (count : ℕ) : ∀ round, rounds.dataManifestCount start round ≤ count →
      (∀ m ∈ currentManifests (rounds.current start round), m.Compacted) →
      ∃ last, ¬rounds.Creates start last := by
  induction count with
  | zero =>
    intro round hc hco
    refine ⟨round, fun h => ?_⟩
    have := count_lt hco h
    omega
  | succ count ih =>
    intro round hc hco
    by_cases h : rounds.Creates start round
    · have hlt := count_lt hco h
      exact ih (round + 1) (by omega) (compacted_of_lt h (Nat.lt_succ_self round))
    · exact ⟨round, h⟩

/-- Compaction creates finitely many snapshots, and after the first one each has fewer data
    manifests than the one before. -/
structure ReachesFixedPoint (rounds : Rounds P) (start : Option (Snapshot P)) : Prop where
  finite : ∃ last, ∀ round, last ≤ round → ¬rounds.Creates start round
  decreases : ∀ first round, first < round → rounds.Creates start first →
    rounds.Creates start round →
    rounds.dataManifestCount start (round + 1) < rounds.dataManifestCount start round
  stays : ∀ round later, ¬rounds.Creates start round → round ≤ later →
    ¬rounds.Creates start later ∧ rounds.current start later = rounds.current start round

end Rounds

theorem compaction_reaches_fixed_point [DecidableEq P] (rounds : Rounds P)
    (start : Option (Snapshot P)) : rounds.ReachesFixedPoint start where
  finite := by
    by_cases h : rounds.Creates start 0
    · obtain ⟨last, hlast⟩ := exists_not_creates _ 1 (Nat.le_refl _)
        (compacted_of_lt h Nat.one_pos)
      exact ⟨last, fun round => settled hlast⟩
    · exact ⟨0, fun round => settled h⟩
  decreases first round hlt hfirst hround :=
    count_lt (compacted_of_lt hfirst hlt) hround
  stays round later h hle := by
    refine ⟨settled h hle, ?_⟩
    induction later, hle using Nat.le_induction with
    | base => rfl
    | succ later hle ih => rw [current_succ_of_not_creates (settled h hle), ih]

end PgLake.Iceberg
