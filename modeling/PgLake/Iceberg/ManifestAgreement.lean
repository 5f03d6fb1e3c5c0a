/-
  Counts and statuses in the manifests a commit writes (`api/manifest.c`, `manifest_entry.c`).

  Main result: `writtenAgree_iff`.
-/
import PgLake.Iceberg.CatalogCommit
import PgLake.Iceberg.WrittenManifests

namespace PgLake.Iceberg

open List

variable {P : Type}

/-- The counts of the manifest list are those of the file, and entries are only added for the
    snapshot. -/
structure Manifest.Agrees (snapshotId : Int64) (manifest : Manifest P) : Prop where
  counts : manifest.counts = manifestFileAndRowCounts manifest.entries
  added : ∀ entry ∈ manifest.entries, entry.status = .added →
    entry.hasSnapshotId = true ∧ entry.snapshotId = snapshotId

/-- Every manifest written for a snapshot agrees with its file. -/
def WrittenAgree (base : Option (Snapshot P)) (snapshot : Snapshot P) : Prop :=
  ∀ manifest ∈ snapshot.manifests, manifest ∉ currentManifests base →
    manifest.Agrees snapshot.header.snapshotId

/-- A base snapshot as it is stored, and a header with an id not used in it. -/
structure StoredBase (base : Option (Snapshot P)) (newSnapshot : SnapshotHeader) : Prop where
  length_nonneg : ∀ manifest ∈ currentManifests base, 0 ≤ manifest.length
  snapshotId_fresh : ∀ manifest ∈ currentManifests base, ∀ entry ∈ manifest.entries,
    entry.snapshotId ≠ newSnapshot.snapshotId

/-- No base manifest that is written again keeps an entry that is marked as added. -/
def NoAddedEntryRewritten (mergeOnWrite : Bool) (base : Option (Snapshot P))
    (builder : SnapshotBuilder P) : Prop :=
  ∀ manifest ∈ currentManifests base, builder.Rewrites mergeOnWrite manifest →
    ∀ entry ∈ builder.remaining (builder.keptEntries mergeOnWrite manifest), entry.status ≠ .added

variable {entries : List (ManifestEntry P)}

theorem setExistingStatus_eq_self {sid : Int64}
    (h : ∀ e ∈ entries, e.status = .added → e.snapshotId = sid) :
    setExistingStatusForOldSnapshotAddedEntries sid entries = entries := by
  refine (map_congr_left fun e he => ?_).trans (map_id' entries)
  rw [if_neg]
  rintro ⟨ha, hs⟩
  exact hs (h e he ha)

theorem mem_setExistingStatus {snapshotId : Int64} {e : ManifestEntry P}
    (h : e ∈ setExistingStatusForOldSnapshotAddedEntries snapshotId entries)
    (ha : e.status = .added) : e ∈ entries ∧ e.snapshotId = snapshotId := by
  rcases mem_map.mp h with ⟨original, ho, rfl⟩
  split_ifs at ha ⊢ with hs
  · cases ha
  · refine ⟨ho, ?_⟩
    by_contra hne
    exact hs ⟨ha, hne⟩

theorem mem_entries_of_mem_keptEntries {builder : SnapshotBuilder P} {mergeOnWrite : Bool}
    {m : Manifest P} {e : ManifestEntry P}
    (h : e ∈ builder.keptEntries mergeOnWrite m) : e ∈ m.entries := by
  unfold SnapshotBuilder.keptEntries at h
  split_ifs at h
  · exact mem_of_mem_filter h
  · exact h

section

variable {env : CommitEnv P} {base : Option (Snapshot P)} {builder : SnapshotBuilder P}
  {newSnapshot : SnapshotHeader}

theorem agrees_write (snapshotId : Int64) (header : SnapshotHeader) (spec : Int32)
    (content : ManifestContent) (i : ℕ)
    (ha : ∀ e ∈ entries, e.status = .added →
      e.hasSnapshotId = true ∧ e.snapshotId = snapshotId) :
    (env.writer.write header spec content entries entries i).Agrees
      snapshotId :=
  ⟨rfl, ha⟩

/-- **Before merging**, a manifest is an old one or agrees with its file. -/
theorem agrees_of_origin (hb : builder.Builds newSnapshot)
    (hc : NoAddedEntryRewritten env.mergeOnWrite base builder) {m : Manifest P}
    (h : Origin env base builder m) :
    m ∈ currentManifests base ∨ m.Agrees newSnapshot.snapshotId := by
  cases h with
  | base hm => exact Or.inl hm
  | cleaned hba hm hd _ hk i =>
    subst hba
    refine Or.inr (agrees_write _ _ _ _ i ?_)
    intro e he ha
    have hremains : e ∈ builder.remaining (builder.keptEntries env.mergeOnWrite _) :=
      mem_filter.mpr ⟨he, by simp [hk e he]⟩
    exact absurd ha (hc _ hm (Or.inl hd) e hremains)
  | remaining hm hrem i =>
    have hn := hc _ hm (Or.inr hrem)
    unfold remainingManifest
    rw [setExistingStatus_eq_self fun e he ha => absurd ha (hn e he)]
    refine Or.inr (agrees_write _ _ _ _ i ?_)
    exact fun e he ha => absurd ha (hn e he)
  | deleted hdel _ spec content i =>
    refine Or.inr (agrees_write _ _ _ _ i ?_)
    intro e he ha
    rw [hdel e he] at ha
    cases ha
  | added hnew _ hco spec content i =>
    have hisNew := fun e he => hb.isNew e (hnew e he)
    have hs := setExistingStatus_eq_self fun e he _ => (hisNew e he).snapshotId
    rw [hb.newSnapshot, hs, or_self] at hco
    subst hco
    refine Or.inr (agrees_write _ _ _ _ i ?_)
    exact fun e he _ => ⟨(hisNew e he).hasSnapshotId, (hisNew e he).snapshotId⟩

theorem agrees_mergedManifest (hb : builder.Builds newSnapshot)
    (hba : StoredBase base newSnapshot) {sources : List (Manifest P)}
    (hs : ∀ src ∈ sources,
      src ∈ currentManifests base ∨ src.Agrees newSnapshot.snapshotId)
    (spec : Int32) (i : ℕ) :
    (mergedManifest env builder sources spec i).Agrees
      newSnapshot.snapshotId := by
  refine agrees_write _ _ _ _ i ?_
  intro e he ha
  rcases mem_flatMap.mp he with ⟨src, hsrc, he⟩
  rw [hb.newSnapshot] at he
  rcases mem_setExistingStatus he ha with ⟨he, hid⟩
  rcases hs src hsrc with hold | hag
  · exact absurd hid (hba.snapshotId_fresh src hold e he)
  · exact hag.added e he ha

variable [DecidableEq P]

theorem writtenAgree_of_noAddedEntryRewritten (hb : builder.Builds newSnapshot)
    (hba : StoredBase base newSnapshot)
    (hc : NoAddedEntryRewritten env.mergeOnWrite base builder) {snapshot : Snapshot P}
    (hsn : finalizeNewSnapshot env base builder = some snapshot) :
    WrittenAgree base snapshot := by
  unfold finalizeNewSnapshot at hsn
  simp only at hsn
  split_ifs at hsn
  cases hsn
  intro m hm hnew
  have hd : ∀ src ∈ (draftAfterRemoval env base builder).manifests,
      src ∈ currentManifests base ∨ src.Agrees newSnapshot.snapshotId :=
    fun src hsrc => agrees_of_origin hb hc (origin_of_mem hsrc)
  have hh : builder.newSnapshot.snapshotId = newSnapshot.snapshotId := by
    rw [hb.newSnapshot]
  rw [hh]
  rcases mem_finalDraft hm with hm | ⟨sources, hs, spec, i, rfl⟩
  · exact (hd m hm).resolve_left hnew
  · exact agrees_mergedManifest hb hba (fun src h => hd src (hs src h))
      spec i

end

section

variable [DecidableEq P] {base : Option (Snapshot P)} {builder : SnapshotBuilder P}

/-- **Counts and statuses of the manifests written.**  Whatever the sizes and the order of the
    files, they agree with the files exactly if no base manifest that is written again keeps an
    entry marked as added. -/
theorem writtenAgree_iff (mergeOnWrite : Bool) {newSnapshot : SnapshotHeader}
    (operations : List (MetadataOperation P))
    (hbuilder : processIcebergMetadataOperations operations newSnapshot = .ok builder)
    (hbase : StoredBase base newSnapshot) :
    (∀ env : CommitEnv P, env.mergeOnWrite = mergeOnWrite → ∀ snapshot,
      finalizeNewSnapshot env base builder = some snapshot → WrittenAgree base snapshot) ↔
      NoAddedEntryRewritten mergeOnWrite base builder := by
  have hbuilds := builds_of_operations hbuilder
  constructor
  · intro hagree manifest hm hrewrites entry hentry hadded
    rcases exists_length_bound (currentManifests base) with ⟨size, hpos, hsize⟩
    rcases exists_written_of_rewrites size hm hrewrites (ne_nil_of_mem hentry) with
      ⟨written, hwritten, hlength, hentries⟩
    rcases published_of_written hpos hbase.length_nonneg hsize hlength hwritten with
      ⟨hnew, snapshot, hsnapshot, hheader, hpublished⟩
    have hagrees := hagree _ rfl snapshot hsnapshot written hpublished hnew
    have hid := (hagrees.added entry (hentries ▸ hentry) hadded).2
    rw [hheader, hbuilds.newSnapshot] at hid
    have hold : entry ∈ manifest.entries :=
      mem_entries_of_mem_keptEntries (mem_of_mem_filter hentry)
    exact hbase.snapshotId_fresh manifest hm entry hold hid
  · intro hclean env henv snapshot hsnapshot
    subst henv
    exact writtenAgree_of_noAddedEntryRewritten hbuilds hbase hclean hsnapshot

end

theorem storedBase_exampleBase : StoredBase (some exampleBase) ⟨7, 3⟩ :=
  ⟨by decide, by decide⟩

/-- One of the two old files is removed, and the other one stays in a rewritten manifest. -/
theorem writtenAgree_iff_one_removed :
    ∃ builder, processIcebergMetadataOperations [.remove "f2"] ⟨7, 3⟩ = .ok builder ∧
      StoredBase (some exampleBase) ⟨7, 3⟩ ∧
      ((∀ env : CommitEnv Unit, env.mergeOnWrite = true → ∀ snapshot,
        finalizeNewSnapshot env (some exampleBase) builder = some snapshot →
          WrittenAgree (some exampleBase) snapshot) ↔
        NoAddedEntryRewritten true (some exampleBase) builder) :=
  ⟨_, rfl, storedBase_exampleBase,
    writtenAgree_iff true [.remove "f2"] rfl storedBase_exampleBase⟩

/-- One of two files is removed.  The other one is still marked as added by the last snapshot in
    the new manifest, which is listed as having no added file. -/
theorem remaining_manifest_disagrees : ∃ builder snapshot,
      processIcebergMetadataOperations [.remove "f2"] ⟨7, 3⟩ = .ok builder ∧
      finalizeNewSnapshot exampleEnv (some exampleBase) builder = some snapshot ∧
      ∃ manifest ∈ snapshot.manifests, manifest ∉ exampleBase.manifests ∧
        manifest.counts = { existingFiles := 1, existingRows := 10 } ∧
        manifestFileAndRowCounts manifest.entries = { addedFiles := 1, addedRows := 10 } ∧
        ∃ entry ∈ manifest.entries, entry.status = .added ∧ entry.snapshotId = 6 := by
  refine ⟨_, _, rfl, rfl, ?_⟩
  refine ⟨_, mem_cons_of_mem _ mem_cons_self, ?_, rfl, rfl, _, mem_cons_self, rfl, rfl⟩
  decide

end PgLake.Iceberg
