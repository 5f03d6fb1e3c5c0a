/-
  Publishing the file catalog as a new snapshot
  (`transaction/track_iceberg_metadata_changes.c`).

  At commit the files recorded in the catalog are compared with the last snapshot and the
  difference becomes operations on it.

  Main result: `commit_publishes_catalog`.
-/
import PgLake.Iceberg.SnapshotBuilder
import Mathlib.Data.List.Dedup

namespace PgLake.Iceberg

open List MetadataOperation ManifestEntry

variable {P : Type}

/-! ## The difference to the catalog -/

structure TableDataFile (P : Type) where
  path : FilePath
  content : DataFileContent
  partition : P
  recordCount : ℤ
  partitionSpecId : Int32
  deriving DecidableEq

/-- The files of a table in the catalog, by path. -/
structure FileCatalog (P : Type) where
  files : List (TableDataFile P)
  distinct : (files.map TableDataFile.path).Nodup
  supported : ∀ file ∈ files, file.content ≠ .equalityDeletes

def FileCatalog.paths (catalog : FileCatalog P) : List FilePath :=
  catalog.files.map TableDataFile.path

def liveEntries (snapshot : Option (Snapshot P)) : List (ManifestEntry P) :=
  (currentManifests snapshot).flatMap fun manifest =>
    manifest.entries.filter isScannable

/-- The paths of the live files of a snapshot. -/
def livePaths (snapshot : Option (Snapshot P)) : List FilePath :=
  (liveEntries snapshot).map path

variable (env : CommitEnv P) (catalog : FileCatalog P) (base : Option (Snapshot P))

/-- `FindChangedFilesSinceMetadata`: the files added and the paths removed. -/
def findChangedFilesSinceMetadata : List (TableDataFile P) × List FilePath :=
  let metadataDataFilesMap := (livePaths base).dedup
  (catalog.files.filter fun file => file.path ∉ metadataDataFilesMap,
    (env.pathOrder.seq metadataDataFilesMap).filter fun path => path ∉ catalog.paths)

def TableDataFile.addOperation (file : TableDataFile P) : MetadataOperation P :=
  .add (stripFromChar file.path.text).text file.content file.partition file.recordCount
    file.partitionSpecId

def getDataFileMetadataOperations : List (MetadataOperation P) :=
  let (addedFiles, removedFilePaths) := findChangedFilesSinceMetadata env catalog base
  addedFiles.map TableDataFile.addOperation ++ removedFilePaths.map fun path => remove path.text

/-- What `GetDDLMetadataOperations` can return. -/
inductive DdlOperation where
  | tableCreate
  | tableDdl
  | tablePartitionBy
  deriving DecidableEq

def DdlOperation.operation : DdlOperation → MetadataOperation P
  | .tableCreate => .tableCreate
  | .tableDdl => .tableDdl
  | .tablePartitionBy => .tablePartitionBy

/-- What else a transaction asks for. -/
structure CommitRequest where
  ddlOperations : List DdlOperation
  manifestMerge : Bool
  snapshotExpiration : Bool
  deriving DecidableEq

def commitOperations (request : CommitRequest) : List (MetadataOperation P) :=
  request.ddlOperations.map DdlOperation.operation ++
    getDataFileMetadataOperations env catalog base ++
    (if request.manifestMerge then [.mergeManifests] else []) ++
    if request.snapshotExpiration then [.expireOldSnapshots] else []

/-- One commit: the operations of the request are applied and the snapshot is built. -/
def commit [DecidableEq P] (env : CommitEnv P) (catalog : FileCatalog P)
    (base : Option (Snapshot P)) (request : CommitRequest) (newSnapshot : SnapshotHeader) :
    Except CommitError (Option (Snapshot P)) := do
  let builder ← processIcebergMetadataOperations (commitOperations env catalog base request)
    newSnapshot
  return (finalizeNewSnapshot env base builder).or base

/-! ## What the operations of a commit collect -/

def TableDataFile.newEntry (snapshot : SnapshotHeader) (file : TableDataFile P) : ManifestEntry P :=
  newManifestEntry snapshot file.path.text file.content file.partition file.recordCount

variable (snapshot : SnapshotHeader)

@[simp] theorem TableDataFile.path_newEntry (f : TableDataFile P) :
    (f.newEntry snapshot).path = f.path :=
  stripFromChar_text f.path

section Operations

variable (base : Option (Snapshot P))
  (request : CommitRequest)

theorem commitOperations_namesFiles :
    ∀ op ∈ commitOperations env catalog base request, op.NamesFiles := by
  intro op h
  simp only [commitOperations, getDataFileMetadataOperations, findChangedFilesSinceMetadata,
    mem_append, mem_map, mem_filter] at h
  rcases h with ((⟨ddl, _, rfl⟩ | ⟨f, ⟨hf, _⟩, rfl⟩ | ⟨p, _, rfl⟩) | hm) | he
  · cases ddl <;> trivial
  · exact catalog.supported f hf
  · trivial
  · split_ifs at hm
    · rw [mem_singleton.mp hm]
      trivial
    · cases hm
  · split_ifs at he
    · rw [mem_singleton.mp he]
      trivial
    · cases he

theorem flatMap_commitOperations {α : Type*} {f : MetadataOperation P → List α}
    (hddl : ∀ ddl : DdlOperation, f ddl.operation = []) (hm : f .mergeManifests = [])
    (hex : f .expireOldSnapshots = []) :
    (commitOperations env catalog base request).flatMap f =
      ((findChangedFilesSinceMetadata env catalog base).1.flatMap fun file =>
          f file.addOperation) ++
        (findChangedFilesSinceMetadata env catalog base).2.flatMap fun p =>
          f (.remove p.text) := by
  have hn : (request.ddlOperations.map DdlOperation.operation).flatMap f = [] := by
    simp [flatMap_map, hddl]
  have hr : ((if request.manifestMerge then [mergeManifests] else []) :
      List (MetadataOperation P)).flatMap f = [] := by
    split_ifs <;> simp [hm]
  have he : ((if request.snapshotExpiration then [expireOldSnapshots]
      else []) : List (MetadataOperation P)).flatMap f = [] := by
    split_ifs <;> simp [hex]
  simp [commitOperations, getDataFileMetadataOperations, hn, hr, he, flatMap_map]

theorem commitOperations_newEntries :
    (commitOperations env catalog base request).flatMap (newEntries snapshot) =
      (findChangedFilesSinceMetadata env catalog base).1.map (TableDataFile.newEntry snapshot) := by
  rw [flatMap_commitOperations env catalog base request (by rintro ⟨⟩ <;> rfl) rfl rfl,
    map_eq_flatMap]
  simp [newEntries, TableDataFile.addOperation, TableDataFile.newEntry]

theorem commitOperations_removedPaths :
    (commitOperations env catalog base request).flatMap removedPaths =
      (findChangedFilesSinceMetadata env catalog base).2 := by
  rw [flatMap_commitOperations env catalog base request (by rintro ⟨⟩ <;> rfl) rfl rfl]
  simp [removedPaths, TableDataFile.addOperation]

end Operations

/-! ## The published files -/

theorem tableContent_currentManifests (snapshot : Option (Snapshot P)) :
    tableContent (currentManifests snapshot) = (liveEntries snapshot).map asExisting := by
  rw [liveEntries, map_flatMap]
  rfl

theorem livePaths_eq (snapshot : Option (Snapshot P)) :
    livePaths snapshot = (tableContent (currentManifests snapshot)).map path := by
  rw [tableContent_currentManifests, map_map]
  rfl

/-- `published` replaces `base` with the files of the catalog: each is live once, and an entry
    that was live keeps its snapshot id and its sequence number. -/
structure Publishes (base published : Option (Snapshot P)) (catalog : FileCatalog P) : Prop where
  paths : (livePaths published).Perm catalog.paths
  kept : ∀ entry ∈ liveEntries base, ∀ entry' ∈ liveEntries published, entry'.path = entry.path →
    entry'.hasSnapshotId = entry.hasSnapshotId ∧ entry'.snapshotId = entry.snapshotId ∧
      entry'.hasSequenceNumber = entry.hasSequenceNumber ∧
      entry'.sequenceNumber = entry.sequenceNumber

section Commit

theorem mem_removedFilePaths {p : FilePath} :
    p ∈ (findChangedFilesSinceMetadata env catalog base).2 ↔
      p ∈ livePaths base ∧ p ∉ catalog.paths := by
  simp [findChangedFilesSinceMetadata, (env.pathOrder.perm _).mem_iff]

theorem paths_addedFiles :
    (findChangedFilesSinceMetadata env catalog base).1.map TableDataFile.path =
      catalog.paths.filter fun p => p ∉ livePaths base := by
  simp only [findChangedFilesSinceMetadata, FileCatalog.paths, filter_map, mem_dedup]
  rfl

def publishedContent (newSnapshot : SnapshotHeader) : List (ManifestEntry P) :=
  keptContent (findChangedFilesSinceMetadata env catalog base).2
    (tableContent (currentManifests base) ++
      contentOf ((findChangedFilesSinceMetadata env catalog base).1.map
        (TableDataFile.newEntry newSnapshot)))

theorem perm_catalog_paths {live removed files : List FilePath} (hl : live.Nodup)
    (hfs : files.Nodup) (hrem : ∀ p, p ∈ removed ↔ p ∈ live ∧ p ∉ files) :
    ((live ++ files.filter (· ∉ live)).filter (· ∉ removed)).Perm files := by
  have hn : (live ++ files.filter (· ∉ live)).Nodup := by
    refine List.Nodup.append hl (hfs.filter _) fun p hp ha => ?_
    simp only [mem_filter, decide_eq_true_eq] at ha
    exact ha.2 hp
  rw [perm_ext_iff_of_nodup (hn.filter _) hfs]
  intro p
  simp only [mem_filter, mem_append, decide_eq_true_eq, hrem]
  tauto

theorem contentOf_newEntries (fs : List (TableDataFile P)) :
    contentOf (fs.map (TableDataFile.newEntry snapshot)) =
      fs.map fun f => (f.newEntry snapshot).asExisting := by
  unfold contentOf
  rw [filter_eq_self.mpr, map_map]
  · rfl
  · intro e he
    obtain ⟨f, _, rfl⟩ := mem_map.mp he
    rfl

theorem map_path_keptContent (removed : List FilePath) (content : List (ManifestEntry P)) :
    (keptContent removed content).map path = (content.map path).filter (· ∉ removed) := by
  rw [filter_map]
  rfl

theorem perm_paths_publishedContent (hl : (livePaths base).Nodup)
    (newSnapshot : SnapshotHeader) :
    ((publishedContent env catalog base newSnapshot).map path).Perm
      catalog.paths := by
  have ha : (contentOf ((findChangedFilesSinceMetadata env catalog base).1.map
      (TableDataFile.newEntry newSnapshot))).map path =
        catalog.paths.filter fun path => path ∉ livePaths base := by
    rw [contentOf_newEntries, map_map, ← paths_addedFiles env catalog base]
    exact map_congr_left fun file _ => file.path_newEntry newSnapshot
  rw [publishedContent, map_path_keptContent, map_append, ← livePaths_eq, ha]
  exact perm_catalog_paths hl catalog.distinct fun path => mem_removedFilePaths env catalog base

theorem mem_base_of_mem_publishedContent {new : SnapshotHeader} {e : ManifestEntry P}
    (he : e ∈ publishedContent env catalog base new)
    (hl : e.path ∈ livePaths base) : e ∈ tableContent (currentManifests base) := by
  have hm := (mem_filter.mp he).1
  rw [contentOf_newEntries, mem_append, mem_map] at hm
  rcases hm with hold | ⟨file, hf, rfl⟩
  · exact hold
  · have ha := mem_map_of_mem (f := TableDataFile.path) hf
    rw [paths_addedFiles, mem_filter, decide_eq_true_eq] at ha
    rw [path_asExisting, TableDataFile.path_newEntry] at hl
    exact absurd hl ha.2

/-- Two live entries of one path are the same, so an old entry is only changed in its status. -/
theorem publishes_of_content (newSnapshot : SnapshotHeader) {published : Option (Snapshot P)}
    (hl : (livePaths base).Nodup) (h : (tableContent (currentManifests published)).Perm
      (publishedContent env catalog base newSnapshot)) : Publishes base published catalog where
  paths := by
    rw [livePaths_eq]
    exact (h.map _).trans (perm_paths_publishedContent env catalog base hl newSnapshot)
  kept := by
    intro entry he entry' he' hp
    have hpub : entry'.asExisting ∈ publishedContent env catalog base newSnapshot := by
      rw [← h.mem_iff, tableContent_currentManifests]
      exact mem_map_of_mem he'
    have hold : entry'.asExisting.path ∈ livePaths base := by
      rw [path_asExisting, hp]
      exact mem_map_of_mem he
    have hm := mem_base_of_mem_publishedContent env catalog base hpub hold
    rw [tableContent_currentManifests] at hm
    obtain ⟨original, ho, hs⟩ := mem_map.mp hm
    have hpa : original.path = entry.path := by
      rw [← hp, ← path_asExisting original, hs, path_asExisting]
    obtain rfl : original = entry := inj_on_of_nodup_map hl ho he hpa
    simp only [asExisting, mk.injEq, true_and] at hs
    obtain ⟨h₁, h₂, h₃, h₄, _⟩ := hs
    exact ⟨h₁.symm, h₂.symm, h₃.symm, h₄.symm⟩

variable [DecidableEq P]

/-- **A commit publishes the files of the catalog**, with or without merging manifests. -/
theorem commit_publishes_catalog (request : CommitRequest) (newSnapshot : SnapshotHeader)
    (hlive : (livePaths base).Nodup) :
    ∃ published, commit env catalog base request newSnapshot = .ok published ∧
      Publishes base published catalog := by
  obtain ⟨builder, hbuilder, hcollects⟩ :=
    foldlM_processOperation (commitOperations env catalog base request)
      { newSnapshot := newSnapshot } (commitOperations_namesFiles env catalog base request)
  refine ⟨(finalizeNewSnapshot env base builder).or base, ?_, ?_⟩
  · exact Fallible.bind_eq_ok_iff.mpr ⟨builder, hbuilder, rfl⟩
  · refine publishes_of_content env catalog base newSnapshot hlive ?_
    have hnew := hcollects.newEntries
    have hremoved := hcollects.removedEntries
    rw [commitOperations_newEntries] at hnew
    rw [commitOperations_removedPaths] at hremoved
    refine (finalizeNewSnapshot_content env base hcollects.removeAllEntries).trans ?_
    rw [publishedContent, hremoved]
    exact ((contentOf_perm hnew).append_left _).filter _

end Commit

def exampleBase : Snapshot Unit where
  header := ⟨6, 2⟩
  manifests := [{
    path := "m0.avro", length := 900, content := .data, sequenceNumber := 2, partitionSpecId := 0,
    addedSnapshotId := 6, counts := { addedFiles := 1, existingFiles := 1, deletedFiles := 1 }
    entries := [
      ⟨.added, true, 6, true, 2, ⟨⟨"f1", by decide⟩, .data, (), 10⟩⟩,
      ⟨.existing, true, 5, true, 1, ⟨⟨"f2", by decide⟩, .data, (), 10⟩⟩,
      ⟨.deleted, true, 6, true, 1, ⟨⟨"f3", by decide⟩, .data, (), 10⟩⟩] }]

def exampleCatalog : FileCatalog Unit where
  files := [⟨⟨"f1", by decide⟩, .data, (), 10, 0⟩, ⟨⟨"f4", by decide⟩, .data, (), 9, 0⟩]
  distinct := by decide
  supported := by decide

def exampleEnv : CommitEnv Unit where
  settings := ⟨true, 8 * 1024, 100⟩
  writer := ⟨"s3://bucket/table", "u", fun entries => 900 * entries.length⟩
  pathOrder := ⟨id, List.Perm.refl⟩
  entryOrder := ⟨List.reverse, reverse_perm⟩
  mergeOrder := ⟨id, List.Perm.refl⟩

theorem commit_publishes_replaced_file : (livePaths (some exampleBase)).Nodup ∧
      ∃ published, commit exampleEnv exampleCatalog (some exampleBase) ⟨[], true, false⟩ ⟨7, 3⟩ =
        .ok published ∧ Publishes (some exampleBase) published exampleCatalog :=
  have hlive : (livePaths (some exampleBase)).Nodup := by decide
  ⟨hlive, commit_publishes_catalog exampleEnv exampleCatalog (some exampleBase) ⟨[], true, false⟩
    ⟨7, 3⟩ hlive⟩

end PgLake.Iceberg
