/-
  Manifests and their entries (`api/manifest.c`, `manifest_entry.c`).
-/
import Mathlib.Data.Int.Basic
import Mathlib.Data.List.Perm.Basic
import Mathlib.Data.List.TakeWhile

namespace PgLake.Iceberg

open List

/-! ## Paths -/

/-- A file path as the catalog and the manifests record it, without query arguments. -/
structure FilePath where
  text : String
  noQuery : '?' ∉ text.toList
  deriving DecidableEq

/-- `StripFromChar(input, '?')`. -/
def stripFromChar (input : String) : FilePath where
  text := String.ofList (input.toList.takeWhile (· ≠ '?'))
  noQuery := by
    intro h
    rw [String.toList_ofList] at h
    simpa using mem_takeWhile_imp h

@[simp] theorem stripFromChar_text (path : FilePath) : stripFromChar path.text = path := by
  have ht : path.text.toList.takeWhile (· ≠ '?') = path.text.toList := by
    rw [takeWhile_eq_self_iff]
    intro c hc
    simpa using fun h : c = '?' => path.noQuery (h ▸ hc)
  cases path
  simp only [stripFromChar, FilePath.mk.injEq]
  rw [ht, String.ofList_toList]

/-! ## Entries -/

inductive DataFileContent where
  | data
  | positionDeletes
  /-- not yet implemented -/
  | equalityDeletes
  deriving DecidableEq

inductive EntryStatus where
  | existing
  | added
  | deleted
  deriving DecidableEq

/-- `DataFile`; `partition` stands for the partition values and the statistics, which the commit
    only copies. -/
structure DataFile (P : Type) where
  path : FilePath
  content : DataFileContent
  partition : P
  recordCount : ℤ
  deriving DecidableEq

/-- `IcebergManifestEntry`. -/
structure ManifestEntry (P : Type) where
  status : EntryStatus
  hasSnapshotId : Bool
  snapshotId : Int64
  hasSequenceNumber : Bool
  sequenceNumber : Int64
  dataFile : DataFile P
  deriving DecidableEq

variable {P : Type}

namespace ManifestEntry

variable (entry : ManifestEntry P)

/-- `IsManifestEntryStatusScannable`. -/
def isScannable : Bool := entry.status ≠ .deleted

def path : FilePath := entry.dataFile.path

def asExisting : ManifestEntry P := { entry with status := .existing }

@[simp] theorem path_asExisting : entry.asExisting.path = entry.path :=
  rfl

end ManifestEntry

def setExistingStatusForOldSnapshotAddedEntries (currentSnapshotId : Int64)
    (entries : List (ManifestEntry P)) : List (ManifestEntry P) :=
  entries.map fun entry =>
    if entry.status = .added ∧ entry.snapshotId ≠ currentSnapshotId then entry.asExisting
    else entry

/-! ## Manifests -/

inductive ManifestContent where
  | data
  | deletes
  deriving DecidableEq

/-- The file and row counts of a manifest. -/
structure ManifestCounts where
  addedFiles : ℤ := 0
  addedRows : ℤ := 0
  existingFiles : ℤ := 0
  existingRows : ℤ := 0
  deletedFiles : ℤ := 0
  deletedRows : ℤ := 0
  deriving DecidableEq

variable (counts : ManifestCounts) (entry : ManifestEntry P)

def ManifestCounts.tally : ManifestCounts :=
  let rows := entry.dataFile.recordCount
  match entry.status with
  | .added =>
    { counts with addedFiles := counts.addedFiles + 1, addedRows := counts.addedRows + rows }
  | .existing =>
    { counts with
      existingFiles := counts.existingFiles + 1, existingRows := counts.existingRows + rows }
  | .deleted =>
    { counts with
      deletedFiles := counts.deletedFiles + 1, deletedRows := counts.deletedRows + rows }

/-- `SetManifestFileAndRowCounts`. -/
def manifestFileAndRowCounts (entries : List (ManifestEntry P)) : ManifestCounts :=
  entries.foldl ManifestCounts.tally {}

/-- The fields of a snapshot its manifests take over. -/
structure SnapshotHeader where
  snapshotId : Int64
  sequenceNumber : Int64
  deriving DecidableEq

/-- `IcebergManifest`, with the entries its file was written with. -/
structure Manifest (P : Type) where
  path : String
  length : ℤ
  content : ManifestContent
  sequenceNumber : Int64
  partitionSpecId : Int32
  addedSnapshotId : Int64
  counts : ManifestCounts
  entries : List (ManifestEntry P)
  deriving DecidableEq

/-- Where a commit writes its manifests, and how large the files get. -/
structure ManifestWriter (P : Type) where
  metadataLocation : String
  snapshotUUID : String
  fileSize : List (ManifestEntry P) → ℤ

def generateRemoteManifestPath (location snapshotUUID : String) (manifestIndex : ℕ) : String :=
  s!"{location}/metadata/{snapshotUUID}-m{manifestIndex}.avro"

/-- `UploadIcebergManifestToURI` and `CreateNewIcebergManifest`: `written` goes into the file,
    `counted` is tallied in the header. -/
def ManifestWriter.write (writer : ManifestWriter P) (snapshot : SnapshotHeader)
    (partitionSpecId : Int32) (content : ManifestContent) (written counted : List (ManifestEntry P))
    (manifestIndex : ℕ) : Manifest P where
  path := generateRemoteManifestPath writer.metadataLocation writer.snapshotUUID manifestIndex
  length := writer.fileSize written
  content := content
  sequenceNumber := snapshot.sequenceNumber
  partitionSpecId := partitionSpecId
  addedSnapshotId := snapshot.snapshotId
  counts := manifestFileAndRowCounts counted
  entries := written

/-! ## Marking removed files -/

/-- `UpdateManifestEntryStateToDeleted`: the counts of the manifest and the entry. -/
def updateManifestEntryStateToDeleted (snapshotId : Int64) : ManifestCounts × ManifestEntry P :=
  let rows := entry.dataFile.recordCount
  let counts := { counts with
    deletedRows := counts.deletedRows + rows, deletedFiles := counts.deletedFiles + 1 }
  let counts :=
    match entry.status with
    | .added =>
      { counts with addedRows := counts.addedRows - rows, addedFiles := counts.addedFiles - 1 }
    | .existing =>
      { counts with
        existingRows := counts.existingRows - rows, existingFiles := counts.existingFiles - 1 }
    | .deleted => counts
  (counts, { entry with status := .deleted, snapshotId := snapshotId })

/-- One entry against one removed file; `times` counts how often it was appended to the deleted
    entries. -/
def adjustForRemovedEntry (snapshotId : Int64) (state : ManifestCounts × ManifestEntry P × ℕ)
    (path : FilePath) : ManifestCounts × ManifestEntry P × ℕ :=
  let (counts, entry, times) := state
  if entry.path = path then
    let (counts, entry) := updateManifestEntryStateToDeleted counts entry snapshotId
    (counts, entry, times + 1)
  else state

def adjustDeletedManifestEntry (removed : List FilePath) (snapshotId : Int64) (allEntries : Bool) :
    ManifestCounts × ManifestEntry P × ℕ :=
  if allEntries then
    if entry.status = .deleted then (counts, entry, 0)
    else
      let (counts, entry) := updateManifestEntryStateToDeleted counts entry snapshotId
      (counts, entry, 1)
  else removed.foldl (adjustForRemovedEntry snapshotId) (counts, entry, 0)

/-- `FindAndAdjustDeletedManifestEntries`: every entry, with how often it is among the deleted
    entries returned. -/
def findAndAdjustDeletedManifestEntries (removed : List FilePath) (snapshotId : Int64)
    (allEntries : Bool) : ManifestCounts → List (ManifestEntry P) →
      ManifestCounts × List (ManifestEntry P × ℕ)
  | counts, [] => (counts, [])
  | counts, entry :: rest =>
    let (counts, adjusted) := adjustDeletedManifestEntry counts entry removed snapshotId allEntries
    let (counts, adjustedRest) :=
      findAndAdjustDeletedManifestEntries removed snapshotId allEntries counts rest
    (counts, adjusted :: adjustedRest)

/-- The deleted entries, as often as they were removed. -/
def deletedManifestEntries (adjusted : List (ManifestEntry P × ℕ)) : List (ManifestEntry P) :=
  adjusted.flatMap fun entry => List.replicate entry.2 entry.1

/-- `list_difference_ptr` of all entries and the deleted ones. -/
def remainingManifestEntries (adjusted : List (ManifestEntry P × ℕ)) : List (ManifestEntry P) :=
  (adjusted.filter fun entry => entry.2 = 0).map Prod.fst

/-! ## Content -/

def contentOf (entries : List (ManifestEntry P)) : List (ManifestEntry P) :=
  (entries.filter ManifestEntry.isScannable).map ManifestEntry.asExisting

def tableContent (manifests : List (Manifest P)) : List (ManifestEntry P) :=
  manifests.flatMap fun manifest => contentOf manifest.entries

theorem contentOf_append (l₁ l₂ : List (ManifestEntry P)) :
    contentOf (l₁ ++ l₂) = contentOf l₁ ++ contentOf l₂ := by
  simp [contentOf]

theorem contentOf_perm {l₁ l₂ : List (ManifestEntry P)} (h : l₁.Perm l₂) :
    (contentOf l₁).Perm (contentOf l₂) :=
  (h.filter _).map _

theorem contentOf_flatMap {α : Type*} (f : α → List (ManifestEntry P)) (l : List α) :
    contentOf (l.flatMap f) = l.flatMap fun a => contentOf (f a) := by
  induction l with
  | nil => rfl
  | cons a l ih => rw [flatMap_cons, flatMap_cons, contentOf_append, ih]

theorem contentOf_eq_nil {entries : List (ManifestEntry P)}
    (h : ∀ entry ∈ entries, entry.status = .deleted) : contentOf entries = [] := by
  unfold contentOf
  rw [filter_eq_nil_iff.mpr, map_nil]
  intro entry he
  simp [ManifestEntry.isScannable, h entry he]

@[simp] theorem tableContent_nil : tableContent ([] : List (Manifest P)) = [] := rfl

@[simp] theorem tableContent_cons (m : Manifest P) (manifests : List (Manifest P)) :
    tableContent (m :: manifests) = contentOf m.entries ++ tableContent manifests :=
  flatMap_cons

@[simp] theorem tableContent_append (l₁ l₂ : List (Manifest P)) :
    tableContent (l₁ ++ l₂) = tableContent l₁ ++ tableContent l₂ :=
  flatMap_append

theorem tableContent_perm {l₁ l₂ : List (Manifest P)} (h : l₁.Perm l₂) :
    (tableContent l₁).Perm (tableContent l₂) :=
  h.flatMap_right _

theorem contentOf_filter_path (p : FilePath → Bool) (entries : List (ManifestEntry P)) :
    contentOf (entries.filter fun entry => p entry.path) =
      (contentOf entries).filter fun entry => p entry.path := by
  unfold contentOf
  rw [filter_map, filter_filter, filter_filter]
  congr 1
  refine filter_congr fun entry _ => ?_
  simp [Bool.and_comm]

theorem contentOf_setExistingStatus (currentSnapshotId : Int64) (entries : List (ManifestEntry P)) :
    contentOf (setExistingStatusForOldSnapshotAddedEntries currentSnapshotId entries) =
      contentOf entries := by
  induction entries with
  | nil => rfl
  | cons entry entries ih =>
    unfold contentOf setExistingStatusForOldSnapshotAddedEntries at ih ⊢
    simp only [map_cons, filter_cons, ManifestEntry.isScannable] at ih ⊢
    split_ifs with ha
    all_goals simp_all [ManifestEntry.asExisting]

/-! ## What is marked -/

namespace ManifestEntry

def markDeleted (snapshotId : Int64) (entry : ManifestEntry P) : ManifestEntry P :=
  { entry with status := .deleted, snapshotId := snapshotId }

end ManifestEntry

section
variable {snapshotId : Int64} {counts} {entry} {times : ℕ}
  {path : FilePath}

theorem adjustForRemovedEntry_of_eq (hp : entry.path = path) :
    adjustForRemovedEntry snapshotId (counts, entry, times) path =
      ((updateManifestEntryStateToDeleted counts entry snapshotId).1,
        entry.markDeleted snapshotId, times + 1) := by
  simp only [adjustForRemovedEntry, hp, if_true]
  rfl

theorem adjustForRemovedEntry_of_ne (hp : entry.path ≠ path) :
    adjustForRemovedEntry snapshotId (counts, entry, times) path = (counts, entry, times) := by
  simp [adjustForRemovedEntry, hp]

end

theorem foldl_adjustForRemovedEntry (snapshotId : Int64) (removed : List FilePath) :
    ∀ (counts : ManifestCounts) (entry : ManifestEntry P) (times : ℕ),
      (removed.foldl (adjustForRemovedEntry snapshotId) (counts, entry, times)).2 =
        (if entry.path ∈ removed then entry.markDeleted snapshotId else entry,
          times + removed.count entry.path) := by
  induction removed with
  | nil =>
    intro counts entry times
    simp
  | cons path removed ih =>
    intro counts entry times
    rw [foldl_cons]
    by_cases hp : entry.path = path
    · -- marking again changes nothing
      have ha : (entry.markDeleted snapshotId).markDeleted snapshotId =
          entry.markDeleted snapshotId := rfl
      have hs : (entry.markDeleted snapshotId).path = path := hp
      rw [adjustForRemovedEntry_of_eq hp, ih, hs, ha, ite_self]
      simp only [hp, mem_cons, true_or, if_true, count_cons_self]
      congr 1
      omega
    · rw [adjustForRemovedEntry_of_ne hp, ih]
      simp [hp, count_cons_of_ne (Ne.symm hp)]

def adjustedEntry (removed : List FilePath) (snapshotId : Int64) (entry : ManifestEntry P) :
    ManifestEntry P × ℕ :=
  (if entry.path ∈ removed then entry.markDeleted snapshotId else entry,
    removed.count entry.path)

def adjustedByTruncate (snapshotId : Int64) (entry : ManifestEntry P) : ManifestEntry P × ℕ :=
  if entry.status = .deleted then (entry, 0) else (entry.markDeleted snapshotId, 1)

variable (removed : List FilePath) (snapshotId : Int64)

theorem findAndAdjustDeletedManifestEntries_all (counts : ManifestCounts)
    (entries : List (ManifestEntry P)) :
    (findAndAdjustDeletedManifestEntries removed snapshotId true counts entries).2 =
      entries.map (adjustedByTruncate snapshotId) := by
  induction entries generalizing counts with
  | nil => rfl
  | cons entry entries ih =>
    simp only [findAndAdjustDeletedManifestEntries, map_cons, ih,
      adjustDeletedManifestEntry, if_true, adjustedByTruncate]
    split_ifs <;> rfl

/-- **An entry is marked iff its path is removed, whatever its status.** -/
theorem findAndAdjustDeletedManifestEntries_eq (counts : ManifestCounts)
    (entries : List (ManifestEntry P)) :
    (findAndAdjustDeletedManifestEntries removed snapshotId false counts entries).2 =
      entries.map (adjustedEntry removed snapshotId) := by
  induction entries generalizing counts with
  | nil => rfl
  | cons entry entries ih =>
    have he := foldl_adjustForRemovedEntry snapshotId removed counts entry 0
    rw [Nat.zero_add] at he
    simp only [findAndAdjustDeletedManifestEntries, map_cons, ih,
      adjustDeletedManifestEntry, Bool.false_eq_true, if_false, he]
    rfl

variable (entries : List (ManifestEntry P))

theorem remainingManifestEntries_map :
    remainingManifestEntries (entries.map (adjustedEntry removed snapshotId)) =
      entries.filter fun entry => entry.path ∉ removed := by
  induction entries with
  | nil => rfl
  | cons entry entries ih =>
    unfold remainingManifestEntries at ih ⊢
    by_cases hp : entry.path ∈ removed
    · have hc : removed.count entry.path ≠ 0 := (count_pos_iff.mpr hp).ne'
      simpa [adjustedEntry, hp, hc] using ih
    · have hc : removed.count entry.path = 0 := count_eq_zero.mpr hp
      simpa [adjustedEntry, hp, hc] using ih

theorem contentOf_deletedManifestEntries :
    contentOf (deletedManifestEntries (entries.map (adjustedEntry removed snapshotId))) = [] := by
  refine contentOf_eq_nil fun entry he => ?_
  simp only [deletedManifestEntries, mem_flatMap, mem_map, mem_replicate] at he
  obtain ⟨_, ⟨original, _, rfl⟩, hc, rfl⟩ := he
  have hp : original.path ∈ removed := count_pos_iff.mp (Nat.pos_of_ne_zero hc)
  simp only [adjustedEntry, hp, if_true]
  rfl

theorem deletedManifestEntries_eq_nil_iff :
    deletedManifestEntries (entries.map (adjustedEntry removed snapshotId)) = [] ↔
      ∀ entry ∈ entries, entry.path ∉ removed := by
  simp [deletedManifestEntries, adjustedEntry, count_eq_zero]

end PgLake.Iceberg
