/-
  The strategies of `ApplyDeleteFile` (`fdw/writable_table.c`).

  A file all of whose live rows are deleted is removed.  Otherwise either the remaining rows are
  copied to a new file, or the deleted rows become a position delete file.  A read takes all
  data files and anti-joins them with the position delete files that have a mapping to one of
  them.

  Main result: `applyDataFileModification_equivalent`.
-/
import Mathlib.Algebra.BigOperators.Group.Multiset.Basic
import PgLake.Fdw.Deletes
import PgLake.Fdw.BatchedCatalog

namespace PgLake.Fdw.DeleteStrategies

open List

open Function (update update_of_ne update_self)
open Iceberg (DataFileContent)
open Iceberg.Unreferenced (Path)
open scoped Iceberg.Unreferenced
open DataFiles
open Fallible

variable {Id Row : Type}

/-- A table: the catalog, the rows of its data files and the `(file_path, pos)` records of its
    position delete files. -/
structure Table (Id Row : Type) where
  catalog : Catalog Id
  rows : Path → List Row
  records : Path → List (Path × ℕ)

/-- `GetPossiblePositionDeleteFilesFromCatalog`. -/
def possiblePositionDeleteFiles (c : Catalog Id) (sourcePathList : List Path) : List Path :=
  (c.deletionFileMap.filter fun row => row.deletedFrom ∈ sourcePathList).map DeletionFileMapRow.path

variable (t : Table Id Row)

/-- `ReadDataSourceQuery` on one file: its rows with their `file_row_number`, without those whose
    location is in a position delete file. -/
def readRowLocations (positionDeletePaths : List Path) (path : Path) : List (Row × ℕ) :=
  (t.rows path).zipIdx.filter fun entry =>
    ¬ ∃ file ∈ positionDeletePaths, (path, entry.2) ∈ t.records file

/-- `ReadDataSourceQuery`. -/
def readDataSource (sourcePaths positionDeletePaths : List Path) : List Row :=
  sourcePaths.flatMap fun path => (readRowLocations t positionDeletePaths path).map Prod.fst

variable (c : Catalog Id)

/-- The files with `CONTENT_DATA`. -/
def dataFiles : List (FileRow Id) :=
  c.files.filter fun file => file.content = .data

def dataPaths : List Path := (dataFiles c).map FileRow.path

/-- What a scan of the whole table returns. -/
def liveRows : Multiset Row :=
  readDataSource t (dataPaths t.catalog)
    (possiblePositionDeleteFiles t.catalog (dataPaths t.catalog))

/-- The number of live rows by the counts of the catalog. -/
def liveRowTotal : ℤ :=
  ((dataFiles c).map fun file => file.rowCount - file.deletedRowCount).sum

/-- `GetTotalDeletedRowCountFromCatalog`. -/
def totalDeletedRowCount : ℤ :=
  ((dataFiles c).map FileRow.deletedRowCount).sum

/-- A data file with the positions that its position delete files delete. -/
def Table.dataFile (path : Path) : Fdw.DataFile where
  rowCount := (t.rows path).length
  deleted := (Finset.range (t.rows path).length).filter fun pos =>
    ∃ file ∈ possiblePositionDeleteFiles t.catalog [path], (path, pos) ∈ t.records file
  deleted_subset := Finset.filter_subset _ _

/-- A `DataFileModification` of type `ADD_DELETION_FILE_FROM_CSV`; `deleteFile` is the column
    `pos` of the CSV file. -/
structure DataFileModification where
  sourcePath : Path
  sourceRowCount : ℕ
  liveRowCount : ℕ
  deleteFile : Option (List ℕ)
  deletedRowCount : ℕ

/-- The file that a modification writes: the path `GenerateDataFileNameForTable` generates, the
    statistics of the copy, and the partition of the source file. -/
structure NewFile where
  path : Path
  fileSize : ℤ
  columnStats : List DataFileColumnStats
  partition : Option (List PartitionField)

/-- `AddDataFileOperation`. -/
def NewFile.addOperation (file : NewFile) (content : DataFileContent) (rowCount : ℕ) :
    DataFileAdd :=
  ⟨file.path, content, ⟨rowCount, file.fileSize, 0, file.columnStats⟩, file.partition⟩

/-- The query of `PerformDeleteFromParquet`. -/
def deleteFromParquetQuery (sourcePath : Path)
    (positionDeleteFiles : List Path) (deleteFile : List ℕ) : List Row :=
  ((readRowLocations t positionDeleteFiles sourcePath).filter fun entry =>
    entry.2 ∉ deleteFile).map Prod.fst

/-- `ApplyDeleteFile`: the metadata operations, and the table with the file that was written.
    `copy` is what DuckDB's COPY writes of the rows it is given. -/
def applyDeleteFile (settings : DeleteSettings) (copy : List Row → List Row) (newFile : NewFile)
    (t : Table Id Row) (m : DataFileModification) (totalPositionDeletedRows : ℤ) :
    Except String (List TableMetadataOperation × Table Id Row) := do
  let (outcome, _) ← Fdw.applyDeleteFile settings (t.dataFile m.sourcePath) m.sourceRowCount
    m.liveRowCount m.deleteFile m.deletedRowCount totalPositionDeletedRows
  match outcome with
  | .untouched => .ok ([], t)
  | .removeDataFile => .ok ([.dataFileRemove m.sourcePath], t)
  | .copyOnWrite _ =>
    let existingPositionDeletes := possiblePositionDeleteFiles t.catalog [m.sourcePath]
    let remainder := copy
      (deleteFromParquetQuery t m.sourcePath existingPositionDeletes (m.deleteFile.getD []))
    .ok ([.dataFileRemove m.sourcePath, .dataFileAdd (newFile.addOperation .data remainder.length)],
      { t with rows := update t.rows newFile.path remainder })
  | .positionDelete _ totalDeletedRowCount =>
    let deletes := (m.deleteFile.getD []).map fun pos => (m.sourcePath, pos)
    .ok ([.dataFileAdd (newFile.addOperation .positionDeletes deletes.length),
        .dataFileAddDeleteMapping newFile.path m.sourcePath,
        .dataFileUpdateDeletedRowCount m.sourcePath totalDeletedRowCount],
      { t with records := update t.records newFile.path deletes })

/-- `ApplyDataFileModifications` for one modification. -/
def applyDataFileModification [DecidableEq Id] (env : CatalogEnv Id) (settings : DeleteSettings)
    (copy : List Row → List Row) (newFile : NewFile) (t : Table Id Row)
    (m : DataFileModification) : Except (String ⊕ CatalogError) (Table Id Row) := do
  let totalPositionDeletedRows :=
    if settings.copyOnWriteMaxDeleteRows ≥ 0 then totalDeletedRowCount t.catalog else 0
  let (metadataOperations, t) ←
    (applyDeleteFile settings copy newFile t m totalPositionDeletedRows).mapError .inl
  let catalog ← (applyDataFileCatalogChanges env t.catalog metadataOperations).mapError .inr
  return { t with catalog := catalog }

/-! ## Consistent tables -/

/-- The catalog counts what the files hold. -/
structure Consistent (env : CatalogEnv Id) (t : Table Id Row) : Prop where
  catalog : t.catalog.Valid env
  rowCount : ∀ file ∈ dataFiles t.catalog, file.rowCount = (t.dataFile file.path).rowCount
  deletedRowCount : ∀ file ∈ dataFiles t.catalog,
    file.deletedRowCount = (t.dataFile file.path).deletedRowCount
  /-- only other files than data files have mappings -/
  deletionFiles : ∀ row ∈ t.catalog.deletionFileMap, row.path ∉ dataPaths t.catalog
  /-- and they have one to every data file that their records name -/
  mapped : ∀ row ∈ t.catalog.deletionFileMap, ∀ path ∈ dataPaths t.catalog, ∀ pos,
    (path, pos) ∈ t.records row.path → ⟨row.path, path⟩ ∈ t.catalog.deletionFileMap

def liveRowsOf (path : Path) : List Row :=
  (readRowLocations t (possiblePositionDeleteFiles t.catalog [path]) path).map Prod.fst

/-- The rows of a file at these positions. -/
def rowsAt (path : Path) (positions : List ℕ) : List Row :=
  ((t.rows path).zipIdx.filter fun entry => entry.2 ∈ positions).map Prod.fst

section Tables
variable {env : CatalogEnv Id} {t t' : Table Id Row} {c : Catalog Id}

theorem mem_possiblePositionDeleteFiles {paths : List Path} {f : Path} :
    f ∈ possiblePositionDeleteFiles c paths ↔
      ∃ path ∈ paths, ⟨f, path⟩ ∈ c.deletionFileMap := by
  simp only [possiblePositionDeleteFiles, mem_map, mem_filter, decide_eq_true_eq]
  constructor
  · rintro ⟨r, ⟨hr, hp⟩, rfl⟩
    exact ⟨r.deletedFrom, hp, hr⟩
  · rintro ⟨path, hp, hr⟩
    exact ⟨_, ⟨hr, hp⟩, rfl⟩

/-- Position `pos` of the file is deleted. -/
def Table.Deleted (t : Table Id Row) (path : Path) (pos : ℕ) : Prop :=
  ∃ file, ⟨file, path⟩ ∈ t.catalog.deletionFileMap ∧ (path, pos) ∈ t.records file

variable {path : Path}

theorem deleted_iff {pos : ℕ} :
    (∃ f ∈ possiblePositionDeleteFiles t.catalog [path], (path, pos) ∈ t.records f) ↔
      t.Deleted path pos := by
  simp [mem_possiblePositionDeleteFiles, Table.Deleted]

section

variable (hrows : t'.rows path = t.rows path)

include hrows

theorem readRowLocations_congr {fs fs' : List Path}
    (hdeleted : ∀ pos, (∃ f ∈ fs', (path, pos) ∈ t'.records f) ↔
      ∃ f ∈ fs, (path, pos) ∈ t.records f) :
    readRowLocations t' fs' path = readRowLocations t fs path := by
  rw [readRowLocations, readRowLocations, hrows]
  exact filter_congr fun e _ => decide_eq_decide.mpr (not_congr (hdeleted e.2))

section

variable (hdeleted : ∀ pos, t'.Deleted path pos ↔ t.Deleted path pos)

include hdeleted

theorem liveRowsOf_congr : liveRowsOf t' path = liveRowsOf t path := by
  rw [liveRowsOf, liveRowsOf, readRowLocations_congr hrows fun pos => ?_]
  rw [deleted_iff, deleted_iff, hdeleted]

theorem dataFile_congr : t'.dataFile path = t.dataFile path := by
  simp only [Table.dataFile, hrows, Fdw.DataFile.mk.injEq, true_and]
  refine Finset.filter_congr fun pos _ => ?_
  rw [deleted_iff, deleted_iff, hdeleted]

end

end

theorem length_filter_zipIdx {α : Type} (l : List α) (p : ℕ → Prop) [DecidablePred p] :
    (l.zipIdx.filter fun e => p e.2).length = ((Finset.range l.length).filter p).card := by
  have hmap : (l.zipIdx.filter fun e => p e.2).length =
      ((l.zipIdx.map Prod.snd).filter fun pos => p pos).length := by
    rw [filter_map, length_map]
    rfl
  rw [hmap, zipIdx_map_snd, ← range_eq_range']
  rfl

theorem length_liveRowsOf (t : Table Id Row) (path : Path) :
    (liveRowsOf t path).length = (t.dataFile path).live.card := by
  rw [liveRowsOf, length_map, readRowLocations]
  rw [length_filter_zipIdx (t.rows path) fun pos =>
    ¬ ∃ f ∈ possiblePositionDeleteFiles t.catalog [path], (path, pos) ∈ t.records f]
  congr 1
  ext pos
  simp only [Fdw.DataFile.live, Table.dataFile, Finset.mem_filter, Finset.mem_sdiff]
  constructor
  · rintro ⟨hr, hl⟩
    exact ⟨hr, fun hdeleted => hl hdeleted.2⟩
  · rintro ⟨hr, hl⟩
    exact ⟨hr, fun hdeleted => hl ⟨hr, hdeleted⟩⟩

theorem liveRows_eq_sum (h : Consistent env t) :
    liveRows t = ((dataPaths t.catalog).map fun path => (liveRowsOf t path : Multiset Row)).sum := by
  have hf : ∀ path ∈ dataPaths t.catalog,
      (readRowLocations t (possiblePositionDeleteFiles t.catalog (dataPaths t.catalog)) path).map
        Prod.fst = liveRowsOf t path := by
    intro path hp
    have hiff : ∀ pos, (∃ f ∈ possiblePositionDeleteFiles t.catalog (dataPaths t.catalog),
        (path, pos) ∈ t.records f) ↔ t.Deleted path pos := by
      intro pos
      constructor
      · rintro ⟨f, hf, hrec⟩
        obtain ⟨from', -, hr⟩ := mem_possiblePositionDeleteFiles.mp hf
        exact ⟨f, h.mapped _ hr path hp pos hrec, hrec⟩
      · rintro ⟨f, hr, hrec⟩
        exact ⟨f, mem_possiblePositionDeleteFiles.mpr ⟨path, hp, hr⟩, hrec⟩
    rw [liveRowsOf, readRowLocations_congr rfl fun pos => ?_]
    rw [hiff, deleted_iff]
  rw [liveRows, readDataSource, flatMap_congr hf]
  induction dataPaths t.catalog with
  | nil => rfl
  | cons path paths ih =>
    rw [flatMap_cons, ← Multiset.coe_add, map_cons, sum_cons, ih]

/-- **The catalog counts the live rows.** -/
theorem liveRowTotal_eq (h : Consistent env t) : liveRowTotal t.catalog = (liveRows t).card := by
  rw [liveRows_eq_sum h, liveRowTotal, dataPaths]
  have hc := h.rowCount
  have hdeleted := h.deletedRowCount
  revert hc hdeleted
  induction dataFiles t.catalog with
  | nil => exact fun _ _ => rfl
  | cons f fs ih =>
    rw [forall_mem_cons, forall_mem_cons]
    intro hc hdeleted
    simp only [map_cons, sum_cons, Multiset.card_add, Multiset.coe_card,
      length_liveRowsOf, Nat.cast_add]
    rw [ih hc.2 hdeleted.2, hc.1, hdeleted.1]
    have := (t.dataFile f.path).card_live_add
    omega

theorem mem_dataPaths :
    path ∈ dataPaths c ↔ ∃ f ∈ c.files, f.content = .data ∧ f.path = path := by
  simp [dataPaths, dataFiles, and_assoc]

theorem dataPaths_subset : dataPaths c ⊆ c.files.map FileRow.path := by
  intro path hp
  obtain ⟨f, hf, -, rfl⟩ := mem_dataPaths.mp hp
  exact mem_map_of_mem hf

theorem nodup_dataPaths (h : Consistent env t) : (dataPaths t.catalog).Nodup :=
  h.catalog.paths.sublist (filter_sublist.map _)

/-! ## Removing a file -/

theorem sum_map_eq_add {α M : Type} [DecidableEq α] [AddCommMonoid M] (f : α → M) {l : List α}
    (hn : l.Nodup) {a : α} (ha : a ∈ l) :
    (l.map f).sum = ((l.filter (· ≠ a)).map f).sum + f a := by
  obtain ⟨l₁, l₂, rfl⟩ := append_of_mem ha
  have hne : ∀ b ∈ l₁ ++ l₂, b ≠ a := by
    intro b hb heq
    have := (nodup_middle.mp hn)
    exact (nodup_cons.mp this).1 (heq ▸ hb)
  have hf : (l₁ ++ a :: l₂).filter (· ≠ a) = l₁ ++ l₂ := by
    rw [filter_append, filter_cons, if_neg (by simp), ← filter_append, filter_eq_self]
    simpa using hne
  rw [hf, map_append, map_append, sum_append, sum_append, map_cons,
    sum_cons, add_comm (f a), add_assoc]

section Remove
variable [DecidableEq Id]

section

variable (h : Consistent env t)

include h

omit [DecidableEq Id] in
theorem notMem_removed {other : Path} (ho : other ∈ dataPaths t.catalog) (hne : other ≠ path) :
    other ∉ path :: t.catalog.deletionFilesOf path := by
  intro hm
  rcases mem_cons.mp hm with heq | hm
  · exact hne heq
  · exact h.deletionFiles _ (mem_deletionFilesOf.mp hm).1 ho

theorem dataFiles_remove (path : Path) : dataFiles (removeDataFileFromTable t.catalog path) =
      (dataFiles t.catalog).filter fun f => f.path ≠ path := by
  rw [dataFiles, dataFiles, removeDataFileFromTable, Catalog.deleteFiles, filter_filter,
    filter_filter]
  refine filter_congr fun f hf => ?_
  by_cases hd : f.content = .data
  · have hp : f.path ∈ dataPaths t.catalog := mem_dataPaths.mpr ⟨f, hf, hd, rfl⟩
    by_cases hne : f.path = path
    · simp [hne]
    · simp [hne, hd, notMem_removed h hp hne]
  · simp [hd]

theorem dataPaths_remove (path : Path) : dataPaths (removeDataFileFromTable t.catalog path) =
      (dataPaths t.catalog).filter (· ≠ path) := by
  rw [dataPaths, dataFiles_remove h, dataPaths, filter_map]
  rfl

theorem deleted_remove {other : Path} (ho : other ∈ dataPaths t.catalog) (hne : other ≠ path)
    (hp : path ∈ dataPaths t.catalog) (pos : ℕ) :
    Table.Deleted { t with catalog := removeDataFileFromTable t.catalog path } other pos ↔
      t.Deleted other pos := by
  have hk : ∀ f, (⟨f, other⟩ : DeletionFileMapRow) ∈ t.catalog.deletionFileMap →
      f ∉ path :: t.catalog.deletionFilesOf path := by
    intro f hr hm
    rcases mem_cons.mp hm with rfl | hm
    · exact h.deletionFiles _ hr hp
    · exact hne ((mem_deletionFilesOf.mp hm).2 _ hr rfl)
  constructor
  · rintro ⟨f, hr, hrec⟩
    exact ⟨f, (mem_filter.mp hr).1, hrec⟩
  · rintro ⟨f, hr, hrec⟩
    exact ⟨f, mem_filter.mpr ⟨hr,
      decide_eq_true ⟨hk f hr, notMem_removed h ho hne⟩⟩, hrec⟩

/-- **Removal.**  The table loses the live rows of the file. -/
theorem remove_step (hp : path ∈ dataPaths t.catalog) :
    Consistent env { t with catalog := removeDataFileFromTable t.catalog path } ∧
      liveRows { t with catalog := removeDataFileFromTable t.catalog path } + liveRowsOf t path =
        liveRows t := by
  have ho : ∀ other ∈ dataPaths (removeDataFileFromTable t.catalog path),
      other ∈ dataPaths t.catalog ∧ other ≠ path := by
    intro other ho
    rw [dataPaths_remove h, mem_filter] at ho
    exact ⟨ho.1, of_decide_eq_true ho.2⟩
  have hf : ∀ f ∈ dataFiles (removeDataFileFromTable t.catalog path),
      f ∈ dataFiles t.catalog ∧
        Table.dataFile { t with catalog := removeDataFileFromTable t.catalog path } f.path =
          t.dataFile f.path := by
    intro f hf
    obtain ⟨hd, hne⟩ := ho f.path (mem_map_of_mem hf)
    rw [dataFiles_remove h, mem_filter] at hf
    exact ⟨hf.1, dataFile_congr rfl (deleted_remove h hd hne hp)⟩
  have hc :
      Consistent env { t with catalog := removeDataFileFromTable t.catalog path } := by
    refine ⟨deleteFiles_valid h.catalog _, ?_, ?_, ?_, ?_⟩
    · intro f hm
      rw [(hf f hm).2, h.rowCount f (hf f hm).1]
    · intro f hm
      rw [(hf f hm).2, h.deletedRowCount f (hf f hm).1]
    · intro r hr hd
      exact h.deletionFiles r (mem_filter.mp hr).1 (ho _ hd).1
    · intro r hr other hd pos hrec
      obtain ⟨hd, hne⟩ := ho other hd
      obtain ⟨hr, hk⟩ := mem_filter.mp hr
      exact mem_filter.mpr ⟨h.mapped r hr other hd pos hrec,
        decide_eq_true ⟨(of_decide_eq_true hk).1, notMem_removed h hd hne⟩⟩
  refine ⟨hc, ?_⟩
  rw [liveRows_eq_sum hc, liveRows_eq_sum h, sum_map_eq_add _ (nodup_dataPaths h) hp]
  congr 2
  rw [dataPaths_remove h]
  refine map_congr_left fun other hm => ?_
  rw [mem_filter, decide_eq_true_eq] at hm
  exact congrArg _ (liveRowsOf_congr rfl (deleted_remove h hm.1 hm.2 hp))

end

end Remove

/-! ## Writing a file -/

theorem write_step (t' : Table Id Row) (h : Consistent env t) (hc : t'.catalog = t.catalog)
    (hrows : ∀ path ∈ t.catalog.files.map FileRow.path, t'.rows path = t.rows path)
    (hre : ∀ path ∈ t.catalog.files.map FileRow.path, t'.records path = t.records path) :
    Consistent env t' ∧ liveRows t' = liveRows t ∧
      ∀ path pos, t'.Deleted path pos ↔ t.Deleted path pos := by
  have hmapRecords : ∀ r ∈ t.catalog.deletionFileMap, t'.records r.path = t.records r.path :=
    fun r hr => hre _ (h.catalog.deletionFileMap r hr).1
  have hdeleted : ∀ path pos, t'.Deleted path pos ↔ t.Deleted path pos := by
    intro path pos
    rw [Table.Deleted, Table.Deleted, hc]
    refine exists_congr fun f => and_congr_right fun hr => ?_
    rw [hmapRecords _ hr]
  have hdataFile : ∀ path ∈ dataPaths t.catalog, t'.dataFile path = t.dataFile path :=
    fun path hp => dataFile_congr (hrows path (dataPaths_subset hp)) (hdeleted path)
  have hco : Consistent env t' := by
    refine ⟨hc ▸ h.catalog, ?_, ?_, hc ▸ h.deletionFiles, ?_⟩
    · intro f hf
      rw [hc] at hf
      rw [hdataFile _ (mem_map_of_mem hf), h.rowCount f hf]
    · intro f hf
      rw [hc] at hf
      rw [hdataFile _ (mem_map_of_mem hf), h.deletedRowCount f hf]
    · rw [hc]
      intro r hr path hp pos hrec
      rw [hmapRecords r hr] at hrec
      exact h.mapped r hr path hp pos hrec
  refine ⟨hco, ?_, hdeleted⟩
  rw [liveRows_eq_sum hco, liveRows_eq_sum h, hc]
  congr 1
  refine map_congr_left fun path hp => congrArg _ ?_
  exact liveRowsOf_congr (hrows path (dataPaths_subset hp)) (hdeleted path)

theorem not_deleted_of_unused (h : Consistent env t)
    (hp : path ∉ t.catalog.files.map FileRow.path) (pos : ℕ) : ¬ t.Deleted path pos := by
  rintro ⟨f, hr, -⟩
  exact hp (h.catalog.deletionFileMap _ hr).2

theorem liveRowsOf_of_not_deleted (hnot : ∀ pos, ¬ t.Deleted path pos) :
    liveRowsOf t path = t.rows path := by
  rw [liveRowsOf, readRowLocations, filter_eq_self.mpr, zipIdx_map_fst]
  intro e _
  rw [decide_eq_true_eq, deleted_iff]
  exact hnot e.2

theorem deletedRowCount_of_not_deleted (hnot : ∀ pos, ¬ t.Deleted path pos) :
    (t.dataFile path).deletedRowCount = 0 := by
  rw [Fdw.DataFile.deletedRowCount, Finset.card_eq_zero]
  refine Finset.filter_eq_empty_iff.mpr fun pos _ => ?_
  rw [deleted_iff]
  exact hnot pos

section Add
variable [DecidableEq Id] {op : DataFileAdd} {values : List (PartitionValueRow Id)}
  {c : Catalog Id}

omit [DecidableEq Id] in
/-- **A new data file** that no record names adds its rows. -/
theorem add_data_step (h : Consistent env t)
    (hc : c = t.catalog.addFile op (env.nextval t.catalog.drawn op.path) values)
    (hcont : op.content = .data) (hp : op.path ∉ t.catalog.files.map FileRow.path)
    (hunnamed : ∀ r ∈ t.catalog.deletionFileMap, ∀ pos, (op.path, pos) ∉ t.records r.path)
    (hco : op.dataFileStats.rowCount = (t.rows op.path).length)
    (hv : ∀ r ∈ values, r.id = env.nextval t.catalog.drawn op.path) :
    Consistent env { t with catalog := c } ∧
      liveRows { t with catalog := c } = liveRows t + t.rows op.path := by
  have hfs : dataFiles c =
      dataFiles t.catalog ++ [op.fileRow (env.nextval t.catalog.drawn op.path)] := by
    rw [hc, dataFiles, dataFiles, Catalog.addFile, filter_append, filter_singleton]
    simp [DataFileAdd.fileRow, hcont]
  have hpa : dataPaths c = dataPaths t.catalog ++ [op.path] := by
    rw [dataPaths, hfs, map_append]
    rfl
  have hnot := not_deleted_of_unused h hp
  have hcons : Consistent env { t with catalog := c } := by
    subst hc
    refine ⟨addFile_valid h.catalog hp hv, ?_, ?_, ?_, ?_⟩
    · rw [hfs]
      exact forall_mem_append.mpr ⟨h.rowCount, forall_mem_singleton.mpr hco⟩
    · rw [hfs]
      exact forall_mem_append.mpr ⟨h.deletedRowCount, forall_mem_singleton.mpr
        (congrArg Nat.cast (deletedRowCount_of_not_deleted hnot)).symm⟩
    · intro r hr
      rw [hpa, mem_append, mem_singleton]
      rintro (hd | heq)
      · exact h.deletionFiles r hr hd
      · exact hp (heq ▸ (h.catalog.deletionFileMap r hr).1)
    · intro r hr path hd pos hrec
      rw [hpa, mem_append, mem_singleton] at hd
      rcases hd with hd | rfl
      · exact h.mapped r hr path hd pos hrec
      · exact absurd hrec (hunnamed r hr pos)
  refine ⟨hcons, ?_⟩
  subst hc
  rw [liveRows_eq_sum hcons, liveRows_eq_sum h, hpa, map_append, sum_append,
    map_singleton, sum_singleton]
  congr 1
  exact congrArg _ (liveRowsOf_of_not_deleted hnot)

omit [DecidableEq Id] in
theorem add_deletes_step (h : Consistent env t)
    (hc : c = t.catalog.addFile op (env.nextval t.catalog.drawn op.path) values)
    (hcont : op.content ≠ .data) (hp : op.path ∉ t.catalog.files.map FileRow.path)
    (hv : ∀ r ∈ values, r.id = env.nextval t.catalog.drawn op.path) :
    Consistent env { t with catalog := c } ∧ liveRows { t with catalog := c } = liveRows t ∧
      dataFiles c = dataFiles t.catalog := by
  have hfs : dataFiles c = dataFiles t.catalog := by
    rw [hc, dataFiles, dataFiles, Catalog.addFile, filter_append, filter_singleton]
    simp [DataFileAdd.fileRow, hcont]
  have hpa : dataPaths c = dataPaths t.catalog := congrArg (List.map FileRow.path) hfs
  have hco : Consistent env { t with catalog := c } := by
    subst hc
    refine ⟨addFile_valid h.catalog hp hv, ?_, ?_, ?_, ?_⟩
    · rw [hfs]
      exact h.rowCount
    · rw [hfs]
      exact h.deletedRowCount
    · rw [hpa]
      exact h.deletionFiles
    · rw [hpa]
      exact h.mapped
  refine ⟨hco, ?_, hfs⟩
  subst hc
  rw [liveRows_eq_sum hco, liveRows_eq_sum h, hpa]
  rfl

end Add

/-! ## Deleting positions -/

theorem mem_live {pos : ℕ} :
    pos ∈ (t.dataFile path).live ↔ pos < (t.rows path).length ∧ ¬ t.Deleted path pos := by
  rw [Fdw.DataFile.live, Finset.mem_sdiff, Table.dataFile, Finset.mem_range, Finset.mem_filter,
    Finset.mem_range, deleted_iff]
  constructor
  · rintro ⟨hlt, hnot⟩
    exact ⟨hlt, fun hdeleted => hnot ⟨hlt, hdeleted⟩⟩
  · rintro ⟨hlt, hnot⟩
    exact ⟨hlt, fun hdeleted => hnot hdeleted.2⟩

variable {positions : List ℕ}

theorem remainder_add_rowsAt (hl : ∀ pos ∈ positions, pos ∈ (t.dataFile path).live) :
    (deleteFromParquetQuery t path (possiblePositionDeleteFiles t.catalog [path]) positions :
      Multiset Row) + rowsAt t path positions = liveRowsOf t path := by
  set live := readRowLocations t (possiblePositionDeleteFiles t.catalog [path]) path with hdef
  have hrowsAt : ((t.rows path).zipIdx.filter fun e => e.2 ∈ positions) =
      live.filter fun e => ¬ e.2 ∉ positions := by
    rw [hdef, readRowLocations, filter_filter]
    refine filter_congr fun e _ => ?_
    by_cases hm : e.2 ∈ positions
    · have := (mem_live.mp (hl _ hm)).2
      rw [← deleted_iff] at this
      simp [hm, this]
    · simp [hm]
  rw [deleteFromParquetQuery, rowsAt, hrowsAt, Multiset.coe_add, ← map_append, liveRowsOf,
    Multiset.coe_eq_coe]
  refine List.Perm.map _ ?_
  have := filter_append_perm (fun e : Row × ℕ => decide (e.2 ∉ positions)) live
  simpa using this

theorem remainder_eq_nil (hall : ∀ pos ∈ (t.dataFile path).live, pos ∈ positions) :
    deleteFromParquetQuery t path (possiblePositionDeleteFiles t.catalog [path]) positions = [] := by
  rw [deleteFromParquetQuery, readRowLocations, map_eq_nil_iff, filter_filter, filter_eq_nil_iff]
  rintro ⟨r, pos⟩ he hk
  have hlt : pos < (t.rows path).length := by
    have := snd_lt_of_mem_zipIdx he
    simpa using this
  simp only [Bool.and_eq_true, decide_eq_true_eq, deleted_iff] at hk
  exact hk.1 (hall pos (mem_live.mpr ⟨hlt, hk.2⟩))

/-- The catalog with one more mapping and the deleted row count of its data file. -/
def mapDeletes (c : Catalog Id) (deletionFile path : Path) (deletedRowCount : ℤ) : Catalog Id :=
  updateDeletedRowCount
    { c with deletionFileMap := c.deletionFileMap ++ [⟨deletionFile, path⟩] } path deletedRowCount

section Map
variable {path deletionFile : Path} {deletedRowCount : ℤ}

theorem dataFiles_mapDeletes (c : Catalog Id) :
    dataFiles (mapDeletes c deletionFile path deletedRowCount) = (dataFiles c).map fun file =>
        if file.path = path then { file with deletedRowCount := deletedRowCount } else file := by
  rw [dataFiles, dataFiles, mapDeletes, updateDeletedRowCount, filter_map]
  congr 1
  refine filter_congr fun file _ => ?_
  by_cases hp : file.path = path <;> simp [hp]

theorem dataPaths_mapDeletes (c : Catalog Id) :
    dataPaths (mapDeletes c deletionFile path deletedRowCount) = dataPaths c := by
  rw [dataPaths, dataFiles_mapDeletes, dataPaths, map_map]
  refine map_congr_left fun f _ => ?_
  by_cases hp : f.path = path <;> simp [hp]

theorem deleted_mapDeletes {other : Path} {pos : ℕ}
    (hre : t.records deletionFile = positions.map fun pos => (path, pos)) :
    Table.Deleted { t with catalog := mapDeletes t.catalog deletionFile path deletedRowCount }
      other pos ↔ t.Deleted other pos ∨ other = path ∧ pos ∈ positions := by
  constructor
  · rintro ⟨f, hr, hrec⟩
    rcases mem_append.mp hr with hr | hr
    · exact .inl ⟨f, hr, hrec⟩
    · cases mem_singleton.mp hr
      rw [hre] at hrec
      obtain ⟨pos', hpos', heq⟩ := mem_map.mp hrec
      cases heq
      exact .inr ⟨rfl, hpos'⟩
  · rintro (⟨f, hr, hrec⟩ | ⟨rfl, hpos⟩)
    · exact ⟨f, mem_append_left _ hr, hrec⟩
    · refine ⟨deletionFile, mem_append_right _ (mem_singleton.mpr rfl), ?_⟩
      rw [hre]
      exact mem_map_of_mem hpos

/-- **A position delete file** takes the rows at its positions out. -/
theorem map_step [DecidableEq Id] (h : Consistent env t) (hp : path ∈ dataPaths t.catalog)
    (hf : deletionFile ∈ t.catalog.files.map FileRow.path)
    (hk : deletionFile ∉ dataPaths t.catalog)
    (hre : t.records deletionFile = positions.map fun pos => (path, pos))
    (hn : positions.Nodup) (hl : ∀ pos ∈ positions, pos ∈ (t.dataFile path).live)
    (hc : deletedRowCount = (t.dataFile path).deletedRowCount + positions.length) :
    Consistent env { t with
        catalog := mapDeletes t.catalog deletionFile path deletedRowCount } ∧
      liveRows { t with
        catalog := mapDeletes t.catalog deletionFile path deletedRowCount } +
          rowsAt t path positions = liveRows t := by
  set t' : Table Id Row :=
    { t with catalog := mapDeletes t.catalog deletionFile path deletedRowCount } with ht'
  have hfs : dataFiles t'.catalog = _ := dataFiles_mapDeletes t.catalog
  have hpa : dataPaths t'.catalog = dataPaths t.catalog := dataPaths_mapDeletes t.catalog
  have hdeleted : ∀ other pos, t'.Deleted other pos ↔
      t.Deleted other pos ∨ other = path ∧ pos ∈ positions :=
    fun other pos => deleted_mapDeletes hre
  have hot : ∀ other, other ≠ path → ∀ pos, t'.Deleted other pos ↔ t.Deleted other pos := by
    intro other hne pos
    rw [hdeleted]
    exact or_iff_left fun hor => hne hor.1
  have hca : (t'.dataFile path).deletedRowCount =
      (t.dataFile path).deletedRowCount + positions.length := by
    have hunion : (t'.dataFile path).deleted = (t.dataFile path).deleted ∪ positions.toFinset := by
      ext pos
      have hpos : pos ∈ positions → pos < (t.rows path).length :=
        fun hm => (mem_live.mp (hl pos hm)).1
      simp only [Table.dataFile, Finset.mem_union, Finset.mem_filter, Finset.mem_range,
        mem_toFinset]
      rw [deleted_iff, deleted_iff, hdeleted]
      constructor
      · rintro ⟨hlt, hold | ⟨-, hnew⟩⟩
        · exact .inl ⟨hlt, hold⟩
        · exact .inr hnew
      · rintro (⟨hlt, hold⟩ | hnew)
        · exact ⟨hlt, .inl hold⟩
        · exact ⟨hpos hnew, .inr ⟨rfl, hnew⟩⟩
    have hd : Disjoint (t.dataFile path).deleted positions.toFinset := by
      rw [Finset.disjoint_right]
      intro pos hpos
      exact (Finset.mem_sdiff.mp (hl pos (mem_toFinset.mp hpos))).2
    rw [Fdw.DataFile.deletedRowCount, hunion, Finset.card_union_of_disjoint hd,
      toFinset_card_of_nodup hn, Fdw.DataFile.deletedRowCount]
  have hmap : Catalog.Valid env { t.catalog with
      deletionFileMap := t.catalog.deletionFileMap ++ [⟨deletionFile, path⟩] } :=
    ⟨h.catalog.paths, h.catalog.ids, h.catalog.columnStats, h.catalog.partitionValues,
      forall_mem_append.mpr ⟨h.catalog.deletionFileMap,
        forall_mem_singleton.mpr ⟨hf, dataPaths_subset hp⟩⟩,
      h.catalog.rowIdMappings, h.catalog.fresh⟩
  have hco : Consistent env t' := by
    refine ⟨updateDeletedRowCount_valid hmap _ _, ?_, ?_, ?_, ?_⟩
    · rw [hfs]
      refine forall_mem_map.mpr fun f hm => ?_
      have hc := h.rowCount f hm
      split_ifs
      · exact hc
      · exact hc
    · rw [hfs]
      refine forall_mem_map.mpr fun f hm => ?_
      split_ifs with hs
      · subst hs
        simp [hca, hc]
      · have heq : t'.dataFile f.path = t.dataFile f.path :=
          dataFile_congr rfl (hot f.path hs)
        rw [heq]
        exact h.deletedRowCount f hm
    · rw [hpa]
      exact forall_mem_append.mpr ⟨h.deletionFiles, forall_mem_singleton.mpr hk⟩
    · rw [hpa]
      intro r hr other ho pos hrec
      rcases mem_append.mp hr with hr | hr
      · exact mem_append_left _ (h.mapped r hr other ho pos hrec)
      · cases mem_singleton.mp hr
        rw [hre] at hrec
        obtain ⟨pos', -, heq⟩ := mem_map.mp hrec
        cases heq
        exact mem_append_right _ (mem_singleton.mpr rfl)
  refine ⟨hco, ?_⟩
  have hown : liveRowsOf t' path =
      deleteFromParquetQuery t path (possiblePositionDeleteFiles t.catalog [path]) positions := by
    rw [liveRowsOf, deleteFromParquetQuery, readRowLocations, readRowLocations, filter_filter]
    congr 1
    refine filter_congr fun e _ => ?_
    rw [← Bool.decide_and, decide_eq_decide, deleted_iff, deleted_iff, hdeleted]
    simp [and_comm]
  rw [liveRows_eq_sum hco, liveRows_eq_sum h, hpa,
    sum_map_eq_add _ (nodup_dataPaths h) hp, sum_map_eq_add _ (nodup_dataPaths h) hp,
    hown, add_assoc, remainder_add_rowsAt hl]
  congr 2
  refine map_congr_left fun other ho => congrArg _ ?_
  exact liveRowsOf_congr rfl (hot other (of_decide_eq_true (mem_filter.mp ho).2))

end Map

/-! ## The strategies -/

/-- The modification deletes the given live positions of its source file, with the counts that
    the scan took from the catalog.  The CSV file is dropped when all rows are deleted. -/
structure Deletes (t : Table Id Row) (m : DataFileModification) (positions : List ℕ) : Prop where
  source : m.sourcePath ∈ dataPaths t.catalog
  sourceRowCount : ∀ file ∈ t.catalog.files, file.path = m.sourcePath →
    (m.sourceRowCount : ℤ) = file.rowCount
  liveRowCount : ∀ file ∈ t.catalog.files, file.path = m.sourcePath →
    (m.liveRowCount : ℤ) = file.rowCount - file.deletedRowCount
  deletedRowCount : m.deletedRowCount = positions.length
  nonempty : positions ≠ []
  nodup : positions.Nodup
  live : ∀ pos ∈ positions, pos ∈ (t.dataFile m.sourcePath).live
  deleteFile : m.deleteFile = some positions ∨
    m.deleteFile = none ∧ m.deletedRowCount = m.liveRowCount

/-- The file to write: a generated path is not in use, and its statistics and partition can be
    stored. -/
structure NewFile.Fits (env : CatalogEnv Id) (t : Table Id Row) (file : NewFile) : Prop where
  unused : file.path ∉ t.catalog.files.map FileRow.path
  unnamed : ∀ row ∈ t.catalog.deletionFileMap, ∀ pos, (file.path, pos) ∉ t.records row.path
  fileSize : 0 ≤ file.fileSize
  columnStats : (file.columnStats.map DataFileColumnStats.fieldId).Nodup
  partitionFields : ((file.partition.getD []).map PartitionField.fieldId).Nodup
  partitionValues : ∀ field ∈ file.partition.getD [],
    ∃ value, env.serializePartitionValue field = .ok value

theorem NewFile.Fits.update_eq {α : Type*} {file : NewFile} (hf : file.Fits env t)
    (hp : path ∈ t.catalog.files.map FileRow.path) {f : Path → α} {a : α} :
    update f file.path a path = f path := by
  refine update_of_ne ?_ _ _
  rintro rfl
  exact hf.unused hp

theorem NewFile.Fits.exists_add [DecidableEq Id] {file : NewFile} (hfi : file.Fits env t)
    (h : t.catalog.Valid env) (content : DataFileContent) (rowCount : ℕ) :
    ∃ values : List (PartitionValueRow Id),
      (∀ r ∈ values, r.id = env.nextval t.catalog.drawn file.path) ∧
      flushDataFileAddBatch env t.catalog [file.addOperation content rowCount] =
        .ok (t.catalog.addFile (file.addOperation content rowCount)
          (env.nextval t.catalog.drawn file.path) values) := by
  have hsub : ∀ f ∈ (file.addOperation content rowCount).partitionFields,
      f ∈ file.partition.getD [] := by
    intro f hf
    unfold DataFileAdd.partitionFields at hf
    split_ifs at hf
    · exact hf
    · cases hf
  refine exists_flushDataFileAddBatch_single h hfi.unused hfi.fileSize hfi.columnStats ?_
    fun f hf => hfi.partitionValues f (hsub f hf)
  unfold DataFileAdd.partitionFields
  split_ifs
  · exact hfi.partitionFields
  · exact nodup_nil

theorem Deletes.counts (h : Consistent env t) {m : DataFileModification}
    (hm : Deletes t m positions) :
    m.sourceRowCount = (t.dataFile m.sourcePath).rowCount ∧
      m.liveRowCount = (t.dataFile m.sourcePath).live.card := by
  obtain ⟨f, hf, hd, hp⟩ := mem_dataPaths.mp hm.source
  have hme : f ∈ dataFiles t.catalog := mem_filter.mpr ⟨hf, decide_eq_true hd⟩
  have hsrc := hm.sourceRowCount f hf hp
  have hl := hm.liveRowCount f hf hp
  rw [h.rowCount f hme, hp] at hsrc hl
  rw [h.deletedRowCount f hme, hp] at hl
  have := (t.dataFile m.sourcePath).card_live_add
  omega

end Tables

section Strategies
variable [DecidableEq Id] {env : CatalogEnv Id} {t : Table Id Row}

section
variable {m : DataFileModification} {positions : List ℕ} {newFile : NewFile}

theorem remove_strategy (h : Consistent env t) (hm : Deletes t m positions)
    (hall : positions.length = (t.dataFile m.sourcePath).live.card) :
    ∃ c, applyDataFileCatalogChanges env t.catalog [.dataFileRemove m.sourcePath] = .ok c ∧
      Consistent env { t with catalog := c } ∧
      liveRows { t with catalog := c } + rowsAt t m.sourcePath positions = liveRows t := by
  refine ⟨_, rfl, ?_⟩
  obtain ⟨hc, hl⟩ := remove_step h hm.source
  refine ⟨hc, ?_⟩
  have hsubset : positions.toFinset ⊆ (t.dataFile m.sourcePath).live :=
    fun pos hpos => hm.live pos (mem_toFinset.mp hpos)
  have heq := Finset.eq_of_subset_of_card_le hsubset
    (by rw [toFinset_card_of_nodup hm.nodup, hall])
  have hs := remainder_add_rowsAt hm.live
  rw [remainder_eq_nil fun pos hpos => mem_toFinset.mp (heq ▸ hpos)] at hs
  rw [← hl, ← hs]
  exact congrArg _ (zero_add _).symm

theorem copyOnWrite_strategy {copy : List Row → List Row} (hcopy : ∀ rows, (copy rows).Perm rows)
    (h : Consistent env t) (hm : Deletes t m positions) (hnew : newFile.Fits env t)
    {remainder : List Row} (hre : remainder = copy (deleteFromParquetQuery t m.sourcePath
      (possiblePositionDeleteFiles t.catalog [m.sourcePath]) positions)) :
    ∃ c, applyDataFileCatalogChanges env t.catalog [.dataFileRemove m.sourcePath,
        .dataFileAdd (newFile.addOperation .data remainder.length)] = .ok c ∧
      Consistent env { t with
        catalog := c, rows := update t.rows newFile.path remainder } ∧
      liveRows { t with
        catalog := c, rows := update t.rows newFile.path remainder } +
          rowsAt t m.sourcePath positions = liveRows t := by
  set w : Table Id Row :=
    { t with rows := update t.rows newFile.path remainder } with hw
  obtain ⟨hco, hrows, hdeleted⟩ :=
    write_step w h rfl (fun path hp => hnew.update_eq hp) fun _ _ => rfl
  obtain ⟨hrem, hl⟩ := remove_step hco hm.source
  have hown : liveRowsOf w m.sourcePath = liveRowsOf t m.sourcePath :=
    liveRowsOf_congr (hnew.update_eq (dataPaths_subset hm.source)) (hdeleted _)
  have hf : newFile.Fits env
      { w with catalog := removeDataFileFromTable t.catalog m.sourcePath } :=
    { hnew with
      unused := fun hme => hnew.unused (mem_paths_deleteFiles.mp hme).1
      unnamed := fun r hr => hnew.unnamed r (mem_filter.mp hr).1 }
  obtain ⟨values, hv, hadd⟩ := hf.exists_add hrem.catalog .data remainder.length
  refine ⟨_, hadd, ?_⟩
  have hc : ((newFile.addOperation .data remainder.length).dataFileStats.rowCount : ℤ) =
      (w.rows newFile.path).length := by
    simp [hw, NewFile.addOperation]
  obtain ⟨ha, ht⟩ :=
    add_data_step hrem rfl rfl hf.unused hf.unnamed hc hv
  refine ⟨ha, ?_⟩
  have hnewRows : w.rows newFile.path = remainder := update_self _ _ _
  have hpe : (remainder : Multiset Row) = deleteFromParquetQuery t m.sourcePath
      (possiblePositionDeleteFiles t.catalog [m.sourcePath]) positions := by
    rw [hre]
    exact Multiset.coe_eq_coe.mpr (hcopy _)
  refine (congrArg (· + _) ht).trans ?_
  show liveRows _ + (w.rows newFile.path : Multiset Row) + _ = _
  rw [hnewRows, hpe, add_assoc, remainder_add_rowsAt hm.live, ← hown, ← hrows]
  exact hl

theorem positionDelete_strategy (h : Consistent env t) (hm : Deletes t m positions)
    (hnew : newFile.Fits env t) {deletes : List (Path × ℕ)}
    (hd : deletes = positions.map fun pos => (m.sourcePath, pos)) {total : ℤ}
    (ht : total = (t.dataFile m.sourcePath).deletedRowCount + positions.length) :
    ∃ c, applyDataFileCatalogChanges env t.catalog [
        .dataFileAdd (newFile.addOperation .positionDeletes deletes.length),
        .dataFileAddDeleteMapping newFile.path m.sourcePath,
        .dataFileUpdateDeletedRowCount m.sourcePath total] = .ok c ∧
      Consistent env { t with
        catalog := c, records := update t.records newFile.path deletes } ∧
      liveRows { t with
        catalog := c, records := update t.records newFile.path deletes } +
          rowsAt t m.sourcePath positions = liveRows t := by
  set written : Table Id Row :=
    { t with records := update t.records newFile.path deletes } with hw
  have hre : ∀ path ∈ t.catalog.files.map FileRow.path,
      written.records path = t.records path :=
    fun path hp => hnew.update_eq hp
  obtain ⟨hcons, hrows, hdeleted⟩ := write_step written h rfl (fun _ _ => rfl) hre
  have hfi : newFile.Fits env written :=
    { hnew with
      unnamed := fun r hr pos hme => hnew.unnamed r hr pos
        (hre _ (h.catalog.deletionFileMap r hr).1 ▸ hme) }
  obtain ⟨values, hv, hadd⟩ :=
    hfi.exists_add hcons.catalog .positionDeletes deletes.length
  have hcont : (newFile.addOperation .positionDeletes deletes.length).content ≠ .data := by
    simp [NewFile.addOperation]
  obtain ⟨ha, haddedRows, hfs⟩ :=
    add_deletes_step hcons rfl hcont hfi.unused hv
  set added : Catalog Id := t.catalog.addFile
    (newFile.addOperation .positionDeletes deletes.length)
    (env.nextval t.catalog.drawn newFile.path) values with hc
  have hpa : dataPaths added = dataPaths t.catalog :=
    congrArg (List.map FileRow.path) hfs
  have hf : newFile.path ∈ added.files.map FileRow.path := by
    simp [hc, Catalog.addFile, DataFileAdd.fileRow, NewFile.addOperation]
  have hsrc : m.sourcePath ∈ dataPaths added := hpa ▸ hm.source
  have hmap : addDeletionFileMapping added newFile.path m.sourcePath = .ok { added with
      deletionFileMap := added.deletionFileMap ++ [⟨newFile.path, m.sourcePath⟩] } := by
    have hu : (⟨newFile.path, m.sourcePath⟩ : DeletionFileMapRow) ∉ added.deletionFileMap :=
      fun hme => hnew.unused (h.catalog.deletionFileMap _ hme).1
    rw [addDeletionFileMapping, if_neg hu, if_neg (not_not.mpr hf),
      if_neg (not_not.mpr (dataPaths_subset hsrc))]
  have hdataFile : Table.dataFile { written with catalog := added } m.sourcePath =
      t.dataFile m.sourcePath :=
    dataFile_congr rfl (hdeleted _)
  have hco : total =
      (Table.dataFile { written with catalog := added } m.sourcePath).deletedRowCount +
        positions.length := by
    rw [hdataFile, ht]
  refine ⟨mapDeletes added newFile.path m.sourcePath total, ?_, ?_⟩
  · show (flushDataFileAddBatch env t.catalog _ >>= fun c => addDeletionFileMapping c _ _ >>= _) = _
    rw [bind_eq_ok_iff]
    refine ⟨_, hadd, ?_⟩
    rw [bind_eq_ok_iff]
    exact ⟨_, hmap, rfl⟩
  · have hs := map_step ha hsrc hf
      (fun hme => hnew.unused (dataPaths_subset (hpa ▸ hme)))
      ((update_self _ _ _).trans hd) hm.nodup
      (fun pos hpos => hdataFile ▸ hm.live pos hpos) hco
    refine ⟨hs.1, ?_⟩
    rw [← hrows, ← haddedRows]
    exact hs.2

theorem applyDataFileModification_eq_ok {cfg : DeleteSettings} {copy : List Row → List Row}
    {ops : List TableMetadataOperation} {c : Catalog Id} (t' : Table Id Row)
    (hops : applyDeleteFile cfg copy newFile t m
      (if cfg.copyOnWriteMaxDeleteRows ≥ 0 then totalDeletedRowCount t.catalog else 0) =
        .ok (ops, t'))
    (hc : applyDataFileCatalogChanges env t'.catalog ops = .ok c) :
    applyDataFileModification env cfg copy newFile t m = .ok { t' with catalog := c } := by
  refine bind_eq_ok_iff.mpr ⟨(ops, t'), mapError_eq_ok_iff.mpr hops, ?_⟩
  exact bind_eq_ok_iff.mpr ⟨c, mapError_eq_ok_iff.mpr hc, rfl⟩

end

/-- **The strategies are equivalent.**  Whichever branch `ApplyDeleteFile` takes, the table loses
    exactly the rows at the deleted positions, and the catalog counts the remaining ones. -/
theorem applyDataFileModification_equivalent (settings : DeleteSettings)
    {copy : List Row → List Row} (hcopy : ∀ rows, (copy rows).Perm rows) (h : Consistent env t)
    {m : DataFileModification} {positions : List ℕ} (hm : Deletes t m positions)
    {newFile : NewFile} (hnew : newFile.Fits env t) :
    ∃ t', applyDataFileModification env settings copy newFile t m = .ok t' ∧
      liveRows t' + rowsAt t m.sourcePath positions = liveRows t ∧
      liveRowTotal t'.catalog = (liveRows t').card ∧ Consistent env t' := by
  obtain ⟨hsource, hlive⟩ := hm.counts h
  have hpositive : m.deletedRowCount ≠ 0 := by
    rw [hm.deletedRowCount]
    exact fun hzero => hm.nonempty (length_eq_zero_iff.mp hzero)
  have hle : m.deletedRowCount ≤ m.liveRowCount := by
    rw [hm.deletedRowCount, hlive, ← toFinset_card_of_nodup hm.nodup]
    exact Finset.card_le_card fun pos hpos => hm.live pos (mem_toFinset.mp hpos)
  suffices hresult : ∃ t', applyDataFileModification env settings copy newFile t m = .ok t' ∧
      Consistent env t' ∧ liveRows t' + rowsAt t m.sourcePath positions = liveRows t by
    obtain ⟨t', heq, hconsistent, hrows⟩ := hresult
    exact ⟨t', heq, hrows, liveRowTotal_eq hconsistent, hconsistent⟩
  set total : ℤ := if settings.copyOnWriteMaxDeleteRows ≥ 0 then totalDeletedRowCount t.catalog
    else 0 with htotal
  by_cases hall : m.deletedRowCount = m.liveRowCount
  · obtain ⟨c, hc, hresult⟩ := remove_strategy h hm (by rw [← hm.deletedRowCount, hall, hlive])
    refine ⟨{ t with catalog := c }, applyDataFileModification_eq_ok t ?_ hc, hresult⟩
    rw [applyDeleteFile, Fdw.applyDeleteFile, if_neg hpositive, if_pos hall]
    rfl
  · have hlt : m.deletedRowCount < m.liveRowCount := by omega
    have hdeleteFile : m.deleteFile = some positions := by
      rcases hm.deleteFile with hsome | ⟨-, hnone⟩
      · exact hsome
      · exact absurd hnone hall
    by_cases hcopies : choosesCopyOnWrite settings m.sourceRowCount
        (m.deletedRowCount + m.sourceRowCount - m.liveRowCount) total = true
    · obtain ⟨c, hc, hresult⟩ := copyOnWrite_strategy hcopy h hm hnew rfl
      refine ⟨_, applyDataFileModification_eq_ok
        { t with rows := update t.rows newFile.path _ } ?_ hc, hresult⟩
      rw [applyDeleteFile, Fdw.applyDeleteFile, if_neg hpositive, if_neg hall, if_pos hlt,
        if_pos hcopies, hdeleteFile]
      rfl
    · have hcount : ((m.deletedRowCount + m.sourceRowCount - m.liveRowCount : ℕ) : ℤ) =
          (t.dataFile m.sourcePath).deletedRowCount + positions.length := by
        have := (t.dataFile m.sourcePath).card_live_add
        rw [← hm.deletedRowCount]
        omega
      obtain ⟨c, hc, hresult⟩ := positionDelete_strategy h hm hnew rfl hcount
      refine ⟨_, applyDataFileModification_eq_ok
        { t with records := update t.records newFile.path _ } ?_ hc, hresult⟩
      rw [applyDeleteFile, Fdw.applyDeleteFile, if_neg hpositive, if_neg hall, if_pos hlt,
        if_neg hcopies, hdeleteFile]
      rfl

end Strategies

/-! ## A table with a position delete file -/

/-- Three rows in `[1]`, the middle one of which `[2]` deletes. -/
def threeRows : Table ℕ ℕ where
  catalog :=
    { files := [⟨0, [1], 3, 1, .data, 1, none⟩, ⟨1, [2], 1, 1, .positionDeletes, 0, none⟩]
      columnStats := []
      partitionValues := []
      deletionFileMap := [⟨[2], [1]⟩]
      rowIdMappings := []
      drawn := 2 }
  rows path := if path = [1] then [10, 11, 12] else []
  records path := if path = [2] then [([1], 1)] else []

theorem threeRows_consistent : Consistent (sequenceEnv 0) threeRows where
  catalog := by
    refine ⟨by decide, by decide, by decide, by decide, by decide, by decide, ?_⟩
    have hids : ∀ f ∈ threeRows.catalog.files, f.id < 2 := by decide
    intro f hf n path hn _
    have hn : 2 ≤ n := hn
    have hid := hids f hf
    show 0 + n ≠ f.id
    omega
  rowCount := by decide
  deletedRowCount := by decide
  deletionFiles := by decide
  mapped := by
    intro r hr path hp pos _
    obtain rfl := mem_singleton.mp hr
    obtain rfl := mem_singleton.mp hp
    exact mem_singleton.mpr rfl

theorem threeRows_deletes_first : Consistent (sequenceEnv 0) threeRows ∧
    Deletes threeRows ⟨[1], 3, 2, some [0], 1⟩ [0] ∧
    NewFile.Fits (sequenceEnv 0) threeRows ⟨[3], 1, [], none⟩ ∧
    ∃ t', applyDataFileModification (sequenceEnv 0) ⟨50, -1, false⟩ id ⟨[3], 1, [], none⟩ threeRows
        ⟨[1], 3, 2, some [0], 1⟩ = .ok t' ∧
      liveRows t' + {10} = {10, 12} ∧ liveRowTotal t'.catalog = (liveRows t').card := by
  have hdeletes : Deletes threeRows ⟨[1], 3, 2, some [0], 1⟩ [0] :=
    ⟨by decide, by decide, by decide, rfl, by decide, by decide, by decide, .inl rfl⟩
  have hfits : NewFile.Fits (sequenceEnv 0) threeRows ⟨[3], 1, [], none⟩ := by
    refine ⟨by decide, ?_, by decide, by decide, by decide, by simp⟩
    intro row hrow pos
    obtain rfl := mem_singleton.mp hrow
    simp [threeRows]
  refine ⟨threeRows_consistent, hdeletes, hfits, ?_⟩
  obtain ⟨t', heq, hrows, htotal, -⟩ := applyDataFileModification_equivalent ⟨50, -1, false⟩
    (fun _ => List.Perm.refl _) threeRows_consistent hdeletes hfits
  exact ⟨t', heq, hrows, htotal⟩

end PgLake.Fdw.DeleteStrategies
