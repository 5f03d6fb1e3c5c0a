/-
  The catalogs of the files of a table (`fdw/data_files_catalog.c`,
  `data_files_catalog_batch.c`).

  `lake_table.files` has a row for each file.  Its satellites have the column statistics (by
  path), the partition values and row id mappings (by the id of the file), and the data files
  that a position delete file deletes from.  Foreign keys remove what belongs to a file together
  with it.
-/
import Mathlib.Data.List.Nodup
import PgLake.Iceberg.UnreferencedFiles
import PgLake.Fdw.RowIds

namespace PgLake.Fdw.DataFiles

open List

open Iceberg (DataFileContent)
open Iceberg.Unreferenced (Path hashKey)
open scoped Iceberg.Unreferenced
open RowIds (RowIdRangeMapping)
open Fallible

/-! ## Operations -/

structure DataFileColumnStats where
  fieldId : ℤ
  lowerBoundText : Option String
  upperBoundText : Option String
  deriving DecidableEq

/-- `DataFileStats`; a `rowIdStart` of 0 is `INVALID_ROW_ID`. -/
structure DataFileStats where
  rowCount : ℤ
  fileSize : ℤ
  rowIdStart : ℤ
  columnStats : List DataFileColumnStats
  deriving DecidableEq

/-- A partition value of a file; NULL is `none`. -/
structure PartitionField where
  fieldId : ℤ
  value : Option (List UInt8)
  deriving DecidableEq

/-- A `DATA_FILE_ADD`. -/
structure DataFileAdd where
  path : Path
  content : DataFileContent
  dataFileStats : DataFileStats
  partition : Option (List PartitionField)
  deriving DecidableEq

/-- `TableMetadataOperation`, the operations on the catalogs of files. -/
inductive TableMetadataOperation where
  | dataFileAdd (add : DataFileAdd)
  | dataFileRemove (path : Path)
  | dataFileRemoveAll
  | dataFileDropTable
  | dataFileUpdateDeletedRowCount (path : Path) (deletedRowCount : ℤ)
  | dataFileMergeManifests
  | dataFileAddDeleteMapping (path deletedFrom : Path)
  | expireOldSnapshots
  | tableDdl
  | dataFileAddRowIdMapping (path : Path) (rowIdRanges : List RowIdRangeMapping)
  | tablePartitionBy
  | tableCreate
  deriving DecidableEq

/-! ## Rows -/

/-- A row of `lake_table.files`. -/
structure FileRow (Id : Type) where
  id : Id
  path : Path
  rowCount : ℤ
  fileSize : ℤ
  content : DataFileContent
  deletedRowCount : ℤ
  firstRowId : Option ℤ
  deriving DecidableEq

/-- A row of `lake_table.data_file_column_stats`. -/
structure ColumnStatsRow where
  path : Path
  fieldId : ℤ
  lowerBound : String
  upperBound : Option String
  deriving DecidableEq

/-- A row of `lake_table.data_file_partition_values`. -/
structure PartitionValueRow (Id : Type) where
  id : Id
  partitionFieldId : ℤ
  value : Option String
  deriving DecidableEq

/-- A row of `lake_table.deletion_file_map`. -/
structure DeletionFileMapRow where
  path : Path
  deletedFrom : Path
  deriving DecidableEq

/-- A row of `lake_table.row_id_mappings`; the range has its start and not its end. -/
structure RowIdMappingRow (Id : Type) where
  rowIdStart : ℤ
  rowIdEnd : ℤ
  fileId : Id
  fileRowNumber : ℤ
  deriving DecidableEq

/-- The rows of one table.  `drawn` counts the values drawn from the sequence of file ids. -/
structure Catalog (Id : Type) where
  files : List (FileRow Id)
  columnStats : List ColumnStatsRow
  partitionValues : List (PartitionValueRow Id)
  deletionFileMap : List DeletionFileMapRow
  rowIdMappings : List (RowIdMappingRow Id)
  drawn : ℕ
  deriving DecidableEq

inductive CatalogError where
  | duplicateFile (path : Path)
  | negativeFileSize (path : Path)
  | duplicateColumnStats (path : Path) (fieldId : ℤ)
  | noTransform (partitionFieldId : ℤ)
  | noFileId (path : Path)
  | duplicatePartitionValue (partitionFieldId : ℤ)
  | duplicateMapping (path deletedFrom : Path)
  | mappingOfMissingFile (path : Path)
  /-- `could not find data file for path` -/
  | noDataFile (path : Path)
  | emptyRowIdRange (rowIdStart : ℤ)
  | overlappingRowIds (rowIdStart rowIdEnd : ℤ)
  deriving DecidableEq

/-- What the catalog writes take from elsewhere. -/
structure CatalogEnv (Id : Type) where
  /-- the id of the `n`-th file of the sequence, which has the given path -/
  nextval : ℕ → Path → Id
  nextval_ne : ∀ {m n path path'}, m ≠ n → path ≠ path' → nextval m path ≠ nextval n path'
  /-- `FindPartitionTransformById` among `AllPartitionTransformList`, and
      `SerializePartitionValueToPGText` -/
  serializePartitionValue : PartitionField → Except CatalogError (Option String)

section Code
variable {Id : Type}

/-- Insert into `lake_table.files`: the path is its primary key, and the size is checked. -/
def insertDataFile (files : List (FileRow Id)) (row : FileRow Id) :
    Except CatalogError (List (FileRow Id)) :=
  if row.path ∈ files.map FileRow.path then .error (.duplicateFile row.path)
  else if row.fileSize < 0 then .error (.negativeFileSize row.path)
  else .ok (files ++ [row])

/-- Insert into `lake_table.data_file_column_stats`, with its primary key. -/
def insertColumnStats (stats : List ColumnStatsRow) (row : ColumnStatsRow) :
    Except CatalogError (List ColumnStatsRow) :=
  if (row.fieldId, row.path) ∈ stats.map (fun r => (r.fieldId, r.path)) then
    .error (.duplicateColumnStats row.path row.fieldId)
  else .ok (stats ++ [row])

variable (op : DataFileAdd)

def DataFileAdd.fileRow (id : Id) : FileRow Id where
  id := id
  path := op.path
  rowCount := op.dataFileStats.rowCount
  fileSize := op.dataFileStats.fileSize
  content := op.content
  deletedRowCount := 0
  firstRowId := if op.dataFileStats.rowIdStart = 0 then none else some op.dataFileStats.rowIdStart

/-- `AppendColumnStatsForFile`: statistics without a lower bound are skipped. -/
def DataFileAdd.columnStatsRows : List ColumnStatsRow :=
  if op.content = .data then
    op.dataFileStats.columnStats.filterMap fun stats =>
      stats.lowerBoundText.map fun lower => ⟨op.path, stats.fieldId, lower, stats.upperBoundText⟩
  else []

/-- The fields of an addition for which `AddOpHasPartitionValues` holds, and none otherwise. -/
def DataFileAdd.partitionFields : List PartitionField :=
  if op.content = .data ∨ op.content = .positionDeletes then op.partition.getD [] else []

def appendPartitionValuesForFile (env : CatalogEnv Id) (op : DataFileAdd) (fileId : Id) :
    Except CatalogError (List (PartitionValueRow Id)) :=
  op.partitionFields.mapM fun field => do
    let value ← env.serializePartitionValue field
    return ⟨fileId, field.fieldId, value⟩

/-- `hash_search` with `HASH_FIND` in the table of file ids; what was entered last comes first. -/
def findFileId (pathToFileId : List (Path × Id)) (path : Path) : Except CatalogError Id :=
  match pathToFileId.find? (fun entry => entry.1 = hashKey path) with
  | some entry => .ok entry.2
  | none => .error (.noFileId path)

/-- The rows of one addition in `BulkInsertDataFilePartitionValues`. -/
def partitionValuesOf (env : CatalogEnv Id) (pathToFileId : List (Path × Id)) (op : DataFileAdd) :
    Except CatalogError (List (PartitionValueRow Id)) :=
  if op.partitionFields = [] then .ok []
  else do
    let fileId ← findFileId pathToFileId op.path
    appendPartitionValuesForFile env op fileId

/-- The rows that `BulkInsertDataFiles` inserts. -/
def fileRows (env : CatalogEnv Id) (drawn : ℕ) : List DataFileAdd → List (FileRow Id)
  | [] => []
  | op :: ops => op.fileRow (env.nextval drawn op.path) :: fileRows env (drawn + 1) ops

/-- The table by path that `ExecInsertDataFiles` builds of the rows it returns. -/
def pathToFileIdOf (rows : List (FileRow Id)) : List (Path × Id) :=
  rows.foldl (fun entries row => (hashKey row.path, row.id) :: entries) []

variable [DecidableEq Id]

/-- Insert into `lake_table.data_file_partition_values`, with its unique constraint. -/
def insertPartitionValue (values : List (PartitionValueRow Id)) (row : PartitionValueRow Id) :
    Except CatalogError (List (PartitionValueRow Id)) :=
  if (row.id, row.partitionFieldId) ∈ values.map (fun r => (r.id, r.partitionFieldId)) then
    .error (.duplicatePartitionValue row.partitionFieldId)
  else .ok (values ++ [row])

def flushDataFileAddBatch (env : CatalogEnv Id) (c : Catalog Id) (addOps : List DataFileAdd) :
    Except CatalogError (Catalog Id) := do
  let rows := fileRows env c.drawn addOps
  let files ← rows.foldlM insertDataFile c.files
  let columnStats ←
    (addOps.flatMap DataFileAdd.columnStatsRows).foldlM insertColumnStats c.columnStats
  let valueRows ← addOps.mapM (partitionValuesOf env (pathToFileIdOf rows))
  let partitionValues ← valueRows.flatten.foldlM insertPartitionValue c.partitionValues
  return { c with
    files := files
    columnStats := columnStats
    partitionValues := partitionValues
    drawn := c.drawn + addOps.length }

variable (c : Catalog Id)

/-- Delete from `lake_table.files`, with what the foreign keys delete. -/
def Catalog.deleteFiles (paths : List Path) : Catalog Id :=
  let ids := (c.files.filter fun file => file.path ∈ paths).map FileRow.id
  { c with
    files := c.files.filter fun file => file.path ∉ paths
    columnStats := c.columnStats.filter fun row => row.path ∉ paths
    partitionValues := c.partitionValues.filter fun row => row.id ∉ ids
    deletionFileMap := c.deletionFileMap.filter fun row =>
      row.path ∉ paths ∧ row.deletedFrom ∉ paths
    rowIdMappings := c.rowIdMappings.filter fun row => row.fileId ∉ ids }

variable (path : Path)

/-- The deletion files that `RemoveDataFileFromTable` removes with a data file: those with a
    mapping to it and with no other. -/
def Catalog.deletionFilesOf : List Path :=
  ((c.deletionFileMap.filter fun row => row.deletedFrom = path).map DeletionFileMapRow.path).filter
    fun deletionFile => ¬ ∃ row ∈ c.deletionFileMap, row.deletedFrom ≠ path ∧
      row.path = deletionFile

def removeDataFileFromTable : Catalog Id :=
  c.deleteFiles (path :: c.deletionFilesOf path)

def removeAllDataFilesFromCatalog : Catalog Id :=
  c.deleteFiles (c.files.map FileRow.path)

def updateDeletedRowCount (deletedRowCount : ℤ) : Catalog Id :=
  { c with files := c.files.map fun file =>
      if file.path = path then { file with deletedRowCount := deletedRowCount } else file }

/-- `AddDeletionFileMapping`: both ends must be files of the table. -/
def addDeletionFileMapping (deletionFilePath dataFilePath : Path) :
    Except CatalogError (Catalog Id) :=
  if ⟨deletionFilePath, dataFilePath⟩ ∈ c.deletionFileMap then
    .error (.duplicateMapping deletionFilePath dataFilePath)
  else if deletionFilePath ∉ c.files.map FileRow.path then
    .error (.mappingOfMissingFile deletionFilePath)
  else if dataFilePath ∉ c.files.map FileRow.path then
    .error (.mappingOfMissingFile dataFilePath)
  else .ok { c with deletionFileMap := c.deletionFileMap ++ [⟨deletionFilePath, dataFilePath⟩] }

def getFileIdForPath : Except CatalogError Id :=
  match c.files.find? (fun file => file.path = path) with
  | some file => .ok file.id
  | none => .error (.noDataFile path)

/-- `InsertSingleRowMapping`: an empty range fails a check, and no two ranges overlap. -/
def insertSingleRowMapping (fileId : Id) (rows : List (RowIdMappingRow Id))
    (range : RowIdRangeMapping) : Except CatalogError (List (RowIdMappingRow Id)) :=
  let rowIdEnd := range.rowStartId + range.numRows
  if range.numRows = 0 then .error (.emptyRowIdRange range.rowStartId)
  else if ∃ row ∈ rows, row.rowIdStart < rowIdEnd ∧ range.rowStartId < row.rowIdEnd then
    .error (.overlappingRowIds range.rowStartId rowIdEnd)
  else .ok (rows ++ [⟨range.rowStartId, rowIdEnd, fileId, range.rowStartNum⟩])

def addNewRowIdMapping (rowIdRanges : List RowIdRangeMapping) :
    Except CatalogError (Catalog Id) := do
  let fileId ← getFileIdForPath c path
  let rowIdMappings ← rowIdRanges.foldlM (insertSingleRowMapping fileId) c.rowIdMappings
  return { c with rowIdMappings := rowIdMappings }

variable (env : CatalogEnv Id)

/-- `ApplySingleOp`, and `ApplyDataFileBatch` for a batch of one. -/
def applySingleOp (c : Catalog Id) : TableMetadataOperation → Except CatalogError (Catalog Id)
  | .dataFileAdd add => flushDataFileAddBatch env c [add]
  | .dataFileAddDeleteMapping path deletedFrom => addDeletionFileMapping c path deletedFrom
  | .dataFileAddRowIdMapping path rowIdRanges => addNewRowIdMapping c path rowIdRanges
  | .dataFileRemove path => .ok (removeDataFileFromTable c path)
  | .dataFileRemoveAll | .dataFileDropTable => .ok (removeAllDataFilesFromCatalog c)
  | .dataFileUpdateDeletedRowCount path deletedRowCount =>
    .ok (updateDeletedRowCount c path deletedRowCount)
  | .dataFileMergeManifests | .expireOldSnapshots | .tableCreate | .tableDdl | .tablePartitionBy =>
    .ok c

/-- `ApplyDataFileBatch` for the run of additions collected so far, which may be empty. -/
def applyDataFileBatch (c : Catalog Id) (adjacentOps : List DataFileAdd) :
    Except CatalogError (Catalog Id) :=
  if adjacentOps = [] then .ok c else flushDataFileAddBatch env c adjacentOps

/-- The loop of `ApplyDataFileCatalogChanges`; `adjacentOps` is what `CollectAdjacentOpsOfType`
    has collected. -/
def applyOperations (env : CatalogEnv Id) (c : Catalog Id) (adjacentOps : List DataFileAdd) :
    List TableMetadataOperation → Except CatalogError (Catalog Id)
  | [] => applyDataFileBatch env c adjacentOps
  | .dataFileAdd add :: operations => applyOperations env c (adjacentOps ++ [add]) operations
  | operation :: operations => do
    let c ← applyDataFileBatch env c adjacentOps
    let c ← applySingleOp env c operation
    applyOperations env c [] operations

/-- `ApplyDataFileCatalogChanges`. -/
def applyDataFileCatalogChanges (c : Catalog Id)
    (metadataOperations : List TableMetadataOperation) : Except CatalogError (Catalog Id) :=
  applyOperations env c [] metadataOperations

end Code

/-! ## Keys -/

variable {op : DataFileAdd}

section Keys
variable {Id : Type}

/-- What the database maintains: paths and ids are unique, every satellite row is about a file of
    the table, and an id that is still to be drawn for another path is not in use. -/
structure Catalog.Valid (env : CatalogEnv Id) (c : Catalog Id) : Prop where
  paths : (c.files.map FileRow.path).Nodup
  ids : (c.files.map FileRow.id).Nodup
  columnStats : ∀ row ∈ c.columnStats, row.path ∈ c.files.map FileRow.path
  partitionValues : ∀ row ∈ c.partitionValues, row.id ∈ c.files.map FileRow.id
  deletionFileMap : ∀ row ∈ c.deletionFileMap,
    row.path ∈ c.files.map FileRow.path ∧ row.deletedFrom ∈ c.files.map FileRow.path
  rowIdMappings : ∀ row ∈ c.rowIdMappings, row.fileId ∈ c.files.map FileRow.id
  fresh : ∀ file ∈ c.files, ∀ n path, c.drawn ≤ n → path ≠ file.path → env.nextval n path ≠ file.id

variable {env : CatalogEnv Id} {c c' : Catalog Id}

theorem Catalog.Valid.eq_of_path (h : c.Valid env) {f f' : FileRow Id}
    (hf : f ∈ c.files) (hf' : f' ∈ c.files) (heq : f.path = f'.path) :
    f = f' :=
  inj_on_of_nodup_map h.paths hf hf' heq

theorem Catalog.Valid.eq_of_id (h : c.Valid env) {f f' : FileRow Id}
    (hf : f ∈ c.files) (hf' : f' ∈ c.files) (heq : f.id = f'.id) :
    f = f' :=
  inj_on_of_nodup_map h.ids hf hf' heq

variable [DecidableEq Id]

omit [DecidableEq Id] in
theorem Catalog.Valid.id_mem_removed_iff (h : c.Valid env) {f : FileRow Id}
    (hf : f ∈ c.files) (paths : List Path) :
    f.id ∈ (c.files.filter fun f => f.path ∈ paths).map FileRow.id ↔
      f.path ∈ paths := by
  simp only [mem_map, mem_filter, decide_eq_true_eq]
  constructor
  · rintro ⟨f', ⟨hf', hp⟩, hid⟩
    rwa [← h.eq_of_id hf' hf hid]
  · intro hp
    exact ⟨f, ⟨hf, hp⟩, rfl⟩

theorem deleteFiles_valid (h : c.Valid env) (paths : List Path) :
    (c.deleteFiles paths).Valid env := by
  have hk : ∀ {path}, path ∈ c.files.map FileRow.path → path ∉ paths →
      path ∈ (c.files.filter fun f => f.path ∉ paths).map FileRow.path := by
    intro path hp hnot
    obtain ⟨f, hf, rfl⟩ := mem_map.mp hp
    exact mem_map_of_mem (mem_filter.mpr ⟨hf, decide_eq_true hnot⟩)
  have hkeptId : ∀ {id}, id ∈ c.files.map FileRow.id →
      id ∉ (c.files.filter fun f => f.path ∈ paths).map FileRow.id →
      id ∈ (c.files.filter fun f => f.path ∉ paths).map FileRow.id := by
    intro id hid hnot
    obtain ⟨f, hf, rfl⟩ := mem_map.mp hid
    rw [h.id_mem_removed_iff hf] at hnot
    exact mem_map_of_mem (mem_filter.mpr ⟨hf, decide_eq_true hnot⟩)
  have hsub : (c.files.filter fun f => f.path ∉ paths).Sublist c.files :=
    filter_sublist
  refine ⟨h.paths.sublist (hsub.map _), h.ids.sublist (hsub.map _), ?_, ?_, ?_, ?_,
    fun f hf => h.fresh f (mem_filter.mp hf).1⟩ <;> intro r hr <;>
    obtain ⟨hr, hnot⟩ := mem_filter.mp hr <;> replace hnot := of_decide_eq_true hnot
  · exact hk (h.columnStats r hr) hnot
  · exact hkeptId (h.partitionValues r hr) hnot
  · exact ⟨hk (h.deletionFileMap r hr).1 hnot.1, hk (h.deletionFileMap r hr).2 hnot.2⟩
  · exact hkeptId (h.rowIdMappings r hr) hnot

omit [DecidableEq Id] in
theorem updateDeletedRowCount_valid (h : c.Valid env) (path : Path) (deletedRowCount : ℤ) :
    (updateDeletedRowCount c path deletedRowCount).Valid env := by
  set update : FileRow Id → FileRow Id := fun f =>
    if f.path = path then { f with deletedRowCount := deletedRowCount } else f
  have hp : ∀ f, (update f).path = f.path := by
    intro f
    simp only [update]
    split_ifs <;> rfl
  have hid : ∀ f, (update f).id = f.id := by
    intro f
    simp only [update]
    split_ifs <;> rfl
  have hpa : (c.files.map update).map FileRow.path = c.files.map FileRow.path := by
    rw [map_map]
    exact map_congr_left fun f _ => hp f
  have hids : (c.files.map update).map FileRow.id = c.files.map FileRow.id := by
    rw [map_map]
    exact map_congr_left fun f _ => hid f
  refine ⟨hpa ▸ h.paths, hids ▸ h.ids, hpa ▸ h.columnStats, hids ▸ h.partitionValues,
    hpa ▸ h.deletionFileMap, hids ▸ h.rowIdMappings, ?_⟩
  intro f hf n path' hn hne
  obtain ⟨f', hf', rfl⟩ := mem_map.mp hf
  rw [hid]
  exact h.fresh f' hf' n path' hn (hp f' ▸ hne)

omit [DecidableEq Id] in
theorem addDeletionFileMapping_valid (h : c.Valid env) {path deletedFrom : Path}
    (heq : addDeletionFileMapping c path deletedFrom = .ok c') : c'.Valid env := by
  unfold addDeletionFileMapping at heq
  split_ifs at heq with hdup hp hf
  cases heq
  refine ⟨h.paths, h.ids, h.columnStats, h.partitionValues, ?_, h.rowIdMappings, h.fresh⟩
  intro r hr
  rcases mem_append.mp hr with hr | hr
  · exact h.deletionFileMap r hr
  · obtain rfl := mem_singleton.mp hr
    exact ⟨hp, hf⟩

omit [DecidableEq Id] in
theorem getFileIdForPath_eq_ok {path : Path} {id : Id} (heq : getFileIdForPath c path = .ok id) :
    ∃ f ∈ c.files, f.path = path ∧ f.id = id := by
  unfold getFileIdForPath at heq
  split at heq
  case h_1 f hf =>
    cases heq
    exact ⟨f, mem_of_find?_eq_some hf, by simpa using find?_some hf, rfl⟩
  case h_2 => cases heq

omit [DecidableEq Id] in
theorem insertSingleRowMapping_eq_ok {fileId : Id} {rs rs' : List (RowIdMappingRow Id)}
    {range : RowIdRangeMapping} (heq : insertSingleRowMapping fileId rs range = .ok rs') :
    ∃ r, r.fileId = fileId ∧ rs' = rs ++ [r] := by
  unfold insertSingleRowMapping at heq
  simp only at heq
  split_ifs at heq
  cases heq
  exact ⟨_, rfl, rfl⟩

omit [DecidableEq Id] in
theorem addNewRowIdMapping_valid (h : c.Valid env) {path : Path}
    {rowIdRanges : List RowIdRangeMapping}
    (heq : addNewRowIdMapping c path rowIdRanges = .ok c') : c'.Valid env := by
  obtain ⟨fileId, hfileId, heq⟩ := bind_eq_ok_iff.mp heq
  obtain ⟨rs, hrs, heq⟩ := bind_eq_ok_iff.mp heq
  cases heq
  obtain ⟨f, hf, -, rfl⟩ := getFileIdForPath_eq_ok hfileId
  refine ⟨h.paths, h.ids, h.columnStats, h.partitionValues, h.deletionFileMap, ?_, h.fresh⟩
  refine foldlM_invariant (P := fun rs : List (RowIdMappingRow Id) =>
    ∀ r ∈ rs, r.fileId ∈ c.files.map FileRow.id) (fun range _ rs rs' hinv hins => ?_)
    h.rowIdMappings hrs
  obtain ⟨r, hr, rfl⟩ := insertSingleRowMapping_eq_ok hins
  intro r' hr'
  rcases mem_append.mp hr' with hr' | hr'
  · exact hinv r' hr'
  · obtain rfl := mem_singleton.mp hr'
    exact hr ▸ mem_map_of_mem hf

/-! ### One addition -/

omit [DecidableEq Id] in
theorem insertDataFile_eq_ok {fs fs' : List (FileRow Id)} {r : FileRow Id}
    (heq : insertDataFile fs r = .ok fs') :
    r.path ∉ fs.map FileRow.path ∧ 0 ≤ r.fileSize ∧ fs' = fs ++ [r] := by
  unfold insertDataFile at heq
  split_ifs at heq with hp hs
  cases heq
  exact ⟨hp, not_lt.mp hs, rfl⟩

theorem insertColumnStats_eq_ok {stats stats' : List ColumnStatsRow} {r : ColumnStatsRow}
    (heq : insertColumnStats stats r = .ok stats') : stats' = stats ++ [r] := by
  unfold insertColumnStats at heq
  split_ifs at heq
  cases heq
  rfl

theorem insertPartitionValue_eq_ok {vs vs' : List (PartitionValueRow Id)}
    {r : PartitionValueRow Id} (heq : insertPartitionValue vs r = .ok vs') :
    vs' = vs ++ [r] := by
  unfold insertPartitionValue at heq
  split_ifs at heq
  cases heq
  rfl

theorem foldlM_eq_append {α : Type} {insert : List α → α → Except CatalogError (List α)}
    (hi : ∀ {rs r rs'}, insert rs r = .ok rs' → rs' = rs ++ [r])
    (new : List α) : ∀ {rs rs'}, new.foldlM insert rs = .ok rs' → rs' = rs ++ new := by
  induction new with
  | nil =>
    intro rs rs' heq
    cases heq
    simp
  | cons r new ih =>
    intro rs rs' heq
    obtain ⟨rs₁, hr₁, heq⟩ := bind_eq_ok_iff.mp heq
    obtain rfl := hi hr₁
    simpa using ih heq

omit [DecidableEq Id] in
theorem appendPartitionValuesForFile_eq_ok {id : Id} {rs : List (PartitionValueRow Id)}
    (heq : appendPartitionValuesForFile env op id = .ok rs) :
    (∀ r ∈ rs, r.id = id) ∧ (rs = [] → op.partitionFields = []) := by
  constructor
  · intro r hr
    obtain ⟨f, -, hf⟩ := (mem_of_mapM_eq_ok heq).mp hr
    obtain ⟨v, -, hf⟩ := bind_eq_ok_iff.mp hf
    cases hf
    rfl
  · rintro rfl
    by_contra hfi
    obtain ⟨f, hf⟩ := exists_mem_of_ne_nil _ hfi
    obtain ⟨r, hr⟩ := exists_of_mapM_eq_ok heq f hf
    exact not_mem_nil ((mem_of_mapM_eq_ok heq).mpr ⟨f, hf, hr⟩)

def Catalog.addFile (c : Catalog Id) (op : DataFileAdd) (id : Id)
    (rows : List (PartitionValueRow Id)) : Catalog Id :=
  { c with
    files := c.files ++ [op.fileRow id]
    columnStats := c.columnStats ++ op.columnStatsRows
    partitionValues := c.partitionValues ++ rows
    drawn := c.drawn + 1 }

theorem flushDataFileAddBatch_single_eq_ok (heq : flushDataFileAddBatch env c [op] = .ok c') :
    op.path ∉ c.files.map FileRow.path ∧
      ∃ rows, appendPartitionValuesForFile env op (env.nextval c.drawn op.path) = .ok rows ∧
        c' = c.addFile op (env.nextval c.drawn op.path) rows := by
  obtain ⟨fs, hf, heq⟩ := bind_eq_ok_iff.mp heq
  obtain ⟨stats, hs, heq⟩ := bind_eq_ok_iff.mp heq
  obtain ⟨valueRows, hv, heq⟩ := bind_eq_ok_iff.mp heq
  obtain ⟨vs, hva, heq⟩ := bind_eq_ok_iff.mp heq
  cases heq
  obtain ⟨fs₁, hf₁, hf⟩ := bind_eq_ok_iff.mp hf
  cases hf
  obtain ⟨hp, -, rfl⟩ := insertDataFile_eq_ok hf₁
  obtain ⟨rows, hrs, hv⟩ := bind_eq_ok_iff.mp hv
  cases hv
  have hrs : appendPartitionValuesForFile env op (env.nextval c.drawn op.path) = .ok rows := by
    unfold partitionValuesOf at hrs
    split_ifs at hrs with hfs
    · cases hrs
      rw [appendPartitionValuesForFile, hfs]
      rfl
    · obtain ⟨id, hid, hrs⟩ := bind_eq_ok_iff.mp hrs
      have hown : findFileId (pathToFileIdOf (fileRows env c.drawn [op])) op.path =
          .ok (env.nextval c.drawn op.path) := by
        simp [findFileId, pathToFileIdOf, fileRows, DataFileAdd.fileRow]
      cases hown.symm.trans hid
      exact hrs
  refine ⟨hp, rows, hrs, ?_⟩
  rw [foldlM_eq_append insertColumnStats_eq_ok _ hs,
    foldlM_eq_append insertPartitionValue_eq_ok _ hva]
  simp [Catalog.addFile]

theorem columnStatsRows_path {r : ColumnStatsRow} (hr : r ∈ op.columnStatsRows) :
    r.path = op.path:= by
  unfold DataFileAdd.columnStatsRows at hr
  split_ifs at hr
  · obtain ⟨stats, -, hs⟩ := mem_filterMap.mp hr
    obtain ⟨lo, -, rfl⟩ := Option.map_eq_some_iff.mp hs
    rfl
  · cases hr

omit [DecidableEq Id] in
theorem addFile_valid (h : c.Valid env) {rs : List (PartitionValueRow Id)}
    (hp : op.path ∉ c.files.map FileRow.path)
    (hrs : ∀ r ∈ rs, r.id = env.nextval c.drawn op.path) :
    (c.addFile op (env.nextval c.drawn op.path) rs).Valid env := by
  have hid : env.nextval c.drawn op.path ∉ c.files.map FileRow.id := by
    intro hm
    obtain ⟨file, hf, heq⟩ := mem_map.mp hm
    refine h.fresh file hf c.drawn op.path le_rfl ?_ heq.symm
    intro hs
    exact hp (hs ▸ mem_map_of_mem hf)
  have hmap : ∀ {β : Type} (f : FileRow Id → β),
      (c.addFile op (env.nextval c.drawn op.path) rs).files.map f =
        c.files.map f ++ [f (op.fileRow (env.nextval c.drawn op.path))] := by
    intro β f
    simp [Catalog.addFile]
  refine ⟨?_, ?_, ?_, ?_, ?_, ?_, ?_⟩
  · rw [hmap]
    exact nodup_append'.mpr ⟨h.paths, nodup_singleton _, disjoint_singleton.mpr hp⟩
  · rw [hmap]
    exact nodup_append'.mpr ⟨h.ids, nodup_singleton _, disjoint_singleton.mpr hid⟩
  · intro r hr
    rw [hmap]
    rcases mem_append.mp hr with hr | hr
    · exact mem_append_left _ (h.columnStats r hr)
    · refine mem_append_right _ (mem_singleton.mpr ?_)
      exact columnStatsRows_path hr
  · intro r hr
    rw [hmap]
    rcases mem_append.mp hr with hr | hr
    · exact mem_append_left _ (h.partitionValues r hr)
    · exact mem_append_right _ (mem_singleton.mpr (hrs r hr))
  · intro r hr
    rw [hmap]
    obtain ⟨hdelete, hfr⟩ := h.deletionFileMap r hr
    exact ⟨mem_append_left _ hdelete, mem_append_left _ hfr⟩
  · intro r hr
    rw [hmap]
    exact mem_append_left _ (h.rowIdMappings r hr)
  · intro file hf n path hn hne
    have hn : c.drawn + 1 ≤ n := hn
    rcases mem_append.mp hf with hf | hf
    · exact h.fresh file hf n path (by omega) hne
    · obtain rfl := mem_singleton.mp hf
      exact env.nextval_ne (by omega) hne

/-- **Every operation keeps the keys.** -/
theorem applySingleOp_valid (h : c.Valid env) {op : TableMetadataOperation}
    (heq : applySingleOp env c op = .ok c') : c'.Valid env := by
  cases op with
  | dataFileAdd =>
    obtain ⟨hp, rs, hrs, rfl⟩ := flushDataFileAddBatch_single_eq_ok heq
    exact addFile_valid h hp (appendPartitionValuesForFile_eq_ok hrs).1
  | dataFileAddDeleteMapping => exact addDeletionFileMapping_valid h heq
  | dataFileAddRowIdMapping => exact addNewRowIdMapping_valid h heq
  | dataFileRemove path | dataFileRemoveAll | dataFileDropTable =>
    cases heq
    exact deleteFiles_valid h _
  | dataFileUpdateDeletedRowCount path del =>
    cases heq
    exact updateDeletedRowCount_valid h path del
  | dataFileMergeManifests | expireOldSnapshots | tableCreate | tableDdl | tablePartitionBy =>
    cases heq
    exact h

end Keys

end PgLake.Fdw.DataFiles
