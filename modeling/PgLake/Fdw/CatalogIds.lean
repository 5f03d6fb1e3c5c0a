/-
  The choice of file ids.

  `Catalog.byPath` puts paths in the place of ids, so two catalogs that differ in
  the ids of their files only are the same by path.
-/
import PgLake.Fdw.AddRuns

namespace PgLake.Fdw.DataFiles

open Iceberg.Unreferenced (Path)
open Fallible List

variable {Id : Type} [DecidableEq Id] {env : CatalogEnv Id}

def pathOf (files : List (FileRow Id)) (id : Id) : Path :=
  ((files.find? fun file => file.id = id).map FileRow.path).getD []

section MapIds
variable {Id' : Type} (f : Id → Id')

def FileRow.mapId (row : FileRow Id) : FileRow Id' :=
  ⟨f row.id, row.path, row.rowCount, row.fileSize, row.content, row.deletedRowCount, row.firstRowId⟩

def PartitionValueRow.mapId (row : PartitionValueRow Id) : PartitionValueRow Id' :=
  ⟨f row.id, row.partitionFieldId, row.value⟩

def RowIdMappingRow.mapId (row : RowIdMappingRow Id) : RowIdMappingRow Id' :=
  ⟨row.rowIdStart, row.rowIdEnd, f row.fileId, row.fileRowNumber⟩

def Catalog.mapIds (c : Catalog Id) : Catalog Id' where
  files := c.files.map (FileRow.mapId f)
  columnStats := c.columnStats
  partitionValues := c.partitionValues.map (PartitionValueRow.mapId f)
  deletionFileMap := c.deletionFileMap
  rowIdMappings := c.rowIdMappings.map (RowIdMappingRow.mapId f)
  drawn := c.drawn

end MapIds

/-- The catalog with paths in place of ids: what is left of it when the choice of ids is
    forgotten. -/
def Catalog.byPath (c : Catalog Id) : Catalog Path := c.mapIds (pathOf c.files)

def CatalogEnv.byPath (env : CatalogEnv Id) : CatalogEnv Path where
  nextval := fun _ path => path
  nextval_ne := fun _ hne => hne
  serializePartitionValue := env.serializePartitionValue

theorem pathOf_eq {fs : List (FileRow Id)} (hids : (fs.map FileRow.id).Nodup)
    {f : FileRow Id} (hf : f ∈ fs) : pathOf fs f.id = f.path := by
  rw [pathOf]
  cases hfi : fs.find? fun other => other.id = f.id with
  | none =>
    have := find?_eq_none.mp hfi f hf
    simp at this
  | some other =>
    have hid : other.id = f.id := by simpa using find?_some hfi
    have heq := inj_on_of_nodup_map hids (mem_of_find?_eq_some hfi) hf hid
    rw [heq]
    rfl

open Catalog

open PartitionValueRow DataFileAdd

section ByPath
variable {c c' : Catalog Id} {Id' : Type}

omit [DecidableEq Id] in
@[simp] theorem map_path_mapIds (f : Id → Id') (fs : List (FileRow Id)) :
    (fs.map (FileRow.mapId f)).map FileRow.path = fs.map FileRow.path := by
  rw [map_map]
  rfl

section

variable (h : c.Valid env)

include h

omit [DecidableEq Id] in
theorem Catalog.Valid.mapIds_congr {f g : Id → Path}
    (hfg : ∀ file ∈ c.files, f file.id = g file.id) : c.mapIds f = c.mapIds g := by
  have hids : ∀ id ∈ c.files.map FileRow.id, f id = g id := by
    intro id hid
    obtain ⟨file, hf, rfl⟩ := mem_map.mp hid
    exact hfg file hf
  simp only [Catalog.mapIds, Catalog.mk.injEq, true_and]
  refine ⟨map_congr_left fun file hf => ?_, map_congr_left fun r hr => ?_,
    map_congr_left fun r hr => ?_, trivial⟩
  · rw [FileRow.mapId, FileRow.mapId, hfg file hf]
  · rw [mapId, mapId, hids _ (h.partitionValues r hr)]
  · rw [RowIdMappingRow.mapId, RowIdMappingRow.mapId, hids _ (h.rowIdMappings r hr)]

theorem Catalog.Valid.pathOf {f : FileRow Id} (hf : f ∈ c.files) :
    pathOf c.files f.id = f.path :=
  pathOf_eq h.ids hf

theorem Catalog.Valid.byPath_eq {f : Id → Path}
    (hf : ∀ file ∈ c.files, f file.id = file.path) : c.byPath = c.mapIds f :=
  h.mapIds_congr fun _ hfi => (h.pathOf hfi).trans (hf _ hfi).symm

theorem byPath_deleteFiles (paths : List Path) :
    (c.deleteFiles paths).byPath = c.byPath.deleteFiles paths := by
  rw [(deleteFiles_valid h paths).byPath_eq fun f hf =>
    h.pathOf (mem_filter.mp hf).1]
  have hrem : ∀ id ∈ c.files.map FileRow.id,
      (id ∈ (c.files.filter fun f => f.path ∈ paths).map FileRow.id ↔
        DataFiles.pathOf c.files id ∈
          (c.byPath.files.filter fun f => f.path ∈ paths).map FileRow.id) := by
    intro id hid
    obtain ⟨f, hf, rfl⟩ := mem_map.mp hid
    rw [h.id_mem_removed_iff hf, h.pathOf hf]
    simp only [byPath, mapIds, mem_map, mem_filter, decide_eq_true_eq]
    constructor
    · intro hp
      exact ⟨_, ⟨⟨f, hf, rfl⟩, hp⟩, h.pathOf hf⟩
    · rintro ⟨_, ⟨⟨other, ho, rfl⟩, hp⟩, hid⟩
      rw [FileRow.mapId, h.pathOf ho] at hid
      exact hid ▸ hp
  simp only [Catalog.deleteFiles, Catalog.byPath, Catalog.mapIds, filter_map,
    Catalog.mk.injEq, true_and, and_true] at hrem ⊢
  refine ⟨rfl, ?_, ?_⟩
  · refine congrArg _ (filter_congr fun r hr => ?_)
    exact decide_eq_decide.mpr (not_congr (hrem _ (h.partitionValues r hr)))
  · refine congrArg _ (filter_congr fun r hr => ?_)
    exact decide_eq_decide.mpr (not_congr (hrem _ (h.rowIdMappings r hr)))

theorem byPath_updateDeletedRowCount (path : Path) (deletedRowCount : ℤ) :
    (updateDeletedRowCount c path deletedRowCount).byPath =
      updateDeletedRowCount c.byPath path deletedRowCount := by
  have hv := updateDeletedRowCount_valid h path deletedRowCount
  have hn : ∀ f ∈ (updateDeletedRowCount c path deletedRowCount).files,
      DataFiles.pathOf c.files f.id = f.path := by
    intro f hf
    obtain ⟨f', hf', rfl⟩ := mem_map.mp hf
    have := h.pathOf hf'
    split_ifs <;> exact this
  rw [hv.byPath_eq hn]
  simp only [updateDeletedRowCount, Catalog.byPath, Catalog.mapIds, map_map,
    Catalog.mk.injEq, and_true]
  refine map_congr_left fun f _ => ?_
  by_cases hp : f.path = path
  · simp [FileRow.mapId, hp]
  · simp [FileRow.mapId, hp]

end

theorem byPath_addDeletionFileMapping (path deletedFrom : Path) :
    (addDeletionFileMapping c path deletedFrom).toOption.map Catalog.byPath =
      (addDeletionFileMapping c.byPath path deletedFrom).toOption := by
  have hp : c.byPath.files.map FileRow.path = c.files.map FileRow.path := map_path_mapIds _ _
  have hmap : c.byPath.deletionFileMap = c.deletionFileMap := rfl
  unfold addDeletionFileMapping
  rw [hp, hmap]
  split_ifs <;> rfl

theorem byPath_getFileIdForPath (p : Path) :
    (getFileIdForPath c p).toOption.map (DataFiles.pathOf c.files) =
      (getFileIdForPath c.byPath p).toOption := by
  have hf : (c.byPath.files.find? fun f => f.path = p) =
      (c.files.find? fun f => f.path = p).map
        (FileRow.mapId (DataFiles.pathOf c.files)) := by
    rw [byPath, mapIds, find?_map]
    rfl
  rw [getFileIdForPath, getFileIdForPath, hf]
  cases c.files.find? fun f => f.path = p <;> rfl

omit [DecidableEq Id] in
theorem map_insertSingleRowMapping (f : Id → Id') (fileId : Id) (rs : List (RowIdMappingRow Id))
    (range : RowIds.RowIdRangeMapping) :
    (insertSingleRowMapping fileId rs range).toOption.map (List.map (RowIdMappingRow.mapId f)) =
      (insertSingleRowMapping (f fileId) (rs.map (RowIdMappingRow.mapId f)) range).toOption := by
  have hoverlap : (∃ r ∈ rs.map (RowIdMappingRow.mapId f),
        r.rowIdStart < range.rowStartId + range.numRows ∧ range.rowStartId < r.rowIdEnd) ↔
      ∃ r ∈ rs, r.rowIdStart < range.rowStartId + range.numRows ∧
        range.rowStartId < r.rowIdEnd := by
    simp [RowIdMappingRow.mapId]
  unfold insertSingleRowMapping
  simp only [hoverlap]
  split_ifs
  · rfl
  · rfl
  · simp [RowIdMappingRow.mapId]

theorem byPath_addNewRowIdMapping (p : Path) (rowIdRanges : List RowIds.RowIdRangeMapping) :
    (addNewRowIdMapping c p rowIdRanges).toOption.map byPath =
      (addNewRowIdMapping c.byPath p rowIdRanges).toOption := by
  simp only [addNewRowIdMapping, toOption_bind, toOption_foldlM, toOption_pure]
  rw [← byPath_getFileIdForPath]
  cases getFileIdForPath c p with
  | error e => rfl
  | ok fileId =>
    have hrs := map_foldlM (List.map (RowIdMappingRow.mapId (DataFiles.pathOf c.files)))
      (fun rs range => (insertSingleRowMapping fileId rs range).toOption)
      (fun rs range =>
        (insertSingleRowMapping (DataFiles.pathOf c.files fileId) rs range).toOption)
      (map_insertSingleRowMapping (DataFiles.pathOf c.files) fileId)
      rowIdRanges c.rowIdMappings
    simp only [toOption_ok, Option.bind_some, Option.map_some]
    have hbyPath : c.byPath.rowIdMappings =
        c.rowIdMappings.map (RowIdMappingRow.mapId (DataFiles.pathOf c.files)) := rfl
    rw [hbyPath, ← hrs]
    cases rowIdRanges.foldlM (fun rs range =>
      (insertSingleRowMapping fileId rs range).toOption) c.rowIdMappings <;> rfl

/-! ### One addition -/

theorem map_insertPartitionValue [DecidableEq Id'] {f : Id → Id'}
    {vs : List (PartitionValueRow Id)} {row : PartitionValueRow Id}
    (hf : ∀ other ∈ vs, f other.id = f row.id → other.id = row.id) :
    (insertPartitionValue vs row).toOption.map (List.map (PartitionValueRow.mapId f)) =
      (insertPartitionValue (vs.map (PartitionValueRow.mapId f)) (row.mapId f)).toOption := by
  have hm : ((row.mapId f).id, (row.mapId f).partitionFieldId) ∈
        (vs.map (PartitionValueRow.mapId f)).map (fun r => (r.id, r.partitionFieldId)) ↔
      (row.id, row.partitionFieldId) ∈ vs.map (fun r => (r.id, r.partitionFieldId)) := by
    simp only [mem_map, Prod.mk.injEq, PartitionValueRow.mapId, exists_exists_and_eq_and]
    constructor
    · rintro ⟨other, ho, hid, hfi⟩
      exact ⟨other, ho, hf other ho hid, hfi⟩
    · rintro ⟨other, ho, hid, hfi⟩
      exact ⟨other, ho, congrArg f hid, hfi⟩
  unfold insertPartitionValue
  simp only [hm]
  split_ifs
  · rfl
  · simp

theorem map_foldlM_insertPartitionValue [DecidableEq Id'] {f : Id → Id'} {ids : List Id}
    (hf : ∀ id ∈ ids, ∀ id' ∈ ids, f id = f id' → id = id') (rs : List (PartitionValueRow Id))
    (hrs : ∀ r ∈ rs, r.id ∈ ids) :
    ∀ vs : List (PartitionValueRow Id), (∀ r ∈ vs, r.id ∈ ids) →
      (rs.foldlM (fun vs r => (insertPartitionValue vs r).toOption) vs).map
          (List.map (PartitionValueRow.mapId f)) =
        (rs.map (PartitionValueRow.mapId f)).foldlM
          (fun vs r => (insertPartitionValue vs r).toOption)
          (vs.map (PartitionValueRow.mapId f)) := by
  induction rs with
  | nil =>
    intro vs _
    rfl
  | cons r rs ih =>
    intro vs hv
    obtain ⟨hr, hrs⟩ := forall_mem_cons.mp hrs
    rw [map_cons, foldlM_cons, foldlM_cons,
      ← map_insertPartitionValue fun other ho => hf _ (hv other ho) _ hr]
    cases hi : insertPartitionValue vs r with
    | error e => rfl
    | ok =>
      obtain rfl := insertPartitionValue_eq_ok hi
      refine ih hrs _ fun other ho => ?_
      rcases mem_append.mp ho with ho | ho
      · exact hv other ho
      · exact mem_singleton.mp ho ▸ hr

omit [DecidableEq Id] in
theorem map_appendPartitionValuesForFile (env : CatalogEnv Id) (env' : CatalogEnv Id')
    (henv : env'.serializePartitionValue = env.serializePartitionValue) (f : Id → Id')
    (op : DataFileAdd) (id : Id) :
    (appendPartitionValuesForFile env op id).toOption.map (List.map (PartitionValueRow.mapId f)) =
      (appendPartitionValuesForFile env' op (f id)).toOption := by
  unfold appendPartitionValuesForFile
  rw [toOption_mapM, toOption_mapM, henv]
  induction op.partitionFields with
  | nil => rfl
  | cons field fs ih =>
    rw [mapM_cons, mapM_cons, ← ih]
    cases env.serializePartitionValue field with
    | error e => rfl
    | ok v =>
      simp only [toOption_bind, toOption_ok, toOption_pure, Option.bind_some]
      cases fs.mapM fun field =>
        (env.serializePartitionValue field).toOption.bind fun v =>
          some (⟨id, field.fieldId, v⟩ : PartitionValueRow Id) <;> rfl

theorem byPath_add (h : c.Valid env) (op : DataFileAdd) :
    (insertRun env c [op]).map Catalog.byPath = insertRun env.byPath c.byPath [op] := by
  have hpa : c.byPath.files.map FileRow.path = c.files.map FileRow.path := map_path_mapIds _ _
  have hst : c.byPath.columnStats = c.columnStats := rfl
  simp only [insertRun, numbered, foldlM_cons, foldlM_nil, Option.bind_eq_bind, Option.pure_def]
  by_cases hfi : op.path ∈ c.files.map FileRow.path ∨ op.dataFileStats.fileSize < 0
  · -- the file itself cannot be inserted
    have hno : ∀ {I : Type} {fs : List (FileRow I)} {id : I},
        fs.map FileRow.path = c.files.map FileRow.path → stepFiles fs (op, id) = none := by
      intro I fs id hsa
      rcases hfi with hp | hs
      · simp [stepFiles, insertDataFile, fileRow, hsa, hp]
      · simp only [stepFiles, insertDataFile, fileRow, hs]
        split_ifs <;> rfl
    rw [hno rfl, hno hpa]
    rfl
  · obtain ⟨hp, hs⟩ := not_or.mp hfi
    set id := env.nextval c.drawn op.path with hid
    set f := DataFiles.pathOf (c.files ++ [op.fileRow id]) with hf
    have hv : (c.addFile op id []).Valid env := addFile_valid h hp (by simp)
    have hn : ∀ file ∈ c.files ++ [op.fileRow id], f file.id = file.path :=
      fun file hfi => hv.pathOf hfi
    have hown : f id = op.path := hn (op.fileRow id) (by simp)
    have hc : c.byPath = c.mapIds f :=
      h.byPath_eq fun file hfi => hn file (mem_append_left _ hfi)
    have hfs : stepFiles c.files (op, id) = some (c.files ++ [op.fileRow id]) := by
      simp [stepFiles, insertDataFile, fileRow, hp, hs]
    have hfs' : stepFiles c.byPath.files (op, env.byPath.nextval c.byPath.drawn op.path) =
        some (c.byPath.files ++ [op.fileRow op.path]) := by
      simp [stepFiles, insertDataFile, fileRow, hpa, hp, hs, CatalogEnv.byPath]
    have hva : (stepValues env c.partitionValues (op, id)).map
          (List.map (mapId f)) =
        stepValues env.byPath c.byPath.partitionValues
          (op, env.byPath.nextval c.byPath.drawn op.path) := by
      have ha := map_appendPartitionValuesForFile env env.byPath rfl f op id
      have hnextval : env.byPath.nextval c.byPath.drawn op.path = f id := hown.symm
      rw [stepValues, stepValues, hnextval, ← ha]
      cases hrs : appendPartitionValuesForFile env op id with
      | error e => rfl
      | ok rs =>
        have hids : ∀ r ∈ rs, r.id ∈ (c.files ++ [op.fileRow id]).map FileRow.id := by
          intro r hr
          rw [(appendPartitionValuesForFile_eq_ok hrs).1 r hr]
          simp [fileRow]
        have hinj : ∀ i ∈ (c.files ++ [op.fileRow id]).map FileRow.id,
            ∀ j ∈ (c.files ++ [op.fileRow id]).map FileRow.id, f i = f j → i = j := by
          intro i hi j hj heq
          obtain ⟨file, hfi, rfl⟩ := mem_map.mp hi
          obtain ⟨file', hfi', rfl⟩ := mem_map.mp hj
          rw [hn file hfi, hn file' hfi'] at heq
          rw [hv.eq_of_path hfi hfi' heq]
        rw [hc]
        exact map_foldlM_insertPartitionValue hinj rs hids c.partitionValues fun r hr => by
          rw [map_append]
          exact mem_append_left _ (h.partitionValues r hr)
    rw [hfs, hfs', hst, ← hva]
    have hstepStats : stepStats c.columnStats (op, env.byPath.nextval c.byPath.drawn op.path) =
        stepStats c.columnStats (op, id) := rfl
    rw [hstepStats]
    cases stepStats c.columnStats (op, id) with
    | none => rfl
    | some =>
      cases stepValues env c.partitionValues (op, id) with
      | none => rfl
      | some =>
        have hr : (op.fileRow id).mapId f = op.fileRow op.path := by
          rw [← hown]
          rfl
        rw [hc]
        simp [withRows, byPath, mapIds, ← hf, hr]

/-- **The choice of ids does not matter**: an operation does the same to a catalog and to the
    catalog by path. -/
theorem byPath_applySingleOp (h : c.Valid env) (op : TableMetadataOperation) :
    (applySingleOp env c op).toOption.map byPath =
      (applySingleOp env.byPath c.byPath op).toOption := by
  cases op with
  | dataFileAdd add =>
    rw [applySingleOp, applySingleOp, flushDataFileAddBatch_single, flushDataFileAddBatch_single]
    exact byPath_add h add
  | dataFileAddDeleteMapping path deletedFrom => exact byPath_addDeletionFileMapping path deletedFrom
  | dataFileAddRowIdMapping path rowIdRanges => exact byPath_addNewRowIdMapping path rowIdRanges
  | dataFileRemove => exact congrArg some (byPath_deleteFiles h _)
  | dataFileRemoveAll | dataFileDropTable =>
    have hp : c.byPath.files.map FileRow.path = c.files.map FileRow.path :=
      map_path_mapIds _ _
    simp only [applySingleOp, removeAllDataFilesFromCatalog, hp]
    exact congrArg some (byPath_deleteFiles h _)
  | dataFileUpdateDeletedRowCount path del =>
    exact congrArg some (byPath_updateDeletedRowCount h path del)
  | dataFileMergeManifests | expireOldSnapshots | tableCreate | tableDdl | tablePartitionBy => rfl

theorem byPath_foldlM (ops : List TableMetadataOperation) : ∀ {c : Catalog Id}, c.Valid env →
    (ops.foldlM (fun c op => (applySingleOp env c op).toOption) c).map
        byPath =
      ops.foldlM (fun c op => (applySingleOp env.byPath c op).toOption)
        c.byPath := by
  induction ops with
  | nil =>
    intro c _
    rfl
  | cons op ops ih =>
    intro c h
    rw [foldlM_cons, foldlM_cons, ← byPath_applySingleOp h]
    cases heq : applySingleOp env c op with
    | error e => rfl
    | ok => exact ih (applySingleOp_valid h heq)

end ByPath

end PgLake.Fdw.DataFiles
