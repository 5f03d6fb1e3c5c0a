/-
  A run of adjacent additions.

  `FlushDataFileAddBatch` inserts a run at once: first all files, then all column
  statistics, then all partition values, whose file ids it looks up by path in a
  hash table.
-/
import PgLake.Fdw.DataFilesCatalog

namespace PgLake.Fdw.DataFiles

open List

open Iceberg.Unreferenced (Path hashKey)
open Fallible

variable {Id : Type} [DecidableEq Id] {env : CatalogEnv Id}

/-! ## A run of additions -/

def numbered (env : CatalogEnv Id) (drawn : ℕ) : List DataFileAdd → List (DataFileAdd × Id)
  | [] => []
  | op :: ops => (op, env.nextval drawn op.path) :: numbered env (drawn + 1) ops

omit [DecidableEq Id] in
theorem numbered_map_fst (env : CatalogEnv Id) (drawn : ℕ) (ops : List DataFileAdd) :
    (numbered env drawn ops).map Prod.fst = ops := by
  induction ops generalizing drawn with
  | nil => rfl
  | cons op ops ih => simp [numbered, ih]

omit [DecidableEq Id] in
theorem fileRows_eq (drawn : ℕ) (ops : List DataFileAdd) :
    fileRows env drawn ops = (numbered env drawn ops).map fun e => e.1.fileRow e.2 := by
  induction ops generalizing drawn with
  | nil => rfl
  | cons op ops ih => simp [numbered, fileRows, ih]

def stepFiles (files : List (FileRow Id)) (entry : DataFileAdd × Id) : Option (List (FileRow Id)) :=
  (insertDataFile files (entry.1.fileRow entry.2)).toOption

def stepStats (stats : List ColumnStatsRow) (entry : DataFileAdd × Id) :
    Option (List ColumnStatsRow) :=
  entry.1.columnStatsRows.foldlM (fun stats row => (insertColumnStats stats row).toOption) stats

/-- Insert the partition values of one addition, under its own id. -/
def stepValues (env : CatalogEnv Id) (values : List (PartitionValueRow Id))
    (entry : DataFileAdd × Id) : Option (List (PartitionValueRow Id)) :=
  (appendPartitionValuesForFile env entry.1 entry.2).toOption.bind fun rows =>
    rows.foldlM (fun values row => (insertPartitionValue values row).toOption) values

def Catalog.withRows (c : Catalog Id) (count : ℕ) (files : List (FileRow Id))
    (columnStats : List ColumnStatsRow) (partitionValues : List (PartitionValueRow Id)) :
    Catalog Id :=
  { c with
    files := files
    columnStats := columnStats
    partitionValues := partitionValues
    drawn := c.drawn + count }

/-- A run in which every addition finds its own id, table by table. -/
def insertRun (env : CatalogEnv Id) (c : Catalog Id) (ops : List DataFileAdd) :
    Option (Catalog Id) :=
  ((numbered env c.drawn ops).foldlM stepFiles c.files).bind fun files =>
    ((numbered env c.drawn ops).foldlM stepStats c.columnStats).bind fun columnStats =>
      ((numbered env c.drawn ops).foldlM (stepValues env) c.partitionValues).bind fun values =>
        some (c.withRows ops.length files columnStats values)

/-- An addition with partition values is the last one of its run with its key. -/
def Keyed (ops : List DataFileAdd) : Prop :=
  ops.Pairwise fun op later => op.partitionFields ≠ [] → hashKey op.path ≠ hashKey later.path

omit [DecidableEq Id] in
theorem pathToFileIdOf_eq (rs : List (FileRow Id)) :
    pathToFileIdOf rs = (rs.map fun r => (hashKey r.path, r.id)).reverse := by
  have hf : ∀ entries : List (Path × Id),
      rs.foldl (fun entries r => (hashKey r.path, r.id) :: entries) entries =
        (rs.map fun r => (hashKey r.path, r.id)).reverse ++ entries := by
    induction rs with
    | nil =>
      intro entries
      rfl
    | cons =>
      intro entries
      simp
  rw [pathToFileIdOf, hf, append_nil]

omit [DecidableEq Id] in
theorem findFileId_of_keyed {drawn : ℕ} {ops : List DataFileAdd} (hk : Keyed ops)
    {en : DataFileAdd × Id} (he : en ∈ numbered env drawn ops)
    (hfs : en.1.partitionFields ≠ []) :
    findFileId (pathToFileIdOf (fileRows env drawn ops)) en.1.path = .ok en.2 := by
  obtain ⟨before, after, hs⟩ := append_of_mem he
  have hl : ∀ other ∈ after, hashKey en.1.path ≠ hashKey other.1.path := by
    rw [Keyed, ← numbered_map_fst env drawn ops, hs, pairwise_map,
      pairwise_append, pairwise_cons] at hk
    exact fun other ho => hk.2.1.1 other ho hfs
  have hn : (after.map fun e => (hashKey e.1.path, e.2)).reverse.find?
      (fun e => e.1 = hashKey en.1.path) = none := by
    simp only [find?_eq_none, mem_reverse, mem_map, decide_eq_true_eq]
    rintro _ ⟨other, ho, rfl⟩ heq
    exact hl other ho heq.symm
  rw [findFileId, pathToFileIdOf_eq, fileRows_eq, hs]
  simp only [map_map, map_append, map_cons, reverse_append,
    reverse_cons, append_assoc, find?_append, Function.comp_def]
  simp [DataFileAdd.fileRow, hn]

omit [DecidableEq Id] in
theorem foldlM_stepStats (env : CatalogEnv Id) (drawn : ℕ) (ops : List DataFileAdd)
    (stats : List ColumnStatsRow) :
    ((ops.flatMap DataFileAdd.columnStatsRows).foldlM insertColumnStats stats).toOption =
      (numbered env drawn ops).foldlM stepStats stats := by
  rw [toOption_foldlM, foldlM_flatMap]
  conv_lhs => rw [← numbered_map_fst env drawn ops]
  rw [foldlM_map]
  rfl

/-- **A keyed run goes table by table under its own ids.** -/
theorem flushDataFileAddBatch_of_keyed {c : Catalog Id} {ops : List DataFileAdd}
    (hk : Keyed ops) : (flushDataFileAddBatch env c ops).toOption = insertRun env c ops := by
  have hv : (ops.mapM fun op =>
        (partitionValuesOf env (pathToFileIdOf (fileRows env c.drawn ops)) op).toOption) =
      (numbered env c.drawn ops).mapM fun e =>
        (appendPartitionValuesForFile env e.1 e.2).toOption := by
    conv_lhs => rw [← numbered_map_fst env c.drawn ops]
    rw [mapM_map]
    refine mapM_congr_of_mem fun e he => ?_
    rw [Function.comp_apply, numbered_map_fst, partitionValuesOf]
    by_cases hfs : e.1.partitionFields = []
    · simp [hfs, appendPartitionValuesForFile]
    · rw [if_neg hfs, findFileId_of_keyed hk he hfs]
      rfl
  simp only [flushDataFileAddBatch, toOption_bind, foldlM_stepStats env c.drawn,
    toOption_foldlM, toOption_mapM, toOption_pure]
  rw [hv, fileRows_eq, foldlM_map, insertRun]
  simp only [← Option.bind_assoc, mapM_bind_foldlM_flatten]
  rfl

variable (c : Catalog Id)

theorem insertRun_nil : insertRun env c [] = some c := rfl

theorem insertRun_cons (op : DataFileAdd) (ops : List DataFileAdd) :
    insertRun env c (op :: ops) = (insertRun env c [op]).bind fun c' => insertRun env c' ops := by
  simp only [insertRun, numbered, foldlM_cons, foldlM_nil, Option.bind_eq_bind]
  set entry := (op, env.nextval c.drawn op.path)
  cases hf : stepFiles c.files entry with
  | none => simp
  | some =>
    cases hs : stepStats c.columnStats entry with
    | none => simp
    | some =>
      cases hv : stepValues env c.partitionValues entry with
      | none => simp
      | some =>
        simp [Catalog.withRows, Nat.add_comm, Nat.add_left_comm]

theorem flushDataFileAddBatch_single (op : DataFileAdd) :
    (flushDataFileAddBatch env c [op]).toOption = insertRun env c [op] :=
  flushDataFileAddBatch_of_keyed (pairwise_singleton _ _)

/-- **A run table by table is its additions one by one.** -/
theorem insertRun_eq_foldlM (ops : List DataFileAdd) : ∀ c : Catalog Id, insertRun env c ops =
    ops.foldlM (fun c op => (applySingleOp env c (.dataFileAdd op)).toOption) c := by
  induction ops with
  | nil =>
    intro c
    rfl
  | cons op ops ih =>
    intro c
    rw [insertRun_cons, foldlM_cons, applySingleOp, flushDataFileAddBatch_single]
    exact congrArg _ (funext ih)

end PgLake.Fdw.DataFiles
