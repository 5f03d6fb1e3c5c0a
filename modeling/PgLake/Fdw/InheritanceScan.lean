/-
  Scans of inheritance hierarchies of lake tables (`fdw/snapshot.c`, `data_file_pruning.c`,
  `duckdb/transform_query_to_duckdb.c`, `pgduck/read_data.c`).

  A query on a table reads the files of the table and, one after the other, those of its
  children.

  Main result: `scansExactly_iff`.
-/
import PgLake.Fdw.PartialMatch
import PgLake.Lib.Fallible
import PgLake.Lib.Lookup
import PgLake.Lib.Walks

namespace PgLake.Fdw.InheritanceScan

open Pruning SqlPredicate Fallible List

variable {V B Clause : Type}

/-! ## Tables -/

/-- Relation ids. -/
abbrev Oid := ℕ

structure LakeTable (V B : Type) where
  pruning : Table V
  /-- the names of the attributes, a dropped one being `none` -/
  attributes : List (Option String)
  distinctNames : attributes.reduceOption.Nodup
  dataFiles : List (Pruning.DataFile V B)

namespace LakeTable

variable (t : LakeTable V B)

/-- The names of the columns that are not dropped. -/
def columns : List String := t.attributes.reduceOption

def nameOf (attrNo : AttrNumber) : Option String :=
  if 0 < attrNo then t.attributes[attrNo.toNat - 1]?.join else none

def numberOf (name : String) : Option AttrNumber :=
  (t.attributes.findIdx? (· = some name)).map fun i => (i : ℤ) + 1

end LakeTable

/-- `pg_inherits`, in which Postgres allows no cycle. -/
structure Catalog (V B : Type) where
  table : Oid → LakeTable V B
  /-- `find_inheritance_children` -/
  children : Oid → List Oid
  nodup : ∀ r, (children r).Nodup
  level : Oid → ℕ
  acyclic : ∀ {r c}, c ∈ children r → level c < level r

/-! ## The scan -/

/-- A table pruned with a restriction of another: the variables of the restriction bring their
    collations and operators with them. -/
def LakeTable.seenFrom (root t : LakeTable V B) : Table V :=
  { t.pruning with
    column := fun attrNo =>
      { t.pruning.column attrNo with
        collation := (root.pruning.column attrNo).collation
        operator := (root.pruning.column attrNo).operator } }

section

variable (env : Env V B Clause) (clauses : List Clause)

/-- Whether `PruneDataFiles` looks at the files. -/
def prunes (table : Table V) : Bool :=
  (env.enableDataFilePruning || env.enablePartitionPruning) && decide (table.kind ≠ .other) &&
    decide (columnsUsedInRestrictions env clauses ≠ [])

/-- `GetRegisteredFieldForAttributes` finds no field for a column of the restriction. -/
def missingField (table : Table V) : Bool :=
  prunes env clauses table && decide (table.kind = .internalIceberg) &&
    (columnsUsedInRestrictions env clauses).any fun attrNo => (table.field attrNo).isNone

variable (catalog : Catalog V B) (root : Oid)

def Catalog.pruned (r : Oid) : Table V := (catalog.table root).seenFrom (catalog.table r)

/-- The files of the table that `PruneDataFiles` keeps for a restriction of the root. -/
def keptDataFiles (r : Oid) : List (Pruning.DataFile V B) :=
  pruneDataFiles env (catalog.pruned root r) (catalog.table r).dataFiles clauses .partialMatch

/-- `PgLakeTableScan`. -/
inductive TableScan (V B : Type) where
  | mk (relationId : Oid) (fileScans : List (Pruning.DataFile V B)) (childScans : List (TableScan V B))

def TableScan.relationId : TableScan V B → Oid
  | .mk relationId _ _ => relationId

def TableScan.fileScans : TableScan V B → List (Pruning.DataFile V B)
  | .mk _ fileScans _ => fileScans

inductive ScanError where
  /-- "missing field for column" -/
  | missingField
  | stackDepth
  deriving DecidableEq

/-- `CreateTableScanForRelation`; the number bounds the depth of the recursion. -/
def createTableScanForRelation : ℕ → Oid → Except ScanError (TableScan V B)
  | 0, _ => .error .stackDepth
  | depth + 1, r =>
    if missingField env clauses (catalog.pruned root r) then .error .missingField
    else
      ((catalog.children r).mapM (createTableScanForRelation depth)).map
        (.mk r (keptDataFiles env clauses catalog root r))

end

/-! ## The read query -/

/-- One part of the `UNION ALL`: a read call with its schema and the alias list. -/
structure Read (V B : Type) where
  relationId : Oid
  dataFiles : List (Pruning.DataFile V B)
  schema : List String
  aliases : List String

/-- The column of the table behind a column of the result.  The aliases rename the first columns
    of the schema; there may not be more of them than columns. -/
def Read.source (read : Read V B) (name : String) : Option String :=
  if read.schema.length < read.aliases.length then none
  else ((read.aliases ++ read.schema.drop read.aliases.length).zip read.schema).lookup name

section

variable (catalog : Catalog V B)

mutual

/-- `BuildReadDataSourceQueryForTableScan`. -/
def TableScan.build (projection : Option (List String)) : TableScan V B → List (Read V B)
  | .mk relationId fileScans childScans =>
    let readTupleDesc := projection.getD (catalog.table relationId).columns
    ⟨relationId, fileScans, (catalog.table relationId).columns, readTupleDesc⟩ ::
      TableScan.buildChildren readTupleDesc childScans

def TableScan.buildChildren (readTupleDesc : List String) : List (TableScan V B) → List (Read V B)
  | [] => []
  | childScan :: rest =>
    (if childScan.fileScans.isEmpty then [] else childScan.build (some readTupleDesc)) ++
      TableScan.buildChildren readTupleDesc rest

end

variable (env : Env V B Clause) (clauses : List Clause) (root : Oid)

/-- The query of a scan of the root. -/
def readQuery : Except ScanError (List (Read V B)) :=
  (createTableScanForRelation env clauses catalog root (catalog.level root + 1) root).map
    (TableScan.build catalog none)

end

/-! ## What a scan should do -/

section

variable (env : Env V B Clause) (clauses : List Clause) (catalog : Catalog V B) (root : Oid)

def LakeTable.rowSeenFrom (root t : LakeTable V B) (row : Row V) : Row V := fun attrNo =>
  match root.nameOf attrNo with
  | some name => (t.numberOf name).bind row
  -- not a column of the root
  | none => row attrNo

def HoldsMatch (r : Oid) (file : Pruning.DataFile V B) : Prop :=
  ∃ row ∈ file.rows, Matches env clauses ((catalog.table root).rowSeenFrom (catalog.table r) row)

def Catalog.Descends (r : Oid) : Prop :=
  Relation.ReflTransGen (fun p c => c ∈ catalog.children p) root r

def filesRead (reads : List (Read V B)) (r : Oid) : List (Pruning.DataFile V B) :=
  (reads.filter fun read => read.relationId = r).flatMap Read.dataFiles

open scoped Classical in
/-- Of every table, the files with a row that satisfies the restriction are read once each, and
    every column of the result comes from the column of the same name. -/
def ScansExactly : Prop :=
  ∃ reads, readQuery catalog env clauses root = .ok reads ∧ (∀ r, catalog.Descends root r →
      ((filesRead reads r).filter fun file => HoldsMatch env clauses catalog root r file).Perm
        ((catalog.table r).dataFiles.filter fun file =>
          HoldsMatch env clauses catalog root r file)) ∧
    ∀ read ∈ reads, ∀ name ∈ (catalog.table root).columns, read.source name = some name

/-- The bounds and the partition tuple of a file refute the restriction. -/
def refuted (table : Table V) (file : Pruning.DataFile V B) : Bool :=
  let mapping := addFieldIdsUsedInQuery table (columnsUsedInRestrictions env clauses)
  prunes env clauses table && env.predicateRefutedBy
    (getColumnBoundConstraints env table mapping (getPartitionTransformsUsedInQuery table mapping)
      file) (extendedClauses env table clauses file)

def Catalog.liveChildren (r : Oid) : List Oid :=
  (catalog.children r).filter fun c =>
    (catalog.table c).dataFiles.any fun file =>
      !refuted env clauses (catalog.pruned root c) file

/-- A path from the root on which every table below the root has a file that is not refuted. -/
def LivePath (r : Oid) (path : List Oid) : Prop :=
  Walks.IsWalk (catalog.liveChildren env clauses root) root path ∧ path.getLast? = some r

/-- **When a scan is right.** -/
structure Scannable : Prop where
  /-- the column numbers of the restriction stand for columns everywhere -/
  fields : ∀ r, catalog.Descends root r → missingField env clauses (catalog.pruned root r) = false
  /-- taken for the columns with the numbers of the root, the bounds of a file do not refute a
      restriction that one of its rows satisfies -/
  kept : ∀ r, catalog.Descends root r → ∀ file ∈ (catalog.table r).dataFiles,
    HoldsMatch env clauses catalog root r file →
      refuted env clauses (catalog.pruned root r) file = false
  /-- a table with such a row has one line of ancestors that are not passed over -/
  onePath : ∀ r, catalog.Descends root r →
    (∃ file ∈ (catalog.table r).dataFiles, HoldsMatch env clauses catalog root r file) →
      ∃! path, LivePath env clauses catalog root r path
  /-- the columns of the root are the first of the table, in the same order -/
  order : ∀ r path, LivePath env clauses catalog root r path →
    (catalog.table root).columns <+: (catalog.table r).columns

end

/-! ## Kept files -/

variable {depth : ℕ}

open Walks

section

variable {env : Env V B Clause} {clauses : List Clause} {catalog : Catalog V B} {root : Oid}

theorem pruneDataFiles_eq_filter (tbl : Table V) (dfs : List (Pruning.DataFile V B)) :
    pruneDataFiles env tbl dfs clauses .partialMatch =
      dfs.filter fun file => !refuted env clauses tbl file := by
  cases hp : prunes env clauses tbl with
  | false =>
    have hall : ∀ file, refuted env clauses tbl file = false := fun file => by
      simp [refuted, hp]
    simp only [hall, Bool.not_false, filter_true]
    unfold pruneDataFiles
    simp only
    split_ifs with hoff hf hc
    · rfl
    · cases hf.1
    · rfl
    · simp only [prunes, Bool.and_eq_false_iff] at hp
      simp_all
  | true =>
    simp only [refuted, hp, Bool.true_and]
    simp only [prunes, Bool.and_eq_true, Bool.or_eq_true, decide_eq_true_eq] at hp
    obtain ⟨⟨hon, hk⟩, hc⟩ := hp
    unfold pruneDataFiles
    rw [if_neg, if_neg, if_neg hc]
    · rfl
    · exact fun h => by cases h.1
    · rcases hon with h | h <;> simp [h, hk]

theorem keptDataFiles_eq (r : Oid) :
    keptDataFiles env clauses catalog root r = (catalog.table r).dataFiles.filter fun file =>
      !refuted env clauses (catalog.pruned root r) file :=
  pruneDataFiles_eq_filter _ _

/-- `Scannable.kept` holds for files whose bounds enclose their values, in tables whose columns have
    the numbers of the root. -/
theorem refuted_eq_false_of_encloses [LinearOrder V] (henv : env.Refutes) {r : Oid}
    {file : Pruning.DataFile V B}
    (hnum : ∀ a name, (catalog.table root).nameOf a = some name →
      (catalog.table r).numberOf name = some a)
    (hops : (catalog.pruned root r).HasOperatorClasses)
    (he : Encloses Set.univ (catalog.pruned root r) file)
    (hp : ∀ row ∈ file.rows, Matches env clauses row →
      InsidePartition env (catalog.pruned root r) clauses file row)
    (h : HoldsMatch env clauses catalog root r file) :
    refuted env clauses (catalog.pruned root r) file = false := by
  obtain ⟨row, hrow, hm⟩ := h
  have hseen : (catalog.table root).rowSeenFrom (catalog.table r) row = row := by
    funext a
    unfold LakeTable.rowSeenFrom
    cases hn : (catalog.table root).nameOf a with
    | none => rfl
    | some name => exact congrArg (·.bind row) (hnum a name hn)
  rw [hseen] at hm
  have hk := partialMatch_sound_of_encloses hops he Clause env henv clauses [file]
    (fun _ _ => Set.mem_univ _) (mem_singleton_self _) row hrow hm (hp row hrow hm)
  rw [pruneDataFiles_eq_filter] at hk
  simpa using (mem_filter.mp hk).2

theorem liveChildren_eq (r : Oid) :
    catalog.liveChildren env clauses root r = (catalog.children r).filter fun c =>
      !(keptDataFiles env clauses catalog root c).isEmpty := by
  unfold Catalog.liveChildren
  congr 1
  funext c
  rw [keptDataFiles_eq, Bool.eq_iff_iff]
  simp

/-! ## The parts of the query -/

def readOf (env : Env V B Clause) (clauses : List Clause) (catalog : Catalog V B) (root r : Oid) :
    Read V B :=
  ⟨r, keptDataFiles env clauses catalog root r, (catalog.table r).columns,
    (catalog.table root).columns⟩

def readAtEnd (env : Env V B Clause) (clauses : List Clause) (catalog : Catalog V B) (root : Oid)
    (path : List Oid) : Read V B :=
  readOf env clauses catalog root (path.getLast?.getD root)

variable {r : Oid}

theorem readAtEnd_cons {path : List Oid} (hne : path ≠ []) :
    readAtEnd env clauses catalog root (r :: path) = readAtEnd env clauses catalog root path := by
  rw [readAtEnd, getLast?_cons_of_ne_nil hne]
  rfl

/-- The scan of a table, as far as the query depends on it. -/
structure IsScanOf (env : Env V B Clause) (clauses : List Clause) (catalog : Catalog V B)
    (root : Oid) (depth : ℕ) (r : Oid) (scan : TableScan V B) : Prop where
  relationId : scan.relationId = r
  fileScans : scan.fileScans = keptDataFiles env clauses catalog root r
  build : scan.build catalog (some (catalog.table root).columns) =
    (Walks.walks (catalog.liveChildren env clauses root) depth r).map
      (readAtEnd env clauses catalog root)

theorem buildChildren_eq {children : List Oid} {scans : List (TableScan V B)}
    (h : List.Forall₂ (IsScanOf env clauses catalog root depth) children scans) :
    TableScan.buildChildren catalog (catalog.table root).columns scans =
      ((children.filter fun c => !(keptDataFiles env clauses catalog root c).isEmpty).flatMap
        (walks (catalog.liveChildren env clauses root) depth)).map
          (readAtEnd env clauses catalog root) := by
  induction h with
  | nil => rfl
  | @cons c scan children scans hs _ ih =>
    rw [TableScan.buildChildren, hs.fileScans, ih, filter_cons]
    cases he : (keptDataFiles env clauses catalog root c).isEmpty with
    | true => simp
    | false => simp [hs.build]

theorem build_eq {scans : List (TableScan V B)}
    (h : List.Forall₂ (IsScanOf env clauses catalog root depth) (catalog.children r) scans) :
    IsScanOf env clauses catalog root (depth + 1) r
      (.mk r (keptDataFiles env clauses catalog root r) scans) where
  relationId := rfl
  fileScans := rfl
  build := by
    rw [TableScan.build, Option.getD_some, buildChildren_eq h, walks, map_cons,
      map_map, ← liveChildren_eq]
    refine congrArg₂ List.cons rfl (map_congr_left fun p hp => ?_)
    obtain ⟨c, -, hwalk⟩ := mem_flatMap.mp hp
    have hne : p ≠ [] := by
      rintro rfl
      cases (isWalk_of_mem_walks hwalk).head
    exact (readAtEnd_cons hne).symm

/-- **The scan succeeds unless some table lacks a field**, and then the query has a part for every
    path. -/
theorem exists_createTableScan (hdepth : catalog.level r ≤ depth)
    (hfs : ∀ t, catalog.Descends r t →
      missingField env clauses (catalog.pruned root t) = false) :
    ∃ scan, createTableScanForRelation env clauses catalog root (depth + 1) r = .ok scan ∧
      IsScanOf env clauses catalog root depth r scan := by
  induction depth generalizing r with
  | zero =>
    have hch : catalog.children r = [] := by
      refine eq_nil_iff_forall_not_mem.mpr fun c hc => ?_
      have := catalog.acyclic hc
      omega
    refine ⟨.mk r (keptDataFiles env clauses catalog root r) [], ?_, rfl, rfl, rfl⟩
    rw [createTableScanForRelation, hfs r .refl, hch]
    rfl
  | succ depth ih =>
    have hsc : ∀ c ∈ catalog.children r, ∃ scan,
        createTableScanForRelation env clauses catalog root (depth + 1) c = .ok scan ∧
          IsScanOf env clauses catalog root depth c scan := by
      intro c hc
      refine ih ?_ fun t ht => hfs t (.head hc ht)
      have := catalog.acyclic hc
      omega
    obtain ⟨scans, hs, hall⟩ := exists_mapM_eq_ok hsc
    refine ⟨_, ?_, build_eq hall.flip⟩
    rw [createTableScanForRelation, hfs r .refl, hs]
    rfl

theorem missingField_of_createTableScan {scan : TableScan V B}
    (hs : createTableScanForRelation env clauses catalog root depth r = .ok scan) {t : Oid}
    (ht : catalog.Descends r t) : missingField env clauses (catalog.pruned root t) = false := by
  induction depth generalizing r scan with
  | zero => cases hs
  | succ depth ih =>
    rw [createTableScanForRelation] at hs
    split_ifs at hs with hm
    obtain ⟨scans, hsc, -⟩ := map_eq_ok_iff.mp hs
    rcases ht.cases_head with rfl | ⟨c, hc, ht⟩
    · exact Bool.eq_false_iff.mpr hm
    · obtain ⟨childScan, hch⟩ := exists_of_mapM_eq_ok hsc c hc
      exact ih hch ht

theorem build_none (scan : TableScan V B) :
    scan.build catalog none = scan.build catalog (some (catalog.table scan.relationId).columns) := by
  cases scan with
  | mk =>
    rfl

/-- **The read query.** -/
theorem readQuery_eq_ok_iff {reads : List (Read V B)} :
    readQuery catalog env clauses root = .ok reads ↔ (∀ t, catalog.Descends root t →
        missingField env clauses (catalog.pruned root t) = false) ∧
      reads = (walks (catalog.liveChildren env clauses root) (catalog.level root) root).map
        (readAtEnd env clauses catalog root) := by
  constructor
  · intro h
    obtain ⟨scan, hs, rfl⟩ := map_eq_ok_iff.mp h
    have hfs : ∀ t, catalog.Descends root t →
        missingField env clauses (catalog.pruned root t) = false :=
      fun t ht => missingField_of_createTableScan hs ht
    obtain ⟨scan', hs', hof⟩ := exists_createTableScan (le_refl (catalog.level root)) hfs
    obtain rfl : scan' = scan := Except.ok.inj (hs'.symm.trans hs)
    rw [build_none, hof.relationId]
    exact ⟨hfs, hof.build⟩
  · rintro ⟨hfs, rfl⟩
    obtain ⟨scan, hs, hof⟩ := exists_createTableScan (le_refl (catalog.level root)) hfs
    refine map_eq_ok_iff.mpr ⟨scan, hs, ?_⟩
    rw [build_none, hof.relationId]
    exact hof.build

/-! ## Files read -/

theorem sinks_liveChildren : Walks.Sinks (catalog.liveChildren env clauses root) catalog.level where
  lt h := catalog.acyclic (mem_filter.mp h).1

theorem getLast?_of_mem_walks {p : List Oid}
    (h : p ∈ walks (catalog.liveChildren env clauses root) depth root) :
    p.getLast? = some (p.getLast?.getD root) := by
  cases hl : p.getLast? with
  | none =>
    rw [getLast?_eq_none_iff] at hl
    subst hl
    cases (isWalk_of_mem_walks h).head
  | some r => rfl

theorem filesRead_eq (r : Oid) (depth : ℕ) :
    filesRead ((walks (catalog.liveChildren env clauses root) depth root).map
      (readAtEnd env clauses catalog root)) r =
    (List.replicate (endingAt (catalog.liveChildren env clauses root) depth root r).length
      (keptDataFiles env clauses catalog root r)).flatten := by
  unfold filesRead
  rw [filter_map, flatMap_map]
  have hf : (walks (catalog.liveChildren env clauses root) depth root).filter
      ((fun read => decide (read.relationId = r)) ∘ readAtEnd env clauses catalog root) =
      endingAt (catalog.liveChildren env clauses root) depth root r := by
    refine filter_congr fun p hp => ?_
    rw [Bool.eq_iff_iff, Function.comp_apply, decide_eq_true_eq, decide_eq_true_eq,
      getLast?_of_mem_walks hp, Option.some.injEq]
    rfl
  rw [hf, flatMap_def]
  congr 1
  rw [eq_replicate_iff, length_map]
  refine ⟨rfl, fun fs hfs => ?_⟩
  obtain ⟨p, hp, rfl⟩ := mem_map.mp hfs
  have hl := of_decide_eq_true (mem_filter.mp hp).2
  simp [readAtEnd, readOf, hl]

theorem copies_perm_iff {α : Type*} {l : List α} {keep p : α → Bool} {n : ℕ} :
    ((List.replicate n (l.filter keep)).flatten.filter p).Perm (l.filter p) ↔
      ∀ a ∈ l, p a = true → keep a = true ∧ n = 1 := by
  have hc : (List.replicate n (l.filter keep)).flatten.filter p =
      (List.replicate n ((l.filter keep).filter p)).flatten := by
    rw [filter_flatten, map_replicate]
  rw [hc]
  have hall : (∀ a ∈ l, p a = true → keep a = true) → (l.filter keep).filter p = l.filter p := by
    intro hk
    rw [filter_filter]
    refine filter_congr fun a ha => ?_
    cases hp : p a with
    | false => rfl
    | true => rw [hk a ha hp, Bool.and_true]
  constructor
  · intro hpe a ha hp
    have hk : ∀ b ∈ l, p b = true → keep b = true := by
      intro b hb hp
      have hm := hpe.mem_iff.mpr (mem_filter.mpr ⟨hb, hp⟩)
      obtain ⟨copy, hco, hb⟩ := mem_flatten.mp hm
      rw [eq_of_mem_replicate hco] at hb
      exact (mem_filter.mp (mem_filter.mp hb).1).2
    have hlen := hpe.length_eq
    rw [hall hk, length_flatten, map_replicate, sum_replicate_nat] at hlen
    have hpos : 0 < (l.filter p).length :=
      length_pos_of_mem (mem_filter.mpr ⟨ha, hp⟩)
    exact ⟨hk a ha hp, Nat.eq_of_mul_eq_mul_right hpos (hlen.trans (Nat.one_mul _).symm)⟩
  · intro h
    rw [hall fun a ha hp => (h a ha hp).1]
    by_cases hs : ∃ a ∈ l, p a = true
    · obtain ⟨a, ha, hp⟩ := hs
      rw [(h a ha hp).2, replicate_one, flatten_singleton]
    · have hnil : l.filter p = [] :=
        filter_eq_nil_iff.mpr fun a ha hp => hs ⟨a, ha, hp⟩
      rw [hnil, flatten_replicate_nil]

/-! ## Columns -/

theorem lookup_zip_self {names : List String} {name : String} (h : name ∈ names) :
    (names.zip names).lookup name = some name := by
  induction names with
  | nil => cases h
  | cons first names ih =>
    rw [zip_cons_cons, lookup_cons]
    cases heq : name == first with
    | true => rw [eq_of_beq heq]
    | false => exact ih ((mem_cons.mp h).resolve_left (ne_of_beq_false heq))

theorem source_of_split {read : Read V B} {first rest : List String}
    (hsch : read.schema = first ++ rest) (hlen : first.length = read.aliases.length)
    (name : String) :
    read.source name = (read.aliases.zip first ++ rest.zip rest).lookup name := by
  have hle : ¬read.schema.length < read.aliases.length := by
    rw [hsch, length_append]
    omega
  rw [Read.source, if_neg hle, hsch, ← hlen, drop_left, zip_append hlen.symm]

/-- **Columns are taken by position**: they have their own names iff the aliases are the first
    columns of the schema. -/
theorem source_eq_self_iff {read : Read V B} (hno : read.aliases.Nodup) :
    (∀ n ∈ read.aliases, read.source n = some n) ↔ read.aliases <+: read.schema := by
  constructor
  · intro h
    by_cases hlen : read.schema.length < read.aliases.length
    · obtain ⟨n, hn⟩ := exists_mem_of_length_pos (Nat.zero_lt_of_lt hlen)
      have hsrc := h n hn
      rw [Read.source, if_pos hlen] at hsrc
      cases hsrc
    · have hf : (read.schema.take read.aliases.length).length = read.aliases.length := by
        rw [length_take]
        omega
      have hsch := (take_append_drop read.aliases.length read.schema).symm
      -- every alias stands for the column at its position
      have heq : List.Forall₂ (· = ·) read.aliases (read.schema.take read.aliases.length) := by
        refine forall₂_iff_zip.mpr ⟨hf.symm, fun {n col} hm => ?_⟩
        have hsrc := h n (of_mem_zip hm).1
        rw [source_of_split hsch hf, lookup_append, Lookup.lookup_zip hno hm]
          at hsrc
        exact (Option.some.inj hsrc).symm
      have haliases : read.aliases = read.schema.take read.aliases.length := by
        rwa [forall₂_eq_eq_eq] at heq
      exact haliases ▸ take_prefix _ _
  · rintro ⟨rest, hr⟩ n hn
    rw [source_of_split hr.symm rfl, lookup_append, lookup_zip_self hn]
    rfl

/-! ## Exact scans -/

theorem forall_readAtEnd_iff {p : Read V B → Prop} :
    (∀ read ∈ (walks (catalog.liveChildren env clauses root) (catalog.level root) root).map
      (readAtEnd env clauses catalog root), p read) ↔
      ∀ r path, LivePath env clauses catalog root r path →
        p (readOf env clauses catalog root r) := by
  have hm : ∀ path, path ∈ walks (catalog.liveChildren env clauses root)
        (catalog.level root) root ↔
      Walks.IsWalk (catalog.liveChildren env clauses root) root path := fun path =>
    mem_walks_iff sinks_liveChildren (le_refl _)
  rw [forall_mem_map]
  constructor
  · rintro h r path ⟨hwalk, hl⟩
    have hr := h path ((hm path).mpr hwalk)
    rwa [readAtEnd, hl] at hr
  · intro h path hp
    exact h _ path ⟨(hm path).mp hp, getLast?_of_mem_walks hp⟩

open scoped Classical in
theorem filesRead_perm_iff (r : Oid) :
    ((filesRead ((walks (catalog.liveChildren env clauses root) (catalog.level root) root).map
          (readAtEnd env clauses catalog root)) r).filter fun f =>
        HoldsMatch env clauses catalog root r f).Perm
      ((catalog.table r).dataFiles.filter fun f =>
        HoldsMatch env clauses catalog root r f) ↔
      ∀ f ∈ (catalog.table r).dataFiles, HoldsMatch env clauses catalog root r f →
        refuted env clauses (catalog.pruned root r) f = false ∧
          ∃! path, LivePath env clauses catalog root r path := by
  have hn : ∀ p, (catalog.liveChildren env clauses root p).Nodup :=
    fun p => (catalog.nodup p).filter _
  have hs : Walks.Sinks (catalog.liveChildren env clauses root) catalog.level :=
    sinks_liveChildren
  have hone := length_endingAt_eq_one_iff hs hn (b := r)
    (le_refl (catalog.level root))
  rw [filesRead_eq, keptDataFiles_eq, copies_perm_iff]
  simp [hone, LivePath]

/-- **Exact scans.**  Every file with a row that satisfies the restriction is read once and every
    column comes from the column of the same name iff the hierarchy is scannable. -/
theorem scansExactly_iff (env : Env V B Clause) (clauses : List Clause) (catalog : Catalog V B)
    (root : Oid) :
    ScansExactly env clauses catalog root ↔ Scannable env clauses catalog root := by
  have hcolumns : ∀ r, (∀ name ∈ (catalog.table root).columns,
        (readOf env clauses catalog root r).source name = some name) ↔
      (catalog.table root).columns <+: (catalog.table r).columns := fun r =>
    @source_eq_self_iff _ _ (readOf env clauses catalog root r) (catalog.table root).distinctNames
  constructor
  · rintro ⟨reads, hreads, hfiles, hsources⟩
    obtain ⟨hfields, rfl⟩ := readQuery_eq_ok_iff.mp hreads
    refine ⟨hfields, fun r hr file hfile hmatch => ?_, ?_, fun r path hpath => ?_⟩
    · exact ((filesRead_perm_iff r).mp (hfiles r hr) file hfile hmatch).1
    · rintro r hr ⟨file, hfile, hmatch⟩
      exact ((filesRead_perm_iff r).mp (hfiles r hr) file hfile hmatch).2
    · exact (hcolumns r).mp (forall_readAtEnd_iff.mp hsources r path hpath)
  · rintro ⟨hfields, hkept, hpath, horder⟩
    refine ⟨_, readQuery_eq_ok_iff.mpr ⟨hfields, rfl⟩, fun r hr => ?_, ?_⟩
    · exact (filesRead_perm_iff r).mpr fun file hfile hmatch =>
        ⟨hkept r hr file hfile hmatch, hpath r hr ⟨file, hfile, hmatch⟩⟩
    · exact forall_readAtEnd_iff.mpr fun r path hpath => (hcolumns r).mpr (horder r path hpath)

end

/-! ## Hierarchies that are not scanned exactly -/

/-- A table of integer columns. -/
def integerTable (columns : List String) (h : columns.Nodup) (dataFiles : List (Pruning.DataFile ℤ Unit)) :
    LakeTable ℤ Unit where
  pruning :=
    { kind := .internalIceberg
      column := fun _ => ⟨.scalar, false, .default, fun _ => true⟩
      field := some
      partitionTransforms := []
      columnBoundDatum := fun _ text => text.length }
  attributes := columns.map some
  distinctNames := by
    show (List.filterMap id (columns.map some)).Nodup
    rw [filterMap_map]
    simpa using h
  dataFiles := dataFiles

/-- A file with one row. -/
def integerFile (values : List (String × ℤ)) : Pruning.DataFile ℤ Unit where
  columnStats := values.zipIdx.map fun v => ⟨v.2 + 1, some v.1.1, some v.1.1⟩
  partition := none
  rows := [fun attrNo => (values[attrNo.toNat - 1]?).map Prod.snd]

/-- A catalog of tables, each with the higher-numbered tables that inherit from it. -/
def sampleCatalog (tables : List (LakeTable ℤ Unit)) (children : List (List Oid)) :
    Catalog ℤ Unit where
  table r := tables.getD r (integerTable [] nodup_nil [])
  children r := (List.range tables.length).filter fun c => r < c ∧ c ∈ children.getD r []
  nodup _ := nodup_range.filter _
  level r := tables.length - r
  acyclic {r c} h := by
    obtain ⟨hrange, hchild⟩ := mem_filter.mp h
    have hlength := mem_range.mp hrange
    have hlt : r < c := (of_decide_eq_true hchild).1
    exact Nat.sub_lt_sub_left (hlt.trans hlength) hlt

/-- The tables that the query reads, in its order. -/
def tablesRead (catalog : Catalog ℤ Unit) (clauses : List (Constraint ℤ)) :
    Except ScanError (List Oid) :=
  (readQuery catalog (equalityEnv 0) clauses 0).map (List.map Read.relationId)

/-- A table whose parent has no files is not read; one with two parents is read twice; a column is
    taken for another if the child has them in another order; and then a file is skipped by the
    bounds of the other column. -/
theorem grandchild_skipped_read_twice_and_swapped :
    tablesRead (sampleCatalog [integerTable ["a"] (by decide) [], integerTable ["a"] (by decide) [],
        integerTable ["a"] (by decide) [integerFile [("x", 1)]]] [[1], [2]]) [] = .ok [0] ∧
      tablesRead (sampleCatalog (List.replicate 4
        (integerTable ["a"] (by decide) [integerFile [("x", 1)]])) [[1, 2], [3], [3]]) [] =
          .ok [0, 1, 3, 2, 3] ∧
      (readQuery (sampleCatalog [integerTable ["a", "b"] (by decide) [],
          integerTable ["b", "a"] (by decide) [integerFile [("x", 1), ("xx", 2)]]] [[1]])
        (equalityEnv 0) [] 0).map (List.map fun read => read.source "a") =
          .ok [some "a", some "b"] ∧
      tablesRead (sampleCatalog [integerTable ["a", "b"] (by decide) [],
          integerTable ["b", "a"] (by decide) [integerFile [("x", 1), ("xx", 2)]]] [[1]])
        [.cmp 1 .eq 2] = .ok [0] := by
  exact ⟨rfl, rfl, rfl, rfl⟩

end PgLake.Fdw.InheritanceScan
