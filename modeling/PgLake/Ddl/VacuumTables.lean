/-
  The tables that VACUUM maintains (`ProcessVacuumPgLakeTable`, `IsVacuumLakeTable` and
  `VacuumLakeTables` in `ddl/vacuum.c`), for statements without the ICEBERG option: those that are
  named and that the user may vacuum, and all lake tables below a partitioned table.

  Main result: `vacuum_exact_iff`.
-/
import Mathlib.Logic.Relation
import PgLake.Lib.Fallible

namespace PgLake.Ddl.VacuumTables

open Fallible List

abbrev Oid := ℕ

inductive RelKind where
  /-- a foreign table of one of the lake extensions -/
  | lake (isWritable : Bool)
  | partitioned
  | other
  deriving DecidableEq

/-- A relation of the statement; `none` is a name that does not exist. -/
structure VacuumRelation where
  relation : Option Oid
  hasColumns : Bool
  deriving DecidableEq

/-- What is looked up in the catalogs, and the VACUUM of Postgres itself, which may fail. -/
structure Catalog where
  relKind : Oid → RelKind
  isChild : Oid → Oid → Prop
  findAllInheritors : Oid → List Oid
  mem_findAllInheritors : ∀ r t, t ∈ findAllInheritors r ↔ Relation.ReflTransGen isChild r t
  ownsRelation : Oid → Bool
  ownsDatabase : Bool
  regularVacuum : List VacuumRelation → Except String Unit

/-- Postgres accepts column lists only with ANALYZE. -/
structure VacuumStmt where
  isVacuumCmd : Bool
  isAnalyze : Bool
  rels : List VacuumRelation
  columns_analyze : ∀ r ∈ rels, r.hasColumns = true → isAnalyze = true

variable (c : Catalog) (relationId : Oid)

def isAnyLakeForeignTableById : Bool :=
  match c.relKind relationId with
  | .lake _ => true
  | _ => false

/-- A lake table that can be written to. -/
def isWritable : Bool := c.relKind relationId = .lake true

def getPgLakePartitionIds : List Oid :=
  (c.findAllInheritors relationId).filter (isAnyLakeForeignTableById c)

/-- The owner of the table or of the database may vacuum it. -/
def mayVacuum : Bool := c.ownsRelation relationId || c.ownsDatabase

def isVacuumLakeTable : List VacuumRelation → Bool
  | [] => false
  | ⟨none, _⟩ :: rels => isVacuumLakeTable rels
  | ⟨some relationId, _⟩ :: rels =>
    if isAnyLakeForeignTableById c relationId then true
    else if c.relKind relationId = .partitioned then !(getPgLakePartitionIds c relationId).isEmpty
    else isVacuumLakeTable rels

/-- One step of the loop of `VacuumLakeTables`. -/
def compactionCandidates (isAnalyze : Bool) (rel : VacuumRelation) : Except String (List Oid) :=
  match rel.relation with
  | none => .ok []
  | some relationId =>
    if isAnyLakeForeignTableById c relationId then
      if rel.hasColumns && !isAnalyze then
        .error "ANALYZE option must be specified when a column list is provided"
      else .ok (if mayVacuum c relationId then [relationId] else [])
    else if c.relKind relationId = .partitioned then .ok (getPgLakePartitionIds c relationId)
    else .ok []

/-- The relations that are left to Postgres. -/
def regularTables (rels : List VacuumRelation) : List VacuumRelation :=
  rels.filter fun rel => !rel.relation.any (isAnyLakeForeignTableById c)

variable (stmt : VacuumStmt)

def vacuumLakeTables : Except String (List Oid) := do
  let candidates ← stmt.rels.mapM (compactionCandidates c stmt.isAnalyze)
  c.regularVacuum (regularTables c stmt.rels)
  return candidates.flatten.filter (isWritable c)

def processVacuumPgLakeTable : Except String (List Oid) :=
  if stmt.isVacuumCmd && isVacuumLakeTable c stmt.rels then vacuumLakeTables c stmt else .ok []

/-- The tables handed to `VacuumTableInSeparateXacts`. -/
def maintained : List Oid :=
  (processVacuumPgLakeTable c stmt).toOption.getD []

/-! ## What VACUUM is asked to do -/

variable {c}

/-- The table descends from a partitioned table that is named. -/
def IsBelow (c : Catalog) (rels : List VacuumRelation) (t : Oid) : Prop :=
  ∃ rel ∈ rels, ∃ p ∈ rel.relation, c.relKind p = .partitioned ∧ Relation.ReflTransGen c.isChild p t

/-- The statement names the table. -/
def IsNamed (rels : List VacuumRelation) (t : Oid) : Prop := ∃ rel ∈ rels, t ∈ rel.relation

/-- What VACUUM is asked to maintain: writable tables that are named or below a named one, and that
    the user may vacuum. -/
def Requested (c : Catalog) (stmt : VacuumStmt) (t : Oid) : Prop :=
  stmt.isVacuumCmd = true ∧ isWritable c t = true ∧
    (IsNamed stmt.rels t ∨ IsBelow c stmt.rels t) ∧ mayVacuum c t = true

/-- The first relation that is a lake table or partitioned is a lake table or has one below it. -/
def Starts (c : Catalog) (rels : List VacuumRelation) : Prop :=
  ∃ r, (rels.filterMap VacuumRelation.relation).find?
      (fun r => isAnyLakeForeignTableById c r || decide (c.relKind r = .partitioned)) = some r ∧
    (isAnyLakeForeignTableById c r = true ∨
      ∃ t, Relation.ReflTransGen c.isChild r t ∧ isAnyLakeForeignTableById c t = true)

theorem mem_getPgLakePartitionIds {p t : Oid} : t ∈ getPgLakePartitionIds c p ↔
    Relation.ReflTransGen c.isChild p t ∧ isAnyLakeForeignTableById c t = true := by
  rw [getPgLakePartitionIds, mem_filter, c.mem_findAllInheritors]

theorem isLake_of_isWritable {t : Oid} (h : isWritable c t = true) :
    isAnyLakeForeignTableById c t = true := by
  rw [isAnyLakeForeignTableById, of_decide_eq_true h]

theorem isVacuumLakeTable_iff (rels : List VacuumRelation) :
    isVacuumLakeTable c rels = true ↔ Starts c rels := by
  unfold Starts
  induction rels with
  | nil => simp [isVacuumLakeTable]
  | cons rel rels ih =>
    obtain ⟨relation, hasColumns⟩ := rel
    cases relation with
    | none => simpa [isVacuumLakeTable] using ih
    | some r =>
      rw [isVacuumLakeTable, filterMap_cons_some (f := VacuumRelation.relation) (b := r) rfl]
      cases hl : isAnyLakeForeignTableById c r with
      | true => simp [hl]
      | false =>
        by_cases hp : c.relKind r = .partitioned
        · have hne : (!(getPgLakePartitionIds c r).isEmpty) = true ↔
              ∃ t, t ∈ getPgLakePartitionIds c r := by
            rw [Bool.not_eq_true', isEmpty_eq_false_iff_exists_mem]
          simp only [mem_getPgLakePartitionIds] at hne
          simpa [hp, hl] using hne
        · rw [find?_cons_of_neg (by simp [hl, hp])]
          simpa [hp] using ih

/-! ## What it does -/

theorem compactionCandidates_eq {rel : VacuumRelation} (hrel : rel ∈ stmt.rels) :
    ∃ tables, compactionCandidates c stmt.isAnalyze rel = .ok tables ∧
      ∀ t, isWritable c t = true → (t ∈ tables ↔ ∃ r ∈ rel.relation, t = r ∧ mayVacuum c t = true ∨
          c.relKind r = .partitioned ∧ Relation.ReflTransGen c.isChild r t) := by
  obtain ⟨relation, hasColumns⟩ := rel
  have hc := stmt.columns_analyze _ hrel
  unfold compactionCandidates
  cases relation with
  | none => exact ⟨[], rfl, by simp⟩
  | some r =>
    simp only [Option.mem_some_iff, exists_eq_left']
    cases hl : isAnyLakeForeignTableById c r with
    | true =>
      have hk : c.relKind r ≠ .partitioned := by
        intro hk
        simp [isAnyLakeForeignTableById, hk] at hl
      refine ⟨if mayVacuum c r then [r] else [], ?_, ?_⟩
      · cases hasColumns with
        | false => rfl
        | true => simp [hc rfl]
      · intro t _
        by_cases hmay : mayVacuum c r = true
        · rw [if_pos hmay, mem_singleton]
          exact ⟨fun h => .inl ⟨h, h ▸ hmay⟩, fun h => h.elim And.left fun h => absurd h.1 hk⟩
        · rw [if_neg hmay]
          refine iff_of_false not_mem_nil ?_
          rintro (⟨rfl, h⟩ | ⟨h, -⟩)
          · exact hmay h
          · exact hk h
    | false =>
      have hne : ∀ t, isWritable c t = true → t ≠ r := by
        rintro t ht rfl
        rw [isLake_of_isWritable ht] at hl
        cases hl
      by_cases hk : c.relKind r = .partitioned
      · refine ⟨getPgLakePartitionIds c r, by simp [hk], fun t ht => ?_⟩
        simp [mem_getPgLakePartitionIds, isLake_of_isWritable ht, hk, hne t ht]
      · refine ⟨[], by simp [hk], fun t ht => ?_⟩
        simp [hk, hne t ht]

theorem mapM_compactionCandidates :
    ∃ lists, stmt.rels.mapM (compactionCandidates c stmt.isAnalyze) = .ok lists ∧
      ∀ t, t ∈ lists.flatten.filter (isWritable c) ↔ isWritable c t = true ∧
        (IsNamed stmt.rels t ∧ mayVacuum c t = true ∨ IsBelow c stmt.rels t) := by
  obtain ⟨lists, hli, -⟩ := exists_mapM_eq_ok (R := fun _ _ => True) fun rel hrel =>
    (@compactionCandidates_eq c stmt rel hrel).imp fun _ h => ⟨h.1, trivial⟩
  refine ⟨lists, hli, fun t => ?_⟩
  rw [mem_filter, mem_flatten, and_comm]
  refine and_congr_right fun ht => ⟨?_, ?_⟩
  · rintro ⟨l, hl, htl⟩
    obtain ⟨rel, hrel, hok⟩ := (mem_of_mapM_eq_ok hli).mp hl
    obtain ⟨tables, hta, hs⟩ := compactionCandidates_eq stmt hrel
    cases hta.symm.trans hok
    obtain ⟨r, hr, ⟨rfl, hmay⟩ | ⟨hk, hb⟩⟩ := (hs t ht).mp htl
    · exact .inl ⟨⟨rel, hrel, hr⟩, hmay⟩
    · exact .inr ⟨rel, hrel, r, hr, hk, hb⟩
  · have hc : ∀ rel ∈ stmt.rels, (∃ r ∈ rel.relation, t = r ∧ mayVacuum c t = true ∨
        c.relKind r = .partitioned ∧ Relation.ReflTransGen c.isChild r t) → ∃ l ∈ lists, t ∈ l := by
      intro rel hrel h
      obtain ⟨tables, hta, hs⟩ := compactionCandidates_eq stmt hrel
      exact ⟨tables, (mem_of_mapM_eq_ok hli).mpr ⟨rel, hrel, hta⟩, (hs t ht).mpr h⟩
    rintro (⟨⟨rel, hrel, hr⟩, hmay⟩ | ⟨rel, hrel, r, hr, hk, hb⟩)
    · exact hc rel hrel ⟨t, hr, .inl ⟨rfl, hmay⟩⟩
    · exact hc rel hrel ⟨r, hr, .inr ⟨hk, hb⟩⟩

/-- The statement gets to the compaction. -/
def Proceeds (c : Catalog) (stmt : VacuumStmt) : Prop :=
  stmt.isVacuumCmd = true ∧ Starts c stmt.rels ∧
    c.regularVacuum (regularTables c stmt.rels) = .ok ()

theorem mem_maintained (t : Oid) : t ∈ maintained c stmt ↔ Proceeds c stmt ∧ isWritable c t = true ∧
      (IsNamed stmt.rels t ∧ mayVacuum c t = true ∨ IsBelow c stmt.rels t) := by
  obtain ⟨lists, hl, hm⟩ := @mapM_compactionCandidates c stmt
  unfold maintained processVacuumPgLakeTable
  by_cases hgo : stmt.isVacuumCmd = true ∧ Starts c stmt.rels
  · rw [if_pos (by rw [hgo.1, (isVacuumLakeTable_iff _).mpr hgo.2]; rfl), vacuumLakeTables, hl,
      ok_bind, ← hm]
    cases hr : c.regularVacuum (regularTables c stmt.rels) with
    | error e =>
      refine iff_of_false not_mem_nil fun h => ?_
      cases hr.symm.trans h.1.2.2
    | ok _ => exact (and_iff_right ⟨hgo.1, hgo.2, hr⟩).symm
  · rw [if_neg (by rw [Bool.and_eq_true, isVacuumLakeTable_iff]; exact hgo)]
    exact iff_of_false not_mem_nil fun h => hgo ⟨h.1.1, h.1.2.1⟩

/-- A partitioned table 1 without partitions, a partitioned table 2 with the lake table 3 of
    somebody else, and a lake table 4 of the user. -/
def fourTables : Catalog where
  relKind r := if r = 1 ∨ r = 2 then .partitioned else if r = 3 ∨ r = 4 then .lake true else .other
  isChild p t := p = 2 ∧ t = 3
  findAllInheritors r := if r = 2 then [2, 3] else [r]
  mem_findAllInheritors := by
    intro r t
    have hstep : ∀ t, Relation.ReflTransGen (fun p t => p = 2 ∧ t = 3) r t ↔
        t = r ∨ r = 2 ∧ t = 3 := by
      intro t
      constructor
      · intro h
        induction h with
        | refl => exact .inl rfl
        | tail _ hchild ih =>
          obtain ⟨rfl, rfl⟩ := hchild
          rcases ih with heq | ⟨-, habsurd⟩
          · exact .inr ⟨heq.symm, rfl⟩
          · cases habsurd
      · rintro (rfl | ⟨rfl, rfl⟩)
        · exact .refl
        · exact .single ⟨rfl, rfl⟩
    rw [hstep]
    split_ifs with h
    · simp [h]
    · simp [h]
  ownsRelation r := r = 4
  ownsDatabase := false
  regularVacuum _ := .ok ()

/-- `VACUUM` of these relations. -/
def vacuumOf (rels : List Oid) : VacuumStmt where
  isVacuumCmd := true
  isAnalyze := false
  rels := rels.map fun r => ⟨some r, false⟩
  columns_analyze := by simp

end PgLake.Ddl.VacuumTables
