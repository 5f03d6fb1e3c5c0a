/-
  Pruning by one field of the partition tuple.

  Main result: `fieldsUsedInQuery`.
-/
import Mathlib.Algebra.Order.Ring.Int
import PgLake.Fdw.PartialMatch

namespace PgLake.Fdw.Pruning

open SqlPredicate List

variable {V B Clause : Type}

/-- The transform belongs to a field of the table's spec, and its source is this column. -/
structure Partitions (table : Table V) (transform : PartitionTransform) (attrNo : AttrNumber) :
    Prop where
  unique : ∀ t ∈ table.partitionTransforms,
    t.partitionFieldId = transform.partitionFieldId → t = transform
  field : ∀ a, table.field a = some transform.sourceId ↔ a = attrNo

section
variable [LinearOrder V] (env : Env V B Clause) (table : Table V) (transform : PartitionTransform)
variable (attrNo : AttrNumber) (value : Option B) (v : V)

def Admits : Prop :=
  ∀ c, partitionFieldBoundConstraint env ⟨transform.partitionFieldId, value⟩ transform
      (columnMapping table attrNo transform.sourceId) = some c →
    ∀ row : Row V, row attrNo = some v → c.eval row = some true

def Satisfied : Prop :=
  ∃ c, partitionFieldBoundConstraint env ⟨transform.partitionFieldId, value⟩ transform
      (columnMapping table attrNo transform.sourceId) = some c ∧
    ∀ row : Row V, row attrNo = some v → c.eval row = some true

/-- A file with the field in its tuple is not skipped for a row that has this value, unless its
    bounds or the other fields exclude the row. -/
def Keeps : Prop :=
  ∀ (clauses : List Clause) (dataFiles : List (DataFile V B)), ∀ file ∈ dataFiles,
    ∀ before after, file.partition = some (before ++ ⟨transform.partitionFieldId, value⟩ :: after) →
      Encloses {a | a ∈ columnsUsedInRestrictions env clauses} table file →
        ∀ row ∈ file.rows, row attrNo = some v → Matches env clauses row →
          InsidePartition env table clauses { file with partition := some (before ++ after) } row →
          (∀ clause ∈ extendedClauses env table clauses file, env.eval clause row = some true) →
            file ∈ pruneDataFiles env table dataFiles clauses .partialMatch

end

section
variable [LinearOrder V] {env : Env V B Clause} {table : Table V} {transform : PartitionTransform}
variable {attrNo : AttrNumber} {value : Option B} {v : V}

theorem Satisfied.admits (h : Satisfied env table transform attrNo value v) :
    Admits env table transform attrNo value v := by
  obtain ⟨c, hc, ht⟩ := h
  intro c' hc' r hr
  cases hc.symm.trans hc'
  exact ht r hr

theorem Partitions.constraint_isTrue (h : Partitions table transform attrNo)
    (ha : Admits env table transform attrNo value v) {cols : List AttrNumber}
    {e : (_ : AttrNumber) × ColumnMapping} (he : IsEntry table cols e)
    {trs : List PartitionTransform} (hsub : ∀ t ∈ trs, t ∈ table.partitionTransforms)
    {c : Constraint V}
    (hc : (findPartitionTransformById trs transform.partitionFieldId).bind (fun t =>
      if t.sourceId ≠ e.2.fieldId then none
      else partitionFieldBoundConstraint env ⟨transform.partitionFieldId, value⟩ t e.2) = some c)
    {r : Row V} (hr : r attrNo = some v) : c.eval r = some true := by
  obtain ⟨t, ht, hc⟩ := Option.bind_eq_some_iff.mp hc
  have hid := find?_some ht
  obtain rfl := h.unique t (hsub t (mem_of_find?_eq_some ht)) (of_decide_eq_true hid)
  obtain ⟨-, -, id, hf, heq⟩ := he
  split_ifs at hc with hsrc
  rw [heq, columnMapping_fieldId, not_not] at hsrc
  have hattrNo := (h.field e.1).mp (hsrc ▸ hf)
  rw [heq, hattrNo, ← hsrc] at hc
  exact ha c hc r hr

/-- **A field that admits the values of its rows loses none of them.** -/
theorem keeps_of_admits (henv : env.Refutes) (hops : table.HasOperatorClasses)
    (hp : Partitions table transform attrNo)
    (had : Admits env table transform attrNo value v) :
    Keeps env table transform attrNo value v := by
  intro cs dfs file hfi before after hpa hencloses r hr hv hm ho
    hcs
  refine partialMatch_sound_of_encloses hops hencloses _ env henv cs dfs
    (fun _ ha => ha) hfi r hr hm ⟨fun c hc => ?_, hcs⟩
  have ho := ho.constraints c
  simp only [partitionConstraints] at hc ho
  split_ifs at hc ho with hen
  · obtain ⟨e, he, hc⟩ := mem_flatMap.mp hc
    rw [hpa] at hc
    obtain ⟨f, hf, hc⟩ := mem_filterMap.mp hc
    have hca : f = ⟨transform.partitionFieldId, value⟩ ∨ f ∈ before ++ after := by
      simp only [Option.getD_some, mem_append, mem_cons] at hf ⊢
      tauto
    rcases hca with rfl | hf
    · have he' := isEntry_of_mem ((henv.hashOrder_perm _).mem_iff.mp he)
      have htr := hp.constraint_isTrue had he'
        (fun t ht => (mem_filter.mp ht).1) hc hv
      rw [htr]
      decide
    · refine ho (mem_flatMap.mpr ⟨e, he, mem_filterMap.mpr ⟨f, ?_, hc⟩⟩)
      exact hf
  · cases hc

/-! ## Ranges -/

/-- The transforms whose values stand for ranges of the column. -/
def TransformType.isRange : TransformType → Bool
  | .truncate | .year | .month | .day | .hour => true
  | .identity | .bucket | .void => false

/-- A column with the operators of a range. -/
structure IsRange (table : Table V) (transform : PartitionTransform) (attrNo : AttrNumber) : Prop where
  partitions : Partitions table transform attrNo
  isRange : transform.type.isRange = true
  supported : (table.column attrNo).collation.supported = true
  lessThan : (table.column attrNo).operator .lt = true
  greaterEqual : (table.column attrNo).operator .ge = true

omit [LinearOrder V] in
theorem IsRange.constraint (h : IsRange table transform attrNo) {bs : B} {range : V × V}
    (hr : env.partitionRange transform bs = some range) :
    partitionFieldBoundConstraint env ⟨transform.partitionFieldId, some bs⟩ transform
      (columnMapping table attrNo transform.sourceId) =
        some (.and (.cmp attrNo .lt range.2) (.cmp attrNo .ge range.1)) := by
  have htm : (columnMapping table attrNo transform.sourceId).columnBoundExclusiveUpper =
      some (⟨attrNo, .lt⟩, ⟨attrNo, .ge⟩) := by
    simp [columnMapping, h.supported, buildConstraintsWithNullConst, makeOpExpression, h.lessThan,
      h.greaterEqual]
  have hk := h.isRange
  unfold partitionFieldBoundConstraint
  cases ht : transform.type <;> rw [ht] at hk <;>
    simp_all [TransformType.isRange, createConstraintWithBounds, OpTemplate.fill]

/-- **The constraint of a range is TRUE on a value, and the file is kept for it, exactly if the
    value lies in the range.** -/
theorem range_sound_iff (h : IsRange table transform attrNo) (henv : env.Refutes)
    (hops : table.HasOperatorClasses) {bs : B} {range : V × V}
    (hra : env.partitionRange transform bs = some range) :
    Satisfied env table transform attrNo (some bs) v ∧
        Keeps env table transform attrNo (some bs) v ↔
      range.1 ≤ v ∧ v < range.2 := by
  have heval : ∀ r : Row V, r attrNo = some v →
      ((Pred.and (.cmp attrNo .lt range.2) (.cmp attrNo .ge range.1)).eval r = some true ↔
        range.1 ≤ v ∧ v < range.2) := by
    intro r hr
    rw [isTrue_and, isTrue_cmp, isTrue_cmp]
    simp only [hr, Option.some.injEq, exists_eq_left', Cmp.holds, decide_eq_true_eq]
    exact and_comm
  constructor
  · rintro ⟨⟨c, hc, ht⟩, -⟩
    cases (h.constraint hra).symm.trans hc
    exact (heval (fun _ => some v) rfl).mp (ht _ rfl)
  · intro hv
    have hs : Satisfied env table transform attrNo (some bs) v :=
      ⟨_, h.constraint hra, fun r hr => (heval r hr).mpr hv⟩
    exact ⟨hs, keeps_of_admits henv hops h.partitions hs.admits⟩

end

/-! ## A table with one column -/

variable (type : TransformType)

/-- The transform of the only column. -/
def columnTransform : PartitionTransform := ⟨1000, 1, type⟩

/-- A table partitioned by its only column, with any operators. -/
def columnTable (v : V) : Table V where
  kind := .internalIceberg
  column _ := ⟨.scalar, false, .invalid, fun _ => true⟩
  field attrNo := if attrNo = 1 then some 1 else none
  partitionTransforms := [columnTransform type]
  columnBoundDatum _ _ := v

theorem columnTable_partitions (v : V) :
    Partitions (columnTable type v) (columnTransform type) 1 where
  unique _ ht _ := mem_singleton.mp ht
  field a := by simp [columnTable, columnTransform]

theorem columnTable_isRange {type : TransformType} (h : type.isRange = true) (v : V) :
    IsRange (columnTable type v) (columnTransform type) 1 :=
  ⟨columnTable_partitions type v, h, rfl, rfl, rfl⟩

/-- The prover that tries constants, with the values and ranges of partition fields. -/
def partitionEnv [LinearOrder V] (v : V) (datum : B → V) (range : B → Option (V × V)) :
    Env V B (Constraint V) :=
  { equalityEnv v with
    enablePartitionPruning := true
    partitionValueToDatum := fun _ => datum
    partitionRange := fun _ => range }

theorem partitionEnv_refutes [LinearOrder V] (v : V) (datum : B → V)
    (range : B → Option (V × V)) : (partitionEnv v datum range).Refutes :=
  have h : (equalityEnv v : Env V B (Constraint V)).Refutes := equalityEnv_refutes v
  ⟨h.refuted, h.strip, h.hashOrder_perm⟩

/-! ## The fields used in a query -/

theorem mem_foldl_addFieldId {table : Table V} {a : AttrNumber} (used : List (AttrNumber × ℤ))
    (mp : FieldIdMapping) :
    a ∈ used.foldl (addFieldId table) mp ↔
      a ∈ mp ∨ a ∈ used.map Prod.fst ∧ (table.column a).kind = .scalar := by
  induction used generalizing mp with
  | nil => simp
  | cons x used ih =>
    rw [foldl_cons, ih, addFieldId]
    split_ifs with hk hm
    · grind
    · grind
    · simp only [AList.mem_insert, map_cons, mem_cons]
      grind

theorem mapM_field_cases (f : AttrNumber → Option ℤ) (cols : List AttrNumber) :
    (∃ fs, cols.mapM f = some fs ∧ (cols.zip fs).map Prod.fst = cols ∧
        ∀ b ∈ cols, f b ≠ none) ∨
      cols.mapM f = none ∧ ∃ b ∈ cols, f b = none := by
  induction cols with
  | nil => exact .inl ⟨[], by simp⟩
  | cons b cols ih =>
    cases hb : f b with
    | none => exact .inr ⟨by simp [hb], b, by simp, hb⟩
    | some id =>
      rcases ih with ⟨fs, hfs, hfst, hall⟩ | ⟨hn, a, ha, haf⟩
      · refine .inl ⟨id :: fs, by simp [hb, hfs], by simp [hfst], ?_⟩
        exact forall_mem_cons.mpr ⟨by simp [hb], hall⟩
      · exact .inr ⟨by simp [hb, hn], a, mem_cons_of_mem _ ha, haf⟩

theorem mem_addFieldIdsUsedInQuery {table : Table V} {cols : List AttrNumber} {a : AttrNumber} :
    a ∈ addFieldIdsUsedInQuery table cols ↔
      (∀ b ∈ cols, table.field b ≠ none) ∧ a ∈ cols ∧ (table.column a).kind = .scalar := by
  unfold addFieldIdsUsedInQuery
  rcases mapM_field_cases table.field cols with ⟨fs, hfs, hfst, hall⟩ | ⟨hn, b, hb, hbf⟩
  · simp only [hfs, mem_foldl_addFieldId, AList.notMem_empty, false_or, hfst]
    exact (and_iff_right hall).symm
  · simp only [hn, AList.notMem_empty, false_iff]
    exact fun h => h.1 b hb hbf

/-- The field id of each column is its attribute number. -/
def twoFields : Table ℤ where
  kind := .internalIceberg
  column _ := ⟨.scalar, false, .invalid, fun _ => true⟩
  field attrNo := some attrNo
  partitionTransforms := [⟨1000, 1, .identity⟩, ⟨1001, 2, .bucket⟩]
  columnBoundDatum _ _ := 0

/-- The field id of each column is one more than its attribute number. -/
def shiftedTable : Table ℤ :=
  { twoFields with
    field := fun attrNo => some (attrNo + 1)
    partitionTransforms := [⟨1000, 2, .identity⟩] }

end PgLake.Fdw.Pruning
