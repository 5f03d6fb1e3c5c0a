/-
  Pruning by bucket partitions.

  The code compares the buckets themselves: the tuple of a file gives `synthetic = bucket`, and for
  each clause `column = constant` the clauses are extended by `synthetic = bucket of the constant`.

  Main result: `bucket_sound_iff`.
-/
import Mathlib.Data.List.ReduceOption
import PgLake.Fdw.BucketTransform

namespace PgLake.Fdw.BucketPartitions

open Fallible List Option
open BucketTransform Iceberg.BinarySerde Pruning SqlPredicate WireBytes

variable {V Clause K : Type}

/-- What is read of the transform of a bucket field beside its type. -/
structure BucketField where
  attnum : AttrNumber
  column : BucketColumn

/-- Postgres on clauses, with constants of type `K`. -/
structure ClauseOps (Clause K : Type) where
  constantEqualityOperatorExpressionOnColumn : Clause → AttrNumber → Option K
  /-- the constant as a value of the column, if it has to be and can be coerced -/
  transformConstToTargetType : PartitionTransform → K → Except String (Option Datum)
  createConstraintWithEquality : OpTemplate → Int32 → Clause

section
variable (bucketField : PartitionTransform → BucketField) (ops : ClauseOps Clause K)

/-- The loop body of `ExtendBaseRestrictInfoForBucketPartition`. -/
def extendClause (partitionTransform : PartitionTransform)
    (syntheticColEqualityOperator : OpTemplate) (clause : Clause) :
    Except String (Option Clause) :=
  let field := bucketField partitionTransform
  match ops.constantEqualityOperatorExpressionOnColumn clause field.attnum with
  | none => .ok none
  | some constantClause => do
    match ← ops.transformConstToTargetType partitionTransform constantClause with
    | none => return none
    | some finalConst =>
      let constantBucketValue ← applyBucketTransformToColumn field.column finalConst
      return some (ops.createConstraintWithEquality syntheticColEqualityOperator constantBucketValue)

def extendBaseRestrictInfoForBucketPartition (clauses : List Clause)
    (partitionTransform : PartitionTransform) (syntheticColEqualityOperator : OpTemplate) :
    Except String (List Clause) :=
  (clauses.mapM (extendClause bucketField ops partitionTransform
    syntheticColEqualityOperator)).map List.reduceOption

/-- The synthetic column of a column, if the column is used in the query. -/
def syntheticColumn (fieldIdMapping : FieldIdMapping) (attrNo : AttrNumber) : Option OpTemplate :=
  (fieldIdMapping.lookup attrNo).bind (·.syntheticColEqualityOperator)

/-- The loop body of `ExtendClausesForBucketPartitioning`. -/
def syntheticClauses (transforms : List PartitionTransform) (fieldIdMapping : FieldIdMapping)
    (clauses : List Clause) (partitionField : PartitionField Bytes) : Except String (List Clause) :=
  match findPartitionTransformById transforms partitionField.fieldId with
  -- the field is not used in the query
  | none => .ok []
  | some transform =>
    if transform.type ≠ .bucket then .ok []
    else
      match syntheticColumn fieldIdMapping (bucketField transform).attnum with
      | none => .ok []
      | some template => extendBaseRestrictInfoForBucketPartition bucketField ops clauses transform template

/-- `ExtendClausesForBucketPartitioning`: the clauses and, for each field of the tuple, those about
    its synthetic column. -/
def extendClausesForBucketPartitioning (partition : Option (List (PartitionField Bytes)))
    (transforms : List PartitionTransform) (fieldIdMapping : FieldIdMapping)
    (clauses : List Clause) : Except String (List Clause) :=
  ((partition.getD []).mapM (syntheticClauses bucketField ops transforms fieldIdMapping clauses)).map
    fun synthetic => clauses ++ synthetic.flatten

end

section
variable {bucketField : PartitionTransform → BucketField} {ops : ClauseOps Clause K}

/-- A clause `synthetic = bucket` and the equality it is made of. -/
structure IsSynthetic (bucketField : PartitionTransform → BucketField) (ops : ClauseOps Clause K)
    (clauses : List Clause) (transform : PartitionTransform) (finalConst : Datum) (bucket : Int32) :
    Prop where
  equality : ∃ clause ∈ clauses, ∃ constant,
    ops.constantEqualityOperatorExpressionOnColumn clause (bucketField transform).attnum =
        some constant ∧
      ops.transformConstToTargetType transform constant = .ok (some finalConst)
  bucket : applyBucketTransformToColumn (bucketField transform).column finalConst = .ok bucket

variable {clause : Clause}

theorem extendClause_eq_some {transform : PartitionTransform} {tmpl : OpTemplate}
    {synthetic : Clause} :
    extendClause bucketField ops transform tmpl clause = .ok (some synthetic) ↔
      ∃ k finalConst bucket,
        ops.constantEqualityOperatorExpressionOnColumn clause (bucketField transform).attnum =
            some k ∧
          ops.transformConstToTargetType transform k = .ok (some finalConst) ∧
          applyBucketTransformToColumn (bucketField transform).column finalConst = .ok bucket ∧
          ops.createConstraintWithEquality tmpl bucket = synthetic := by
  unfold extendClause
  simp only
  cases hc :
      ops.constantEqualityOperatorExpressionOnColumn clause (bucketField transform).attnum with
  | none => simp
  | some k =>
    simp only [bind_eq_ok_iff, Option.some.injEq]
    constructor
    · rintro ⟨final, hf, h⟩
      cases final with
      | none => cases h
      | some finalConst =>
        obtain ⟨bucket, hb, h⟩ := bind_eq_ok_iff.mp h
        exact ⟨k, finalConst, bucket, rfl, hf, hb, Option.some.inj (Except.ok.inj h)⟩
    · rintro ⟨_, finalConst, bucket, rfl, hf, hb, rfl⟩
      exact ⟨_, hf, bind_eq_ok_iff.mpr ⟨bucket, hb, rfl⟩⟩

variable {clauses : List Clause}

theorem mem_extendBaseRestrictInfo {synthetic : List Clause}
    {transform : PartitionTransform} {tmpl : OpTemplate}
    (h : extendBaseRestrictInfoForBucketPartition bucketField ops clauses transform tmpl =
      .ok synthetic) :
    clause ∈ synthetic ↔ ∃ finalConst bucket,
      IsSynthetic bucketField ops clauses transform finalConst bucket ∧
        ops.createConstraintWithEquality tmpl bucket = clause := by
  obtain ⟨results, hr, rfl⟩ := map_eq_ok_iff.mp h
  rw [reduceOption_mem_iff, mem_of_mapM_eq_ok hr]
  simp only [extendClause_eq_some]
  constructor
  · rintro ⟨base, hba, k, finalConst, bucket, hc, hf, hb, heq⟩
    exact ⟨finalConst, bucket, ⟨⟨base, hba, k, hc, hf⟩, hb⟩, heq⟩
  · rintro ⟨finalConst, bucket, ⟨⟨base, hba, k, hc, hf⟩, hb⟩, heq⟩
    exact ⟨base, hba, k, finalConst, bucket, hc, hf, hb, heq⟩

/-- A bucket field of the tuple whose column is used in the query. -/
structure UsedField (bucketField : PartitionTransform → BucketField)
    (partition : Option (List (PartitionField Bytes))) (transforms : List PartitionTransform)
    (fieldIdMapping : FieldIdMapping) (field : PartitionField Bytes)
    (transform : PartitionTransform) (template : OpTemplate) : Prop where
  mem : field ∈ partition.getD []
  find : findPartitionTransformById transforms field.fieldId = some transform
  bucket : transform.type = .bucket
  synthetic : syntheticColumn fieldIdMapping (bucketField transform).attnum = some template

theorem mem_syntheticClauses {trs : List PartitionTransform}
    {fieldIdMapping : FieldIdMapping} {synthetic : List Clause}
    {part : Option (List (PartitionField Bytes))} {field : PartitionField Bytes}
    (hm : field ∈ part.getD [])
    (h : syntheticClauses bucketField ops trs fieldIdMapping clauses field = .ok synthetic)
    :
    clause ∈ synthetic ↔ ∃ transform tmpl finalConst bucket,
      UsedField bucketField part trs fieldIdMapping field transform tmpl ∧
        IsSynthetic bucketField ops clauses transform finalConst bucket ∧
        ops.createConstraintWithEquality tmpl bucket = clause := by
  unfold syntheticClauses at h
  constructor
  · intro hcl
    split at h
    · cases h
      exact nomatch hcl
    next transform hf =>
      split_ifs at h with ht
      · cases h
        exact nomatch hcl
      · split at h
        · cases h
          exact nomatch hcl
        next tmpl htm =>
          obtain ⟨finalConst, bucket, hsyn, heq⟩ := (mem_extendBaseRestrictInfo h).mp hcl
          exact ⟨transform, tmpl, finalConst, bucket, ⟨hm, hf, not_not.mp ht, htm⟩,
            hsyn, heq⟩
  · rintro ⟨transform, tmpl, finalConst, bucket, hu, hsyn, heq⟩
    simp only [hu.find, hu.bucket, ne_eq, not_true_eq_false, if_false, hu.synthetic] at h
    exact (mem_extendBaseRestrictInfo h).mpr ⟨finalConst, bucket, hsyn, heq⟩

/-- **The extended clauses are the clauses, and one for each equality on the column of a used
    bucket field.** -/
theorem mem_extendClauses {part : Option (List (PartitionField Bytes))}
    {trs : List PartitionTransform} {fieldIdMapping : FieldIdMapping}
    {extended : List Clause}
    (h : extendClausesForBucketPartitioning bucketField ops part trs fieldIdMapping
      clauses = .ok extended) :
    clause ∈ extended ↔ clause ∈ clauses ∨ ∃ field transform tmpl finalConst bucket,
      UsedField bucketField part trs fieldIdMapping field transform tmpl ∧
        IsSynthetic bucketField ops clauses transform finalConst bucket ∧
        ops.createConstraintWithEquality tmpl bucket = clause := by
  obtain ⟨lists, hl, rfl⟩ := map_eq_ok_iff.mp h
  rw [mem_append, mem_flatten]
  refine or_congr_right ⟨?_, ?_⟩
  · rintro ⟨synthetic, hsyn, hcl⟩
    obtain ⟨field, hm, hf⟩ := (mem_of_mapM_eq_ok hl).mp hsyn
    exact ⟨field, (mem_syntheticClauses hm hf).mp hcl⟩
  · rintro ⟨field, hr⟩
    have hm : field ∈ part.getD [] := by
      obtain ⟨_, _, _, _, hu, _⟩ := hr
      exact hu.mem
    obtain ⟨synthetic, hf⟩ := exists_of_mapM_eq_ok hl field hm
    exact ⟨synthetic, (mem_of_mapM_eq_ok hl).mpr ⟨field, hm, hf⟩,
      (mem_syntheticClauses hm hf).mpr hr⟩

end

/-! ## Constraints about one column -/

section
variable {table : Table V} {a : AttrNumber} {fieldId : ℤ} {c : Constraint V}

theorem isAbout_equality {v : V}
    (h : createConstraintWithEquality (columnMapping table a fieldId).equalityOperatorExpression v =
      some c) : isAbout a c = true := by
  obtain ⟨tmpl, ht, rfl⟩ := map_eq_some_iff.mp h
  rw [columnMapping_equality] at ht
  split_ifs at ht
  obtain ⟨-, ht⟩ := ite_none_right_eq_some.mp ht
  cases ht
  exact decide_eq_true rfl

theorem isAbout_isNull
    (h : (columnMapping table a fieldId).isNullExpression.map Pred.isNull = some c) :
    isAbout a c = true := by
  obtain ⟨a', ha', rfl⟩ := map_eq_some_iff.mp h
  rw [columnMapping_isNull] at ha'
  split_ifs at ha'
  cases ha'
  exact decide_eq_true rfl

theorem isAbout_bounds {col : Column} {lessThan greaterThan : Cmp} {lo hi : V}
    (h : createConstraintWithBounds (buildConstraintsWithNullConst col a lessThan greaterThan)
      lo hi = some c) : isAbout a c = true := by
  obtain ⟨tmpl, ht, rfl⟩ := map_eq_some_iff.mp h
  unfold buildConstraintsWithNullConst makeOpExpression at ht
  split_ifs at ht
  cases ht
  simp [isAbout, OpTemplate.fill]

theorem isAbout_exclusive {lo hi : V}
    (h : createConstraintWithBounds (columnMapping table a fieldId).columnBoundExclusiveUpper
      lo hi = some c) : isAbout a c = true := by
  rw [columnMapping_exclusiveUpper] at h
  split_ifs at h
  · exact isAbout_bounds h
  · cases h

theorem isAbout_stat {stat : ColumnStats}
    (h : statConstraint table (columnMapping table a fieldId) stat = some c) :
    isAbout a c = true := by
  obtain ⟨-, -, lo, hi, -, -, ⟨-, h⟩ | h⟩ := statConstraint_some h
  · obtain ⟨tmpl, ht, rfl⟩ := map_eq_some_iff.mp h
    obtain ⟨-, ht⟩ := ite_none_right_eq_some.mp ht
    cases ht
    exact decide_eq_true rfl
  · exact isAbout_bounds h

end

/-! ## Scans -/

/-- `MaxHeapAttributeNumber`: the synthetic columns lie above. -/
def maxHeapAttributeNumber : ℤ := 1600

/-- A scan of one file.  `int32GetDatum` makes a bucket a value of a synthetic column, `valueOf`
    a datum a value of its column. -/
structure BucketScan (V Clause K : Type) where
  env : Env V Bytes Clause
  table : Table V
  bucketField : PartitionTransform → BucketField
  ops : ClauseOps Clause K
  int32GetDatum : Int32 → V
  valueOf : AttrNumber → Datum → V
  clauses : List Clause
  file : Pruning.DataFile V Bytes

namespace BucketScan

variable (s : BucketScan V Clause K)

def mapping : FieldIdMapping :=
  addFieldIdsUsedInQuery s.table (columnsUsedInRestrictions s.env s.clauses)

/-- The transforms of the table that the query uses. -/
def transforms : List PartitionTransform := getPartitionTransformsUsedInQuery s.table s.mapping

def strippedClauses : List Clause := s.clauses.map s.env.stripAllImplicitCoercions

/-- The row with these data, as the clauses see it. -/
def row (data : AttrNumber → Option Datum) : Row V := fun a => (data a).map (s.valueOf a)

/-- The column of a bucket field. -/
def attnum (transform : PartitionTransform) : AttrNumber := (s.bucketField transform).attnum

/-- The bucket of a value. -/
def bucket (transform : PartitionTransform) (d : Datum) : Except String Int32 :=
  applyBucketTransformToColumn (s.bucketField transform).column d

/-- A bucket field of the tuple whose column is used in the query. -/
def Used (field : PartitionField Bytes) (transform : PartitionTransform) : Prop :=
  UsedField s.bucketField s.file.partition s.transforms s.mapping field transform
    ⟨maxAttrNumber - s.attnum transform, .eq⟩

/-- The values of the tuple's bucket fields are the buckets of the row. -/
def InTuple (data : AttrNumber → Option Datum) : Prop :=
  ∀ {field transform}, s.Used field transform → match data (s.attnum transform) with
    | none => field.value = none
    | some d => ∃ b, s.bucket transform d = .ok b ∧ field.value = some (int32Bytes b)

/-- All buckets of a column are the same number, and the constants of equalities have the bucket
    of the row. -/
structure Agrees (data : AttrNumber → Option Datum) : Prop where
  fields : ∀ {field field' transform transform'}, s.Used field transform →
    s.Used field' transform' → s.attnum transform = s.attnum transform' →
      ∀ {d}, data (s.attnum transform) = some d → s.bucket transform d = s.bucket transform' d
  constants : ∀ {field transform}, s.Used field transform → ∀ {finalConst b},
    IsSynthetic s.bucketField s.ops s.strippedClauses transform finalConst b →
      ∀ {d}, data (s.attnum transform) = some d → s.bucket transform finalConst = s.bucket transform d

variable [LinearOrder V]

/-- The code extends the clauses without an error, clauses have the meaning that Postgres gives
    them, and every bucket transform is of the column with its source field. -/
structure Lawful : Prop where
  refutes : s.env.Refutes
  operators : s.table.HasOperatorClasses
  enabled : s.env.enablePartitionPruning = true
  extended : extendClausesForBucketPartitioning s.bucketField s.ops s.file.partition s.transforms
    s.mapping s.strippedClauses = .ok (extendedClauses s.env s.table s.clauses s.file)
  columns : ∀ a ∈ columnsUsedInRestrictions s.env s.clauses, a ≤ maxHeapAttributeNumber
  attnum : ∀ t ∈ s.table.partitionTransforms, t.type = .bucket →
    ∀ a, s.table.field a = some t.sourceId ↔ a = s.attnum t
  /-- clauses of the query are about columns of the table -/
  heap : ∀ clause ∈ s.strippedClauses, ∀ {r r' : Row V},
    (∀ a ≤ maxHeapAttributeNumber, r a = r' a) → s.env.eval clause r = s.env.eval clause r'
  strict : ∀ clause ∈ s.strippedClauses, ∀ {a constant},
    s.ops.constantEqualityOperatorExpressionOnColumn clause a = some constant →
      ∀ {r : Row V}, s.env.eval clause r = some true → r a ≠ none
  synthetic : ∀ template b r, s.env.eval (s.ops.createConstraintWithEquality template b) r =
    (template.fill (s.int32GetDatum b)).eval r
  bucketValue : ∀ bytes, s.env.bucketValueDatum bytes = s.int32GetDatum (bytesInt32 bytes)
  int32GetDatum_injective : Function.Injective s.int32GetDatum

/-- The constraints of the other fields of the tuple are TRUE. -/
def OthersTrue (r : Row V) : Prop :=
  ∀ field ∈ s.file.partition.getD [], ∀ {transform},
    findPartitionTransformById s.transforms field.fieldId = some transform →
      transform.type ≠ .bucket → ∀ {a}, s.table.field a = some transform.sourceId → ∀ {c},
        partitionFieldBoundConstraint s.env field transform
            (columnMapping s.table a transform.sourceId) = some c → c.eval r = some true

/-- With some values in the synthetic columns, the row makes the extended clauses and the
    constraints of the tuple TRUE. -/
def JointlySatisfiable (data : AttrNumber → Option Datum) : Prop :=
  ∃ r : Row V, (∀ a ≤ maxHeapAttributeNumber, r a = s.row data a) ∧
    (∀ clause ∈ extendedClauses s.env s.table s.clauses s.file, s.env.eval clause r = some true) ∧
    ∀ c ∈ partitionConstraints s.env s.table s.clauses s.file, c.eval r = some true

/-! ## Constraints of the tuple -/

variable {s} {a : AttrNumber}

omit [LinearOrder V] in
theorem entry_of_mem {e : ColumnMapping} (h : ⟨a, e⟩ ∈ s.mapping.entries) :
    a ∈ columnsUsedInRestrictions s.env s.clauses ∧
      ∃ fieldId, s.table.field a = some fieldId ∧ e = columnMapping s.table a fieldId :=
  have := isEntry_of_mem h
  ⟨this.mem, this.entry_eq⟩

omit [LinearOrder V] in
theorem template_eq {tmpl : OpTemplate}
    (h : syntheticColumn s.mapping a = some tmpl) : tmpl = ⟨maxAttrNumber - a, .eq⟩ := by
  obtain ⟨e, he, h⟩ := bind_eq_some_iff.mp h
  obtain ⟨-, fieldId, -, rfl⟩ := entry_of_mem (AList.mem_lookup_iff.mp he)
  unfold columnMapping at h
  simp only at h
  split_ifs at h
  exact (Option.some.inj h).symm

variable {field : PartitionField Bytes} {transform : PartitionTransform}

theorem Used.le (hs : s.Lawful)
    (h : s.Used field transform) : s.attnum transform ≤ maxHeapAttributeNumber := by
  obtain ⟨e, he, -⟩ := bind_eq_some_iff.mp h.synthetic
  exact hs.columns _ (entry_of_mem (AList.mem_lookup_iff.mp he)).1

omit [LinearOrder V] in
theorem mem_partitionTransforms {fieldId : ℤ}
    (h : findPartitionTransformById s.transforms fieldId = some transform) :
    transform ∈ s.table.partitionTransforms :=
  (mem_filter.mp (mem_of_find?_eq_some h)).1

theorem Lawful.mem_partitionConstraints (hs : s.Lawful)
    (hu : s.Used field transform) {bs : Bytes} (hv : field.value = some bs) :
    Pred.cmp (maxAttrNumber - s.attnum transform) .eq (s.int32GetDatum (bytesInt32 bs)) ∈
      partitionConstraints s.env s.table s.clauses s.file := by
  obtain ⟨e, he, ht⟩ := bind_eq_some_iff.mp hu.synthetic
  have hm := AList.mem_lookup_iff.mp he
  obtain ⟨-, fieldId, hf, rfl⟩ := entry_of_mem hm
  have hsrc : transform.sourceId = fieldId := by
    have := (hs.attnum transform (mem_partitionTransforms hu.find) hu.bucket _).mpr rfl
    exact Option.some.inj (this.symm.trans hf)
  simp only [partitionConstraints, hs.enabled, if_true]
  refine mem_flatMap.mpr ⟨_, (hs.refutes.hashOrder_perm _).mem_iff.mpr hm,
    mem_filterMap.mpr ⟨field, hu.mem, ?_⟩⟩
  refine bind_eq_some_iff.mpr ⟨transform, hu.find, ?_⟩
  rw [if_neg]
  · simp only [partitionFieldBoundConstraint, hu.bucket, hv, createConstraintWithEquality,
      ht, hs.bucketValue]
    rfl
  · simp [hsrc]

theorem Lawful.partitionConstraint_cases (hs : s.Lawful) {c : Constraint V}
    (h : c ∈ partitionConstraints s.env s.table s.clauses s.file) :
    (∃ field transform bs, s.Used field transform ∧ field.value = some bs ∧
      c = .cmp (maxAttrNumber - s.attnum transform) .eq (s.int32GetDatum (bytesInt32 bs))) ∨
    ∃ field ∈ s.file.partition.getD [], ∃ transform,
      findPartitionTransformById s.transforms field.fieldId = some transform ∧
      transform.type ≠ .bucket ∧ ∃ a ≤ maxHeapAttributeNumber,
        s.table.field a = some transform.sourceId ∧
          partitionFieldBoundConstraint s.env field transform
            (columnMapping s.table a transform.sourceId) = some c := by
  simp only [partitionConstraints, hs.enabled, if_true] at h
  obtain ⟨⟨a, e⟩, he, h⟩ := mem_flatMap.mp h
  have hm := (hs.refutes.hashOrder_perm _).mem_iff.mp he
  obtain ⟨hcol, fieldId, hf, rfl⟩ := entry_of_mem hm
  obtain ⟨field, hfieldMem, h⟩ := mem_filterMap.mp h
  obtain ⟨transform, hfi, h⟩ := bind_eq_some_iff.mp h
  split_ifs at h with hsrc
  rw [columnMapping_fieldId, not_not] at hsrc
  subst hsrc
  by_cases hb : transform.type = .bucket
  · left
    obtain rfl : a = s.attnum transform :=
      (hs.attnum transform (mem_partitionTransforms hfi) hb a).mp hf
    cases hv : field.value with
    | none => simp [partitionFieldBoundConstraint, hb, hv] at h
    | some bs =>
      simp only [partitionFieldBoundConstraint, hb, hv] at h
      obtain ⟨template, ht, rfl⟩ := map_eq_some_iff.mp h
      have hsyn : syntheticColumn s.mapping (s.attnum transform) = some template :=
        bind_eq_some_iff.mpr ⟨_, AList.mem_lookup_iff.mpr hm, ht⟩
      obtain rfl := template_eq hsyn
      refine ⟨field, transform, bs, ⟨hfieldMem, hfi, hb, hsyn⟩, hv, ?_⟩
      rw [hs.bucketValue]
      rfl
  · exact .inr ⟨field, hfieldMem, transform, hfi, hb, a, hs.columns a hcol, hf, h⟩

omit [LinearOrder V] in
theorem isAbout_of_ne_bucket (hb : transform.type ≠ .bucket) {c : Constraint V}
    (h : partitionFieldBoundConstraint s.env field transform
      (columnMapping s.table a transform.sourceId) = some c) : isAbout a c = true := by
  unfold partitionFieldBoundConstraint at h
  split at h
  · exact isAbout_equality h
  · exact isAbout_isNull h
  · cases h
  · cases h
  next ht _ => exact absurd ht hb
  · obtain ⟨range, -, h⟩ := bind_eq_some_iff.mp h
    exact isAbout_exclusive h

/-! ## Values of the synthetic columns -/

theorem isTrue_equality {r : Row V} {v : V} :
    (Pred.cmp a .eq v).eval r = some true ↔ r a = some v := by
  rw [isTrue_cmp]
  simp [Cmp.holds]

section
variable {data : AttrNumber → Option Datum} (hs : s.Lawful)
include hs

theorem Lawful.eval_synthetic {transform : PartitionTransform} {b : Int32} {r : Row V} :
    s.env.eval (s.ops.createConstraintWithEquality ⟨maxAttrNumber - s.attnum transform, .eq⟩ b) r =
        some true ↔
      r (maxAttrNumber - s.attnum transform) = some (s.int32GetDatum b) := by
  rw [hs.synthetic]
  exact isTrue_equality

theorem Lawful.exists_data (hma : Matches s.env s.clauses (s.row data))
    {transform : PartitionTransform} {finalConst : Datum} {b : Int32}
    (h : IsSynthetic s.bucketField s.ops s.strippedClauses transform finalConst b) :
    ∃ d, data (s.attnum transform) = some d := by
  obtain ⟨clause, hcl, k, hc, -⟩ := h.equality
  obtain ⟨clause, hm, rfl⟩ := mem_map.mp hcl
  have ht := hs.refutes.strip (hma clause hm)
  have hv := hs.strict _ hcl hc ht
  refine ne_none_iff_exists'.mp fun hn => hv ?_
  exact congrArg (Option.map _) hn

theorem agrees_of_jointlySatisfiable
    (htu : s.InTuple data) (h : s.JointlySatisfiable data) : s.Agrees data := by
  obtain ⟨r, -, hcs, hc⟩ := h
  -- the constraint of a used field
  have hf : ∀ {field transform}, s.Used field transform → ∀ {d},
      data (s.attnum transform) = some d → ∃ b, s.bucket transform d = .ok b ∧
        r (maxAttrNumber - s.attnum transform) = some (s.int32GetDatum b) := by
    intro field transform hu d hd
    have hbu := htu hu
    rw [hd] at hbu
    obtain ⟨b, hb, hv⟩ := hbu
    have ht := hc _ (hs.mem_partitionConstraints hu hv)
    rw [bytesInt32_int32Bytes] at ht
    exact ⟨b, hb, isTrue_equality.mp ht⟩
  constructor
  · intro field field' transform transform' hu hu' hsa d hd
    obtain ⟨b, hb, hr⟩ := hf hu hd
    obtain ⟨b', hb', hr'⟩ := hf hu' (hsa ▸ hd)
    rw [hsa, hr'] at hr
    rw [hb, hb', hs.int32GetDatum_injective (Option.some.inj hr)]
  · intro field transform hu finalConst b hsyn d hd
    obtain ⟨b', hb', hr'⟩ := hf hu hd
    have hm := (mem_extendClauses hs.extended).mpr
      (.inr ⟨field, transform, _, finalConst, b, hu, hsyn, rfl⟩)
    have hr := hs.eval_synthetic.mp (hcs _ hm)
    rw [hr'] at hr
    rw [hb', hs.int32GetDatum_injective (Option.some.inj hr)]
    exact hsyn.bucket

end

def Demands (s : BucketScan V Clause K) (data : AttrNumber → Option Datum) (a : AttrNumber)
    (b : Int32) : Prop :=
  ∃ field transform d, s.Used field transform ∧ a = maxAttrNumber - s.attnum transform ∧
    data (s.attnum transform) = some d ∧ s.bucket transform d = .ok b

variable {data : AttrNumber → Option Datum}

omit [LinearOrder V] in
theorem Agrees.unique (h : s.Agrees data)
    {b b' : Int32} (hb : s.Demands data a b) (hb' : s.Demands data a b') : b = b' := by
  obtain ⟨field, transform, d, hu, ha, hd, hb⟩ := hb
  obtain ⟨field', transform', d', hu', ha', hd', hb'⟩ := hb'
  have hsa : s.attnum transform = s.attnum transform' := sub_right_inj.mp (ha.symm.trans ha')
  cases hd.symm.trans (hsa ▸ hd')
  exact Except.ok.inj (hb.symm.trans ((h.fields hu hu' hsa hd).trans hb'))

/-- The row with the demanded buckets in the synthetic columns. -/
noncomputable def bucketRow (s : BucketScan V Clause K) (data : AttrNumber → Option Datum) : Row V :=
  fun a =>
    if a ≤ maxHeapAttributeNumber then s.row data a
    else @dite _ (∃ b, s.Demands data a b) (Classical.propDecidable _)
      (fun h => some (s.int32GetDatum h.choose)) fun _ => none

omit [LinearOrder V] in
theorem bucketRow_of_le (ha : a ≤ maxHeapAttributeNumber) : s.bucketRow data a = s.row data a :=
  if_pos ha

theorem Agrees.bucketRow_synthetic (h : s.Agrees data) (hs : s.Lawful)
    (hu : s.Used field transform) {d : Datum} (hd : data (s.attnum transform) = some d)
    {b : Int32} (hb : s.bucket transform d = .ok b) :
    s.bucketRow data (maxAttrNumber - s.attnum transform) = some (s.int32GetDatum b) := by
  have hle : (1600 : ℤ) ≥ s.attnum transform := hu.le hs
  have hde : s.Demands data (maxAttrNumber - s.attnum transform) b :=
    ⟨field, transform, d, hu, rfl, hd, hb⟩
  have hex : ∃ b, s.Demands data (maxAttrNumber - s.attnum transform) b := ⟨b, hde⟩
  unfold bucketRow
  rw [if_neg, dif_pos hex, h.unique hex.choose_spec hde]
  show ¬ (32767 : ℤ) - s.attnum transform ≤ 1600
  omega

theorem jointlySatisfiable_of_agrees (hs : s.Lawful)
    (hma : Matches s.env s.clauses (s.row data)) (ht : s.InTuple data)
    (ho : s.OthersTrue (s.row data)) (h : s.Agrees data) : s.JointlySatisfiable data := by
  have hh : ∀ a ≤ maxHeapAttributeNumber, s.bucketRow data a = s.row data a :=
    fun a ha => bucketRow_of_le ha
  refine ⟨s.bucketRow data, hh, fun clause hcl => ?_, fun c hc => ?_⟩
  · rcases (mem_extendClauses hs.extended).mp hcl with
      hcl | ⟨field, transform, tmpl, finalConst, b, hu, hsyn, rfl⟩
    · rw [hs.heap clause hcl hh]
      obtain ⟨clause, hm, rfl⟩ := mem_map.mp hcl
      exact hs.refutes.strip (hma clause hm)
    · obtain rfl := template_eq hu.synthetic
      obtain ⟨d, hd⟩ := hs.exists_data hma hsyn
      have hb : s.bucket transform d = .ok b :=
        (h.constants hu hsyn hd).symm.trans hsyn.bucket
      exact hs.eval_synthetic.mpr (h.bucketRow_synthetic hs hu hd hb)
  · rcases hs.partitionConstraint_cases hc with
      ⟨field, transform, bs, hu, hv, rfl⟩ |
      ⟨field, hf, transform, hfi, hbu, a, ha, hsrc, hc⟩
    · have hst := ht hu
      cases hd : data (s.attnum transform) with
      | none =>
        rw [hd] at hst
        exact nomatch hv.symm.trans hst
      | some d =>
        rw [hd] at hst
        obtain ⟨b, hb, hv'⟩ := hst
        cases hv.symm.trans hv'
        rw [bytesInt32_int32Bytes]
        exact isTrue_equality.mpr (h.bucketRow_synthetic hs hu hd hb)
    · rw [eval_of_isAbout (hh a ha) (isAbout_of_ne_bucket hbu hc)]
      exact ho field hf hfi hbu hsrc hc

theorem JointlySatisfiable.kept (hs : s.Lawful)
    (he : Encloses {a | a ∈ columnsUsedInRestrictions s.env s.clauses} s.table s.file)
    (hr : s.row data ∈ s.file.rows)
    (h : s.JointlySatisfiable data) {dfs : List (Pruning.DataFile V Bytes)}
    (hfi : s.file ∈ dfs) :
    s.file ∈ pruneDataFiles s.env s.table dfs s.clauses .partialMatch := by
  obtain ⟨r, hh, hcs, hco⟩ := h
  refine partialMatch_keeps hs.refutes hfi hcs fun c hc => ?_
  rcases mem_getColumnBoundConstraints hs.refutes.hashOrder_perm hc with
    hc | ⟨-, a, hu, hsc, fieldId, hf, stat, hst, hc⟩
  · rw [hco c hc]
    decide
  · rw [eval_of_isAbout (hh _ (hs.columns _ hu)) (isAbout_stat hc)]
    exact statConstraint_not_false hs.operators he hu hsc hf hst hc hr

/-- **The constraints of a tuple with bucket fields and the extended clauses can be true together
    for a matching row of the file, which is then kept, exactly if the used bucket fields of a
    column put its value into the same bucket, and each constant that the column equals has the
    bucket of the value.** -/
theorem bucket_sound_iff (hs : s.Lawful)
    (hencloses : Encloses {a | a ∈ columnsUsedInRestrictions s.env s.clauses} s.table s.file)
    {data : AttrNumber → Option Datum} (hrow : s.row data ∈ s.file.rows)
    (hmatches : Matches s.env s.clauses (s.row data)) (htuple : s.InTuple data)
    (hothers : s.OthersTrue (s.row data)) :
    s.JointlySatisfiable data ∧ (∀ dataFiles, s.file ∈ dataFiles →
        s.file ∈ pruneDataFiles s.env s.table dataFiles s.clauses .partialMatch) ↔
      s.Agrees data := by
  constructor
  · rintro ⟨h, -⟩
    exact agrees_of_jointlySatisfiable hs htuple h
  · intro h
    have hsat := jointlySatisfiable_of_agrees hs hmatches htuple hothers h
    exact ⟨hsat, fun _ hfile => hsat.kept hs hencloses hrow hfile⟩

end BucketScan

/-! ## Two bucket fields on one column -/

/-- One column in two bucket fields. -/
def twoBucketsTable : Table ℤ :=
  { columnTable .bucket 0 with partitionTransforms := [⟨1000, 1, .bucket⟩, ⟨1001, 1, .bucket⟩] }

/-- Four buckets under field 1000 and eight under the other one. -/
def twoBuckets (transform : PartitionTransform) : BucketField :=
  ⟨1, .default, IdentityPartitions.stringIO, none, if transform.partitionFieldId = 1000 then 4 else 8⟩

def int4Ops : ClauseOps (Constraint ℤ) ℤ where
  constantEqualityOperatorExpressionOnColumn
    | .cmp a .eq v, attrNo => if a = attrNo then some v else none
    | _, _ => none
  transformConstToTargetType _ v := .ok (some (.int4 (Int32.ofInt v)))
  createConstraintWithEquality template b := template.fill b.toInt

def twoBucketsEnv : Env ℤ Bytes (Constraint ℤ) :=
  { partitionEnv 0 (fun _ => 0) (fun _ => none) with
    bucketValueDatum := fun bytes => (bytesInt32 bytes).toInt
    extendClausesForBucketPartitioning := fun partition transforms mapping clauses =>
      (extendClausesForBucketPartitioning twoBuckets int4Ops partition transforms mapping
        clauses).toOption.getD clauses }

/-- The filter `c = n` on a file with the given buckets. -/
def twoBucketsScan (n bucket4 bucket8 : Int32) : BucketScan ℤ (Constraint ℤ) ℤ where
  env := twoBucketsEnv
  table := twoBucketsTable
  bucketField := twoBuckets
  ops := int4Ops
  int32GetDatum b := b.toInt
  valueOf _ d := match d with
    | .int4 n => n.toInt
    | _ => 0
  clauses := [.cmp 1 .eq n.toInt]
  file :=
    { columnStats := []
      partition := some [⟨1000, some (int32Bytes bucket4)⟩, ⟨1001, some (int32Bytes bucket8)⟩]
      rows := [fun a => if a = 1 then some n.toInt else none] }

open BucketScan

theorem twoBucketsScan_lawful (n bucket4 bucket8 : Int32) :
    (twoBucketsScan n bucket4 bucket8).Lawful where
  refutes :=
    have h := partitionEnv_refutes (0 : ℤ) (fun _ : Bytes => 0) fun _ => none
    ⟨h.refuted, h.strip, h.hashOrder_perm⟩
  operators _ _ _ _ := rfl
  enabled := rfl
  extended := rfl
  columns a ha := by
    obtain rfl := mem_singleton.mp ha
    decide
  attnum t ht _ a := by
    have hsrc : t.sourceId = 1 := by
      simp only [twoBucketsScan, twoBucketsTable, mem_cons, not_mem_nil, or_false] at ht
      rcases ht with rfl | rfl <;> rfl
    simp [twoBucketsScan, twoBucketsTable, columnTable, hsrc, attnum, twoBuckets]
  heap clause hc r r' hsa := by
    obtain rfl := mem_singleton.mp hc
    exact congrArg (Option.map _) (hsa 1 (by decide))
  strict clause hc a constant hco r htr := by
    obtain rfl := mem_singleton.mp hc
    obtain ⟨rfl, -⟩ := ite_none_right_eq_some.mp hco
    obtain ⟨x, hx, -⟩ := isTrue_cmp.mp htr
    exact hx ▸ some_ne_none x
  synthetic _ _ _ := rfl
  bucketValue _ := rfl
  int32GetDatum_injective _ _ h := Int32.toInt_inj.mp h

/-- The row with `n` in its only column. -/
def int4Data (n : Int32) : AttrNumber → Option Datum := fun a => if a = 1 then some (.int4 n) else none

section
variable {n bucket4 bucket8 : Int32}

theorem twoBucketsScan_used {field : PartitionField Bytes} {transform : PartitionTransform}
    (h : (twoBucketsScan n bucket4 bucket8).Used field transform) :
    field = ⟨1000, some (int32Bytes bucket4)⟩ ∧ transform = ⟨1000, 1, .bucket⟩ ∨
      field = ⟨1001, some (int32Bytes bucket8)⟩ ∧ transform = ⟨1001, 1, .bucket⟩ := by
  have hf := h.find
  rcases mem_cons.mp h.mem with rfl | hm
  · exact .inl ⟨rfl, (Option.some.inj hf).symm⟩
  · obtain rfl := mem_singleton.mp hm
    exact .inr ⟨rfl, (Option.some.inj hf).symm⟩

theorem twoBucketsScan_inTuple
    (h4 : (twoBucketsScan n bucket4 bucket8).bucket ⟨1000, 1, .bucket⟩ (.int4 n) = .ok bucket4)
    (h8 : (twoBucketsScan n bucket4 bucket8).bucket ⟨1001, 1, .bucket⟩ (.int4 n) = .ok bucket8) :
    (twoBucketsScan n bucket4 bucket8).InTuple (int4Data n) := by
  intro field transform hu
  rcases twoBucketsScan_used hu with ⟨rfl, rfl⟩ | ⟨rfl, rfl⟩
  · exact ⟨bucket4, h4, rfl⟩
  · exact ⟨bucket8, h8, rfl⟩

theorem twoBucketsScan_othersTrue (r : Row ℤ) :
    (twoBucketsScan n bucket4 bucket8).OthersTrue r := by
  intro field hf transform hfi hb
  rcases mem_cons.mp hf with rfl | hf
  · exact absurd (Option.some.inj hfi ▸ rfl) hb
  · obtain rfl := mem_singleton.mp hf
    exact absurd (Option.some.inj hfi ▸ rfl) hb

theorem twoBucketsScan_row_mem : (twoBucketsScan n bucket4 bucket8).row (int4Data n) ∈
      (twoBucketsScan n bucket4 bucket8).file.rows := by
  refine mem_singleton.mpr (funext fun a => ?_)
  by_cases ha : a = 1 <;> simp [row, twoBucketsScan, int4Data, ha]

theorem twoBucketsScan_matches : Matches twoBucketsEnv (twoBucketsScan n bucket4 bucket8).clauses
      ((twoBucketsScan n bucket4 bucket8).row (int4Data n)) := by
  intro clause hcl
  obtain rfl := mem_singleton.mp hcl
  exact isTrue_equality.mpr rfl

theorem twoBucketsScan_agrees
    (h : ∀ transform, (twoBucketsScan n bucket4 bucket8).bucket ⟨1000, 1, .bucket⟩ (.int4 n) =
      (twoBucketsScan n bucket4 bucket8).bucket transform (.int4 n)) :
    (twoBucketsScan n bucket4 bucket8).Agrees (int4Data n) where
  fields _ _ _ d hd := by
    obtain rfl : .int4 n = d := Option.some.inj hd
    exact (h _).symm.trans (h _)
  constants _ finalConst b hsyn d hd := by
    obtain rfl : .int4 n = d := Option.some.inj hd
    obtain ⟨clause, hcl, constant, hc, hf⟩ := hsyn.equality
    obtain rfl := mem_singleton.mp hcl
    obtain rfl : n.toInt = constant := Option.some.inj hc
    cases Except.ok.inj hf
    rw [Int32.ofInt_toInt]

end

/-- 3 is in bucket 3 of 4 and of 8. -/
theorem bucket_sound_iff_same_bucket : (twoBucketsScan 3 3 3).JointlySatisfiable (int4Data 3) ∧
      ∀ dataFiles, (twoBucketsScan 3 3 3).file ∈ dataFiles → (twoBucketsScan 3 3 3).file ∈
        pruneDataFiles twoBucketsEnv twoBucketsTable dataFiles [.cmp 1 .eq 3] .partialMatch := by
  have h4 : (twoBucketsScan 3 3 3).bucket ⟨1000, 1, .bucket⟩ (.int4 3) = .ok 3 := by
    decide +kernel
  have h8 : (twoBucketsScan 3 3 3).bucket ⟨1001, 1, .bucket⟩ (.int4 3) = .ok 3 := by
    decide +kernel
  refine (bucket_sound_iff (twoBucketsScan_lawful 3 3 3)
    (fun _ _ _ _ _ h => nomatch h.mem) twoBucketsScan_row_mem twoBucketsScan_matches
    (twoBucketsScan_inTuple h4 h8) (twoBucketsScan_othersTrue _)).mpr
    (twoBucketsScan_agrees fun transform => ?_)
  by_cases hid : transform.partitionFieldId = 1000
  · simp [bucket, twoBucketsScan, twoBuckets, hid]
  · have hbuckets : (twoBucketsScan 3 3 3).bucketField transform = twoBuckets ⟨1001, 1, .bucket⟩ := by
      simp [twoBucketsScan, twoBuckets, hid]
    rw [h4, ← h8, bucket, bucket, hbuckets]
    rfl

/-- 5 is in bucket 3 of 4, and in bucket 7 of 8: a query for 5 skips its file. -/
theorem five_is_in_two_buckets :
    (twoBucketsScan 5 3 7).Lawful ∧ (twoBucketsScan 5 3 7).InTuple (int4Data 5) ∧
      (twoBucketsScan 5 3 7).row (int4Data 5) ∈ (twoBucketsScan 5 3 7).file.rows ∧
      Matches twoBucketsEnv [.cmp 1 .eq 5] ((twoBucketsScan 5 3 7).row (int4Data 5)) ∧
      ¬ (twoBucketsScan 5 3 7).JointlySatisfiable (int4Data 5) ∧
      pruneDataFiles twoBucketsEnv twoBucketsTable [(twoBucketsScan 5 3 7).file] [.cmp 1 .eq 5]
        .partialMatch = [] := by
  have h4 : (twoBucketsScan 5 3 7).bucket ⟨1000, 1, .bucket⟩ (.int4 5) = .ok 3 := by
    decide +kernel
  have h8 : (twoBucketsScan 5 3 7).bucket ⟨1001, 1, .bucket⟩ (.int4 5) = .ok 7 := by
    decide +kernel
  have htuple : (twoBucketsScan 5 3 7).InTuple (int4Data 5) := twoBucketsScan_inTuple h4 h8
  refine ⟨twoBucketsScan_lawful 5 3 7, htuple, twoBucketsScan_row_mem,
    @twoBucketsScan_matches 5 3 7, ?_, rfl⟩
  intro hsat
  have hagrees := agrees_of_jointlySatisfiable (twoBucketsScan_lawful 5 3 7) htuple hsat
  have hused : (twoBucketsScan 5 3 7).Used ⟨1000, some (int32Bytes 3)⟩ ⟨1000, 1, .bucket⟩ :=
    ⟨mem_cons_self, rfl, rfl, rfl⟩
  have hused' : (twoBucketsScan 5 3 7).Used ⟨1001, some (int32Bytes 7)⟩ ⟨1001, 1, .bucket⟩ :=
    ⟨mem_cons_of_mem _ mem_cons_self, rfl, rfl, rfl⟩
  have hsame := hagrees.fields hused hused' rfl rfl
  exact nomatch hsame

/-! ## Constants -/

/-- The coercion to the type of the column does not raise an error, and neither does the bucket of
    its result. -/
def Fits (bucketField : PartitionTransform → BucketField) (ops : ClauseOps Clause K)
    (transform : PartitionTransform) (constant : K) : Prop :=
  ∃ final, ops.transformConstToTargetType transform constant = .ok final ∧
    ∀ d ∈ final, ∃ b, applyBucketTransformToColumn (bucketField transform).column d = .ok b

section
variable {bucketField : PartitionTransform → BucketField} {ops : ClauseOps Clause K}

theorem exists_extendClause {transform : PartitionTransform} {tmpl : OpTemplate}
    {clause : Clause} (h : ∀ k, ops.constantEqualityOperatorExpressionOnColumn clause
        (bucketField transform).attnum = some k → Fits bucketField ops transform k) :
    ∃ r, extendClause bucketField ops transform tmpl clause = .ok r := by
  unfold extendClause
  simp only
  split
  · exact ⟨_, rfl⟩
  · rename_i k hc
    obtain ⟨final, hf, hbu⟩ := h k hc
    simp only [bind_eq_ok_iff]
    cases final with
    | none => exact ⟨none, none, hf, rfl⟩
    | some d =>
      obtain ⟨b, hb⟩ := hbu d rfl
      exact ⟨_, some d, hf, bind_eq_ok_iff.mpr ⟨b, hb, rfl⟩⟩

/-- **The clauses are extended without an error** if every constant that is compared with the
    column of a used bucket field is coerced and bucketed without one. -/
theorem exists_extendClauses {part : Option (List (PartitionField Bytes))}
    {trs : List PartitionTransform} {fieldIdMapping : FieldIdMapping}
    {clauses : List Clause} (h : ∀ field transform tmpl,
      UsedField bucketField part trs fieldIdMapping field transform tmpl →
      ∀ clause ∈ clauses, ∀ k, ops.constantEqualityOperatorExpressionOnColumn clause
        (bucketField transform).attnum = some k → Fits bucketField ops transform k) :
    ∃ synthetic, extendClausesForBucketPartitioning bucketField ops part trs
      fieldIdMapping clauses = .ok (clauses ++ synthetic) := by
  have hfs : ∃ lists, (part.getD []).mapM
      (syntheticClauses bucketField ops trs fieldIdMapping clauses) = .ok lists := by
    refine exists_mapM_iff.mpr fun field hf => ?_
    unfold syntheticClauses
    split
    · exact ⟨_, rfl⟩
    · rename_i transform hfi
      split_ifs with ht
      · exact ⟨_, rfl⟩
      · split
        · exact ⟨_, rfl⟩
        · rename_i tmpl htm
          refine exists_map_eq_ok_iff.mpr (exists_mapM_iff.mpr fun clause hcl => ?_)
          exact exists_extendClause
            (h field transform tmpl ⟨hf, hfi, not_not.mp ht, htm⟩ clause hcl)
  obtain ⟨lists, hl⟩ := hfs
  exact ⟨lists.flatten, map_eq_ok_iff.mpr ⟨lists, hl, rfl⟩⟩

end

end PgLake.Fdw.BucketPartitions
