/-
  Pruning by the fields of truncate transforms of integer columns (`truncate_utils.c`,
  `ApplyTruncateTransformToColumn`, `TruncatePartitionFieldBoundConstraint`).

  A value is stored as the multiple of the width below it, and the constraint is the range from
  there to the next multiple.

  Main result: `truncate_sound_iff`.
-/
import PgLake.Fdw.PartitionBounds
import PgLake.Iceberg.BinarySerde
import PgLake.Iceberg.PartitionTuples

namespace PgLake.Fdw.TruncatePartitions

open Pruning Iceberg.BinarySerde Iceberg.Partitioning MachineInt WireBytes Int

/-- A value of an integer type. -/
inductive IntValue where
  | int2 (n : Int16)
  | int4 (n : Int32)
  | int8 (n : Int64)
  deriving DecidableEq

inductive IntType where
  | int2
  | int4
  | int8
  deriving DecidableEq

/-- The type of a value. -/
def IntValue.type : IntValue → IntType
  | .int2 _ => .int2
  | .int4 _ => .int4
  | .int8 _ => .int8

/-- The number a value stands for. -/
def IntValue.toInt : IntValue → ℤ
  | .int2 n => n.toInt
  | .int4 n => n.toInt
  | .int8 n => n.toInt

def truncated (val width : Int64) : Int64 := val - (val % width + width) % width

def icebergTruncateTransformInt32 (val : Int32) (width : Int64) : Int32 :=
  (truncated val.toInt64 width).toInt32

def icebergTruncateTransformInt64 (val width : Int64) : Int64 := truncated val width

def applyTruncateTransformToColumn (truncateLen : Int32) (columnValue : Option IntValue) :
    Option Bytes :=
  columnValue.map fun
    -- Iceberg has no short type
    | .int2 n => int32Bytes (icebergTruncateTransformInt32 n.toInt32 truncateLen.toInt64)
    | .int4 n => int32Bytes (icebergTruncateTransformInt32 n truncateLen.toInt64)
    | .int8 n => int64Bytes (icebergTruncateTransformInt64 n truncateLen.toInt64)

def IntType.physicalType : IntType → PhysicalType
  | .int2 | .int4 => .int32
  | .int8 => .int64

/-- The partition field as it is stored for a value. -/
def storedField (fieldId truncateLen : Int32) (type : IntType) (columnValue : Option IntValue) :
    PartitionField :=
  copyField ⟨fieldId, type.physicalType, applyTruncateTransformToColumn truncateLen columnValue⟩

/-- `pg_add_s32_overflow`, `none` being an overflow. -/
def pgAddS32Overflow (a b : Int32) : Option Int32 :=
  if -2 ^ 31 ≤ a.toInt + b.toInt ∧ a.toInt + b.toInt < 2 ^ 31 then some (a + b) else none

def pgAddS64Overflow (a b : Int64) : Option Int64 :=
  if -2 ^ 63 ≤ a.toInt + b.toInt ∧ a.toInt + b.toInt < 2 ^ 63 then some (a + b) else none

/-- The bounds of `TruncatePartitionFieldBoundConstraint`, as values of the column. -/
def truncateRange (type : IntType) (truncateLen : Int32) (value : Bytes) : ℤ × ℤ :=
  match type with
  | .int2 =>
    let partitionValue := bytesInt32 value
    let upperBound := (pgAddS32Overflow partitionValue truncateLen).getD Int32.maxValue
    (partitionValue.toInt16.toInt, upperBound.toInt16.toInt)
  | .int4 =>
    let partitionValue := bytesInt32 value
    let upperBound := (pgAddS32Overflow partitionValue truncateLen).getD Int32.maxValue
    (partitionValue.toInt, upperBound.toInt)
  | .int8 =>
    let partitionValue := bytesInt64 value
    let upperBound := (pgAddS64Overflow partitionValue truncateLen.toInt64).getD Int64.maxValue
    (partitionValue.toInt, upperBound.toInt)

/-! ## What is stored -/

/-- The multiple of `w` at or below `v`. -/
def floorTo (w v : ℤ) : ℤ := v - v % w

theorem toInt_truncated {val width : Int64} (hpos : 0 < width.toInt) (hlt : width.toInt < 2 ^ 31) :
    (truncated val width).toInt = (floorTo width.toInt val.toInt).bmod (2 ^ 64) := by
  have hrem := tmod_lt_of_pos val.toInt hpos
  have hrem' := lt_tmod_of_pos val.toInt hpos
  have hsum : (val % width + width).toInt = val.toInt.tmod width.toInt + width.toInt := by
    rw [Int64.toInt_add, Int64.toInt_mod, bmod_eq_of_le (by omega) (by omega)]
  rw [truncated, Int64.toInt_sub, Int64.toInt_mod, hsum, tmod_add_tmod hpos, floorTo]

theorem toInt_truncateInt32 {val : Int32} {width : Int64} (hpos : 0 < width.toInt)
    (hlt : width.toInt < 2 ^ 31) :
    (icebergTruncateTransformInt32 val width).toInt =
      (floorTo width.toInt val.toInt).bmod (2 ^ 32) := by
  rw [icebergTruncateTransformInt32, Int64.toInt_toInt32, toInt_truncated hpos hlt,
    Int32.toInt_toInt64, bmod_bmod_of_dvd (by decide)]

theorem toInt_addS32 (a b : Int32) : ((pgAddS32Overflow a b).getD Int32.maxValue).toInt =
      if -2 ^ 31 ≤ a.toInt + b.toInt ∧ a.toInt + b.toInt < 2 ^ 31 then a.toInt + b.toInt
      else 2 ^ 31 - 1 := by
  unfold pgAddS32Overflow
  split_ifs with h
  · rw [Option.getD_some, Int32.toInt_add, bmod_eq_of_le (by omega) (by omega)]
  · rfl

theorem toInt_addS64 (a b : Int64) : ((pgAddS64Overflow a b).getD Int64.maxValue).toInt =
      if -2 ^ 63 ≤ a.toInt + b.toInt ∧ a.toInt + b.toInt < 2 ^ 63 then a.toInt + b.toInt
      else 2 ^ 63 - 1 := by
  unfold pgAddS64Overflow
  split_ifs with h
  · rw [Option.getD_some, Int64.toInt_add, bmod_eq_of_le (by omega) (by omega)]
  · rfl

/-! ## Ranges that contain the value -/

section
variable {w v : ℤ}

theorem floorTo_le (hw : 0 < w) : floorTo w v ≤ v := by
  have hn := emod_nonneg v hw.ne'
  rw [floorTo]
  omega

theorem lt_floorTo_add (hw : 0 < w) : v < floorTo w v + w := by
  have hlt := emod_lt_of_pos v hw
  rw [floorTo]
  omega

theorem floorTo_of_nonneg (hv : 0 ≤ v) (h : v < w) : floorTo w v = 0 := by
  rw [floorTo, emod_eq_of_lt hv h, sub_self]

theorem floorTo_of_neg (hv : v < 0) (h : -w ≤ v) : floorTo w v = -w := by
  have hmod : v % w = v + w := by
    rw [← add_emod_right, emod_eq_of_lt (by omega) (by omega)]
  rw [floorTo, hmod]
  omega

theorem wrapped_range_iff {H : ℕ} (hw : 0 < w) (hwH : w < H) (hv : -H ≤ v ∧ v < H) {lo : ℤ}
    (hl : lo = (floorTo w v).bmod (2 * H)) :
    (lo ≤ v ∧ v < if -H ≤ lo + w ∧ lo + w < H then lo + w else H - 1) ↔
      v ≠ H - 1 ∧ -H ≤ floorTo w v := by
  have hle := floorTo_le (v := v) hw
  have hlt := lt_floorTo_add (v := v) hw
  by_cases hf : -(H : ℤ) ≤ floorTo w v
  · rw [bmod_eq_of_le (by omega) (by omega)] at hl
    split_ifs <;> omega
  · have hwrap : (floorTo w v).bmod (2 * H) = floorTo w v + 2 * H := by
      rw [← add_bmod_right, bmod_eq_of_le (by omega) (by omega)]
      rfl
    omega

def ShortFits (w v : ℤ) : Prop :=
  if w < 2 ^ 15 then -2 ^ 15 ≤ floorTo w v ∧ floorTo w v + w < 2 ^ 15
  else if v < 0 then (-w).bmod (2 ^ 16) ≤ v
  else v < w.bmod (2 ^ 16)

instance (w v : ℤ) : Decidable (ShortFits w v) :=
  inferInstanceAs (Decidable (if w < 2 ^ 15 then _ else _))

theorem short_range_iff (hw : 0 < w) (hv : -2 ^ 15 ≤ v ∧ v < 2 ^ 15) :
    (floorTo w v).bmod (2 ^ 16) ≤ v ∧ v < (floorTo w v + w).bmod (2 ^ 16) ↔ ShortFits w v := by
  unfold ShortFits
  split_ifs with hs hneg
  · have hle := floorTo_le (v := v) hw
    have hlt := lt_floorTo_add (v := v) hw
    rw [bmod_def, bmod_def]
    omega
  · rw [floorTo_of_neg hneg (by omega), neg_add_cancel, zero_bmod]
    omega
  · rw [floorTo_of_nonneg (by omega) (by omega), zero_add, zero_bmod]
    omega

theorem short_room (hw : 0 < w) (hlt : w < 2 ^ 31) (hv : -2 ^ 15 ≤ v ∧ v < 2 ^ 15) :
    -2 ^ 31 ≤ floorTo w v ∧ floorTo w v + w < 2 ^ 31 := by
  have hle := floorTo_le (v := v) hw
  have hlt := lt_floorTo_add (v := v) hw
  by_cases hs : w < 2 ^ 15
  · omega
  · by_cases hneg : v < 0
    · rw [floorTo_of_neg hneg (by omega)]
      omega
    · rw [floorTo_of_nonneg (by omega) (by omega)]
      omega

end

def IntValue.Fits (width : ℤ) : IntValue → Prop
  | .int2 n => ShortFits width n.toInt
  | .int4 n => n.toInt ≠ 2 ^ 31 - 1 ∧ -2 ^ 31 ≤ floorTo width n.toInt
  | .int8 n => n.toInt ≠ 2 ^ 63 - 1 ∧ -2 ^ 63 ≤ floorTo width n.toInt

instance (width : ℤ) (value : IntValue) : Decidable (value.Fits width) :=
  match value with
  | .int2 _ => inferInstanceAs (Decidable (ShortFits _ _))
  | .int4 _ => inferInstanceAs (Decidable (_ ∧ _))
  | .int8 _ => inferInstanceAs (Decidable (_ ∧ _))

open IntValue

theorem range_contains_iff {width : Int32} (hpos : 0 < width.toInt) (v : IntValue) :
    ∃ bs, applyTruncateTransformToColumn width (some v) = some bs ∧ bs ≠ [] ∧
      ((truncateRange v.type width bs).1 ≤ v.toInt ∧
          v.toInt < (truncateRange v.type width bs).2 ↔
        v.Fits width.toInt) := by
  have hlt := width.toInt_lt
  have hlen : width.toInt64.toInt = width.toInt := Int32.toInt_toInt64 _
  cases v with
  | int2 n =>
    refine ⟨_, rfl, int32Bytes_ne_nil _, ?_⟩
    have hv := And.intro n.le_toInt n.toInt_lt
    obtain ⟨hl, hu⟩ := short_room hpos hlt hv
    have hf : (icebergTruncateTransformInt32 n.toInt32 width.toInt64).toInt =
        floorTo width.toInt n.toInt := by
      rw [toInt_truncateInt32 (hlen ▸ hpos) (hlen ▸ hlt), hlen, Int16.toInt_toInt32,
        bmod_eq_of_le (by omega) (by omega)]
    simp only [type, truncateRange, bytesInt32_int32Bytes, Int32.toInt_toInt16,
      toInt_addS32, hf, toInt, IntValue.Fits]
    rw [if_pos ⟨by omega, hu⟩]
    exact short_range_iff hpos hv
  | int4 n =>
    refine ⟨_, rfl, int32Bytes_ne_nil _, ?_⟩
    simp only [type, truncateRange, bytesInt32_int32Bytes, toInt_addS32, toInt, IntValue.Fits]
    refine wrapped_range_iff (H := 2 ^ 31) hpos hlt ⟨n.le_toInt, n.toInt_lt⟩ ?_
    rw [toInt_truncateInt32 (hlen ▸ hpos) (hlen ▸ hlt), hlen]
    rfl
  | int8 n =>
    refine ⟨_, rfl, int64Bytes_ne_nil _, ?_⟩
    simp only [type, truncateRange, bytesInt64_int64Bytes, toInt_addS64, toInt, IntValue.Fits, hlen]
    refine wrapped_range_iff (H := 2 ^ 63) hpos (hlt.trans (by decide)) ⟨n.le_toInt, n.toInt_lt⟩ ?_
    rw [icebergTruncateTransformInt64, toInt_truncated (hlen ▸ hpos) (hlen ▸ hlt), hlen]
    rfl

/-! ## Soundness -/

variable {Clause : Type}

/-- A column partitioned by truncation, with the ranges of the pruning code. -/
structure IsTruncate (env : Env ℤ Bytes Clause) (table : Table ℤ) (transform : PartitionTransform)
    (attrNo : AttrNumber) (type : IntType) (truncateLen : Int32) : Prop where
  isRange : IsRange table transform attrNo
  truncate : transform.type = .truncate
  range : ∀ bytes, env.partitionRange transform bytes = some (truncateRange type truncateLen bytes)

/-- The constraint rebuilt from the stored value is TRUE on the value, and scans keep the file. -/
def TruncateSound (env : Env ℤ Bytes Clause) (table : Table ℤ) (transform : PartitionTransform)
    (attrNo : AttrNumber) (truncateLen : Int32) (value : IntValue) : Prop :=
  let field := storedField (Int32.ofInt transform.partitionFieldId) truncateLen value.type (some value)
  Satisfied env table transform attrNo field.value value.toInt ∧
    Keeps env table transform attrNo field.value value.toInt

/-- **The range of a truncate partition contains a value exactly if its lower bound does not wrap
    and, for int4 and int8, the value is not the largest one; for int2, if both bounds are int2
    or happen to be read as bounds around the value.** -/
theorem truncate_sound_iff {env : Env ℤ Bytes Clause} {table : Table ℤ}
    {transform : PartitionTransform} {attrNo : AttrNumber} {truncateLen : Int32} {value : IntValue}
    (h : IsTruncate env table transform attrNo value.type truncateLen) (henv : env.Refutes)
    (hops : table.HasOperatorClasses) (hpos : 0 < truncateLen.toInt) :
    TruncateSound env table transform attrNo truncateLen value ↔ value.Fits truncateLen.toInt := by
  obtain ⟨bytes, happly, hne, hcontains⟩ := range_contains_iff hpos value
  have hstored : (storedField (Int32.ofInt transform.partitionFieldId) truncateLen value.type
      (some value)).value = some bytes := by
    simp [storedField, copyField, PartitionField.bytes, happly, List.length_pos_iff.mpr hne]
  rw [TruncateSound, hstored, range_sound_iff h.isRange henv hops (h.range bytes)]
  exact hcontains

def truncateEnv : Env ℤ Bytes (Constraint ℤ) :=
  partitionEnv 0 (fun _ => 0) fun bytes => some (truncateRange .int4 10 bytes)

theorem truncateEnv_isTruncate :
    IsTruncate truncateEnv (columnTable .truncate 0) (columnTransform .truncate) 1 .int4 10 :=
  ⟨columnTable_isRange rfl 0, rfl, fun _ => rfl⟩

theorem truncate_sound_iff_negative :
    TruncateSound truncateEnv (columnTable .truncate 0) (columnTransform .truncate) 1 10
      (.int4 (-7)) :=
  (truncate_sound_iff truncateEnv_isTruncate (partitionEnv_refutes _ _ _) (fun _ _ _ _ => rfl)
    (by decide)).mpr (by decide)

/-- A file with the largest int4, which is stored as 2147483640. -/
def largestFile : Pruning.DataFile ℤ Bytes where
  columnStats := []
  partition := some [⟨1000, some (int32Bytes 2147483640)⟩]
  rows := [fun _ => some 2147483647]

/-- **The largest int4 is in the file, and a query for it skips the file.** -/
theorem largest_int4_is_skipped :
    (storedField 1000 10 .int4 (some (.int4 2147483647))).value = some (int32Bytes 2147483640) ∧
      truncateEnv.Refutes ∧
      (∀ row ∈ largestFile.rows, Matches truncateEnv [.cmp 1 .eq 2147483647] row) ∧
      pruneDataFiles truncateEnv (columnTable .truncate 0) [largestFile] [.cmp 1 .eq 2147483647]
        .partialMatch = [] := by
  refine ⟨by decide, partitionEnv_refutes _ _ _, ?_, rfl⟩
  intro row hrow clause hclause
  obtain rfl := List.mem_singleton.mp hrow
  obtain rfl := List.mem_singleton.mp hclause
  rfl

end PgLake.Fdw.TruncatePartitions
