/-
  Pruning by the fields of identity transforms (`ApplyIdentityTransformToColumn`,
  `IdentityPartitionFieldBoundConstraint`).

  The value of a row is serialized, copied into the tuple of its data file, and read back by a
  scan for the constraint `column = value`.

  Main result: `identity_sound_iff`.
-/
import PgLake.Fdw.PartitionBounds
import PgLake.Iceberg.BinarySerde
import PgLake.Iceberg.PartitionTuples

namespace PgLake.Fdw.IdentityPartitions

open Pruning Iceberg.BinarySerde Iceberg.Partitioning SqlPredicate PgLake.Types WireBytes

/-- A partition column: its type, the physical type of its partition values, and its values as
    Postgres compares them. -/
structure Column (V : Type) where
  settings : NumericSettings
  io : TypeIO
  type : Scalar
  typmod : Typmod
  valueType : PhysicalType
  valueOf : Datum → V
  valueOf_eq : ∀ {d d'}, d.type = d'.type → (valueOf d = valueOf d' ↔ d.key = d'.key)

variable {V Clause : Type} (column : Column V)

def Column.applyIdentityTransformToColumn (columnValue : Option Datum) :
    Except String (Option Bytes) :=
  match columnValue with
  | none => .ok none
  | some datum => pgIcebergBinarySerialize column.settings column.io column.typmod datum

/-- The partition field as it is stored for a value. -/
def Column.storedField (fieldId : Int32) (columnValue : Option Datum) :
    Except String Iceberg.Partitioning.PartitionField :=
  (column.applyIdentityTransformToColumn columnValue).map fun value =>
    copyField ⟨fieldId, column.valueType, value⟩

/-- The pruning code reads values of the transform with the deserializer. -/
def Column.Decodes (env : Env V Bytes Clause) (transform : PartitionTransform) : Prop :=
  ∀ {bytes d}, pgIcebergBinaryDeserialize column.settings column.io column.typmod column.type bytes =
    .ok d → env.partitionValueToDatum transform bytes = column.valueOf d

/-! ## Soundness -/

/-- The constraint rebuilt from the stored value is TRUE on the value, and scans keep the file. -/
def IdentitySound [LinearOrder V] (env : Env V Bytes Clause) (table : Table V)
    (transform : PartitionTransform) (attrNo : AttrNumber) (column : Column V) (d : Datum) : Prop :=
  ∃ field, column.storedField (Int32.ofInt transform.partitionFieldId) (some d) = .ok field ∧
    Satisfied env table transform attrNo field.value (column.valueOf d) ∧
    Keeps env table transform attrNo field.value (column.valueOf d)

/-- The values of a column can be compared, and are read as they were written. -/
structure IsIdentity (env : Env V Bytes Clause) (table : Table V) (transform : PartitionTransform)
    (attrNo : AttrNumber) (column : Column V) : Prop where
  partitions : Partitions table transform attrNo
  identity : transform.type = .identity
  supported : (table.column attrNo).collation.supported = true
  equality : (table.column attrNo).operator .eq = true
  decodes : column.Decodes env transform

section
variable {env : Env V Bytes Clause} {table : Table V} {transform : PartitionTransform}
variable {attrNo : AttrNumber} {column : Column V} {d : Datum}

variable (column) in
theorem storedField_value (id : Int32) {value : Option Bytes}
    (h : column.applyIdentityTransformToColumn (some d) = .ok value) :
    ∃ f, column.storedField id (some d) = .ok f ∧
      f.value = if value.getD [] = [] then none else value := by
  refine ⟨copyField ⟨id, column.valueType, value⟩, ?_, ?_⟩
  · rw [Column.storedField, h]
    rfl
  · simp [copyField, PartitionField.bytes, List.length_pos_iff]

theorem IsIdentity.constraint_some (h : IsIdentity env table transform attrNo column)
    {bs : Bytes} {d' : Datum}
    (hr : pgIcebergBinaryDeserialize column.settings column.io column.typmod column.type bs =
      .ok d') :
    partitionFieldBoundConstraint env ⟨transform.partitionFieldId, some bs⟩ transform
      (columnMapping table attrNo transform.sourceId) = some (.cmp attrNo .eq (column.valueOf d')) := by
  simp [partitionFieldBoundConstraint, h.identity, columnMapping, h.supported, makeOpExpression,
    h.equality, createConstraintWithEquality, OpTemplate.fill, h.decodes hr]

theorem IsIdentity.constraint_none (h : IsIdentity env table transform attrNo column) :
    partitionFieldBoundConstraint env ⟨transform.partitionFieldId, none⟩ transform
      (columnMapping table attrNo transform.sourceId) = some (.isNull attrNo) := by
  simp [partitionFieldBoundConstraint, h.identity, columnMapping, h.supported]

variable [LinearOrder V]

theorem IsIdentity.sound_of_survives (h : IsIdentity env table transform attrNo column)
    (henv : env.Refutes) (hops : table.HasOperatorClasses) (ht : d.type = column.type)
    (hva : d.Valid column.settings column.typmod) (hsu : d.Survives) :
    IdentitySound env table transform attrNo column d := by
  obtain ⟨d', ⟨bs, hs, hne, hre⟩, ht', hk⟩ :=
    readAs_of_survives column.io hva hsu
  obtain ⟨f, hf, hv⟩ :=
    storedField_value column (Int32.ofInt transform.partitionFieldId) hs
  rw [Option.getD_some, if_neg hne] at hv
  have hcon := h.constraint_some (ht ▸ hre)
  have htr : ∀ r : Row V, r attrNo = some (column.valueOf d) →
      (Pred.cmp attrNo .eq (column.valueOf d')).eval r = some true := by
    intro r hr
    exact isTrue_cmp.mpr ⟨_, hr, decide_eq_true ((column.valueOf_eq ht'.symm).mpr hk.symm)⟩
  have hsa : Satisfied env table transform attrNo f.value (column.valueOf d) :=
    ⟨_, hv ▸ hcon, htr⟩
  exact ⟨f, hf, hsa, keeps_of_admits henv hops h.partitions hsa.admits⟩

theorem IsIdentity.not_sound (h : IsIdentity env table transform attrNo column)
    (ht : d.type = column.type) (hva : d.Valid column.settings column.typmod)
    (hlost : ¬ d.Survives) : ¬ IdentitySound env table transform attrNo column d := by
  rintro ⟨f, hf, ⟨c, hc, htr⟩, -⟩
  have htr := htr (fun _ => some (column.valueOf d)) rfl
  rcases lost_of_not_survives column.io hva hlost with
    ⟨v, hs, he⟩ | ⟨d', ⟨bs, hs, hne, hr⟩, ht', hk⟩
  · -- the stored value is NULL
    obtain ⟨f', hf', hv⟩ :=
      storedField_value column (Int32.ofInt transform.partitionFieldId) hs
    cases hf.symm.trans hf'
    rw [hv, if_pos he, h.constraint_none] at hc
    cases hc
    exact nomatch htr
  · -- another value is read back
    obtain ⟨f', hf', hv⟩ :=
      storedField_value column (Int32.ofInt transform.partitionFieldId) hs
    cases hf.symm.trans hf'
    rw [hv, Option.getD_some, if_neg hne, h.constraint_some (ht ▸ hr)] at hc
    cases hc
    obtain ⟨x, hx, heq⟩ := isTrue_cmp.mp htr
    cases hx
    exact hk ((column.valueOf_eq ht'.symm).mp (of_decide_eq_true heq)).symm

/-- **The constraint of an identity partition is TRUE on the value that was stored exactly if the
    value has bytes and these are read as an equal one.** -/
theorem identity_sound_iff (h : IsIdentity env table transform attrNo column)
    (henv : env.Refutes) (hops : table.HasOperatorClasses) (htype : d.type = column.type)
    (hvalid : d.Valid column.settings column.typmod) :
    IdentitySound env table transform attrNo column d ↔ d.Survives := by
  refine ⟨fun hsound => ?_, h.sound_of_survives henv hops htype hvalid⟩
  by_contra hlost
  exact h.not_sound htype hvalid hlost hsound

end

/-- Text output and input of the string types. -/
def stringIO : TypeIO where
  output
    | .varchar t | .bpchar t => t
    | _ => ⟨[], List.not_mem_nil⟩
  input
    | .bpchar, t => .bpchar t
    | _, t => .varchar t
  input_output d h := by
    cases d <;> first | rfl | simp [Datum.type] at h

def float8Column : Column (List ℚ) where
  settings := .default
  io := stringIO
  type := .float8
  typmod := none
  valueType := .double
  valueOf := Datum.key
  valueOf_eq _ := Iff.rfl

def float8Table : Table (List ℚ) := columnTable .identity []

def float8Env : Env (List ℚ) Bytes (Constraint (List ℚ)) :=
  partitionEnv [] (fun bytes => Datum.key (.float8 (UInt64.ofNat (ofLittleEndian bytes))))
    fun _ => none

theorem float8_isIdentity : IsIdentity float8Env float8Table
    (columnTransform .identity) 1 float8Column where
  partitions := columnTable_partitions _ _
  identity := rfl
  supported := rfl
  equality := rfl
  decodes {bs d} h := by
    cases h
    rfl

/-- The float8 1.5. -/
theorem identity_sound_iff_float8 :
    IdentitySound float8Env float8Table (columnTransform .identity) 1 float8Column
      (.float8 0x3ff8000000000000) := by
  have hvalid : (Datum.float8 0x3ff8000000000000).Valid .default none := trivial
  refine (identity_sound_iff float8_isIdentity (partitionEnv_refutes _ _ _) (fun _ _ _ _ => rfl) rfl
    hvalid).mpr ?_
  exact (rfl : isFinite8 0x3ff8000000000000 = true)

/-- A NaN of type `float8`. -/
def nan : Datum := .float8 0x7ff8000000000000

/-- A file with one row, NaN. -/
def nanFile : Pruning.DataFile (List ℚ) Bytes where
  columnStats := []
  partition := some [⟨1000, none⟩]
  rows := [fun _ => some nan.key]

/-- The file of the rows with NaN has NULL in its tuple, and is skipped by a query for NaN. -/
theorem nan_is_stored_as_null :
    float8Column.storedField 1000 (some nan) = .ok ⟨1000, .double, none⟩ ∧
      partitionFieldBoundConstraint float8Env ⟨1000, none⟩ (columnTransform .identity)
        (columnMapping float8Table 1 1) = some (.isNull 1) ∧
      float8Env.Refutes ∧ (∀ row ∈ nanFile.rows, Matches float8Env [.cmp 1 .eq nan.key] row) ∧
      pruneDataFiles float8Env float8Table [nanFile] [.cmp 1 .eq nan.key]
        .partialMatch = [] := by
  refine ⟨rfl, rfl, partitionEnv_refutes _ _ _, ?_, rfl⟩
  intro row hrow clause hclause
  obtain rfl := List.mem_singleton.mp hrow
  obtain rfl := List.mem_singleton.mp hclause
  rfl

end PgLake.Fdw.IdentityPartitions
