/-
  Partition tuples and their keys (`partitioning/partition.c`, `partition_transform.c`,
  and the grouping of data files in `writable_table.c`).

  The write router and compaction put rows together whose partition tuples have one
  key, a hash of the fields.

  Main results: `key_separates_iff`, `compacted_together`.
-/
import Mathlib.Data.List.Nodup
import PgLake.Lib.Grouping
import PgLake.Lib.WireBytes

namespace PgLake.Iceberg.Partitioning

open WireBytes List

/-- `ICEBERG_AVRO_PHYSICAL_TYPE_*`, in the order of the enumeration. -/
inductive PhysicalType where
  | int32
  | int64
  | string
  | binary
  | float
  | double
  | bool
  deriving DecidableEq

/-- `PartitionField`.  A value is a pointer, `none` being NULL, and a length. -/
structure PartitionField where
  fieldId : Int32
  valueType : PhysicalType
  value : Option Bytes
  deriving DecidableEq

variable (field : PartitionField)

/-- The bytes of the value, none for NULL. -/
def PartitionField.bytes : Bytes := field.value.getD []

/-- A partition tuple. -/
abbrev Partition := List PartitionField

def copyField : PartitionField :=
  { field with value := if field.bytes.length > 0 then field.value else none }

variable (partition : Partition)

def copyPartition : Partition := partition.map copyField

def partitionFieldCompare (a b : PartitionField) : Bool := a.fieldId ≤ b.fieldId

/-- `AppendPartitionField`, with which a tuple is read from the catalog. -/
def appendPartitionField (field : PartitionField) : Partition :=
  (partition ++ [copyField field]).mergeSort partitionFieldCompare

/-- A field of a partition spec: its id and the type of its values. -/
structure SpecField where
  fieldId : Int32
  valueType : PhysicalType

/-- A partition spec: field ids are unique. -/
structure PartitionSpec where
  specId : Int32
  fields : List SpecField
  nodup : (fields.map SpecField.fieldId).Nodup

/-- `ComputePartitionTupleForTuple`: the transformed values of a row. -/
def computePartitionTuple (spec : PartitionSpec) (values : Int32 → Option Bytes) : Partition :=
  spec.fields.map fun field => ⟨field.fieldId, field.valueType, values field.fieldId⟩

def loadPartition : Partition := partition.foldl appendPartitionField []

structure Hashes where
  uint32 : UInt32 → UInt64
  bytesExtended : Bytes → UInt64
  combine64 : UInt64 → UInt64 → UInt64

def PhysicalType.code (t : PhysicalType) : UInt32 := UInt32.ofNat t.ctorIdx

def computePartitionKey (h : Hashes) (partition : Partition) : UInt64 :=
  partition.foldl (fun hashValue field =>
    let hashValue := h.combine64 hashValue (h.uint32 field.fieldId.toUInt32)
    let hashValue := h.combine64 hashValue (h.uint32 field.valueType.code)
    h.combine64 hashValue (h.bytesExtended field.bytes)) 0

def computeSpecPartitionKey (h : Hashes) (specId : Int32) (partition : Partition) : UInt64 :=
  h.combine64 (h.uint32 specId.toUInt32) (computePartitionKey h partition)

/-- `GroupDataFilesByPartition`, for files given by their spec and tuple. -/
def groupDataFilesByPartition {File : Type} (h : Hashes) (specId : File → Int32)
    (partition : File → Partition) (files : List File) : List (UInt64 × List File) :=
  Grouping.groupBy (fun file => computeSpecPartitionKey h (specId file) (partition file)) files

/-! ## What is hashed -/

/-- The argument of one call of a hash function. -/
inductive HashInput where
  | word (n : UInt32)
  | bytes (b : Bytes)
  deriving DecidableEq

def Hashes.item (h : Hashes) : HashInput → UInt64
  | .word n => h.uint32 n
  | .bytes b => h.bytesExtended b

def PartitionField.inputs : List HashInput :=
  [.word field.fieldId.toUInt32, .word field.valueType.code, .bytes field.bytes]

def hashedStream : List HashInput :=
  partition.flatMap PartitionField.inputs

theorem computePartitionKey_eq (h : Hashes) (partition : Partition) :
    computePartitionKey h partition =
      (hashedStream partition).foldl (fun hashValue x => h.combine64 hashValue (h.item x)) 0 := by
  rw [computePartitionKey, hashedStream, foldl_flatMap]
  rfl

theorem PhysicalType.code_injective : Function.Injective PhysicalType.code := by
  intro t t' h
  cases t <;> cases t' <;> first | rfl | exact absurd h (by decide)

/-- A field as it is hashed. -/
def PartitionField.content : Int32 × PhysicalType × Bytes :=
  (field.fieldId, field.valueType, field.bytes)

open PartitionField

theorem PartitionField.inputs_inj {f f' : PartitionField} {rest rest' : List HashInput}
    (h : f.inputs ++ rest = f'.inputs ++ rest') : f.content = f'.content ∧ rest = rest' := by
  simp only [inputs, cons_append, nil_append, List.cons.injEq,
    HashInput.word.injEq, HashInput.bytes.injEq] at h
  obtain ⟨hid, ht, hbs, hr⟩ := h
  have hid := Int32.toBitVec_inj.mp (congrArg UInt32.toBitVec hid)
  have ht := PhysicalType.code_injective ht
  exact ⟨by rw [content, content, hid, ht, hbs], hr⟩

/-- **The stream determines the contents of the fields.** -/
theorem hashedStream_inj {p p' : Partition} :
    hashedStream p = hashedStream p' ↔ p.map content = p'.map content := by
  constructor
  · intro h
    induction p generalizing p' with
    | nil =>
      cases p' with
      | nil => rfl
      | cons => exact nomatch h
    | cons f p ih =>
      cases p' with
      | nil => exact nomatch h
      | cons =>
        obtain ⟨hf, hr⟩ := inputs_inj h
        rw [map_cons, map_cons, hf, ih hr]
  · intro h
    have hi : ∀ q : Partition, hashedStream q = (q.map content).flatMap
          fun c => [.word c.1.toUInt32, .word c.2.1.code, .bytes c.2.2] := by
      intro q
      rw [flatMap_map]
      rfl
    rw [hi, hi, h]

/-! ## Tuples of one spec -/

/-- One value is NULL and the other has no bytes, or they are equal. -/
def SameUpToEmpty (value value' : Option Bytes) : Prop :=
  value = value' ∨ (value = none ∧ value' = some []) ∨ (value = some [] ∧ value' = none)

theorem sameUpToEmpty_iff {v v' : Option Bytes} :
    SameUpToEmpty v v' ↔ v.getD [] = v'.getD [] := by
  cases v <;> cases v' <;> simp [SameUpToEmpty, eq_comm]

section Spec
variable {spec : PartitionSpec} {values values' : Int32 → Option Bytes}

theorem content_map_eq_iff : (computePartitionTuple spec values).map content =
        (computePartitionTuple spec values').map content ↔
      ∀ field ∈ spec.fields, SameUpToEmpty (values field.fieldId) (values' field.fieldId) := by
  simp [computePartitionTuple, Function.comp, content, bytes, sameUpToEmpty_iff]

@[simp] theorem copyField_content (field : PartitionField) :
    (copyField field).content = field.content := by
  obtain ⟨id, valueType, v⟩ := field
  rcases v with - | bs
  · rfl
  · cases bs <;> rfl

theorem copyField_eq_of_content {f f' : PartitionField} (h : f.content = f'.content) :
    copyField f = copyField f' := by
  obtain ⟨id, valueType, value⟩ := f
  obtain ⟨id', valueType', value'⟩ := f'
  simp only [content, bytes, Prod.mk.injEq] at h
  obtain ⟨rfl, rfl, h⟩ := h
  rcases sameUpToEmpty_iff.mpr h with rfl | ⟨rfl, rfl⟩ | ⟨rfl, rfl⟩ <;> rfl

theorem copyPartition_eq_self {partition : Partition}
    (h : ∀ field ∈ partition, field.value ≠ some []) : copyPartition partition = partition := by
  have hc : ∀ field ∈ partition, copyField field = field := by
    rintro ⟨id, valueType, v⟩ hf
    rcases v with - | - | ⟨byte, bs⟩
    · rfl
    · exact absurd rfl (h _ hf)
    · rfl
  rw [copyPartition, map_congr_left hc, map_id']

theorem loadPartition_congr {p p' : Partition} (h : p.map content = p'.map content) :
    loadPartition p = loadPartition p' := by
  unfold loadPartition
  generalize ([] : Partition) = acc
  induction p generalizing p' acc with
  | nil =>
    rw [map_nil, eq_comm, map_eq_nil_iff] at h
    rw [h]
  | cons f p ih =>
    obtain ⟨f', p', rfl, hf, hp⟩ := map_eq_cons_iff.mp h.symm
    rw [foldl_cons, foldl_cons, ih hp.symm, appendPartitionField, appendPartitionField,
      copyField_eq_of_content hf.symm]

theorem loadPartition_perm (p : Partition) :
    ((loadPartition p).map content).Perm (p.map content) := by
  have hc : (loadPartition p).Perm (p.map copyField) := by
    have hs : ∀ (acc : Partition) field,
        ((acc ++ [field]).mergeSort partitionFieldCompare).Perm (field :: acc) := by
      intro acc field
      exact (mergeSort_perm _ _).trans (perm_append_singleton field acc)
    have hrun := @Grouping.perm_foldl_of_step _ Partition _ id hs (p.map copyField) []
    rwa [foldl_map] at hrun
  have hco : (p.map copyField).map content = p.map content := by
    rw [map_map]
    exact map_congr_left fun field _ => copyField_content field
  exact hco ▸ hc.map _

theorem content_map_eq_of_perm (h : ((computePartitionTuple spec values).map content).Perm
      ((computePartitionTuple spec values').map content)) :
    ∀ field ∈ spec.fields, SameUpToEmpty (values field.fieldId) (values' field.fieldId) := by
  intro field hf
  have hm : (field.fieldId, field.valueType, (values field.fieldId).getD []) ∈
      (computePartitionTuple spec values).map content := by
    rw [computePartitionTuple, map_map]
    exact mem_map_of_mem (f := _) hf
  have hm' := h.mem_iff.mp hm
  rw [computePartitionTuple, map_map] at hm'
  obtain ⟨field', hf', heq⟩ := mem_map.mp hm'
  simp only [Function.comp, content, bytes, Prod.mk.injEq] at heq
  obtain ⟨hid, -, hv⟩ := heq
  -- the ids of a spec are unique
  obtain rfl := inj_on_of_nodup_map spec.nodup hf' hf hid
  exact sameUpToEmpty_iff.mpr hv.symm

theorem hashedStream_tuple_iff : hashedStream (computePartitionTuple spec values) =
        hashedStream (computePartitionTuple spec values') ↔
      ∀ field ∈ spec.fields, SameUpToEmpty (values field.fieldId) (values' field.fieldId) :=
  hashedStream_inj.trans content_map_eq_iff

theorem hashedStream_load_iff : hashedStream (loadPartition (computePartitionTuple spec values)) =
        hashedStream (loadPartition (computePartitionTuple spec values')) ↔
      ∀ field ∈ spec.fields, SameUpToEmpty (values field.fieldId) (values' field.fieldId) := by
  constructor
  · intro h
    have hc := hashedStream_inj.mp h
    exact content_map_eq_of_perm
      ((loadPartition_perm _).symm.trans (hc ▸ loadPartition_perm _))
  · intro h
    rw [loadPartition_congr (content_map_eq_iff.mpr h)]

/-- Rows with these values are put together only if they have the same values: by the write
    router, or by compaction, which reads the tuples back. -/
def KeySeparates (spec : PartitionSpec) (values values' : Int32 → Option Bytes) : Prop :=
  hashedStream (computePartitionTuple spec values) =
        hashedStream (computePartitionTuple spec values') ∨
      hashedStream (loadPartition (computePartitionTuple spec values)) =
        hashedStream (loadPartition (computePartitionTuple spec values')) →
    ∀ field ∈ spec.fields, values field.fieldId = values' field.fieldId

/-- **Tuples are kept apart exactly if they are equal or differ in a field in more than NULL
    against no bytes.** -/
theorem key_separates_iff (spec : PartitionSpec) (values values' : Int32 → Option Bytes) :
    KeySeparates spec values values' ↔
      (∀ field ∈ spec.fields, values field.fieldId = values' field.fieldId) ∨
      ∃ field ∈ spec.fields, ¬ SameUpToEmpty (values field.fieldId) (values' field.fieldId) := by
  unfold KeySeparates
  rw [hashedStream_tuple_iff, hashedStream_load_iff, or_self]
  constructor
  · intro h
    by_cases hsame : ∀ field ∈ spec.fields,
        SameUpToEmpty (values field.fieldId) (values' field.fieldId)
    · exact .inl (h hsame)
    · exact .inr (by simpa only [not_forall, exists_prop] using hsame)
  · rintro (h | ⟨field, hfield, hdiffer⟩) hsame
    · exact h
    · exact absurd (hsame field hfield) hdiffer

end Spec

/-- One bytea field. -/
def byteaSpec : PartitionSpec := ⟨1, [⟨1000, .binary⟩], nodup_singleton _⟩

/-- **NULL and an empty bytea** are not kept apart. -/
theorem empty_bytea_is_null : ¬ KeySeparates byteaSpec (fun _ => none) (fun _ => some []) := by
  intro h
  exact nomatch h (.inl rfl) ⟨1000, .binary⟩ (mem_singleton_self _)

/-! ## Compaction -/

section Compaction
variable {File : Type} (h : Hashes) (specs : Int32 → PartitionSpec) (specId : File → Int32)
variable (values : File → Int32 → Option Bytes)

/-- The tuple of a file, as it is loaded. -/
def filePartition (file : File) : Partition :=
  loadPartition (computePartitionTuple (specs (specId file)) (values file))

/-- No two files of a compaction have a key in common but not what is hashed. -/
def CollisionFree (files : List File) : Prop :=
  ∀ file ∈ files, ∀ file' ∈ files,
    computeSpecPartitionKey h (specId file) (filePartition specs specId values file) =
        computeSpecPartitionKey h (specId file') (filePartition specs specId values file') →
      specId file = specId file' ∧ hashedStream (filePartition specs specId values file) =
          hashedStream (filePartition specs specId values file')

variable {h specs specId values}

/-- **Files that are compacted together** have one spec, and their tuples differ at most in NULL
    against no bytes. -/
theorem compacted_together {files : List File} (hfree : CollisionFree h specs specId values files)
    {group : UInt64 × List File} (hgroup : group ∈
      groupDataFilesByPartition h specId (filePartition specs specId values) files)
    {file file' : File} (hfile : file ∈ group.2) (hfile' : file' ∈ group.2) :
    specId file = specId file' ∧ ∀ field ∈ (specs (specId file)).fields,
      SameUpToEmpty (values file field.fieldId) (values file' field.fieldId) := by
  have hmem : ∀ f ∈ group.2, f ∈ files := fun f hf =>
    (Grouping.perm_flatMap_groupBy _ files).mem_iff.mp (mem_flatMap.mpr ⟨group, hgroup, hf⟩)
  have hkey := Grouping.keyedBy_groupBy _ _ _ hgroup _ hfile
  have hkey' := Grouping.keyedBy_groupBy _ _ _ hgroup _ hfile'
  obtain ⟨hspec, hstream⟩ :=
    hfree file (hmem file hfile) file' (hmem file' hfile') (hkey.trans hkey'.symm)
  unfold filePartition at hstream
  rw [← hspec] at hstream
  exact ⟨hspec, hashedStream_load_iff.mp hstream⟩

end Compaction

/-- Hashes that tell these files apart. -/
def sampleHashes : Hashes where
  uint32 n := n.toUInt64
  bytesExtended b := b.foldl (fun acc x => 31 * acc + x.toUInt64 + 1) 0
  combine64 a b := 31 * a + b

/-- The bytea of a file: NULL, no bytes, and a byte. -/
def byteaOf : Fin 3 → Int32 → Option Bytes
  | 0, _ => none
  | 1, _ => some []
  | 2, _ => some [1]

/-- The groups of the three files. -/
def byteaGroups : List (UInt64 × List (Fin 3)) :=
  groupDataFilesByPartition sampleHashes (fun _ => 1)
    (filePartition (fun _ => byteaSpec) (fun _ => 1) byteaOf) [0, 1, 2]

/-- NULL is compacted with no bytes, and not with a byte. -/
theorem null_with_empty_bytea :
    byteaGroups.map Prod.snd = [[0, 1], [2]] ∧ SameUpToEmpty none (some []) := by
  have hgroups : byteaGroups.map Prod.snd = [[0, 1], [2]] := by decide +kernel
  obtain ⟨group, hgroup, hsnd⟩ : ∃ group ∈ byteaGroups, group.2 = [0, 1] :=
    mem_map.mp (hgroups ▸ mem_cons_self)
  have hfree : CollisionFree sampleHashes (fun _ => byteaSpec) (fun _ => 1) byteaOf [0, 1, 2] := by
    unfold CollisionFree
    decide +kernel
  have hsame := compacted_together hfree hgroup (hsnd ▸ mem_cons_self)
    (hsnd ▸ mem_cons_of_mem 0 (mem_singleton_self 1))
  exact ⟨hgroups, hsame.2 ⟨1000, .binary⟩ (mem_singleton_self _)⟩

end PgLake.Iceberg.Partitioning
