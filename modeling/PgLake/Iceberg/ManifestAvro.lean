/-
  Manifest entries in an Avro file (`WriteIcebergManifestEntryToAvro` in `write_manifest.c`,
  `ReadIcebergManifestEntryFromAvro` in `read_manifest.c`, and the wrappers of the Avro library).

  Merging manifests and removing entries read entries and write them again.

  Main results: `entry_survives_iff`, `toManifestEntry_reread`.
-/
import PgLake.Iceberg.Manifests
import PgLake.Iceberg.PartitionFieldTypes

namespace PgLake.Iceberg.ManifestAvro

open Fallible List
open WireBytes ManifestSchema
open Partitioning (PhysicalType)

/-! ## Avro values and the wrappers -/

/-- A value of the Avro library; a float by its bits. -/
inductive Avro where
  | null
  | boolean (b : Bool)
  | int (v : Int32)
  | long (v : Int64)
  | float (bits : UInt32)
  | double (bits : UInt64)
  | string (s : String)
  | bytes (b : Bytes)
  | union (branch : Avro)
  | array (items : List Avro)
  | record (fields : List (String × Avro))

namespace Avro

def asInt : Avro → Option Int32
  | int v => some v
  | _ => none

def asLong : Avro → Option Int64
  | long v => some v
  | _ => none

def asString : Avro → Option String
  | string s => some s
  | _ => none

def asBytes : Avro → Option Bytes
  | bytes b => some b
  | _ => none

def asArray : Avro → Option (List Avro)
  | array items => some items
  | _ => none

/-- `avro_value_get_by_name`. -/
def getByName (name : String) : Avro → Option Avro
  | record fields => (fields.find? fun field => field.1 = name).map Prod.snd
  | _ => none

/-- The value itself, or that of the branch of a union; none for null. -/
def notNull : Avro → Option Avro
  | union null => none
  | union branch => some branch
  | null => none
  | v => some v

end Avro

/-- A number with the flag that says whether it is there. -/
structure Nullable (α : Type) where
  isSet : Bool
  value : α
  deriving DecidableEq

namespace Nullable

variable {α : Type}

def get? (n : Nullable α) : Option α := if n.isSet then some n.value else none

end Nullable

section Setters

/-- `AvroPrepareSetNullable` and the setting of the inner value. -/
def setNullable (v : Avro) (isSet : Bool) : Avro := .union (if isSet then v else .null)

variable (name : String)

def avroSetInt32Field (v : Int32) : String × Avro := (name, .int v)

def avroSetInt64Field (v : Int64) : String × Avro := (name, .long v)

def avroSetStringField (s : String) : String × Avro := (name, .string s)

def avroSetBinaryField (b : Bytes) : String × Avro := (name, .bytes b)

def avroSetNullableInt32Field (v : Int32) (isSet : Bool) : String × Avro :=
  (name, setNullable (.int v) isSet)

def avroSetNullableInt64Field (v : Int64) (isSet : Bool) : String × Avro :=
  (name, setNullable (.long v) isSet)

/-- `AvroSetNullableBinaryField`, set if the pointer is not NULL. -/
def avroSetNullableBinaryField (b : Option Bytes) : String × Avro :=
  (name, setNullable (.bytes (b.getD [])) b.isSome)

/-- `AvroSetRecordField`, with what the serialize function made of the entry. -/
def avroSetRecordField (entry : Avro) : String × Avro := (name, entry)

/-- `AvroSetRecordArrayField`: an empty array is null. -/
def avroSetRecordArrayField {α : Type} (name : String) (serialize : α → Avro) (entries : List α) :
    String × Avro :=
  (name, setNullable (.array (entries.map serialize)) (decide (entries.length > 0)))

def avroSetInt32ArrayField (values : List Int32) : String × Avro :=
  avroSetRecordArrayField name .int values

def avroSetInt64ArrayField (values : List Int64) : String × Avro :=
  avroSetRecordArrayField name .long values

end Setters

section Getters

variable {α : Type} (record : Avro) (name : String) (required : Bool)

def getFieldValue : Except String (Option Avro) :=
  match record.getByName name with
  | none => if required then .error s!"missing {name} field" else .ok none
  | some v => .ok v.notNull

variable (view : Avro → Option α)

/-- The getters of one type: a field that is not there or null gives the default. -/
def getTyped (default : α) (required : Bool) : Except String α :=
  match getFieldValue record name required with
  | .error e => .error e
  | .ok none => .ok default
  | .ok (some v) =>
    match view v with
    | none => .error s!"{name} is not of expected type"
    | some a => .ok a

def avroGetInt32Field : Except String Int32 :=
  getTyped record name Avro.asInt 0 required

def avroGetInt64Field : Except String Int64 :=
  getTyped record name Avro.asLong 0 required

def avroGetStringField : Except String (Option String) :=
  getTyped record name (fun v => v.asString.map some) none required

def avroGetBinaryField : Except String (Option Bytes) :=
  getTyped record name (fun v => v.asBytes.map some) none required

/-- `AvroPrepareGetNullable` and the getting of the inner value.  The value of a field that is
null keeps the zero of `memset`. -/
def getNullable (zero : α) : Except String (Nullable α) :=
  match record.getByName name with
  | none => .error s!"{name} not found in schema"
  | some (.union .null) => .ok ⟨false, zero⟩
  | some (.union branch) =>
    match view branch with
    | none => .error s!"{name} is not of expected type"
    | some a => .ok ⟨true, a⟩
  | some _ => .error s!"{name} is not a nullable field"

def avroGetNullableInt32Field : Except String (Nullable Int32) :=
  getNullable record name Avro.asInt 0

def avroGetNullableInt64Field : Except String (Nullable Int64) :=
  getNullable record name Avro.asLong 0

def avroGetRecordField (parse : Avro → Except String α) : Except String α :=
  match getFieldValue record name true with
  | .error e => .error e
  | .ok none => .error s!"missing {name} field"
  | .ok (some v) => parse v

def avroGetObjectArrayField (parse : Avro → Except String α) (required : Bool) :
    Except String (List α) := do
  let items ← getTyped record name Avro.asArray [] required
  items.mapM parse

def arrayElement (v : Avro) : Except String α :=
  match view v with
  | none => .error s!"{name} is not of expected type"
  | some a => .ok a

def avroGetInt64ArrayField : Except String (List Int64) :=
  avroGetObjectArrayField record name (arrayElement name Avro.asLong) required

/-- One iteration of `AvroGetInt32ArrayField`.  It writes `entries[itemIndex]` and moves `entries`
on, so that the element with the given index goes to twice that index. -/
def storeInt32 (array : List Int32) (item : Int32 × ℕ) : Except String (List Int32) :=
  if 2 * item.2 < array.length then .ok (array.set (2 * item.2) item.1)
  else .error "write past the end of the array"

def avroGetInt32Array (items : List Int32) : Except String (List Int32) :=
  items.zipIdx.foldlM storeInt32 (List.replicate items.length 0)

def avroGetInt32ArrayField : Except String (List Int32) := do
  let items ← avroGetObjectArrayField record name (arrayElement name Avro.asInt) required
  avroGetInt32Array items

end Getters

/-! ## Entries -/

structure ColumnStat where
  columnId : Int32
  value : Int64
  deriving DecidableEq

structure ColumnBound where
  columnId : Int32
  value : Bytes
  deriving DecidableEq

/-- What the value of a partition field points to, by its physical type. -/
inductive PartitionValue where
  | int32 (v : Int32)
  | int64 (v : Int64)
  | string (s : String)
  | binary (b : Bytes)
  | float (bits : UInt32)
  | double (bits : UInt64)
  | bool (b : Bool)
  deriving DecidableEq

def PartitionValue.physicalType : PartitionValue → PhysicalType
  | int32 _ => .int32
  | int64 _ => .int64
  | string _ => .string
  | binary _ => .binary
  | float _ => .float
  | double _ => .double
  | bool _ => .bool

/-- `PartitionField`, with its value; NULL is `none`.  `value_length` is left out: it follows from
    the value, but a bool that was written with length 1 is read back with length 4. -/
structure PartitionFieldValue where
  field : ManifestSchema.PartitionField
  value : Option PartitionValue

structure DataFile where
  content : DataFileContent
  filePath : String
  fileFormat : String
  partition : List PartitionFieldValue
  recordCount : Int64
  fileSizeInBytes : Int64
  columnSizes : List ColumnStat
  valueCounts : List ColumnStat
  nullValueCounts : List ColumnStat
  nanValueCounts : List ColumnStat
  lowerBounds : List ColumnBound
  upperBounds : List ColumnBound
  keyMetadata : Option Bytes
  splitOffsets : List Int64
  equalityIds : List Int32
  sortOrderId : Nullable Int32

/-- `IcebergManifestEntry`. -/
structure IcebergManifestEntry where
  status : EntryStatus
  snapshotId : Nullable Int64
  sequenceNumber : Nullable Int64
  fileSequenceNumber : Nullable Int64
  dataFile : DataFile

/-! ## Writing -/

/-- `ICEBERG_MANIFEST_ENTRY_STATUS_*`. -/
def statusCode : EntryStatus → Int32
  | .existing => 0
  | .added => 1
  | .deleted => 2

/-- `ICEBERG_DATA_FILE_CONTENT_*`. -/
def contentCode : DataFileContent → Int32
  | .data => 0
  | .positionDeletes => 1
  | .equalityDeletes => 2

def writeColumnStatToAvro (stat : ColumnStat) : Avro :=
  .record [avroSetInt32Field "key" stat.columnId, avroSetInt64Field "value" stat.value]

def writeColumnBoundToAvro (bound : ColumnBound) : Avro :=
  .record [avroSetInt32Field "key" bound.columnId, avroSetBinaryField "value" bound.value]

/-- What stands behind the pointer to a value, read as the physical type of its field. -/
def PartitionValue.toAvro : PhysicalType → PartitionValue → Except String Avro
  | .int32, int32 v => .ok (.int v)
  | .int64, int64 v => .ok (.long v)
  | .string, string s => .ok (.string s)
  | .binary, binary b => .ok (.bytes b)
  | .float, float bits => .ok (.float bits)
  | .double, double bits => .ok (.double bits)
  | .bool, bool b => .ok (.boolean b)
  | _, _ => .error "Unexpected partition field value type"

def recordName (name : FieldName) : String := String.ofList name.text

def writePartitionField (f : PartitionFieldValue) : Except String (String × Avro) :=
  match f.value with
  | none => .ok (recordName f.field.fieldName, setNullable .null false)
  | some value => do
    let inner ← value.toAvro f.field.valueType.physicalType
    return (recordName f.field.fieldName, setNullable inner true)

def writePartitionToAvro (partition : List PartitionFieldValue) : Except String Avro := do
  let fields ← partition.mapM writePartitionField
  return .record fields

def writeDataFileToAvro (dataFile : DataFile) : Except String Avro := do
  let partition ← writePartitionToAvro dataFile.partition
  return .record [
    avroSetInt32Field "content" (contentCode dataFile.content),
    avroSetStringField "file_path" dataFile.filePath,
    avroSetStringField "file_format" dataFile.fileFormat,
    avroSetRecordField "partition" partition,
    avroSetInt64Field "record_count" dataFile.recordCount,
    avroSetInt64Field "file_size_in_bytes" dataFile.fileSizeInBytes,
    avroSetRecordArrayField "column_sizes" writeColumnStatToAvro dataFile.columnSizes,
    avroSetRecordArrayField "value_counts" writeColumnStatToAvro dataFile.valueCounts,
    avroSetRecordArrayField "null_value_counts" writeColumnStatToAvro dataFile.nullValueCounts,
    avroSetRecordArrayField "nan_value_counts" writeColumnStatToAvro dataFile.nanValueCounts,
    avroSetRecordArrayField "lower_bounds" writeColumnBoundToAvro dataFile.lowerBounds,
    avroSetRecordArrayField "upper_bounds" writeColumnBoundToAvro dataFile.upperBounds,
    avroSetNullableBinaryField "key_metadata" dataFile.keyMetadata,
    avroSetInt64ArrayField "split_offsets" dataFile.splitOffsets,
    avroSetInt32ArrayField "equality_ids" dataFile.equalityIds,
    avroSetNullableInt32Field "sort_order_id" dataFile.sortOrderId.value dataFile.sortOrderId.isSet]

/-- The file sequence number is written with the value of the sequence number. -/
def writeIcebergManifestEntryToAvro (entry : IcebergManifestEntry) : Except String Avro := do
  let dataFile ← writeDataFileToAvro entry.dataFile
  return .record [
    avroSetInt32Field "status" (statusCode entry.status),
    avroSetNullableInt64Field "snapshot_id" entry.snapshotId.value entry.snapshotId.isSet,
    avroSetNullableInt64Field "sequence_number" entry.sequenceNumber.value
      entry.sequenceNumber.isSet,
    avroSetNullableInt64Field "file_sequence_number" entry.sequenceNumber.value
      entry.fileSequenceNumber.isSet,
    avroSetRecordField "data_file" dataFile]

/-! ## Reading -/

def statusOfCode (code : Int32) : Except String EntryStatus :=
  if code = 0 then .ok .existing else if code = 1 then .ok .added
  else if code = 2 then .ok .deleted else .error "unexpected manifest entry status"

def contentOfCode (code : Int32) : Except String DataFileContent :=
  if code = 0 then .ok .data else if code = 1 then .ok .positionDeletes
  else if code = 2 then .ok .equalityDeletes else .error "unexpected data file content"

def readColumnStatFromAvro (record : Avro) : Except String ColumnStat := do
  let columnId ← avroGetInt32Field record "key" true
  let value ← avroGetInt64Field record "value" true
  return ⟨columnId, value⟩

def readColumnBoundFromAvro (record : Avro) : Except String ColumnBound := do
  let columnId ← avroGetInt32Field record "key" true
  let value ← avroGetBinaryField record "value" true
  return ⟨columnId, value.getD []⟩

/-- `AvroExtractNullableFieldFromRecordByIndex`, the value. -/
def PartitionValue.ofAvro : Avro → Except String (Option PartitionValue)
  | .union .null => .ok none
  | .union (.int v) => .ok (some (.int32 v))
  | .union (.long v) => .ok (some (.int64 v))
  | .union (.string s) => .ok (some (.string s))
  | .union (.bytes b) => .ok (some (.binary b))
  | .union (.float bits) => .ok (some (.float bits))
  | .union (.double bits) => .ok (some (.double bits))
  | .union (.boolean b) => .ok (some (.bool b))
  | .union _ => .error "Not supported field type during extraction"
  | _ => .error "expected union type"

/-- A field name that Avro and the field map accept. -/
def fieldName (name : String) : Except String FieldName :=
  if h : isAvroId name.toList = true ∧ name.toList.length < partitionFieldNameMaxLength then
    .ok ⟨name.toList, h.1, h.2⟩
  else .error "invalid field name"

variable (map : List PartitionFieldIdMapEntry)

def readPartitionField (field : String × Avro) : Except String PartitionFieldValue := do
  let value ← PartitionValue.ofAvro field.2
  let name ← fieldName field.1
  let found ← lookupField map name
  return ⟨found, value⟩

def readPartitionFromAvro : Avro → Except String (List PartitionFieldValue)
  | .record fields => fields.mapM (readPartitionField map)
  | _ => .error "could not get fields count"

def readDataFileFromAvro (record : Avro) : Except String DataFile := do
  let content ← avroGetInt32Field record "content" true
  let content ← contentOfCode content
  let filePath ← avroGetStringField record "file_path" true
  let fileFormat ← avroGetStringField record "file_format" true
  let partition ← avroGetRecordField record "partition" (readPartitionFromAvro map)
  let recordCount ← avroGetInt64Field record "record_count" true
  let fileSizeInBytes ← avroGetInt64Field record "file_size_in_bytes" true
  let columnSizes ← avroGetObjectArrayField record "column_sizes" readColumnStatFromAvro false
  let valueCounts ← avroGetObjectArrayField record "value_counts" readColumnStatFromAvro false
  let nullValueCounts ←
    avroGetObjectArrayField record "null_value_counts" readColumnStatFromAvro false
  let nanValueCounts ←
    avroGetObjectArrayField record "nan_value_counts" readColumnStatFromAvro false
  let lowerBounds ← avroGetObjectArrayField record "lower_bounds" readColumnBoundFromAvro false
  let upperBounds ← avroGetObjectArrayField record "upper_bounds" readColumnBoundFromAvro false
  let keyMetadata ← avroGetBinaryField record "key_metadata" false
  let splitOffsets ← avroGetInt64ArrayField record "split_offsets" false
  let equalityIds ← avroGetInt32ArrayField record "equality_ids" false
  let sortOrderId ← avroGetNullableInt32Field record "sort_order_id"
  return {
    content, filePath := filePath.getD "", fileFormat := fileFormat.getD "", partition, recordCount,
    fileSizeInBytes, columnSizes, valueCounts, nullValueCounts, nanValueCounts, lowerBounds,
    upperBounds, keyMetadata, splitOffsets, equalityIds, sortOrderId }

def readIcebergManifestEntryFromAvro (record : Avro) : Except String IcebergManifestEntry := do
  let status ← avroGetInt32Field record "status" true
  let status ← statusOfCode status
  let snapshotId ← avroGetNullableInt64Field record "snapshot_id"
  let sequenceNumber ← avroGetNullableInt64Field record "sequence_number"
  let fileSequenceNumber ← avroGetNullableInt64Field record "file_sequence_number"
  let dataFile ← avroGetRecordField record "data_file" (readDataFileFromAvro map)
  return { status, snapshotId, sequenceNumber, fileSequenceNumber, dataFile }

/-- An entry, written to a manifest and read from it.  The field map is that of the schema of the
manifest. -/
def reread (entry : IcebergManifestEntry) : Except String IcebergManifestEntry := do
  let record ← writeIcebergManifestEntryToAvro entry
  let map ← readBack (entry.dataFile.partition.map PartitionFieldValue.field)
  readIcebergManifestEntryFromAvro map record

/-! ## What the getters return of what was set -/

open Nullable

section Getters

variable {α : Type} {record v : Avro} {name : String} {view : Avro → Option α}

theorem getTyped_of_set {w : Avro} {a default : α} {required : Bool}
    (hf : record.getByName name = some v) (hn : v.notNull = some w)
    (hv : view w = some a) : getTyped record name view default required = .ok a := by
  simp [getTyped, getFieldValue, hf, hn, hv]

theorem getTyped_of_null {default : α} {required : Bool}
    (hf : record.getByName name = some (.union .null)) :
    getTyped record name view default required = .ok default := by
  simp [getTyped, getFieldValue, hf, Avro.notNull]

def Nullable.stored (n : Nullable α) (zero : α) : Nullable α :=
  if n.isSet then n else ⟨false, zero⟩

@[simp] theorem Nullable.get?_stored (n : Nullable α) (zero : α) :
    (n.stored zero).get? = n.get? := by
  cases h : n.isSet <;> simp [stored, get?, h]

theorem getNullable_of_set {isSet : Bool} {a zero : α}
    (hf : record.getByName name = some (setNullable v isSet)) (hn : v ≠ .null)
    (hv : view v = some a) :
    getNullable record name view zero = .ok (stored ⟨isSet, a⟩ zero) := by
  cases isSet with
  | false => simp only [getNullable, hf, setNullable, Bool.false_eq_true, if_false]; rfl
  | true =>
    simp only [getNullable, hf, setNullable, if_true]
    cases v <;> simp_all [stored]

theorem avroGetObjectArrayField_of_set {serialize : α → Avro} {parse : Avro → Except String α}
    {entries : List α} {required : Bool}
    (hf : record.getByName name = some (avroSetRecordArrayField name serialize entries).2)
    (hp : ∀ e ∈ entries, parse (serialize e) = .ok e) :
    avroGetObjectArrayField record name parse required = .ok entries := by
  have hi : getTyped record name Avro.asArray [] required = .ok (entries.map serialize) := by
    cases entries with
    | nil => exact getTyped_of_null hf
    | cons => exact getTyped_of_set hf rfl rfl
  have hall := (mapM_map_eq_ok_iff (g := id)).mpr hp
  rw [map_id] at hall
  rw [avroGetObjectArrayField, hi]
  exact hall

end Getters

/-! ## The array of 32-bit integers -/

theorem storeInt32_eq_ok {array array' : List Int32} {item : Int32 × ℕ}
    (h : storeInt32 array item = .ok array') :
    2 * item.2 < array.length ∧ array'.length = array.length := by
  unfold storeInt32 at h
  split at h
  · rename_i hb
    cases h
    exact ⟨hb, length_set⟩
  · cases h

theorem foldlM_storeInt32_eq_ok {items : List (Int32 × ℕ)} :
    ∀ {array array' : List Int32}, items.foldlM storeInt32 array = .ok array' →
      ∀ item ∈ items, 2 * item.2 < array.length := by
  induction items with
  | nil => simp
  | cons first items ih =>
    intro array array' h
    obtain ⟨array₁, hf, hr⟩ := bind_eq_ok_iff.mp h
    obtain ⟨hb, hlen⟩ := storeInt32_eq_ok hf
    refine forall_mem_cons.mpr ⟨hb, fun item hitem => ?_⟩
    rw [← hlen]
    exact ih hr item hitem

/-- The loop returns the array it read if this has at most one element, and writes past the end
otherwise. -/
theorem avroGetInt32Array_eq_ok_iff {items result : List Int32} :
    avroGetInt32Array items = .ok result ↔ items.length ≤ 1 ∧ result = items := by
  match items with
  | [] => simp [avroGetInt32Array, pure, Except.pure, eq_comm]
  | [item] =>
    have hrun : avroGetInt32Array [item] = .ok [item] := rfl
    rw [hrun]
    simp [eq_comm]
  | item :: next :: items =>
    constructor
    · intro h
      -- the last element would go to twice its index
      have hl : ((item :: next :: items).getLast (by simp), (item :: next :: items).length - 1) ∈
          (item :: next :: items).zipIdx := by
        rw [mem_zipIdx_iff_getElem?, ← getLast?_eq_getElem?, getLast?_eq_some_getLast]
      have hb := foldlM_storeInt32_eq_ok h _ hl
      simp only [length_cons, length_replicate] at hb
      omega
    · rintro ⟨hlen, -⟩
      simp at hlen

/-! ## Entries that survive -/

/-- An entry as the writers of manifests have it: the fields of its partition are those of a
partition, and each value has the physical type of its field. -/
structure StoredEntry extends IcebergManifestEntry where
  partition : ManifestSchema.Partition
  fields_eq : dataFile.partition.map PartitionFieldValue.field = partition.fields
  typed : ∀ f ∈ dataFile.partition, ∀ v ∈ f.value, v.physicalType = f.field.valueType.physicalType

theorem PartitionValue.toAvro_of_typed {v : PartitionValue} {type : PhysicalType}
    (h : v.physicalType = type) :
    ∃ inner, v.toAvro type = .ok inner ∧ PartitionValue.ofAvro (.union inner) = .ok (some v) := by
  subst h
  cases v <;> exact ⟨_, rfl, rfl⟩

theorem fieldName_recordName (name : FieldName) : fieldName (recordName name) = .ok name := by
  have ht : (recordName name).toList = name.text := String.toList_ofList
  unfold fieldName
  rw [dif_pos (by rw [ht]; exact ⟨name.avroId, name.short⟩)]
  cases name
  simp [ht]

variable (e : StoredEntry)

theorem readPartitionField_write {f : PartitionFieldValue} (hf : f ∈ e.dataFile.partition) :
    ∃ field, writePartitionField f = .ok field ∧
      readPartitionField (e.partition.fields.map readEntry) field =
        .ok ⟨withoutAttributes f.field, f.value⟩ := by
  have hm : f.field ∈ e.partition.fields := by
    rw [← e.fields_eq]
    exact mem_map_of_mem hf
  have hl := lookupField_readEntry e.partition hm
  cases hv : f.value with
  | none =>
    refine ⟨_, by rw [writePartitionField, hv], ?_⟩
    simp only [readPartitionField, fieldName_recordName, hl, ok_bind, setNullable]
    rfl
  | some v =>
    obtain ⟨inner, hto, hof⟩ := PartitionValue.toAvro_of_typed (e.typed f hf v hv)
    refine ⟨(recordName f.field.fieldName, setNullable inner true), ?_, ?_⟩
    · simp only [writePartitionField, hv, hto, ok_bind]
      rfl
    · simp only [readPartitionField, fieldName_recordName, hl, setNullable, if_true, hof,
        ok_bind]
      rfl

theorem readPartitionFromAvro_write :
    ∃ fs, writePartitionToAvro e.dataFile.partition = .ok (.record fs) ∧
      readPartitionFromAvro (e.partition.fields.map readEntry) (.record fs) =
        .ok (e.dataFile.partition.map fun f => ⟨withoutAttributes f.field, f.value⟩) := by
  obtain ⟨fs, hw, hr⟩ := exists_mapM_eq_ok fun f hf =>
    readPartitionField_write e hf
  refine ⟨fs, by rw [writePartitionToAvro, hw]; rfl, ?_⟩
  exact mapM_eq_ok_of_forall₂ hr

theorem statusOfCode_statusCode (status : EntryStatus) :
    statusOfCode (statusCode status) = .ok status := by
  cases status <;> rfl

theorem contentOfCode_contentCode (content : DataFileContent) :
    contentOfCode (contentCode content) = .ok content := by
  cases content <;> rfl

theorem readColumnStatFromAvro_write (stat : ColumnStat) :
    readColumnStatFromAvro (writeColumnStatToAvro stat) = .ok stat := rfl

theorem readColumnBoundFromAvro_write (bound : ColumnBound) :
    readColumnBoundFromAvro (writeColumnBoundToAvro bound) = .ok bound := rfl

def DataFile.stored (dataFile : DataFile) : DataFile :=
  { dataFile with
    partition := dataFile.partition.map fun f => ⟨withoutAttributes f.field, f.value⟩
    sortOrderId := dataFile.sortOrderId.stored 0 }

theorem readDataFileFromAvro_write :
    ∃ fs, writeDataFileToAvro e.dataFile = .ok (.record fs) ∧ ∀ result,
        readDataFileFromAvro (e.partition.fields.map readEntry) (.record fs) = .ok result ↔
          e.dataFile.equalityIds.length ≤ 1 ∧ result = e.dataFile.stored := by
  obtain ⟨partition, hw, hp⟩ := readPartitionFromAvro_write e
  refine ⟨_, by rw [writeDataFileToAvro, hw]; rfl, fun result => ?_⟩
  unfold readDataFileFromAvro
  generalize hrec : Avro.record _ = record
  -- the getters in the order of the source
  have hc : avroGetInt32Field record "content" true = .ok (contentCode e.dataFile.content) :=
    hrec ▸ getTyped_of_set rfl rfl rfl
  have hfilePath : avroGetStringField record "file_path" true = .ok (some e.dataFile.filePath) :=
    hrec ▸ getTyped_of_set rfl rfl rfl
  have hfileFormat :
      avroGetStringField record "file_format" true = .ok (some e.dataFile.fileFormat) :=
    hrec ▸ getTyped_of_set rfl rfl rfl
  have hpartitionField : avroGetRecordField record "partition"
      (readPartitionFromAvro (e.partition.fields.map readEntry)) = .ok e.dataFile.stored.partition := by
    subst hrec
    exact hp
  have hrecordCount : avroGetInt64Field record "record_count" true = .ok e.dataFile.recordCount :=
    hrec ▸ getTyped_of_set rfl rfl rfl
  have hfileSize :
      avroGetInt64Field record "file_size_in_bytes" true = .ok e.dataFile.fileSizeInBytes :=
    hrec ▸ getTyped_of_set rfl rfl rfl
  have hs : ∀ {name : String} {stats : List ColumnStat},
      record.getByName name = some (avroSetRecordArrayField name writeColumnStatToAvro stats).2 →
        avroGetObjectArrayField record name readColumnStatFromAvro false = .ok stats :=
    fun hf => avroGetObjectArrayField_of_set hf fun stat _ =>
      readColumnStatFromAvro_write stat
  have hb : ∀ {name : String} {bounds : List ColumnBound},
      record.getByName name = some (avroSetRecordArrayField name writeColumnBoundToAvro bounds).2 →
        avroGetObjectArrayField record name readColumnBoundFromAvro false = .ok bounds :=
    fun hf => avroGetObjectArrayField_of_set hf fun bound _ =>
      readColumnBoundFromAvro_write bound
  have hcolumnSizes := @hs "column_sizes" e.dataFile.columnSizes (hrec ▸ rfl)
  have hvalueCounts := @hs "value_counts" e.dataFile.valueCounts (hrec ▸ rfl)
  have hnullValueCounts := @hs "null_value_counts" e.dataFile.nullValueCounts (hrec ▸ rfl)
  have hnanValueCounts := @hs "nan_value_counts" e.dataFile.nanValueCounts (hrec ▸ rfl)
  have hlowerBounds := @hb "lower_bounds" e.dataFile.lowerBounds (hrec ▸ rfl)
  have hupperBounds := @hb "upper_bounds" e.dataFile.upperBounds (hrec ▸ rfl)
  have hkeyMetadata :
      avroGetBinaryField record "key_metadata" false = .ok e.dataFile.keyMetadata := by
    subst hrec
    cases h : e.dataFile.keyMetadata with
    | none => exact getTyped_of_null rfl
    | some b => exact getTyped_of_set rfl rfl rfl
  have hsplitOffsets :
      avroGetInt64ArrayField record "split_offsets" false = .ok e.dataFile.splitOffsets := by
    subst hrec
    exact avroGetObjectArrayField_of_set rfl fun offset _ => rfl
  have hequalityIds : avroGetInt32ArrayField record "equality_ids" false =
      avroGetInt32Array e.dataFile.equalityIds := by
    subst hrec
    exact congrArg (· >>= avroGetInt32Array)
      (avroGetObjectArrayField_of_set rfl fun id _ => rfl)
  have hsortOrderId : avroGetNullableInt32Field record "sort_order_id" =
      .ok (e.dataFile.sortOrderId.stored 0) := by
    subst hrec
    exact getNullable_of_set rfl (by simp) rfl
  simp only [hc, contentOfCode_contentCode, hfilePath, hfileFormat, hpartitionField,
    hrecordCount, hfileSize, hcolumnSizes, hvalueCounts, hnullValueCounts, hnanValueCounts,
    hlowerBounds, hupperBounds, hkeyMetadata, hsplitOffsets, hequalityIds, hsortOrderId,
    ok_bind]
  rw [bind_eq_ok_iff]
  constructor
  · rintro ⟨ids, hids, hr⟩
    obtain ⟨hlen, rfl⟩ := avroGetInt32Array_eq_ok_iff.mp hids
    cases hr
    exact ⟨hlen, rfl⟩
  · rintro ⟨hlen, rfl⟩
    exact ⟨_, avroGetInt32Array_eq_ok_iff.mpr ⟨hlen, rfl⟩, rfl⟩

def IcebergManifestEntry.stored (entry : IcebergManifestEntry) : IcebergManifestEntry where
  status := entry.status
  snapshotId := entry.snapshotId.stored 0
  sequenceNumber := entry.sequenceNumber.stored 0
  fileSequenceNumber :=
    Nullable.stored ⟨entry.fileSequenceNumber.isSet, entry.sequenceNumber.value⟩ 0
  dataFile := entry.dataFile.stored

/-- **What comes back of an entry**, unless it has several equality ids. -/
theorem reread_eq_ok_iff {result : IcebergManifestEntry} :
    reread e.toIcebergManifestEntry = .ok result ↔
      e.dataFile.equalityIds.length ≤ 1 ∧ result = e.toIcebergManifestEntry.stored := by
  obtain ⟨dataFile, hw, hdataFile⟩ := readDataFileFromAvro_write e
  unfold reread
  simp only [writeIcebergManifestEntryToAvro, hw, ok_bind, e.fields_eq, readBack_eq,
    pure, Except.pure]
  unfold readIcebergManifestEntryFromAvro
  generalize hrecord : Avro.record _ = record
  have hs : avroGetInt32Field record "status" true = .ok (statusCode e.status) :=
    hrecord ▸ getTyped_of_set rfl rfl rfl
  have hsid : avroGetNullableInt64Field record "snapshot_id" =
      .ok (e.snapshotId.stored 0) := by
    subst hrecord
    exact getNullable_of_set rfl (by simp) rfl
  have hsequenceNumber : avroGetNullableInt64Field record "sequence_number" =
      .ok (e.sequenceNumber.stored 0) := by
    subst hrecord
    exact getNullable_of_set rfl (by simp) rfl
  have hfileSequenceNumber : avroGetNullableInt64Field record "file_sequence_number" =
      .ok (stored ⟨e.fileSequenceNumber.isSet, e.sequenceNumber.value⟩ 0) := by
    subst hrecord
    exact getNullable_of_set rfl (by simp) rfl
  have hdataFileField : avroGetRecordField record "data_file"
      (readDataFileFromAvro (e.partition.fields.map readEntry)) =
        readDataFileFromAvro (e.partition.fields.map readEntry) (.record dataFile) := by
    subst hrecord
    rfl
  simp only [hs, statusOfCode_statusCode, hsid, hsequenceNumber, hfileSequenceNumber,
    hdataFileField, ok_bind]
  rw [bind_eq_ok_iff]
  constructor
  · rintro ⟨read, hre, hr⟩
    obtain ⟨hlen, rfl⟩ := (hdataFile read).mp hre
    cases hr
    exact ⟨hlen, rfl⟩
  · rintro ⟨hlen, rfl⟩
    exact ⟨_, (hdataFile _).mpr ⟨hlen, rfl⟩, rfl⟩

/-- Equal field by field.  Of a number that is not there the flag counts, not what stands in its
place. -/
structure DataFile.Same (a b : DataFile) : Prop where
  fields : { a with sortOrderId := b.sortOrderId } = b
  sortOrderId : a.sortOrderId.get? = b.sortOrderId.get?

/-- The entries agree in what a reader takes from them. -/
@[inherit_doc DataFile.Same]
structure IcebergManifestEntry.Same (a b : IcebergManifestEntry) : Prop where
  status : a.status = b.status
  snapshotId : a.snapshotId.get? = b.snapshotId.get?
  sequenceNumber : a.sequenceNumber.get? = b.sequenceNumber.get?
  fileSequenceNumber : a.fileSequenceNumber.get? = b.fileSequenceNumber.get?
  dataFile : a.dataFile.Same b.dataFile

theorem get?_eq_get?_iff {α : Type} {isSet : Bool} {a b : α} :
    (mk isSet a).get? = (mk isSet b).get? ↔ (isSet = true → a = b) := by
  cases isSet <;> simp [get?]

theorem stored_partition_eq_iff : e.dataFile.stored.partition = e.dataFile.partition ↔
      ∀ f ∈ e.dataFile.partition, f.field.valueType.logicalType = .decimal →
        f.field.valueType.precision = 0 ∧ f.field.valueType.scale = 0 := by
  have hmap : e.dataFile.stored.partition = e.dataFile.partition ↔
      ∀ f ∈ e.dataFile.partition, PartitionFieldValue.mk (withoutAttributes f.field) f.value = f := by
    conv_lhs => rhs; rw [← map_id e.dataFile.partition]
    exact map_inj_left
  rw [hmap]
  refine forall₂_congr fun f hf => ?_
  have hm : f.field ∈ e.partition.fields := by
    rw [← e.fields_eq]
    exact mem_map_of_mem hf
  rw [← withoutAttributes_eq_iff e.partition hm]
  constructor
  · exact fun h => congrArg PartitionFieldValue.field h
  · exact fun h => by rw [h]

/-- **An entry survives being written and read exactly if its file sequence number, where it has
one, is its sequence number, it has at most one equality id, and no decimal of its partition has
a precision or a scale.** -/
theorem entry_survives_iff (e : StoredEntry) :
    (∃ result, reread e.toIcebergManifestEntry = .ok result ∧
        result.Same e.toIcebergManifestEntry) ↔
      (e.fileSequenceNumber.isSet = true → e.sequenceNumber.value = e.fileSequenceNumber.value) ∧
      e.dataFile.equalityIds.length ≤ 1 ∧
      ∀ f ∈ e.dataFile.partition, f.field.valueType.logicalType = .decimal →
        f.field.valueType.precision = 0 ∧ f.field.valueType.scale = 0 := by
  simp only [reread_eq_ok_iff, ← stored_partition_eq_iff]
  constructor
  · rintro ⟨result, ⟨hlength, rfl⟩, hsame⟩
    have hpartition := congrArg DataFile.partition hsame.dataFile.fields
    refine ⟨?_, hlength, hpartition⟩
    exact get?_eq_get?_iff.mp ((get?_stored _ _).symm.trans hsame.fileSequenceNumber)
  · rintro ⟨hsequence, hlength, hpartition⟩
    refine ⟨_, ⟨hlength, rfl⟩, ⟨rfl, ?_, ?_, ?_, ?_, ?_⟩⟩
    · exact get?_stored _ _
    · exact get?_stored _ _
    · exact (get?_stored _ _).trans (get?_eq_get?_iff.mpr hsequence)
    · show { e.dataFile with partition := e.dataFile.stored.partition } = e.dataFile
      rw [hpartition]
    · exact get?_stored _ _

/-- A file added with sequence number 7 that holds data of sequence number 3, as a rewrite of data
files makes it, in a table without partitions. -/
def rewrittenFile : StoredEntry where
  status := .existing
  snapshotId := ⟨true, 11⟩
  sequenceNumber := ⟨true, 3⟩
  fileSequenceNumber := ⟨true, 7⟩
  dataFile :=
    { content := .data, filePath := "s3://b/t/data/1.parquet", fileFormat := "PARQUET"
      partition := [], recordCount := 10, fileSizeInBytes := 1000, columnSizes := []
      valueCounts := [], nullValueCounts := [], nanValueCounts := [], lowerBounds := []
      upperBounds := [], keyMetadata := none, splitOffsets := [], equalityIds := []
      sortOrderId := ⟨false, 0⟩ }
  partition := ⟨[], by simp, by simp⟩
  fields_eq := rfl
  typed := by simp

theorem file_sequence_number_is_overwritten : reread rewrittenFile.toIcebergManifestEntry =
        .ok { rewrittenFile.toIcebergManifestEntry with fileSequenceNumber := ⟨true, 3⟩ } ∧
      ¬∃ result, reread rewrittenFile.toIcebergManifestEntry = .ok result ∧
        result.Same rewrittenFile.toIcebergManifestEntry := by
  have hreread : reread rewrittenFile.toIcebergManifestEntry =
      .ok { rewrittenFile.toIcebergManifestEntry with fileSequenceNumber := ⟨true, 3⟩ } :=
    (reread_eq_ok_iff rewrittenFile).mpr ⟨by decide, rfl⟩
  refine ⟨hreread, ?_⟩
  rintro ⟨result, hresult, hsame⟩
  rw [hreread] at hresult
  cases hresult
  exact absurd hsame.fileSequenceNumber (by decide)

/-! ## What merging and removal look at -/

/-- The entry as `MergeDataManifests` and `FindAndAdjustDeletedManifestEntries` see it. -/
def IcebergManifestEntry.toManifestEntry (entry : IcebergManifestEntry) :
    ManifestEntry (List (Lib.Text × ℤ × Option PartitionValue)) where
  status := entry.status
  hasSnapshotId := entry.snapshotId.isSet
  snapshotId := entry.snapshotId.value
  hasSequenceNumber := entry.sequenceNumber.isSet
  sequenceNumber := entry.sequenceNumber.value
  dataFile :=
    { path := stripFromChar entry.dataFile.filePath
      content := entry.dataFile.content
      partition := entry.dataFile.partition.map fun f =>
        (f.field.fieldName.text, f.field.fieldId, f.value)
      recordCount := entry.dataFile.recordCount.toInt }

theorem Nullable.stored_of_isSet {α : Type} {n : Nullable α} {zero : α} (h : n.isSet = true) :
    n.stored zero = n := by
  rw [stored, if_pos h]

/-- **What a commit looks at survives**, whatever the file sequence number and the types of the
partition fields are. -/
theorem toManifestEntry_reread (hsnapshot : e.snapshotId.isSet = true)
    (hsequence : e.sequenceNumber.isSet = true) (hids : e.dataFile.equalityIds.length ≤ 1) :
    (reread e.toIcebergManifestEntry).map IcebergManifestEntry.toManifestEntry =
      .ok e.toIcebergManifestEntry.toManifestEntry := by
  rw [(reread_eq_ok_iff e).mpr ⟨hids, rfl⟩]
  refine congrArg Except.ok ?_
  simp only [IcebergManifestEntry.toManifestEntry, IcebergManifestEntry.stored, DataFile.stored,
    Nullable.stored_of_isSet hsnapshot, Nullable.stored_of_isSet hsequence, map_map]
  rfl

theorem rewrittenFile_seen_alike :
    (reread rewrittenFile.toIcebergManifestEntry).map IcebergManifestEntry.toManifestEntry =
      .ok rewrittenFile.toIcebergManifestEntry.toManifestEntry :=
  toManifestEntry_reread rewrittenFile rfl rfl (by decide)

end PgLake.Iceberg.ManifestAvro
