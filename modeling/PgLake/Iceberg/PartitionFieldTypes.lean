/-
  The types of partition fields in the schema of a manifest file (`manifest_entry.c`,
  `write_manifest.c`, `read_manifest.c`).

  The writer prints the type of each partition field into the Avro schema of the
  manifest, as JSON text.  Merging manifests and removing entries read manifests and
  write them again, with the types found in that text.

  Main result: `types_survive_iff`.
-/
import PgLake.Iceberg.PartitionTuples
import PgLake.Lib.Fallible
import PgLake.Lib.JsonText
import PgLake.Lib.Lookup
import PgLake.Types.PgType

namespace PgLake.Iceberg.ManifestSchema

open PgLake.Lib PgLake.Types
open Partitioning (PhysicalType)

/-- `ICEBERG_AVRO_LOGICAL_TYPE_*`. -/
inductive LogicalType where
  | none
  | date
  | timestamp
  | time
  | decimal
  | uuid
  deriving DecidableEq

structure IcebergScalarAvroType where
  physicalType : PhysicalType
  logicalType : LogicalType
  precision : ℤ
  scale : ℤ
  deriving DecidableEq

def avroType (physicalType : PhysicalType) (logicalType : LogicalType) : IcebergScalarAvroType :=
  ⟨physicalType, logicalType, 0, 0⟩

/-- `GetTransformResultAvroType`, for the result type of the transform and the type modifier of
its source column. -/
def getTransformResultAvroType (settings : NumericSettings) (resultType : Scalar)
    (typmod : Typmod) : Except String IcebergScalarAvroType :=
  match resultType with
  | .int2 | .int4 => .ok (avroType .int32 .none)
  | .int8 => .ok (avroType .int64 .none)
  | .float4 => .ok (avroType .float .none)
  | .float8 => .ok (avroType .double .none)
  | .bool => .ok (avroType .bool .none)
  | .text | .varchar | .bpchar => .ok (avroType .string .none)
  | .bytea => .ok (avroType .binary .none)
  | .date => .ok (avroType .int32 .date)
  | .timestamp | .timestamptz => .ok (avroType .int64 .timestamp)
  | .time | .timetz => .ok (avroType .int64 .time)
  | .numeric =>
    let adjusted := adjustedPrecisionAndScale settings typmod
    .ok ⟨.binary, .decimal, adjusted.precision, adjusted.scale⟩
  | .uuid => .ok (avroType .binary .uuid)
  | _ => .error "unexpected type"

def icebergAvroPhysicalTypeName : PhysicalType → String
  | .int32 => "int"
  | .int64 => "long"
  | .string => "string"
  | .binary => "bytes"
  | .float => "float"
  | .double => "double"
  | .bool => "boolean"

def icebergAvroLogicalTypeName : LogicalType → Option String
  | .date => some "date"
  | .timestamp => some "timestamp"
  | .time => some "time"
  | .uuid => some "uuid"
  | .decimal => some "decimal"
  | .none => Option.none

/-- `\"key\": `. -/
def keyText (key : String) : Text := quoted key.toList ++ ": ".toList

variable (type : IcebergScalarAvroType)

def icebergAvroTypeSchemaString : Text :=
  let physicalType := icebergAvroPhysicalTypeName type.physicalType
  match icebergAvroLogicalTypeName type.logicalType with
  | Option.none => quoted physicalType.toList
  | some logicalType =>
    "\x7b".toList ++ keyText "type" ++ quoted physicalType.toList ++ ",".toList ++
      keyText "logicalType" ++ quoted logicalType.toList ++
      (if logicalType = "decimal" then
        ",".toList ++ keyText "scale" ++ intText type.scale ++ ",".toList ++
          keyText "precision" ++ intText type.precision
      else []) ++ "\x7d".toList

/-- What the Avro library takes as the name of a field: letters, digits, `_` and `.`. -/
def isAvroId : Text → Bool
  | [] => false
  | c :: cs =>
    (c.isAlpha || c = '_' || c = '.') && cs.all fun c => c.isAlpha || c.isDigit || c = '_' || c = '.'

def partitionFieldNameMaxLength : ℕ := 100

/-- The name of a partition field.  The writer refuses schemas with other names. -/
structure FieldName where
  text : Text
  avroId : isAvroId text = true
  short : text.length < partitionFieldNameMaxLength

structure PartitionField where
  fieldName : FieldName
  fieldId : ℤ
  valueType : IcebergScalarAvroType

def fieldSchema (field : PartitionField) : Text :=
  "\x7b \t\t\t".toList ++ keyText "name" ++ quoted field.fieldName.text ++
    ", \t\t\t".toList ++ keyText "type" ++ "[".toList ++ quoted "null".toList ++ ", ".toList ++
      icebergAvroTypeSchemaString field.valueType ++
    "], \t\t\t".toList ++ keyText "field-id" ++ intText field.fieldId ++ " \t\t  \x7d".toList

variable (fields : List PartitionField)

/-- The schema of the field `partition`, which `AdjustPartitionsInManifestJsonSchema` puts in place
of the one without fields. -/
def newPartitionSchema : Text :=
  "\x7b \t\t\t".toList ++ keyText "name" ++ quoted "partition".toList ++
    ", \t\t\t".toList ++ keyText "type" ++
    "\x7b \t\t\t  ".toList ++ keyText "type" ++ quoted "record".toList ++
      ", \t\t\t  ".toList ++ keyText "name" ++ quoted "r102".toList ++
      ", \t\t\t  ".toList ++ keyText "fields" ++
        "[".toList ++ List.intercalate ",".toList (fields.map fieldSchema) ++ "]".toList ++
    " \t\t\t\x7d, \t\t\t".toList ++ keyText "doc" ++
      quoted "Partition data tuple, schema based on the partition spec".toList ++
    ", \t\t\t".toList ++ keyText "field-id" ++ "102 \t\t  \x7d".toList

/-- A field of the schema other than `partition`.  Its other attributes are constants no one
looks at. -/
def schemaField (name : String) : Json := .obj [("name".toList, .str name.toList)]

/-- `manifest_schema_v2_json` with the given field `partition`. -/
def manifestSchemaV2 (partition : Json) : Json :=
  .obj [("type".toList, .str "record".toList), ("name".toList, .str "manifest_entry".toList),
    ("fields".toList, .arr [schemaField "status", schemaField "snapshot_id",
      schemaField "sequence_number", schemaField "file_sequence_number",
      .obj [("name".toList, .str "data_file".toList),
        ("type".toList, .obj [("type".toList, .str "record".toList),
          ("name".toList, .str "r2".toList),
          ("fields".toList, .arr [schemaField "content", schemaField "file_path",
            schemaField "file_format", partition, schemaField "record_count",
            schemaField "file_size_in_bytes", schemaField "column_sizes",
            schemaField "value_counts", schemaField "null_value_counts",
            schemaField "nan_value_counts", schemaField "lower_bounds",
            schemaField "upper_bounds", schemaField "key_metadata", schemaField "split_offsets",
            schemaField "equality_ids", schemaField "sort_order_id"])])]])]

def icebergAvroTypeFromString (physicalTypeName : Text) (logicalTypeName : Option Text) :
    IcebergScalarAvroType :=
  -- a logical type that is not named leaves the zero of the initialiser
  if physicalTypeName = "int".toList then
    if logicalTypeName = some "date".toList then avroType .int32 .date else avroType .int32 .none
  else if physicalTypeName = "long".toList then
    if logicalTypeName = some "timestamp".toList then avroType .int64 .timestamp
    else if logicalTypeName = some "time".toList then avroType .int64 .time
    else avroType .int64 .none
  else if physicalTypeName = "string".toList then avroType .string .none
  else if physicalTypeName = "bytes".toList then
    if logicalTypeName = some "decimal".toList then avroType .binary .decimal
    else if logicalTypeName = some "uuid".toList then avroType .binary .uuid
    else avroType .binary .none
  else if physicalTypeName = "float".toList then avroType .float .none
  else if physicalTypeName = "double".toList then avroType .double .none
  else if physicalTypeName = "boolean".toList then avroType .bool .none
  else avroType .int32 .none

/-- `jsonb_array_elements`, of NULL none. -/
def arrayElements : Option Json → Except String (List Json)
  | Option.none => .ok []
  | some (.arr items) => .ok items
  | some _ => .error "cannot extract elements from a scalar"

/-- The objects of a list whose `name` is the given one. -/
def named (name : String) (objects : List Json) : List Json :=
  objects.filter fun o => (o.get? "name").bind Json.asText = some name.toList

/-- `o->'type'->'fields'`. -/
def typeFields (o : Json) : Option Json := (o.get? "type").bind (Json.get? "fields")

/-- The fields of the record `partition` of the record `data_file`. -/
def partitionFieldsUnrolled (doc : Json) : Except String (List Json) := do
  let topFields ← arrayElements (doc.get? "fields")
  let dataFileFields ← (named "data_file" topFields).mapM fun o => arrayElements (typeFields o)
  let partitionFields ←
    (named "partition" dataFileFields.flatten).mapM fun o => arrayElements (typeFields o)
  return partitionFields.flatten

structure PartitionFieldIdMapEntry where
  fieldName : Text
  fieldId : ℤ
  fieldType : IcebergScalarAvroType

def atoi (t : Text) : ℤ :=
  let n : ℤ := Nat.ofDigitChars 10 ((Decimal.splitSign t).2.takeWhile Char.isDigit) 0
  if (Decimal.splitSign t).1 then -n else n

variable (partField : Json)

/-- The physical type of a row: `["null", "int"]` or `["null", {"type": "int", ...}]`. -/
def physicalTypeOf : Option Text :=
  match (partField.get? "type").bind (Json.item? 1) with
  | some (.str s) => some s
  | some type => (type.get? "type").bind Json.asText
  | Option.none => Option.none

def logicalTypeOf : Option Text :=
  (((partField.get? "type").bind (Json.item? 1)).bind (Json.get? "logicalType")).bind Json.asText

def mapEntry : Except String PartitionFieldIdMapEntry :=
  match (partField.get? "name").bind Json.asText with
  | Option.none => .error "Partition field name is null"
  | some fieldName =>
    match (partField.get? "field-id").bind Json.asText with
    | Option.none => .error "Partition field id is null"
    | some fieldId =>
      match physicalTypeOf partField with
      | Option.none => .error "Partition field physical type is null"
      | some physicalTypeName =>
        if fieldName.length > partitionFieldNameMaxLength then
          .error "Partition field name is too long"
        else
          .ok ⟨fieldName, atoi fieldId,
            icebergAvroTypeFromString physicalTypeName (logicalTypeOf partField)⟩

def createManifestPartitionFieldMap (doc : Json) :
    Except String (List PartitionFieldIdMapEntry) := do
  let rows ← partitionFieldsUnrolled doc
  rows.mapM mapEntry

/-- The field map of a manifest that was written with the given partition fields. -/
def readBack : Except String (List PartitionFieldIdMapEntry) :=
  match parseJson (newPartitionSchema fields) with
  | Option.none => .error "invalid input syntax for type json"
  | some partition => createManifestPartitionFieldMap (manifestSchemaV2 partition)

/-! ## What the text denotes -/

def typeJson : Json :=
  let physicalType := icebergAvroPhysicalTypeName type.physicalType
  match icebergAvroLogicalTypeName type.logicalType with
  | Option.none => .str physicalType.toList
  | some logicalType =>
    .obj ([("type".toList, .str physicalType.toList),
        ("logicalType".toList, .str logicalType.toList)] ++
      if logicalType = "decimal" then
        [("scale".toList, .num ⟨type.scale, 0⟩), ("precision".toList, .num ⟨type.precision, 0⟩)]
      else [])

def fieldJson (field : PartitionField) : Json :=
  .obj [("name".toList, .str field.fieldName.text),
    ("type".toList, .arr [.str "null".toList, typeJson field.valueType]),
    ("field-id".toList, .num ⟨field.fieldId, 0⟩)]

def partitionJson : Json :=
  .obj [("name".toList, .str "partition".toList),
    ("type".toList, .obj [("type".toList, .str "record".toList), ("name".toList, .str "r102".toList),
      ("fields".toList, .arr (fields.map fieldJson))]),
    ("doc".toList, .str "Partition data tuple, schema based on the partition spec".toList),
    ("field-id".toList, .num ⟨102, 0⟩)]

theorem isPlain_physicalTypeName (type : PhysicalType) :
    ∀ c ∈ (icebergAvroPhysicalTypeName type).toList, isPlain c = true := by
  refine List.all_eq_true.mp ?_
  cases type <;> decide

theorem isPlain_logicalTypeName {type : LogicalType} {n : String}
    (h : icebergAvroLogicalTypeName type = some n) : ∀ c ∈ n.toList, isPlain c = true := by
  refine List.all_eq_true.mp ?_
  cases type <;> cases h <;> decide

theorem isPlain_of_avroChar {c : Char}
    (h : (c.isAlpha || c.isDigit || c = '_' || c = '.') = true) : isPlain c = true := by
  rw [isPlain_iff]
  refine ⟨?_, ?_, ?_⟩
  iterate 2
    rintro rfl
    exact absurd h (by decide)
  · by_contra hlow
    have hc : c = Char.ofNat c.toNat := (Char.ofNat_toNat c).symm
    generalize c.toNat = n at hlow hc
    subst hc
    revert h
    interval_cases n <;> decide

theorem FieldName.isPlain (n : FieldName) : ∀ c ∈ n.text, isPlain c = true := by
  have hid := n.avroId
  rcases ht : n.text with _ | ⟨c, cs⟩
  · simp
  · rw [ht, isAvroId, Bool.and_eq_true, List.all_eq_true] at hid
    refine List.forall_mem_cons.mpr ⟨isPlain_of_avroChar ?_, fun d hd =>
      isPlain_of_avroChar (hid.2 d hd)⟩
    simp only [Bool.or_eq_true] at hid ⊢
    tauto

theorem lex_word (word : String) (h : word.toList.all isPlain = true) (rest : Text) :
    lex (quoted word.toList ++ rest) = (lex rest).map (.str word.toList :: ·) :=
  lex_quoted (List.all_eq_true.mp h) rest

theorem lex_keyText (k : String) (h : k.toList.all isPlain = true) (rest : Text) :
    lex (keyText k ++ rest) = (lex rest).map fun ts => .str k.toList :: .colon :: ts := by
  rw [keyText, List.append_assoc, lex_word k h]
  simp [Function.comp_def]

theorem lex_punctuated {t : String} {ts : List JsonToken}
    (h : jsonLexer.run .between t.toList = some (.between, ts)) (rest : Text) :
    lex (t.toList ++ rest) = (lex rest).map (ts ++ ·) :=
  lex_append_of_run h rest

theorem denotes_typeSchemaString : Denotes (icebergAvroTypeSchemaString type) (typeJson type) := by
  intro rest _
  have hp := isPlain_physicalTypeName type.physicalType
  unfold icebergAvroTypeSchemaString typeJson
  cases hn : icebergAvroLogicalTypeName type.logicalType with
  | none => exact lex_quoted hp rest
  | some logicalType =>
    have hl := isPlain_logicalTypeName hn
    have ht := lex_keyText "type" (by decide)
    have hlogicalType := lex_keyText "logicalType" (by decide)
    have hs := lex_keyText "scale" (by decide)
    have hpr := lex_keyText "precision" (by decide)
    have ho := @lex_punctuated "\x7b" [.lbrace] (by decide)
    have hc := @lex_punctuated "," [.comma] (by decide)
    have hcl := @lex_punctuated "\x7d" [.rbrace] (by decide)
    have hscaleText := fun rest => lex_intText type.scale (separator_comma.delimited rest)
    have hprecisionText : ∀ rest, _ := fun rest =>
      lex_intText type.precision (delimited_rbrace rest)
    by_cases hd : logicalType = "decimal"
    · simp only [if_pos hd, List.append_assoc, ho, ht, lex_quoted hp, hc,
        hlogicalType, lex_quoted hl, hs, hscaleText, hpr]
      simp [hprecisionText, Json.tokens_obj, Json.membersTokens, Json.membersTail, Json.tokens,
        Function.comp_def]
    · simp only [if_neg hd, List.append_assoc, ho, ht, lex_quoted hp, hc,
        hlogicalType, lex_quoted hl, List.nil_append, hcl]
      simp [Json.tokens_obj, Json.membersTokens, Json.membersTail, Json.tokens, Function.comp_def]

variable (field : PartitionField)

theorem denotes_fieldSchema : Denotes (fieldSchema field) (fieldJson field) := by
  intro rest _
  have hn := lex_keyText "name" (by decide)
  have ht := lex_keyText "type" (by decide)
  have hid := lex_keyText "field-id" (by decide)
  have ho := @lex_punctuated "\x7b \t\t\t" [.lbrace] (by decide)
  have hco := @lex_punctuated ", \t\t\t" [.comma] (by decide)
  have hnu := @lex_punctuated "[" [.lbracket] (by decide)
  have hsep := @lex_punctuated ", " [.comma] (by decide)
  have hc := @lex_punctuated "], \t\t\t" [.rbracket, .comma] (by decide)
  have hend := @lex_punctuated " \t\t  \x7d" [.rbrace] (by decide)
  have hidText : ∀ rest, _ := fun rest =>
    @lex_intText (" \t\t  \x7d".toList ++ rest) field.fieldId (delimited_cons (by decide))
  have htypeText : ∀ rest, _ := fun rest =>
    denotes_typeSchemaString field.valueType ("], \t\t\t".toList ++ rest)
      (delimited_cons (by decide))
  unfold fieldSchema fieldJson
  simp only [List.append_assoc, ho, hn, lex_quoted field.fieldName.isPlain, hco, ht,
    hnu, lex_word "null" (by decide), hsep, htypeText, hc,
    hid, hidText, hend]
  simp [Json.membersTail, Json.tokens, Json.itemsTail, Function.comp_def]

theorem denotes_newPartitionSchema :
    Denotes (newPartitionSchema fields) (partitionJson fields) := by
  intro rest _
  have hn := lex_keyText "name" (by decide)
  have ht := lex_keyText "type" (by decide)
  have hfs := lex_keyText "fields" (by decide)
  have hdoc := lex_keyText "doc" (by decide)
  have hid := lex_keyText "field-id" (by decide)
  have ho := @lex_punctuated "\x7b \t\t\t" [.lbrace] (by decide)
  have hco := @lex_punctuated ", \t\t\t" [.comma] (by decide)
  have hi := @lex_punctuated "\x7b \t\t\t  " [.lbrace] (by decide)
  have hinnerComma := @lex_punctuated ", \t\t\t  " [.comma] (by decide)
  have hb := @lex_punctuated "[" [.lbracket] (by decide)
  have hc := @lex_punctuated " \t\t\t\x7d, \t\t\t" [.rbrace, .comma] (by decide)
  have hend := @lex_punctuated "102 \t\t  \x7d" [.num ⟨102, 0⟩, .rbrace] (by decide)
  have hit : ∀ rest,
      lex (",".toList.intercalate (fields.map fieldSchema) ++ ("]".toList ++ rest)) =
        (lex rest).map fun ts => Json.itemsTokens (fields.map fieldJson) ++ .rbracket :: ts :=
    lex_items separator_comma fun field _ => denotes_fieldSchema field
  unfold newPartitionSchema partitionJson
  simp only [List.append_assoc, ho, hn,
    lex_word "partition" (by decide), hco, ht, hi, lex_word "record" (by decide),
    hinnerComma, lex_word "r102" (by decide), hfs, hb, hit, hc, hdoc,
    lex_word "Partition data tuple, schema based on the partition spec" (by decide), hid, hend]
  simp [Json.tokens_arr, Json.membersTail, Json.tokens, Function.comp_def]

theorem keysDistinct_typeJson (type : IcebergScalarAvroType) : (typeJson type).KeysDistinct := by
  unfold typeJson
  cases hn : icebergAvroLogicalTypeName type.logicalType with
  | none => trivial
  | some logicalType =>
    by_cases hdec : logicalType = "decimal" <;>
      simp [hdec, Json.KeysDistinct, Json.MembersDistinct]

theorem keysDistinct_fieldJson : (fieldJson field).KeysDistinct := by
  simp [fieldJson, Json.KeysDistinct, Json.MembersDistinct, Json.ItemsDistinct,
    keysDistinct_typeJson]

theorem keysDistinct_partitionJson : (partitionJson fields).KeysDistinct := by
  have hi : Json.ItemsDistinct (fields.map fieldJson) := by
    rw [Json.itemsDistinct_iff]
    intro v hv
    obtain ⟨field, -, rfl⟩ := List.mem_map.mp hv
    exact keysDistinct_fieldJson field
  simp [partitionJson, Json.KeysDistinct, Json.MembersDistinct, hi]

theorem parseJson_newPartitionSchema :
    parseJson (newPartitionSchema fields) = some (partitionJson fields) :=
  (denotes_newPartitionSchema fields).parseJson (keysDistinct_partitionJson fields)

/-! ## What is read from it -/

theorem partitionFieldsUnrolled_eq :
    partitionFieldsUnrolled (manifestSchemaV2 (partitionJson fields)) =
      .ok (fields.map fieldJson) :=
  congrArg Except.ok (List.append_nil (fields.map fieldJson))

def readEntry (field : PartitionField) : PartitionFieldIdMapEntry :=
  ⟨field.fieldName.text, field.fieldId,
    icebergAvroTypeFromString (icebergAvroPhysicalTypeName field.valueType.physicalType).toList
      ((icebergAvroLogicalTypeName field.valueType.logicalType).map String.toList)⟩

theorem atoi_intText (n : ℤ) : atoi (intText n) = n := by
  have ht : intText n =
      (if decide (n < 0) = true then ['-'] else []) ++ (Nat.toDigits 10 n.natAbs ++ []) := by
    by_cases h : n < 0 <;> simp [intText, h]
  obtain ⟨hta, -⟩ := @Decimal.takeWhile_toDigits_append n.natAbs [] rfl
  rw [atoi, ht, Decimal.splitSign_append_toDigits, hta, Nat.ofDigitChars_ten_toDigits]
  exact Decimal.signed_natAbs n

theorem physicalTypeOf_fieldJson : physicalTypeOf (fieldJson field) =
      some (icebergAvroPhysicalTypeName field.valueType.physicalType).toList := by
  have ht : ((fieldJson field).get? "type").bind (Json.item? 1) =
      some (typeJson field.valueType) := rfl
  rw [physicalTypeOf, ht, typeJson]
  cases icebergAvroLogicalTypeName field.valueType.logicalType <;> rfl

theorem logicalTypeOf_fieldJson : logicalTypeOf (fieldJson field) =
      (icebergAvroLogicalTypeName field.valueType.logicalType).map String.toList := by
  have ht : ((fieldJson field).get? "type").bind (Json.item? 1) =
      some (typeJson field.valueType) := rfl
  rw [logicalTypeOf, ht, typeJson]
  cases icebergAvroLogicalTypeName field.valueType.logicalType <;> rfl

theorem mapEntry_fieldJson : mapEntry (fieldJson field) = .ok (readEntry field) := by
  have hs := field.fieldName.short
  have hn : ((fieldJson field).get? "name").bind Json.asText = some field.fieldName.text := rfl
  have hid : ((fieldJson field).get? "field-id").bind Json.asText = some (intText field.fieldId) :=
    rfl
  simp [mapEntry, hn, hid, physicalTypeOf_fieldJson, logicalTypeOf_fieldJson,
    if_neg (show ¬field.fieldName.text.length > partitionFieldNameMaxLength by omega), atoi_intText,
    readEntry]

theorem readBack_eq : readBack fields = .ok (fields.map readEntry) := by
  unfold readBack
  simp only [parseJson_newPartitionSchema, createManifestPartitionFieldMap,
    partitionFieldsUnrolled_eq]
  exact Fallible.mapM_map_eq_ok_iff.mpr fun field _ => mapEntry_fieldJson field

/-! ## Types that survive -/

/-- The fields of a partition, of distinct names, whose types are those of transforms. -/
structure Partition where
  fields : List PartitionField
  nodup : (fields.map fun field => field.fieldName.text).Nodup
  produced : ∀ field ∈ fields, ∃ settings resultType typmod,
    getTransformResultAvroType settings resultType typmod = .ok field.valueType

/-- `ReadPartitionFromAvro`: the field of a name, as the map has it. -/
def lookupField (map : List PartitionFieldIdMapEntry) (name : FieldName) :
    Except String PartitionField :=
  match map.find? fun entry => entry.fieldName = name.text with
  | Option.none => .error "Partition field name not found in the partition field map"
  | some entry => .ok ⟨name, entry.fieldId, entry.fieldType⟩

/-- The fields of a partition after it is read from a manifest. -/
def rereadFields (fields : List PartitionField) : Except String (List PartitionField) := do
  let map ← readBack fields
  fields.mapM fun field => lookupField map field.fieldName

/-- **Physical and logical type of a field come back, its attributes do not.** -/
theorem icebergAvroTypeFromString_eq {cfg : NumericSettings} {resultType : Scalar}
    {tm : Typmod} {type : IcebergScalarAvroType}
    (h : getTransformResultAvroType cfg resultType tm = .ok type) :
    icebergAvroTypeFromString (icebergAvroPhysicalTypeName type.physicalType).toList
      ((icebergAvroLogicalTypeName type.logicalType).map String.toList) =
        avroType type.physicalType type.logicalType := by
  cases resultType <;> cases h
  case numeric.refl =>
    have hdec : icebergAvroTypeFromString "bytes".toList (some "decimal".toList) =
        avroType .binary .decimal := by decide
    exact hdec
  all_goals decide

def withoutAttributes (field : PartitionField) : PartitionField :=
  ⟨field.fieldName, field.fieldId,
    avroType field.valueType.physicalType field.valueType.logicalType⟩

variable (p : Partition)

theorem lookupField_readEntry {field : PartitionField} (hf : field ∈ p.fields) :
    lookupField (p.fields.map readEntry) field.fieldName = .ok (withoutAttributes field) := by
  have hn : ((p.fields.map readEntry).map PartitionFieldIdMapEntry.fieldName).Nodup := by
    rw [List.map_map]
    exact p.nodup
  have hfi := Lookup.find?_of_mem hn (List.mem_map_of_mem (f := readEntry) hf)
  obtain ⟨cfg, resultType, tm, hp⟩ := p.produced field hf
  rw [lookupField, show (readEntry field).fieldName = field.fieldName.text from rfl] at *
  rw [hfi]
  show Except.ok (PartitionField.mk _ _ (icebergAvroTypeFromString _ _)) = _
  rw [icebergAvroTypeFromString_eq hp]
  rfl

theorem rereadFields_eq : rereadFields p.fields = .ok (p.fields.map withoutAttributes) := by
  have hall := (Fallible.mapM_map_eq_ok_iff (h := id)
    (f := fun field : PartitionField => lookupField (p.fields.map readEntry) field.fieldName)).mpr
      fun field hf => lookupField_readEntry p hf
  rw [List.map_id] at hall
  unfold rereadFields
  rw [readBack_eq]
  exact hall

theorem eq_avroType_iff {cfg : NumericSettings} {resultType : Scalar} {tm : Typmod}
    {type : IcebergScalarAvroType}
    (h : getTransformResultAvroType cfg resultType tm = .ok type) :
    avroType type.physicalType type.logicalType = type ↔
      (type.logicalType = .decimal → type.precision = 0 ∧ type.scale = 0) := by
  cases resultType <;> cases h
  case numeric.refl => simp [avroType, eq_comm]
  all_goals simp [avroType]

theorem withoutAttributes_eq_iff {field : PartitionField} (hf : field ∈ p.fields) :
    withoutAttributes field = field ↔ (field.valueType.logicalType = .decimal →
        field.valueType.precision = 0 ∧ field.valueType.scale = 0) := by
  obtain ⟨cfg, resultType, tm, hp⟩ := p.produced field hf
  rw [← eq_avroType_iff hp]
  constructor
  · exact fun h => congrArg PartitionField.valueType h
  · exact fun h => by rw [withoutAttributes, h]

/-- The types of the fields, and with them the schema that is emitted when the manifest is written
again. -/
def TypesSurvive (fields : List PartitionField) : Prop :=
  ∃ reread, rereadFields fields = .ok reread ∧
    reread.map PartitionField.valueType = fields.map PartitionField.valueType ∧
    newPartitionSchema reread = newPartitionSchema fields

/-- **The types of a partition survive exactly if no decimal has a precision or a scale.** -/
theorem types_survive_iff (p : Partition) :
    TypesSurvive p.fields ↔ ∀ field ∈ p.fields, field.valueType.logicalType = .decimal →
        field.valueType.precision = 0 ∧ field.valueType.scale = 0 := by
  constructor
  · rintro ⟨reread, hreread, htypes, -⟩ field hfield
    rw [rereadFields_eq] at hreread
    cases hreread
    rw [List.map_map, List.map_inj_left] at htypes
    obtain ⟨settings, resultType, typmod, hproduced⟩ := p.produced field hfield
    exact (eq_avroType_iff hproduced).mp (htypes field hfield)
  · intro hall
    have hsame : p.fields.map withoutAttributes = p.fields :=
      (List.map_congr_left fun field hfield =>
        (withoutAttributes_eq_iff p hfield).mpr (hall field hfield)).trans (List.map_id _)
    have hreread := rereadFields_eq p
    rw [hsame] at hreread
    exact ⟨p.fields, hreread, rfl, rfl⟩

/-- A table partitioned by a column `price numeric(10,2)`. -/
def pricePartition : Partition where
  fields := [⟨⟨"price".toList, by decide, by decide⟩, 1000, ⟨.binary, .decimal, 10, 2⟩⟩]
  nodup := by simp
  produced := by
    intro field hfield
    obtain rfl := List.mem_singleton.mp hfield
    exact ⟨.default, .numeric, some ⟨10, 2⟩, rfl⟩

theorem decimal_comes_back_without_precision : rereadFields pricePartition.fields =
        .ok [⟨⟨"price".toList, by decide, by decide⟩, 1000, ⟨.binary, .decimal, 0, 0⟩⟩] ∧
      ¬TypesSurvive pricePartition.fields := by
  refine ⟨rereadFields_eq pricePartition, ?_⟩
  rintro ⟨reread, hreread, htypes, -⟩
  rw [rereadFields_eq] at hreread
  cases hreread
  exact absurd htypes (by decide)

end PgLake.Iceberg.ManifestSchema
