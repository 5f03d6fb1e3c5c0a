/-
  The schema an `ALTER TABLE` publishes (`transaction/track_iceberg_metadata_changes.c`,
  `parquet/field.c`, `api/table_metadata.c`).

  The search for an earlier schema compares strings with `pg_strcasecmp`.  It therefore also
  stops at a schema that differs from the altered one in the case of its letters, and the table
  goes back to that schema.

  Main result: `publishesAltered_iff`.
-/
import PgLake.Iceberg.Snapshots
import PgLake.Lib.Lookup

namespace PgLake.Iceberg

open List

/-! ## Strings -/

/-- The bytes of a C string, without its terminator. -/
structure CString where
  bytes : List UInt8
  nulFree : 0 ∉ bytes
  deriving DecidableEq

/-- `isupper` and `tolower` of the server's locale.  No letter is mapped to the terminator. -/
structure CharLocale where
  isUpper : UInt8 → Bool
  toLower : UInt8 → UInt8
  toLower_ne_zero : ∀ ch, toLower ch ≠ 0

namespace CharLocale

variable (locale : CharLocale)

/-- The byte `pg_strcasecmp` compares: ASCII letters are folded by hand, the locale is asked about
    the bytes above them. -/
def fold (ch : UInt8) : UInt8 :=
  if 65 ≤ ch ∧ ch ≤ 90 then ch + 32
  else if 128 ≤ ch ∧ locale.isUpper ch = true then locale.toLower ch
  else ch

/-- `pg_strcasecmp`, up to the terminators. -/
def pgStrcasecmp : List UInt8 → List UInt8 → ℤ
  | [], [] => 0
  | [], b :: _ => 0 - (locale.fold b).toNat
  | a :: _, [] => (locale.fold a).toNat
  | a :: s, b :: t =>
    if a ≠ b ∧ locale.fold a ≠ locale.fold b then
      (locale.fold a).toNat - (locale.fold b).toNat
    else pgStrcasecmp s t

def pgStrcasecmpNullable : Option CString → Option CString → Bool
  | none, none => true
  | none, some _ => false
  | some _, none => false
  | some a, some b => locale.pgStrcasecmp a.bytes b.bytes = 0

theorem fold_ne_zero {ch : UInt8} (hch : ch ≠ 0) : locale.fold ch ≠ 0 := by
  unfold fold
  split
  · rename_i hl
    intro hz
    have hnat := congrArg UInt8.toNat hz
    have hlo := UInt8.le_iff_toNat_le.mp hl.1
    have hhi := UInt8.le_iff_toNat_le.mp hl.2
    simp at hnat hlo hhi
    omega
  · split
    · exact locale.toLower_ne_zero ch
    · exact hch

theorem fold_toNat_ne_zero {ch : UInt8} {rest : List UInt8} (h : 0 ∉ ch :: rest) :
    (locale.fold ch).toNat ≠ 0 := fun hz =>
  locale.fold_ne_zero (by rintro rfl; simp at h) (UInt8.toNat_inj.mp hz)

/-- **What the comparison decides.**  Two strings compare equal iff they have the same folded
    bytes. -/
theorem pgStrcasecmp_eq_zero_iff : ∀ {s t : List UInt8}, 0 ∉ s → 0 ∉ t →
      (locale.pgStrcasecmp s t = 0 ↔ s.map locale.fold = t.map locale.fold)
  | [], [], _, _ => by simp [pgStrcasecmp]
  | [], b :: t, _, ht => by
    have hpos := locale.fold_toNat_ne_zero ht
    simp only [pgStrcasecmp, map_nil, map_cons, reduceCtorEq, iff_false]
    omega
  | a :: s, [], hs, _ => by
    have hpos := locale.fold_toNat_ne_zero hs
    simp only [pgStrcasecmp, map_nil, map_cons, reduceCtorEq, iff_false]
    omega
  | a :: s, b :: t, hs, ht => by
    have ih := pgStrcasecmp_eq_zero_iff (s := s) (t := t) (fun h => hs (mem_cons_of_mem _ h))
      (fun h => ht (mem_cons_of_mem _ h))
    simp only [pgStrcasecmp, map_cons, List.cons.injEq]
    split
    · rename_i hne
      have hnat : (locale.fold a).toNat ≠ (locale.fold b).toNat :=
        fun h => hne.2 (UInt8.toNat_inj.mp h)
      constructor
      · intro h
        omega
      · rintro ⟨h, -⟩
        exact absurd h hne.2
    · rename_i hsa
      have hf : locale.fold a = locale.fold b := by
        by_contra hne
        exact hsa ⟨fun hab => hne (hab ▸ rfl), hne⟩
      rw [ih]
      exact ⟨fun h => ⟨hf, h⟩, And.right⟩

/-- Equality of nullable strings up to the case of their letters. -/
def EqUpToCase (a b : Option CString) : Prop :=
  a.map (fun s => s.bytes.map locale.fold) = b.map (fun s => s.bytes.map locale.fold)

theorem pgStrcasecmpNullable_iff (a b : Option CString) :
    locale.pgStrcasecmpNullable a b = true ↔ locale.EqUpToCase a b := by
  rcases a with _ | a <;> rcases b with _ | b
  iterate 3 simp [pgStrcasecmpNullable, EqUpToCase]
  · simp [pgStrcasecmpNullable, EqUpToCase, locale.pgStrcasecmp_eq_zero_iff a.nulFree b.nulFree]

end CharLocale

/-! ## Schemas -/

/-- `DataFileSchemaField`; `T` is the type of a field. -/
structure SchemaField (T : Type) where
  id : Int32
  name : Option CString
  required : Bool
  type : T
  doc : Option CString
  initialDefault : Option CString
  writeDefault : Option CString

/-- `IcebergTableSchema` -/
structure TableSchema (T : Type) where
  schemaId : Int32
  fields : List (SchemaField T)

/-- The schemas of a table's metadata. -/
structure SchemaList (T : Type) where
  schemas : List (TableSchema T)
  currentSchemaId : Int32

/-- The metadata of a table that a file was read from: as the format requires, no two schemas
    have the same id and ids are not negative. -/
structure PushedSchemas (T : Type) extends SchemaList T where
  ids_nodup : (schemas.map TableSchema.schemaId).Nodup
  ids_nonneg : ∀ e ∈ schemas, 0 ≤ e.schemaId

variable {T : Type}

/-- Field by field what an `ALTER TABLE` can change: everything but the type. -/
structure SchemaField.SameAs (a b : SchemaField T) : Prop where
  id : a.id = b.id
  name : a.name = b.name
  required : a.required = b.required
  doc : a.doc = b.doc
  initialDefault : a.initialDefault = b.initialDefault
  writeDefault : a.writeDefault = b.writeDefault

def SameFields (fields schema : List (SchemaField T)) : Prop :=
  List.Forall₂ SchemaField.SameAs fields schema

theorem SameFields.refl (schema : List (SchemaField T)) : SameFields schema schema :=
  forall₂_same.mpr fun _ _ => ⟨rfl, rfl, rfl, rfl, rfl, rfl⟩

variable (metadata : SchemaList T)

/-- `GetIcebergTableSchemaById`; `none` is the error about an unknown id. -/
def SchemaList.getIcebergTableSchemaById (schemaId : Int32) : Option (TableSchema T) :=
  metadata.schemas.find? fun e => e.schemaId = schemaId

def SchemaList.getCurrentIcebergTableSchema : Option (TableSchema T) :=
  if metadata.currentSchemaId = -1 then none
  else metadata.getIcebergTableSchemaById metadata.currentSchemaId

def maxSchemaId (schemas : List (TableSchema T)) : Int32 :=
  schemas.foldl (fun maxId e => if maxId < e.schemaId then e.schemaId else maxId) (-1)

/-- The id `AppendCurrentPostgresSchema` gives to the schema it appends. -/
def SchemaList.nextSchemaId : Int32 :=
  if metadata.schemas.length = 0 then 0 else maxSchemaId metadata.schemas + 1

def SchemaList.appendCurrentPostgresSchema (schema : List (SchemaField T)) : SchemaList T where
  schemas := metadata.schemas ++ [⟨metadata.nextSchemaId, schema⟩]
  currentSchemaId := metadata.nextSchemaId

open SchemaList

section

variable (locale : CharLocale)

/-- `SchemaFieldsEquivalent`.  The types are not compared, they cannot be altered. -/
def schemaFieldsEquivalent (fieldA fieldB : SchemaField T) : Bool :=
  decide (fieldA.id = fieldB.id) &&
  locale.pgStrcasecmpNullable fieldA.name fieldB.name &&
  decide (fieldA.required = fieldB.required) &&
  locale.pgStrcasecmpNullable fieldA.doc fieldB.doc &&
  locale.pgStrcasecmpNullable fieldA.writeDefault fieldB.writeDefault &&
  locale.pgStrcasecmpNullable fieldA.initialDefault fieldB.initialDefault

/-- The loop of `AreSchemasEqual`. -/
def schemaFieldsLoop : List (SchemaField T) → List (SchemaField T) → Bool
  | a :: existing, b :: new =>
    if !schemaFieldsEquivalent locale a b then false else schemaFieldsLoop existing new
  | _, _ => true

def areSchemasEqual (existingSchema : TableSchema T) (newSchema : List (SchemaField T)) : Bool :=
  if existingSchema.fields.length ≠ newSchema.length then false
  else schemaFieldsLoop locale existingSchema.fields newSchema

variable (metadata : SchemaList T)

def getSchemaIdForIcebergTableIfExists (schema : List (SchemaField T)) : Int32 :=
  match metadata.schemas.find? fun e => areSchemasEqual locale e schema with
  | some e => e.schemaId
  | none => -1

/-! ## The operations of a transaction -/

/-- What a transaction did to the table (`TableMetadataOperationTracker`). -/
structure DdlTracker where
  relationCreated : Bool
  relationAltered : Bool
  relationPartitionByChanged : Bool

/-- `ddlSchemaEffect` of an operation, with the schema or the id it comes with. -/
inductive DdlSchemaEffect (T : Type) where
  | addSchema (newSchema : List (SchemaField T))
  | setExistingSchema (existingSchemaId : Int32)

/-- The operations of `GetDDLMetadataOperations`. -/
inductive SchemaOperation (T : Type) where
  | tableCreate (newSchema : List (SchemaField T))
  | tableDdl (effect : DdlSchemaEffect T)
  | tablePartitionBy

/-- The effect an `ALTER TABLE` has on the schemas. -/
def alterEffect (schema : List (SchemaField T)) : DdlSchemaEffect T :=
  let existingSchemaId := getSchemaIdForIcebergTableIfExists locale metadata schema
  if existingSchemaId ≠ -1 then .setExistingSchema existingSchemaId else .addSchema schema

def getDDLMetadataOperations (tracker : DdlTracker) (metadata : SchemaList T)
    (schema : List (SchemaField T)) : List (SchemaOperation T) :=
  if tracker.relationCreated then [.tableCreate schema]
  else
    (if tracker.relationAltered then [.tableDdl (alterEffect locale metadata schema)] else []) ++
    (if tracker.relationPartitionByChanged then [.tablePartitionBy] else [])

/-- What `IcebergSnapshotBuilder` holds about schemas. -/
structure DdlBuilder (T : Type) where
  createTable : Bool := false
  regenerateSchema : Bool := false
  schema : Option (List (SchemaField T)) := none
  schemaId : Int32 := 0

variable (builder : DdlBuilder T)

/-- `ProcessIcebergMetadataOperations`, one operation. -/
def DdlBuilder.process : SchemaOperation T → DdlBuilder T
  | .tableCreate newSchema => { builder with createTable := true, schema := some newSchema }
  | .tableDdl (.addSchema newSchema) =>
    { builder with regenerateSchema := true, schema := some newSchema }
  | .tableDdl (.setExistingSchema existingSchemaId) =>
    { builder with regenerateSchema := true, schemaId := existingSchemaId }
  | .tablePartitionBy => builder

/-- `ProcessIcebergMetadataOperations` -/
def ddlBuilder (operations : List (SchemaOperation T)) : DdlBuilder T :=
  operations.foldl DdlBuilder.process {}

/-- What a REST catalog does with the schema requests of a commit.  It gives an added schema an id
    of its own and makes it the current one; it refuses an id it does not know. -/
def restCatalogSchema : Option (List (SchemaField T)) :=
  match builder.schema with
  | some schema => some schema
  | none =>
    if 0 ≤ builder.schemaId then
      (metadata.getIcebergTableSchemaById builder.schemaId).map TableSchema.fields
    else none

/-- The schema part of `ApplyIcebergMetadataChanges` for a table whose metadata is written here. -/
def applySchemaChanges : Option (SchemaList T) :=
  if builder.createTable || builder.regenerateSchema then
    match builder.schema with
    | some schema => some (metadata.appendCurrentPostgresSchema schema)
    | none =>
      if 0 ≤ builder.schemaId then some { metadata with currentSchemaId := builder.schemaId }
      else none
  else some metadata

/-- The fields of the current schema after the changes of a transaction. -/
def publishedFields (catalogType : IcebergCatalogType) (metadata : SchemaList T)
    (builder : DdlBuilder T) : Option (List (SchemaField T)) :=
  if catalogType = .restCatalogReadWrite then restCatalogSchema metadata builder
  else
    ((applySchemaChanges metadata builder).bind
      SchemaList.getCurrentIcebergTableSchema).map TableSchema.fields

/-- What an `ALTER TABLE` publishes. -/
def alterOperations (partitionByChanged : Bool) (metadata : SchemaList T)
    (schema : List (SchemaField T)) : List (SchemaOperation T) :=
  getDDLMetadataOperations locale ⟨false, true, partitionByChanged⟩ metadata schema

/-- An `ALTER TABLE` publishes the schema it was given. -/
structure PublishesAltered (catalogType : IcebergCatalogType) (partitionByChanged : Bool)
    (metadata : SchemaList T) (schema : List (SchemaField T)) : Prop where
  current : ∃ fields, publishedFields catalogType metadata
      (ddlBuilder (alterOperations locale partitionByChanged metadata schema)) = some fields ∧
    SameFields fields schema
  /-- An id is reused only for the altered schema. -/
  reused : ∀ id,
    .tableDdl (.setExistingSchema id) ∈ alterOperations locale partitionByChanged metadata schema →
    ∀ e ∈ metadata.schemas, e.schemaId = id → SameFields e.fields schema

/-! ## When the search finds the altered schema -/

/-- Two fields agree up to the case of the letters in their strings. -/
structure SchemaField.SameUpToCase (a b : SchemaField T) : Prop where
  id : a.id = b.id
  name : locale.EqUpToCase a.name b.name
  required : a.required = b.required
  doc : locale.EqUpToCase a.doc b.doc
  initialDefault : locale.EqUpToCase a.initialDefault b.initialDefault
  writeDefault : locale.EqUpToCase a.writeDefault b.writeDefault

/-- Two schemas agree up to the case of the letters in their strings. -/
def SameFieldsUpToCase (fields schema : List (SchemaField T)) : Prop :=
  List.Forall₂ (SchemaField.SameUpToCase locale) fields schema

theorem schemaFieldsEquivalent_iff (a b : SchemaField T) :
    schemaFieldsEquivalent locale a b = true ↔ SchemaField.SameUpToCase locale a b := by
  simp only [schemaFieldsEquivalent, Bool.and_eq_true, decide_eq_true_eq,
    locale.pgStrcasecmpNullable_iff]
  constructor
  · rintro ⟨⟨⟨⟨⟨hid, hn⟩, hr⟩, hdoc⟩, hw⟩, hi⟩
    exact ⟨hid, hn, hr, hdoc, hi, hw⟩
  · rintro ⟨hid, hn, hr, hdoc, hi, hw⟩
    exact ⟨⟨⟨⟨⟨hid, hn⟩, hr⟩, hdoc⟩, hw⟩, hi⟩

theorem schemaFieldsLoop_iff :
    ∀ {fs schema : List (SchemaField T)}, fs.length = schema.length →
      (schemaFieldsLoop locale fs schema = true ↔ SameFieldsUpToCase locale fs schema)
  | [], [], _ => by simp [schemaFieldsLoop, SameFieldsUpToCase]
  | [], _ :: _, h => by simp at h
  | _ :: _, [], h => by simp at h
  | a :: fs, b :: schema, h => by
    have hlen : fs.length = schema.length := by simpa using h
    have ih := schemaFieldsLoop_iff hlen
    have hf := schemaFieldsEquivalent_iff locale a b
    unfold SameFieldsUpToCase at ih ⊢
    rw [forall₂_cons, ← ih, ← hf]
    by_cases heq : schemaFieldsEquivalent locale a b = true
    iterate 2 simp [schemaFieldsLoop, heq]

/-- **What the search stops at.** -/
theorem areSchemasEqual_iff (e : TableSchema T) (schema : List (SchemaField T)) :
    areSchemasEqual locale e schema = true ↔ SameFieldsUpToCase locale e.fields schema := by
  unfold areSchemasEqual
  split
  · rename_i hlen
    constructor
    · intro h
      simp at h
    · intro h
      exact absurd h.length_eq hlen
  · rename_i hlen
    exact schemaFieldsLoop_iff locale (not_not.mp hlen)

/-- The earliest schema that agrees with the altered one up to the case of letters, if there is
    one, is the altered one. -/
def EarliestMatchIsExact (schema : List (SchemaField T)) : Prop :=
  ∀ earlier e later, metadata.schemas = earlier ++ e :: later →
    SameFieldsUpToCase locale e.fields schema →
    (∀ e' ∈ earlier, ¬ SameFieldsUpToCase locale e'.fields schema) →
    SameFields e.fields schema

/-! ## Looking up the published schema -/

variable {e : TableSchema T}

theorem maxSchemaId_foldl (schemas : List (TableSchema T)) (start : Int32) :
    let top := schemas.foldl
      (fun maxId e => if maxId < e.schemaId then e.schemaId else maxId) start
    start ≤ top ∧ ∀ e ∈ schemas, e.schemaId ≤ top := by
  induction schemas generalizing start with
  | nil => simp
  | cons x rest ih =>
    rcases ih (if start < x.schemaId then x.schemaId else start) with ⟨hs, hr⟩
    have hb : start ≤ (if start < x.schemaId then x.schemaId else start) ∧
        x.schemaId ≤ (if start < x.schemaId then x.schemaId else start) := by
      split <;> rename_i hlt <;> constructor
      · exact Int32.le_of_lt hlt
      · exact Int32.le_refl _
      · exact Int32.le_refl _
      · exact Int32.not_lt.mp hlt
    refine ⟨Int32.le_trans hb.1 hs, ?_⟩
    intro e he
    rcases mem_cons.mp he with rfl | he
    · exact Int32.le_trans hb.2 hs
    · exact hr e he

variable (metadata : PushedSchemas T)

theorem PushedSchemas.schemaId_le_max (he : e ∈ metadata.schemas) :
    0 ≤ (maxSchemaId metadata.schemas).toInt ∧
      e.schemaId.toInt ≤ (maxSchemaId metadata.schemas).toInt := by
  have hle : e.schemaId ≤ maxSchemaId metadata.schemas :=
    (maxSchemaId_foldl metadata.schemas (-1)).2 e he
  have hle := Int32.le_iff_toInt_le.mp hle
  have hpos := Int32.le_iff_toInt_le.mp (metadata.ids_nonneg e he)
  exact ⟨Int.le_trans hpos hle, hle⟩

/-- The id of an appended schema is new, even where the counter runs over: it is negative then. -/
theorem PushedSchemas.nextSchemaId_fresh :
    metadata.nextSchemaId ≠ -1 ∧ ∀ e ∈ metadata.schemas, e.schemaId ≠ metadata.nextSchemaId := by
  rcases hs : metadata.schemas with _ | ⟨x, rest⟩
  · simp [nextSchemaId, hs]
  · have hn : metadata.nextSchemaId = maxSchemaId metadata.schemas + 1 := by
      simp [nextSchemaId, hs]
    have hx : x ∈ metadata.schemas := by simp [hs]
    have htop := (metadata.schemaId_le_max hx).1
    have hlt := Int32.toInt_lt (maxSchemaId metadata.schemas)
    have hsum : metadata.nextSchemaId.toInt =
        ((maxSchemaId metadata.schemas).toInt + 1).bmod (2 ^ 32) := by
      rw [hn, Int32.toInt_add]
      rfl
    rw [← hs]
    refine ⟨?_, ?_⟩
    · intro h
      have := congrArg Int32.toInt h
      rw [hsum] at this
      simp [Int.bmod] at this
      omega
    · intro e he h
      rcases metadata.schemaId_le_max he with ⟨-, hle⟩
      have hpos := Int32.le_iff_toInt_le.mp (metadata.ids_nonneg e he)
      have := congrArg Int32.toInt h
      rw [hsum] at this
      simp [Int.bmod] at this hpos
      omega

theorem PushedSchemas.current_append (schema : List (SchemaField T)) :
    (metadata.appendCurrentPostgresSchema schema).getCurrentIcebergTableSchema =
      some ⟨metadata.nextSchemaId, schema⟩ := by
  rcases metadata.nextSchemaId_fresh with ⟨hset, hf⟩
  have hold : metadata.getIcebergTableSchemaById metadata.nextSchemaId = none :=
    find?_eq_none.mpr fun e he => mt of_decide_eq_true (hf e he)
  unfold getIcebergTableSchemaById at hold
  have ha : (metadata.appendCurrentPostgresSchema schema).getCurrentIcebergTableSchema =
      if metadata.nextSchemaId = -1 then none
      else (metadata.appendCurrentPostgresSchema schema).schemas.find?
        fun e => e.schemaId = metadata.nextSchemaId := rfl
  rw [ha, if_neg hset, appendCurrentPostgresSchema, find?_append, hold]
  simp

theorem PushedSchemas.getById_of_mem (he : e ∈ metadata.schemas) :
    metadata.getIcebergTableSchemaById e.schemaId = some e :=
  Lookup.find?_of_mem metadata.ids_nodup he

theorem PushedSchemas.eq_of_id_eq {e e' : TableSchema T}
    (he : e ∈ metadata.schemas) (he' : e' ∈ metadata.schemas) (h : e.schemaId = e'.schemaId) :
    e = e' := by
  have hf := metadata.getById_of_mem he
  rw [h, metadata.getById_of_mem he'] at hf
  exact (Option.some.inj hf).symm

/-! ## The two effects of an `ALTER TABLE` -/

def reusedSchema (metadata : SchemaList T) (schema : List (SchemaField T)) :
    Option (TableSchema T) :=
  metadata.schemas.find? fun e => areSchemasEqual locale e schema

theorem earliestMatchIsExact_iff (metadata : SchemaList T) (schema : List (SchemaField T)) :
    EarliestMatchIsExact locale metadata schema ↔
      ∀ e, reusedSchema locale metadata schema = some e → SameFields e.fields schema := by
  constructor
  · intro hex e he
    rcases find?_eq_some_iff_append.mp he with ⟨hm, earlier, later, hs, hn⟩
    refine hex earlier e later hs ((areSchemasEqual_iff locale e schema).mp hm) ?_
    intro e' he' hsa
    have := hn e' he'
    rw [(areSchemasEqual_iff locale e' schema).mpr hsa] at this
    simp at this
  · intro hr earlier e later hs hsa hn
    refine hr e (find?_eq_some_iff_append.mpr ⟨?_, earlier, later, hs, ?_⟩)
    · exact (areSchemasEqual_iff locale e schema).mpr hsa
    · intro e' he'
      have hne := mt (areSchemasEqual_iff locale e' schema).mp (hn e' he')
      simpa using hne

theorem PushedSchemas.reusedId_ne (he : e ∈ metadata.schemas) : e.schemaId ≠ -1 := by
  have hpos := metadata.ids_nonneg e he
  rintro h
  rw [h] at hpos
  exact absurd hpos (by decide)

variable {schema : List (SchemaField T)}

theorem alterEffect_of_reused (metadata : PushedSchemas T)
    (he : reusedSchema locale metadata.toSchemaList schema = some e) :
    alterEffect locale metadata.toSchemaList schema = .setExistingSchema e.schemaId := by
  have hid : getSchemaIdForIcebergTableIfExists locale metadata.toSchemaList schema =
      e.schemaId := by
    unfold getSchemaIdForIcebergTableIfExists
    unfold reusedSchema at he
    rw [he]
  have hne := metadata.reusedId_ne (mem_of_find?_eq_some he)
  simp [alterEffect, hid, hne]

theorem alterEffect_of_new (metadata : SchemaList T)
    (hn : reusedSchema locale metadata schema = none) :
    alterEffect locale metadata schema = .addSchema schema := by
  have hid : getSchemaIdForIcebergTableIfExists locale metadata schema = -1 := by
    unfold getSchemaIdForIcebergTableIfExists
    unfold reusedSchema at hn
    rw [hn]
  simp [alterEffect, hid]

variable (partitionByChanged : Bool) (metadata : SchemaList T)

theorem alterOperations_eq (schema : List (SchemaField T)) :
    alterOperations locale partitionByChanged metadata schema =
      .tableDdl (alterEffect locale metadata schema) ::
        (if partitionByChanged then [.tablePartitionBy] else []) := by
  simp [alterOperations, getDDLMetadataOperations]

theorem ddlBuilder_alterOperations (schema : List (SchemaField T)) :
    ddlBuilder (alterOperations locale partitionByChanged metadata schema) =
      DdlBuilder.process {} (.tableDdl (alterEffect locale metadata schema)) := by
  cases partitionByChanged <;> rfl

theorem reused_mem_alterOperations (schema : List (SchemaField T)) (id : Int32) :
    .tableDdl (.setExistingSchema id) ∈ alterOperations locale partitionByChanged metadata schema ↔
      alterEffect locale metadata schema = .setExistingSchema id := by
  rw [alterOperations_eq]
  cases partitionByChanged <;> simp [eq_comm]

variable (catalogType : IcebergCatalogType)

theorem publishedFields_of_reused (partitionByChanged : Bool)
    (metadata : PushedSchemas T) (he : reusedSchema locale metadata.toSchemaList schema = some e) :
    publishedFields catalogType metadata.toSchemaList
      (ddlBuilder (alterOperations locale partitionByChanged metadata.toSchemaList schema)) =
      some e.fields := by
  have hm := mem_of_find?_eq_some he
  have hpos : 0 ≤ e.schemaId := metadata.ids_nonneg e hm
  have hne := metadata.reusedId_ne hm
  have hget := metadata.getById_of_mem hm
  rw [ddlBuilder_alterOperations, alterEffect_of_reused locale metadata he]
  unfold publishedFields
  split
  · simp [DdlBuilder.process, restCatalogSchema, hpos, hget]
  · have hc : ({ metadata.toSchemaList with currentSchemaId := e.schemaId } :
        SchemaList T).getCurrentIcebergTableSchema = some e := by
      simp only [getCurrentIcebergTableSchema, if_neg hne]
      exact hget
    simp [DdlBuilder.process, applySchemaChanges, hpos, hc]

theorem publishedFields_of_new (partitionByChanged : Bool)
    (metadata : PushedSchemas T) (hn : reusedSchema locale metadata.toSchemaList schema = none) :
    publishedFields catalogType metadata.toSchemaList
      (ddlBuilder (alterOperations locale partitionByChanged metadata.toSchemaList schema)) =
      some schema := by
  rw [ddlBuilder_alterOperations, alterEffect_of_new locale metadata.toSchemaList hn]
  unfold publishedFields
  split
  · simp [DdlBuilder.process, restCatalogSchema]
  · simp [DdlBuilder.process, applySchemaChanges, metadata.current_append]

/-- **What an `ALTER TABLE` publishes.**  The altered schema is published exactly if the earliest
    schema that agrees with it up to the case of letters is the altered one. -/
theorem publishesAltered_iff (catalogType : IcebergCatalogType) (partitionByChanged : Bool)
    (metadata : PushedSchemas T) (schema : List (SchemaField T)) :
    PublishesAltered locale catalogType partitionByChanged metadata.toSchemaList schema ↔
      EarliestMatchIsExact locale metadata.toSchemaList schema := by
  rw [earliestMatchIsExact_iff]
  rcases hreused : reusedSchema locale metadata.toSchemaList schema with _ | e
  · constructor
    · intro _ e he
      simp at he
    · intro _
      refine ⟨⟨schema, ?_, .refl schema⟩, ?_⟩
      · exact publishedFields_of_new locale catalogType partitionByChanged metadata hreused
      · intro id hid
        rw [reused_mem_alterOperations, alterEffect_of_new locale _ hreused] at hid
        simp at hid
  · have hmem : e ∈ metadata.schemas := mem_of_find?_eq_some hreused
    have hpub :=
      publishedFields_of_reused locale catalogType partitionByChanged metadata hreused
    constructor
    · rintro ⟨⟨fields, hfields, hsame⟩, -⟩ e' he'
      rw [hpub] at hfields
      cases hfields
      cases he'
      exact hsame
    · intro hexact
      have hsame := hexact e rfl
      refine ⟨⟨e.fields, hpub, hsame⟩, ?_⟩
      intro id hid e' he' hid'
      rw [reused_mem_alterOperations, alterEffect_of_reused locale metadata hreused] at hid
      cases hid
      rw [metadata.eq_of_id_eq he' hmem hid']
      exact hsame

end

/-! ## A rename that is not published -/

def cLocale : CharLocale where
  isUpper _ := false
  toLower ch := if ch = 0 then 1 else ch
  toLower_ne_zero ch := by
    split
    · decide
    · assumption

/-- A column called `a`. -/
def lowerCaseField : SchemaField Unit where
  id := 1
  name := some ⟨[97], by decide⟩
  required := false
  type := ()
  doc := none
  initialDefault := none
  writeDefault := none

/-- The same column after `ALTER TABLE .. RENAME COLUMN a TO "A"`. -/
def upperCaseField : SchemaField Unit :=
  { lowerCaseField with name := some ⟨[65], by decide⟩ }

/-- A table before one of its columns is renamed. -/
def beforeRename : PushedSchemas Unit where
  schemas := [⟨0, [lowerCaseField]⟩]
  currentSchemaId := 0
  ids_nodup := by decide
  ids_nonneg := by decide

/-- After the rename the current schema still has the column `a`. -/
theorem rename_case_not_published : publishedFields .postgresCatalog beforeRename.toSchemaList
        (ddlBuilder (alterOperations cLocale false beforeRename.toSchemaList [upperCaseField])) =
      some [lowerCaseField] ∧
    ¬ PublishesAltered cLocale .postgresCatalog false beforeRename.toSchemaList [upperCaseField] := by
  have hpub : publishedFields .postgresCatalog beforeRename.toSchemaList
      (ddlBuilder (alterOperations cLocale false beforeRename.toSchemaList [upperCaseField])) =
      some [lowerCaseField] := rfl
  refine ⟨hpub, ?_⟩
  rintro ⟨⟨fields, hfields, hsame⟩, -⟩
  cases hfields
  rcases hsame with _ | ⟨hfield, -⟩
  exact absurd hfield.name (by decide)

end PgLake.Iceberg
