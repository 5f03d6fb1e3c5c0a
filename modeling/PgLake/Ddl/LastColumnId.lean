/-
  The last column id of a table (`api/table_schema.c`, `table_metadata.c`,
  `fdw/schema_operations/register_field_ids.c`).

  `CREATE TABLE` and `ADD COLUMN` register a field id for each column and for each node of its
  type, counting on from the largest registered id.  A commit appends the schema of the current
  columns to the metadata and sets `last-column-id` to the id of the last of them.

  Main result: `lastColumnId_bounds_iff`.
-/
import Mathlib.Data.List.MinMax
import Mathlib.Order.Nat
import PgLake.Lib.Transition
import PgLake.Types.FieldIds
import PgLake.Ddl.FieldMappings

namespace PgLake.Ddl.LastColumnId

open PgLake.Types List Transition
open Fallible

/-- A column of the relation, which stays as an attribute when it is dropped. -/
structure Attribute where
  type : PgType
  typmod : Typmod
  dropped : Bool

/-- `DataFileSchemaField`, as far as its ids go. -/
structure SchemaField where
  id : ℕ
  type : Field

/-- The ids of a field and of the fields below it. -/
def SchemaField.ids (field : SchemaField) : List ℕ := field.id :: field.type.ids

/-- `IcebergTableMetadata`: the last column id and the schemas. -/
structure TableMetadata where
  lastColumnId : ℕ
  schemas : List (List SchemaField)

structure State where
  attributes : List Attribute
  /-- `lake_table.field_id_mappings` -/
  fields : List FieldMapping
  metadata : TableMetadata

/-- A statement that changes the columns of the table. -/
inductive Event where
  /-- `CREATE TABLE` or `ADD COLUMN` with the types and modifiers of the columns -/
  | addColumns (columnDefs : List (PgType × Typmod))
  /-- `DROP COLUMN` -/
  | dropColumn (attrNo : ℕ)
  /-- `AppendCurrentPostgresSchema` with the schema of the current columns -/
  | appendCurrentPostgresSchema

section Code
variable (cfg : NumericSettings) (mode : CompatibilityMode)

/-- `CreatePostgresColumnMappingsForColumnDefs`: the attribute number, the field id and the
    storage type of each column. -/
def createPostgresColumnMappings (fieldId attrNo : ℕ) :
    List (PgType × Typmod) → List (ℕ × ℕ × Field)
  | [] => []
  | (type, typmod) :: columnDefs =>
    let subFieldIndex := (type.toField cfg typmod fieldId).2
    (attrNo, fieldId, (createColumnMapping cfg mode type typmod fieldId).storage) ::
      createPostgresColumnMappings (subFieldIndex + 1) (attrNo + 1) columnDefs

def registerPostgresColumnMappings (fields : List FieldMapping)
    (mappings : List (ℕ × ℕ × Field)) : Except String (List FieldMapping) :=
  mappings.foldlM (fun fields mapping =>
    registerIcebergColumnMapping fields mapping.2.2 mapping.1 mapping.2.1 none none) fields

/-- `GetDataFileSchemaForInternalIcebergTable`: the registered fields of the attributes that are
    not dropped. -/
def dataFileSchema (fields : List FieldMapping) (attrNo : ℕ) :
    List Attribute → Except String (List SchemaField)
  | [] => .ok []
  | attr :: attributes =>
    if attr.dropped then dataFileSchema fields (attrNo + 1) attributes
    else do
      let field ← getRegisteredFieldForAttribute fields attrNo
      let type := (attr.type.toField cfg attr.typmod field.fieldId).1
      let schema ← dataFileSchema fields (attrNo + 1) attributes
      return ⟨field.fieldId, type⟩ :: schema

/-- `RebuildIcebergSchemaFromDataFileSchema` and `AppendCurrentPostgresSchema`. -/
def TableMetadata.appendCurrentPostgresSchema (metadata : TableMetadata)
    (schema : List SchemaField) : TableMetadata where
  lastColumnId :=
    match schema.getLast? with
    | some field => field.id
    | none => metadata.lastColumnId
  schemas := metadata.schemas ++ [schema]

/-- One statement; `none` when it fails. -/
def step (s : State) : Event → Option State
  | .addColumns columnDefs =>
    let mappings := createPostgresColumnMappings cfg mode
      (getLargestRegisteredFieldId s.fields + 1) (s.attributes.length + 1) columnDefs
    match registerPostgresColumnMappings s.fields mappings with
    | .ok fields => some { s with
        attributes := s.attributes ++ columnDefs.map fun c => ⟨c.1, c.2, false⟩
        fields := fields }
    | .error _ => none
  | .dropColumn attrNo => some { s with
      attributes := s.attributes.modify (attrNo - 1) fun a => { a with dropped := true } }
  | .appendCurrentPostgresSchema =>
    match dataFileSchema cfg s.fields 1 s.attributes with
    | .ok schema => some { s with metadata := s.metadata.appendCurrentPostgresSchema schema }
    | .error _ => none

/-- Before `CREATE TABLE`: no columns, and the metadata of `GenerateEmptyTableMetadata`. -/
def initial : State := ⟨[], [], ⟨0, []⟩⟩

end Code

/-! ## All columns, in order -/

variable (attributes attributes' : List Attribute)

open FieldMapping

section Columns
variable (cfg : NumericSettings) (mode : CompatibilityMode)

/-- The last id given to a column whose predecessors end at `first`. -/
def Attribute.last (attr : Attribute) (first : ℕ) : ℕ :=
  (attr.type.toField cfg attr.typmod (first + 1)).2

/-- The columns with the ids after `first`, and whether they are dropped. -/
def columnsFrom (first : ℕ) : List Attribute → List (SchemaField × Bool)
  | [] => []
  | attr :: attributes =>
    (⟨first + 1, (attr.type.toField cfg attr.typmod (first + 1)).1⟩, attr.dropped) ::
      columnsFrom (attr.last cfg first) attributes

def lastFrom (first : ℕ) (attributes : List Attribute) : ℕ :=
  attributes.foldl (fun last attr => attr.last cfg last) first

def rowsFrom (first attrNo : ℕ) : List Attribute → List FieldMapping
  | [] => []
  | attr :: attributes =>
    (⟨first + 1, attrNo, none, none, none⟩ :: fieldMappingsBelow attrNo (first + 1)
      (createColumnMapping cfg mode attr.type attr.typmod (first + 1)).storage) ++
      rowsFrom (attr.last cfg first) (attrNo + 1) attributes

def live (columns : List (SchemaField × Bool)) : List SchemaField :=
  (columns.filter fun column => !column.2).map Prod.fst

variable {cfg mode}

mutual

theorem fieldMappingsBelow_ids (a : ℕ) : ∀ (parent : ℕ) (f : Field),
    (fieldMappingsBelow a parent f).map fieldId = f.ids
  | _, .scalar _ => rfl
  | _, .list elementId el => by
    rw [fieldMappingsBelow, map_cons, fieldMappingsBelow_ids a elementId el, Field.ids]
  | parent, .struct fs => by
    rw [fieldMappingsBelow, structMappingsBelow_ids a parent fs, Field.ids]
  | _, .map keyId k valueId v => by
    simp [fieldMappingsBelow, fieldMappingsBelow_ids a keyId k,
      fieldMappingsBelow_ids a valueId v, Field.ids]

theorem structMappingsBelow_ids (a : ℕ) : ∀ (parent : ℕ) (fs : StructFields),
    (structMappingsBelow a parent fs).map fieldId = fs.ids
  | _, .nil => rfl
  | parent, .cons id _ type rest => by
    simp [structMappingsBelow, fieldMappingsBelow_ids a id type,
      structMappingsBelow_ids a parent rest, StructFields.ids]

end

theorem Attribute.numbers (cfg : NumericSettings) (attr : Attribute) (first : ℕ) :
    Numbers ((first + 1) :: (attr.type.toField cfg attr.typmod (first + 1)).1.ids) first
      (attr.last cfg first) :=
  (attr.type.toField_ids cfg attr.typmod (first + 1)).cons

theorem numbers_rowsFrom : ∀ (attributes : List Attribute) (first a : ℕ),
    Numbers ((rowsFrom cfg mode first a attributes).map fieldId) first
      (lastFrom cfg first attributes)
  | [], first, _ => Numbers.nil first
  | attr :: attributes, first, _ => by
    rw [rowsFrom, map_append, map_cons, fieldMappingsBelow_ids, createColumnMapping,
      applyCompatibilityStorageMapping_eq, Field.ids_applyMapping]
    exact (attr.numbers cfg first).append (numbers_rowsFrom attributes _ _)

theorem getLargestRegisteredFieldId_of_numbers {fs : List FieldMapping} {last : ℕ}
    (h : Numbers (fs.map fieldId) 0 last) :
    getLargestRegisteredFieldId fs = last := by
  refine le_antisymm (max_le_of_forall_le _ _ fun id hid => (h.mem_iff.mp hid).2) ?_
  rcases Nat.eq_zero_or_pos last with hz | hpos
  · rw [hz]
    exact Nat.zero_le _
  · exact le_max_of_le (h.mem_iff.mpr ⟨hpos, le_rfl⟩) le_rfl

/-- **Registration.**  The rows of new columns are added to those of the others. -/
theorem registerPostgresColumnMappings_eq (columnDefs : List (PgType × Typmod)) :
    ∀ (first a : ℕ) (fs : List FieldMapping), (∀ r ∈ fs, r.fieldId ≤ first) →
      registerPostgresColumnMappings fs
          (createPostgresColumnMappings cfg mode (first + 1) a columnDefs) =
        .ok (fs ++ rowsFrom cfg mode first a
          (columnDefs.map fun c => ⟨c.1, c.2, false⟩)) := by
  induction columnDefs with
  | nil =>
    intro first a fs _
    rw [map_nil, rowsFrom, append_nil]
    rfl
  | cons columnDef columnDefs ih =>
    intro first a fs hfs
    obtain ⟨type, tm⟩ := columnDef
    set rs : List FieldMapping := ⟨first + 1, a, none, none, none⟩ ::
      fieldMappingsBelow a (first + 1)
        (createColumnMapping cfg mode type tm (first + 1)).storage with hrs
    have hn : Numbers (rs.map fieldId) first
        (type.toField cfg tm (first + 1)).2 := by
      rw [hrs, map_cons, fieldMappingsBelow_ids, createColumnMapping,
        applyCompatibilityStorageMapping_eq, Field.ids_applyMapping]
      exact (type.toField_ids cfg tm (first + 1)).cons
    have hids : ∀ r ∈ rs, first < r.fieldId ∧
        r.fieldId ≤ (type.toField cfg tm (first + 1)).2 :=
      fun r hr => hn.mem_iff.mp (mem_map_of_mem hr)
    have hs : registerIcebergColumnMapping fs
        (createColumnMapping cfg mode type tm (first + 1)).storage a (first + 1)
        none none = .ok (fs ++ rs) := by
      refine foldlM_insert_of_new fieldId (fun hnew => if_neg hnew) rs
        hn.nodup fun r hr hm => ?_
      obtain ⟨old, hold, heq⟩ := mem_map.mp hm
      have := hfs old hold
      have := (hids r hr).1
      omega
    have hre := ih (type.toField cfg tm (first + 1)).2 (a + 1) (fs ++ rs) ?_
    · have hc : ∀ mappings, registerPostgresColumnMappings fs ((a, first + 1,
          (createColumnMapping cfg mode type tm (first + 1)).storage) :: mappings) =
          registerPostgresColumnMappings (fs ++ rs) mappings := fun mappings => by
        rw [registerPostgresColumnMappings, foldlM_cons, hs]
        rfl
      refine (hc _).trans (hre.trans ?_)
      rw [map_cons, rowsFrom, append_assoc]
      rfl
    · intro r hr
      rcases mem_append.mp hr with hr | hr
      · have := hfs r hr
        have := hn.le
        omega
      · exact (hids r hr).2

theorem filter_isTopLevelFor_below (a n parent : ℕ) (f : Field) :
    (fieldMappingsBelow a parent f).filter (·.isTopLevelFor n) = [] := by
  refine filter_eq_nil_iff.mpr fun r hr => ?_
  rw [isTopLevelFor, mem_fieldMappingsBelow hr, Bool.false_and]
  exact Bool.false_ne_true

theorem filter_isTopLevelFor_rowsFrom {n : ℕ} : ∀ (attributes : List Attribute)
    (first a : ℕ), n < a →
      (rowsFrom cfg mode first a attributes).filter (·.isTopLevelFor n) = []
  | [], _, _, _ => rfl
  | attr :: attributes, first, a, hn => by
    have hne : isTopLevelFor n ⟨first + 1, a, none, none, none⟩ = false := by
      exact decide_eq_false hn.ne'
    rw [rowsFrom, filter_append, filter_cons_of_neg (by simp [hne]),
      filter_isTopLevelFor_below, filter_isTopLevelFor_rowsFrom attributes _ _ (by omega),
      append_nil]

/-- **Lookup.**  The fields of the columns that are not dropped are found again. -/
theorem dataFileSchema_rowsFrom : ∀ (attributes : List Attribute) (first a : ℕ)
    (before : List FieldMapping),
    (∀ n, a ≤ n → before.filter (·.isTopLevelFor n) = []) →
    dataFileSchema cfg (before ++ rowsFrom cfg mode first a attributes) a
      attributes = .ok (live (columnsFrom cfg first attributes))
  | [], _, _, _, _ => rfl
  | attr :: attributes, first, a, before, hb => by
    set below := fieldMappingsBelow a (first + 1)
      (createColumnMapping cfg mode attr.type attr.typmod (first + 1)).storage with hbe
    set top : FieldMapping := ⟨first + 1, a, none, none, none⟩ with htop
    have hrs : before ++ rowsFrom cfg mode first a (attr :: attributes) =
        (before ++ top :: below) ++
          rowsFrom cfg mode (attr.last cfg first) (a + 1) attributes := by
      rw [rowsFrom, append_assoc]
    have hr := dataFileSchema_rowsFrom attributes (attr.last cfg first) (a + 1)
      (before ++ top :: below) fun n hn => by
        have hne : isTopLevelFor n top = false := by
          exact decide_eq_false (show a ≠ n by omega)
        rw [filter_append, hb n (by omega), filter_cons_of_neg (by simp [hne]),
          hbe, filter_isTopLevelFor_below, nil_append]
    rw [hrs, dataFileSchema, columnsFrom]
    cases hd : attr.dropped with
    | true => exact hr
    | false =>
      have hs : isTopLevelFor a top = true := by
        simp [htop, isTopLevelFor]
      have hf : getRegisteredFieldForAttribute ((before ++ top :: below) ++
          rowsFrom cfg mode (attr.last cfg first) (a + 1) attributes) a =
          .ok top := by
        rw [getRegisteredFieldForAttribute, filter_append, filter_append,
          hb a le_rfl, filter_cons_of_pos hs, hbe,
          filter_isTopLevelFor_below,
          filter_isTopLevelFor_rowsFrom attributes _ _ (Nat.lt_succ_self a)]
        rfl
      rw [hf, hr]
      rfl

theorem columnsFrom_append (first : ℕ) : columnsFrom cfg first (attributes ++ attributes') =
      columnsFrom cfg first attributes ++
        columnsFrom cfg (lastFrom cfg first attributes) attributes' := by
  induction attributes generalizing first with
  | nil => rfl
  | cons attr attributes ih =>
    rw [cons_append, columnsFrom, ih, columnsFrom]
    rfl

theorem rowsFrom_append (first a : ℕ) :
    rowsFrom cfg mode first a (attributes ++ attributes') =
      rowsFrom cfg mode first a attributes ++
        rowsFrom cfg mode (lastFrom cfg first attributes)
          (a + attributes.length) attributes' := by
  induction attributes generalizing first a with
  | nil => rfl
  | cons attr attributes ih =>
    rw [cons_append, rowsFrom, ih, rowsFrom, append_assoc, length_cons,
      Nat.add_right_comm a 1, ← Nat.add_assoc a]
    rfl

theorem rowsFrom_modify_dropped : ∀ (attributes : List Attribute) (i first an : ℕ),
    rowsFrom cfg mode first an
        (attributes.modify i fun a => { a with dropped := true }) =
      rowsFrom cfg mode first an attributes
  | [], _, _, _ => by rw [modify_nil]
  | attr :: attributes, 0, _, _ => rfl
  | attr :: attributes, i + 1, _, _ => by
    rw [modify_succ_cons, rowsFrom, rowsFrom_modify_dropped attributes i, rowsFrom]

theorem columnsFrom_modify_dropped : ∀ (attributes : List Attribute) (i first : ℕ),
    (columnsFrom cfg first
        (attributes.modify i fun a => { a with dropped := true })).map Prod.fst =
      (columnsFrom cfg first attributes).map Prod.fst
  | [], _, _ => by rw [modify_nil]
  | attr :: attributes, 0, _ => rfl
  | attr :: attributes, i + 1, _ => by
    rw [modify_succ_cons, columnsFrom, map_cons,
      columnsFrom_modify_dropped attributes i, columnsFrom, map_cons]

theorem first_lt_of_mem_columnsFrom : ∀ (attributes : List Attribute) (first : ℕ),
    ∀ column ∈ columnsFrom cfg first attributes, first < column.1.id
  | [], _, _, hcol => absurd hcol not_mem_nil
  | attr :: attributes, first, column, hcol => by
    rw [columnsFrom, mem_cons] at hcol
    obtain rfl | hcol := hcol
    · exact Nat.lt_succ_self first
    · have := first_lt_of_mem_columnsFrom attributes _ column hcol
      have := (attr.numbers cfg first).le
      omega

theorem pairwise_columnsFrom : ∀ (attributes : List Attribute) (first : ℕ),
    (columnsFrom cfg first attributes).Pairwise
      fun column later => ∀ id ∈ column.1.ids, id < later.1.id
  | [], _ => List.Pairwise.nil
  | attr :: attributes, first => by
    refine List.Pairwise.cons (fun later hl id hid => ?_) (pairwise_columnsFrom attributes _)
    have := ((attr.numbers cfg first).mem_iff.mp hid).2
    have := first_lt_of_mem_columnsFrom attributes _ later hl
    omega

theorem id_lt_of_mem_type_ids : ∀ (attributes : List Attribute) (first : ℕ),
    ∀ column ∈ columnsFrom cfg first attributes, ∀ id ∈ column.1.type.ids, column.1.id < id
  | [], _, _, hcol => absurd hcol not_mem_nil
  | attr :: attributes, first, column, hcol => by
    rw [columnsFrom, mem_cons] at hcol
    obtain rfl | hcol := hcol
    · exact fun id hid =>
        ((attr.type.toField_ids cfg attr.typmod (first + 1)).mem_iff.mp hid).1
    · exact id_lt_of_mem_type_ids attributes _ column hcol

end Columns

/-! ## Runs -/

section Runs
variable (cfg : NumericSettings) (mode : CompatibilityMode)

def TableMetadata.Bounded (metadata : TableMetadata) : Prop :=
  ∀ schema ∈ metadata.schemas, ∀ field ∈ schema, ∀ id ∈ field.ids, id ≤ metadata.lastColumnId

/-- The step succeeds; the last column id then bounds all ids and is not smaller than before. -/
def Bounds (s : State) (e : Event) : Prop :=
  ∃ s', step cfg mode s e = some s' ∧ s'.metadata.Bounded ∧
    s.metadata.lastColumnId ≤ s'.metadata.lastColumnId

def TableMetadata.Published (metadata : TableMetadata) (column : SchemaField) : Prop :=
  ∃ schema ∈ metadata.schemas, column ∈ schema

/-- When a schema is appended, the last column that is not dropped has no nested fields, and no
    column after it was published. -/
def EndsPlain (s : State) : Event → Prop
  | .appendCurrentPostgresSchema => ∀ before after : List (SchemaField × Bool),
      ∀ column : SchemaField,
      columnsFrom cfg 0 s.attributes = before ++ (column, false) :: after →
      (∀ later ∈ after, later.2 = true) →
      column.type.ids = [] ∧ ∀ later ∈ after, ¬ s.metadata.Published later.1
  | _ => True

structure Inv (s : State) : Prop where
  fields_eq : s.fields = rowsFrom cfg mode 0 1 s.attributes
  columns : ∀ schema ∈ s.metadata.schemas, ∀ field ∈ schema,
    field ∈ (columnsFrom cfg 0 s.attributes).map Prod.fst
  bounded : s.metadata.Bounded
  /-- the last column id is one of the ids, once there is one -/
  attained : s.metadata.lastColumnId = 0 ∨
    ∃ schema ∈ s.metadata.schemas, ∃ field ∈ schema, s.metadata.lastColumnId ∈ field.ids

variable {cfg mode} {s s' : State}

theorem inv_initial : Inv cfg mode initial where
  fields_eq := rfl
  columns := fun _ hsch => absurd hsch not_mem_nil
  bounded := fun _ hsch => absurd hsch not_mem_nil
  attained := .inl rfl

theorem Inv.step_addColumns (hinv : Inv cfg mode s) (columnDefs : List (PgType × Typmod)) :
    step cfg mode s (.addColumns columnDefs) = some { s with
      attributes := s.attributes ++ columnDefs.map fun c => ⟨c.1, c.2, false⟩
      fields := rowsFrom cfg mode 0 1
        (s.attributes ++ columnDefs.map fun c => ⟨c.1, c.2, false⟩) } := by
  have hids : ∀ r ∈ s.fields, r.fieldId ≤ lastFrom cfg 0 s.attributes := by
    intro r hr
    rw [hinv.fields_eq] at hr
    exact ((numbers_rowsFrom s.attributes 0 1).mem_iff.mp (mem_map_of_mem hr)).2
  have hl : getLargestRegisteredFieldId s.fields = lastFrom cfg 0 s.attributes := by
    rw [hinv.fields_eq]
    exact getLargestRegisteredFieldId_of_numbers (numbers_rowsFrom s.attributes 0 1)
  rw [step, hl, registerPostgresColumnMappings_eq columnDefs _ _ _ hids, rowsFrom_append,
    ← hinv.fields_eq, Nat.add_comm 1]

theorem Inv.step_append (hinv : Inv cfg mode s) :
    step cfg mode s .appendCurrentPostgresSchema = some { s with
      metadata := s.metadata.appendCurrentPostgresSchema
        (live (columnsFrom cfg 0 s.attributes)) } := by
  have hsch : dataFileSchema cfg s.fields 1 s.attributes =
      .ok (live (columnsFrom cfg 0 s.attributes)) := by
    rw [hinv.fields_eq]
    exact dataFileSchema_rowsFrom s.attributes 0 1 [] fun _ _ => rfl
  rw [step, hsch]

theorem Inv.bounds_append_iff (hinv : Inv cfg mode s) :
    Bounds cfg mode s .appendCurrentPostgresSchema ↔ (s.metadata.appendCurrentPostgresSchema
          (live (columnsFrom cfg 0 s.attributes))).Bounded ∧
        s.metadata.lastColumnId ≤ (s.metadata.appendCurrentPostgresSchema
          (live (columnsFrom cfg 0 s.attributes))).lastColumnId := by
  rw [Bounds, hinv.step_append]
  simp

theorem Inv.bounds_of_live_eq_nil (hinv : Inv cfg mode s)
    (hl : live (columnsFrom cfg 0 s.attributes) = []) :
    Bounds cfg mode s .appendCurrentPostgresSchema := by
  rw [hinv.bounds_append_iff, hl]
  refine ⟨fun sch hsch f hf id hid => ?_, le_rfl⟩
  rcases mem_append.mp hsch with hsch | hsch
  · exact hinv.bounded sch hsch f hf id hid
  · obtain rfl := mem_singleton.mp hsch
    exact absurd hf not_mem_nil

theorem exists_last_live : ∀ {cols : List (SchemaField × Bool)}, live cols ≠ [] →
    ∃ before column after, cols = before ++ (column, false) :: after ∧
      ∀ later ∈ after, later.2 = true := by
  intro cols
  induction cols with
  | nil => exact fun h => absurd rfl h
  | cons column cols ih =>
    intro hl
    by_cases hr : live cols = []
    · obtain ⟨column, dropped⟩ := column
      have ha : ∀ later ∈ cols, later.2 = true := fun later hla => by
        rw [live, map_eq_nil_iff, filter_eq_nil_iff] at hr
        simpa using hr later hla
      cases dropped with
      | true => exact absurd hr hl
      | false => exact ⟨[], column, cols, rfl, ha⟩
    · obtain ⟨before, last, after, rfl, ha⟩ := ih hr
      exact ⟨column :: before, last, after, rfl, ha⟩

section Last
variable {before after : List (SchemaField × Bool)} {column : SchemaField}

theorem live_split (ha : ∀ later ∈ after, later.2 = true) :
    live (before ++ (column, false) :: after) = live before ++ [column] := by
  have hnil : after.filter (fun c => !c.2) = [] :=
    filter_eq_nil_iff.mpr fun later hl => by simp [ha later hl]
  rw [live, filter_append, filter_cons_of_pos rfl, hnil, map_append]
  rfl

/-- **One appended schema.**  With the last column that is not dropped at hand, the bounds hold
    exactly when it has no nested fields and no later column was published. -/
theorem Inv.bounds_split_iff (hinv : Inv cfg mode s)
    (hs : columnsFrom cfg 0 s.attributes = before ++ (column, false) :: after)
    (ha : ∀ later ∈ after, later.2 = true) :
    Bounds cfg mode s .appendCurrentPostgresSchema ↔
      column.type.ids = [] ∧ ∀ later ∈ after, ¬ s.metadata.Published later.1 := by
  have hl : (s.metadata.appendCurrentPostgresSchema
      (live (columnsFrom cfg 0 s.attributes))).lastColumnId = column.id := by
    rw [hs, live_split ha, TableMetadata.appendCurrentPostgresSchema, getLast?_concat]
  have hm : (column, false) ∈ columnsFrom cfg 0 s.attributes := by
    rw [hs]
    exact mem_append_right _ mem_cons_self
  have ho : (columnsFrom cfg 0 s.attributes).Pairwise
      fun column later => ∀ id ∈ column.1.ids, id < later.1.id := pairwise_columnsFrom _ _
  rw [hs, pairwise_append, pairwise_cons] at ho
  obtain ⟨-, ⟨hla, -⟩, hb⟩ := ho
  rw [hinv.bounds_append_iff, hl, TableMetadata.Bounded, hl]
  constructor
  · rintro ⟨hbnd, -⟩
    constructor
    · refine eq_nil_iff_forall_not_mem.mpr fun id hid => ?_
      have hle := hbnd _ (mem_append_right _ (mem_singleton_self _)) column
        (by rw [hs, live_split ha]; exact mem_append_right _ mem_cons_self) id
        (mem_cons_of_mem _ hid)
      exact absurd (id_lt_of_mem_type_ids s.attributes 0 _ hm id hid) (Nat.not_lt.mpr hle)
    · rintro later hm' ⟨sch, hsch, hf⟩
      have hle := hbnd sch (mem_append_left _ hsch) later.1 hf later.1.id
        mem_cons_self
      exact absurd (hla later hm' column.id mem_cons_self) (Nat.not_lt.mpr hle)
  · rintro ⟨hp, hu⟩
    -- an id of a column up to the last one
    have hupto : ∀ f, f ∈ before.map Prod.fst ∨ f = column → ∀ id ∈ f.ids,
        id ≤ column.id := by
      rintro f (hf | rfl) id hid
      · obtain ⟨column', hcol', rfl⟩ := mem_map.mp hf
        exact (hb column' hcol' _ mem_cons_self id hid).le
      · rw [SchemaField.ids, hp, mem_singleton] at hid
        exact hid.le
    have hold : ∀ sch ∈ s.metadata.schemas, ∀ f ∈ sch, ∀ id ∈ f.ids,
        id ≤ column.id := by
      intro sch hsch f hf
      have hcol := hinv.columns sch hsch f hf
      rw [hs, map_append, map_cons, mem_append, mem_cons] at hcol
      rcases hcol with hcol | hcol | hcol
      · exact hupto f (.inl hcol)
      · exact hupto f (.inr hcol)
      · obtain ⟨later, hla, rfl⟩ := mem_map.mp hcol
        exact absurd ⟨sch, hsch, hf⟩ (hu later hla)
    constructor
    · intro sch hsch f hf
      rcases mem_append.mp hsch with hsch | hsch
      · exact hold sch hsch f hf
      · obtain rfl := mem_singleton.mp hsch
        rw [hs, live_split ha, mem_append, mem_singleton] at hf
        refine hupto f (hf.imp_left fun hli => ?_)
        exact map_subset _ (filter_subset_self _) hli
    · rcases hinv.attained with hz | ⟨sch, hsch, f, hf, hid⟩
      · rw [hz]
        exact Nat.zero_le _
      · exact hold sch hsch f hf _ hid

end Last

/-- **Step lemma.**  The bounds hold after a step exactly when the condition does before it. -/
theorem Inv.bounds_iff (hinv : Inv cfg mode s) {e : Event} :
    Bounds cfg mode s e ↔ EndsPlain cfg s e := by
  cases e with
  | addColumns columnDefs =>
    exact iff_of_true ⟨_, hinv.step_addColumns columnDefs, hinv.bounded, le_rfl⟩ trivial
  | dropColumn => exact iff_of_true ⟨_, rfl, hinv.bounded, le_rfl⟩ trivial
  | appendCurrentPostgresSchema =>
    constructor
    · intro h before after column hs ha
      exact (hinv.bounds_split_iff hs ha).mp h
    · intro h
      by_cases hl : live (columnsFrom cfg 0 s.attributes) = []
      · exact hinv.bounds_of_live_eq_nil hl
      · obtain ⟨before, column, after, hs, ha⟩ := exists_last_live hl
        exact (hinv.bounds_split_iff hs ha).mpr (h before after column hs ha)

theorem Inv.step {e : Event} (hinv : Inv cfg mode s) (hp : EndsPlain cfg s e)
    (hst : step cfg mode s e = some s') : Inv cfg mode s' := by
  obtain ⟨s'', hs'', hbnd, hle⟩ := hinv.bounds_iff.mpr hp
  cases hst.symm.trans hs''
  cases e with
  | addColumns columnDefs =>
    cases hst.symm.trans (hinv.step_addColumns columnDefs)
    refine ⟨rfl, fun sch hsch f hf => ?_, hbnd, hinv.attained⟩
    rw [columnsFrom_append, map_append]
    exact mem_append_left _ (hinv.columns sch hsch f hf)
  | dropColumn =>
    cases hst
    refine ⟨?_, fun sch hsch f hf => ?_, hbnd, hinv.attained⟩
    · exact hinv.fields_eq.trans (rowsFrom_modify_dropped _ _ _ _).symm
    · rw [columnsFrom_modify_dropped]
      exact hinv.columns sch hsch f hf
  | appendCurrentPostgresSchema =>
    cases hst.symm.trans hinv.step_append
    refine ⟨hinv.fields_eq, fun sch hsch f hf => ?_, hbnd, ?_⟩
    · rcases mem_append.mp hsch with hsch | hsch
      · exact hinv.columns sch hsch f hf
      · obtain rfl := mem_singleton.mp hsch
        exact map_subset _ (filter_subset_self _) hf
    · rw [TableMetadata.appendCurrentPostgresSchema]
      rcases eq_nil_or_concat (live (columnsFrom cfg 0 s.attributes)) with
        hl | ⟨init, column, hl⟩
      · rw [hl]
        refine hinv.attained.imp_right ?_
        rintro ⟨sch, hsch, hf⟩
        exact ⟨sch, mem_append_left _ hsch, hf⟩
      · refine .inr ⟨_, mem_append_right _ (mem_singleton_self _), column, ?_, ?_⟩
        · rw [hl, concat_eq_append]
          exact mem_append_right _ (mem_singleton_self _)
        · rw [hl, concat_eq_append, getLast?_concat]
          exact mem_cons_self

/-- **The last column id.**  It bounds every id of every schema and never decreases in a run
    exactly when each schema is appended while the last column has no nested fields and no column
    after it was published. -/
theorem lastColumnId_bounds_iff (cfg : NumericSettings) (mode : CompatibilityMode)
    (es : List Event) :
    Transition.Along (step cfg mode) (Bounds cfg mode) initial es ↔
      Transition.Along (step cfg mode) (EndsPlain cfg) initial es :=
  along_iff_along (fun hinv => hinv.bounds_iff)
    (fun hinv hplain hstep => hinv.step hplain hstep) inv_initial

/-- `CREATE TABLE (a int[])` publishes the element as field 2 under a last column id of 1; after
    `CREATE TABLE (a int, b int)`, dropping `b` takes the last column id from 2 to 1. -/
theorem lastColumnId_below_element : (∃ s, run (step .default .auto) initial
        [.addColumns [(.array (.scalar .int4), none)], .appendCurrentPostgresSchema] = some s ∧
      s.metadata.lastColumnId = 1 ∧
      s.metadata.schemas.map (fun schema => schema.flatMap SchemaField.ids) = [[1, 2]]) ∧
    ∃ s s', run (step .default .auto) initial
        [.addColumns [(.plain (.scalar .int4), none), (.plain (.scalar .int4), none)],
          .appendCurrentPostgresSchema] = some s ∧
      run (step .default .auto) s
        [.dropColumn 2, .appendCurrentPostgresSchema] = some s' ∧
      s.metadata.lastColumnId = 2 ∧ s'.metadata.lastColumnId = 1 :=
  ⟨⟨_, rfl, rfl, rfl⟩, _, _, rfl, rfl, rfl, rfl⟩

end Runs

end PgLake.Ddl.LastColumnId
