/-
  The schema a new snapshot names (`metadata_operations.c`, `rest_catalog/rest_catalog_ops.c`).

  An `ALTER TABLE` changes the current schema of a table: in the metadata that is written, or,
  for a table of a writable REST catalog, by requests to the catalog.

  Main result: `namesCurrentSchema_iff`.
-/
import Mathlib.Data.List.Induction
import PgLake.Iceberg.SchemaPublication
import PgLake.Iceberg.SequenceNumbers

namespace PgLake.Iceberg

open Fallible List

variable {P T : Type}

def MetadataOperation.changesSchema : MetadataOperation P → Bool
  | .tableDdl | .tableCreate => true
  | _ => false

/-- An operation on a table that exists.  `TABLE_CREATE` is not among them: it covers the DDL of
    its transaction. -/
inductive TableOperation (P T : Type) where
  | tableDdl (effect : DdlSchemaEffect T)
  | other (operation : MetadataOperation P) (keepsSchema : operation.changesSchema = false)

namespace TableOperation

def toMetadataOperation : TableOperation P T → MetadataOperation P
  | .tableDdl _ => .tableDdl
  | .other operation _ => operation

def schemaOperation : TableOperation P T → Option (SchemaOperation T)
  | .tableDdl effect => some (.tableDdl effect)
  | .other _ _ => none

end TableOperation

/-- The requests about schemas and snapshots.  `addSchema` is `add-schema` and
    `set-current-schema` with -1, the last added schema. -/
inductive SchemaRequest (T : Type) where
  | addSchema (schema : List (SchemaField T))
  | setCurrentSchema (schemaId : Int32)
  | addSnapshot (schemaId : Int32)

/-- The schema requests of `ApplyIcebergMetadataChanges`. -/
def schemaRequests (builder : DdlBuilder T) : Option (List (SchemaRequest T)) :=
  if builder.regenerateSchema then
    match builder.schema with
    | some schema => some [.addSchema schema]
    | none => if 0 ≤ builder.schemaId then some [.setCurrentSchema builder.schemaId] else none
  else some []

inductive TableCommitError where
  | commit (error : CommitError)
  /-- `pg_unreachable` -/
  | unreachable
  | refused
  deriving DecidableEq

/-- A snapshot with its `schema_id`. -/
structure PublishedSnapshot (P : Type) where
  snapshot : Snapshot P
  schemaId : Int32

/-- What `ApplyIcebergMetadataChanges` leaves: the metadata in memory, the requests to the catalog
    and the new snapshot. -/
structure TableChanges (P T : Type) where
  metadata : SchemaList T
  requests : List (SchemaRequest T)
  newSnapshot : Option (PublishedSnapshot P)

def changeSchema (catalogType : IcebergCatalogType) (metadata : SchemaList T)
    (builder : DdlBuilder T) : Except TableCommitError (SchemaList T × List (SchemaRequest T)) :=
  let change :=
    if catalogType = .restCatalogReadWrite then (schemaRequests builder).map (metadata, ·)
    else (applySchemaChanges metadata builder).map (·, [])
  match change with
  | some change => .ok change
  | none => .error .unreachable

section
variable [DecidableEq P] (env : CommitEnv P) (catalogType : IcebergCatalogType)
variable (state : TableState P) (metadata : SchemaList T) (snapshotId : Int64)

/-- `ApplyIcebergMetadataChanges` for a table that exists. -/
def applyTableOperations (operations : List (TableOperation P T)) :
    Except TableCommitError (TableChanges P T) := do
  let published ← (applyIcebergMetadataChanges env catalogType state snapshotId
    (operations.map TableOperation.toMetadataOperation)).mapError .commit
  let builder := ddlBuilder (operations.filterMap TableOperation.schemaOperation)
  let (metadata, requests) ← changeSchema catalogType metadata builder
  let newSnapshot := published.map (⟨·, metadata.currentSchemaId⟩)
  let addSnapshot :=
    if catalogType = .restCatalogReadWrite then
      newSnapshot.toList.map fun snapshot => .addSnapshot snapshot.schemaId
    else []
  return ⟨metadata, requests ++ addSnapshot, newSnapshot⟩

/-- A REST catalog, which gives ids to added schemas. -/
structure RestCatalog (T : Type) where
  newSchemaId : SchemaList T → List (SchemaField T) → Int32

variable (catalog : RestCatalog T)

def RestCatalog.apply (table : SchemaList T) :
    SchemaRequest T → Except TableCommitError (SchemaList T)
  | .addSchema schema =>
    let schemaId := catalog.newSchemaId table schema
    .ok ⟨table.schemas ++ [⟨schemaId, schema⟩], schemaId⟩
  | .setCurrentSchema schemaId =>
    if (table.getIcebergTableSchemaById schemaId).isSome then
      .ok { table with currentSchemaId := schemaId }
    else .error .refused
  | .addSnapshot _ => .ok table

/-- A table after a commit, with the snapshot the commit published. -/
structure CommittedTable (P T : Type) where
  table : SchemaList T
  newSnapshot : Option (PublishedSnapshot P)

/-- The metadata is written, or the requests are applied in order by the catalog that it was read
    from. -/
def tableAfter (changes : TableChanges P T) : Except TableCommitError (SchemaList T) :=
  if catalogType = .restCatalogReadWrite then changes.requests.foldlM catalog.apply metadata
  else .ok changes.metadata

/-- One commit, with the schema changes and the snapshot. -/
def commitTable (operations : List (TableOperation P T)) :
    Except TableCommitError (CommittedTable P T) := do
  let changes ← applyTableOperations env catalogType state metadata snapshotId operations
  let table ← tableAfter catalogType metadata catalog changes
  return ⟨table, changes.newSnapshot⟩

end

/-! ## What is promised, and what must hold -/

/-- The new snapshot has the current schema of the table. -/
def CommittedTable.NamesCurrentSchema (committed : CommittedTable P T) : Prop :=
  ∃ snapshot, committed.newSnapshot = some snapshot ∧
    snapshot.schemaId = committed.table.currentSchemaId

def addedSchemas (operations : List (TableOperation P T)) : List (List (SchemaField T)) :=
  operations.filterMap fun
    | .tableDdl (.addSchema schema) => some schema
    | _ => none

def existingSchemaIds (operations : List (TableOperation P T)) : List Int32 :=
  operations.filterMap fun
    | .tableDdl (.setExistingSchema schemaId) => some schemaId
    | _ => none

/-- The last added schema gets the id of the current one; if none is added, the table goes back to
    the schema it has. -/
def KeepsCurrentSchema (catalog : RestCatalog T) (metadata : SchemaList T)
    (operations : List (TableOperation P T)) : Prop :=
  match (addedSchemas operations).getLast?, (existingSchemaIds operations).getLast? with
  | some schema, _ => catalog.newSchemaId metadata schema = metadata.currentSchemaId
  | none, some schemaId => schemaId = metadata.currentSchemaId
  | none, none => True

variable {catalog : RestCatalog T} {operations : List (TableOperation P T)}

/-! ## The builder -/

def TableOperation.isDdl : TableOperation P T → Bool
  | .tableDdl _ => true
  | .other _ _ => false

/-- What the builder holds about the schemas after these operations. -/
structure DdlBuilder.Holds (builder : DdlBuilder T) (operations : List (TableOperation P T)) :
    Prop where
  createTable : builder.createTable = false
  regenerateSchema : builder.regenerateSchema = operations.any TableOperation.isDdl
  schema : builder.schema = (addedSchemas operations).getLast?
  schemaId : builder.schemaId = (existingSchemaIds operations).getLast?.getD 0

variable {builder : DdlBuilder T}

open TableOperation

theorem DdlBuilder.Holds.concat (h : builder.Holds operations) (effect : DdlSchemaEffect T) :
    (builder.process (.tableDdl effect)).Holds (operations ++ [.tableDdl effect]) := by
  cases effect with
  | addSchema =>
    exact ⟨h.createTable, by simp [process, isDdl],
      by simp [process, addedSchemas], by simp [process, existingSchemaIds, h.schemaId]⟩
  | setExistingSchema =>
    exact ⟨h.createTable, by simp [process, isDdl],
      by simp [process, addedSchemas, h.schema], by simp [process, existingSchemaIds]⟩

theorem ddlBuilder_holds (operations : List (TableOperation P T)) :
    (ddlBuilder (operations.filterMap schemaOperation)).Holds operations := by
  induction operations using List.reverseRecOn with
  | nil => exact ⟨rfl, rfl, rfl, rfl⟩
  | append_singleton operations op ih =>
    rw [filterMap_append]
    cases op with
    | tableDdl effect =>
      rw [ddlBuilder, foldl_append]
      exact ih.concat effect
    | other =>
      rw [filterMap_cons_none rfl, filterMap_nil, append_nil]
      refine ⟨ih.createTable, ?_, ?_, ?_⟩
      · simp [ih.regenerateSchema, isDdl]
      · simp [ih.schema, addedSchemas]
      · simp [ih.schemaId, existingSchemaIds]

/-! ## A changed schema makes a snapshot -/

theorem processOperation_regenerateSchema {builder builder' : SnapshotBuilder P}
    {op : MetadataOperation P} (h : processOperation builder op = .ok builder')
    (hr : builder.regenerateSchema = true ∨ op = .tableDdl) :
    builder'.regenerateSchema = true := by
  cases op with
  | tableDdl =>
    cases h
    rfl
  | add p content =>
    have hb := hr.resolve_right nofun
    cases content <;> cases h <;> exact hb
  | _ =>
    have hb := hr.resolve_right nofun
    cases h
    exact hb

theorem foldlM_processOperation_regenerateSchema {operations : List (MetadataOperation P)}
    {builder builder' : SnapshotBuilder P}
    (h : operations.foldlM processOperation builder = .ok builder')
    (hr : builder.regenerateSchema = true ∨ .tableDdl ∈ operations) :
    builder'.regenerateSchema = true := by
  induction operations generalizing builder with
  | nil =>
    cases h
    exact hr.resolve_right not_mem_nil
  | cons op operations ih =>
    obtain ⟨next, hn, h⟩ := bind_eq_ok_iff.mp h
    refine ih h ?_
    rcases hr with hb | hm
    · exact .inl (processOperation_regenerateSchema hn (.inl hb))
    · rcases mem_cons.mp hm with hddl | hm
      · exact .inl (processOperation_regenerateSchema hn (.inr hddl.symm))
      · exact .inr hm

section
variable [DecidableEq P] {env : CommitEnv P}

theorem finalDraft_createNewSnapshot {base : Option (Snapshot P)} {builder : SnapshotBuilder P}
    (h : builder.regenerateSchema = true) : (finalDraft env base builder).createNewSnapshot = true := by
  by_contra hf
  rw [Bool.not_eq_true] at hf
  have hr := removal_of_finalDraft hf
  have hnew : (draftWithNewEntries env base builder).createNewSnapshot = false := by
    unfold draftAfterRemoval at hr
    split_ifs at hr
    · have hsa := foldl_rewriteManifestForRemoval_eq_self env hr
      rw [Draft.removeEntries, hsa] at hr
      exact hr
    · exact hr
  have hdel := (of_addNewEntries_createNewSnapshot hnew).1
  have hs : (Draft.start base builder).createNewSnapshot = false := by
    unfold draftWithoutDeleted at hdel
    split_ifs at hdel
    · exact of_removeDeleted_createNewSnapshot hdel
    · exact hdel
  simp [Draft.start, h] at hs

theorem exists_published {catalogType : IcebergCatalogType} {state : TableState P}
    {snapshotId : Int64} {operations : List (MetadataOperation P)}
    {published : Option (Snapshot P)} (hddl : .tableDdl ∈ operations)
    (h : applyIcebergMetadataChanges env catalogType state snapshotId operations = .ok published) :
    ∃ snapshot, published = some snapshot := by
  obtain ⟨builder, hb, h⟩ := bind_eq_ok_iff.mp h
  cases h
  have hr := foldlM_processOperation_regenerateSchema hb (.inr hddl)
  simp only [finalizeNewSnapshot, finalDraft_createNewSnapshot hr, if_true, Option.map_some]
  exact ⟨_, rfl⟩

end

/-! ## The schema of the snapshot -/

section
variable {catalogType : IcebergCatalogType} {metadata : SchemaList T}

theorem changeSchema_rest {changed : SchemaList T × List (SchemaRequest T)}
    (h : changeSchema .restCatalogReadWrite metadata builder = .ok changed) :
    changed.1 = metadata ∧ schemaRequests builder = some changed.2 := by
  unfold changeSchema at h
  simp only [if_true] at h
  split at h
  next change hc =>
    cases h
    obtain ⟨reqs, hr, rfl⟩ := Option.map_eq_some_iff.mp hc
    exact ⟨rfl, hr⟩
  next => cases h

theorem exists_existingSchemaId (hddl : operations.any isDdl = true)
    (ha : (addedSchemas operations).getLast? = none) :
    ∃ schemaId, (existingSchemaIds operations).getLast? = some schemaId := by
  obtain ⟨op, hm, hop⟩ := any_eq_true.mp hddl
  rw [← Option.ne_none_iff_exists', ne_eq, getLast?_eq_none_iff]
  intro hnil
  cases op with
  | tableDdl effect =>
    cases effect with
    | addSchema sch =>
      have hm' : sch ∈ addedSchemas operations := mem_filterMap.mpr ⟨_, hm, rfl⟩
      rw [getLast?_eq_none_iff.mp ha] at hm'
      exact nomatch hm'
    | setExistingSchema schemaId =>
      have hm' : schemaId ∈ existingSchemaIds operations := mem_filterMap.mpr ⟨_, hm, rfl⟩
      rw [hnil] at hm'
      exact nomatch hm'
  | other => cases hop

theorem currentSchemaId_of_requests (hb : builder.Holds operations)
    (hddl : operations.any isDdl = true) {reqs : List (SchemaRequest T)}
    (hr : schemaRequests builder = some reqs) {schemaId : Int32} {tbl : SchemaList T}
    (h : (reqs ++ [SchemaRequest.addSnapshot schemaId]).foldlM catalog.apply metadata =
      .ok tbl) :
    tbl.currentSchemaId = metadata.currentSchemaId ↔
      KeepsCurrentSchema catalog metadata operations := by
  unfold schemaRequests at hr
  rw [hb.regenerateSchema, hddl, if_pos rfl, hb.schema, hb.schemaId] at hr
  unfold KeepsCurrentSchema
  cases ha : (addedSchemas operations).getLast? with
  | some =>
    rw [ha] at hr
    cases hr
    cases h
    rfl
  | none =>
    obtain ⟨schemaId, he⟩ := exists_existingSchemaId hddl ha
    rw [ha, he, Option.getD_some] at hr
    rw [he]
    split_ifs at hr
    cases hr
    obtain ⟨next, hn, h⟩ := bind_eq_ok_iff.mp h
    cases h
    unfold RestCatalog.apply at hn
    simp only at hn
    split_ifs at hn
    cases hn
    rfl

end

section
variable [DecidableEq P] {env : CommitEnv P} {catalogType : IcebergCatalogType}
variable {state : TableState P} {metadata : SchemaList T} {snapshotId : Int64}

theorem commitTable_eq_ok {committed : CommittedTable P T} (hddl : operations.any isDdl = true)
    (h : commitTable env catalogType state metadata snapshotId catalog operations = .ok committed) :
    ∃ changed sn, changeSchema catalogType metadata
          (ddlBuilder (operations.filterMap schemaOperation)) = .ok changed ∧
        committed.newSnapshot = some ⟨sn, changed.1.currentSchemaId⟩ ∧
        if catalogType = .restCatalogReadWrite then
          (changed.2 ++ [SchemaRequest.addSnapshot changed.1.currentSchemaId]).foldlM catalog.apply
            metadata = .ok committed.table
        else committed.table = changed.1 := by
  obtain ⟨changes, hc, h⟩ := bind_eq_ok_iff.mp h
  obtain ⟨tbl, htbl, h⟩ := bind_eq_ok_iff.mp h
  cases h
  obtain ⟨published, hpub, hc⟩ := bind_eq_ok_iff.mp hc
  obtain ⟨changed, hch, hc⟩ := bind_eq_ok_iff.mp hc
  cases hc
  have hm : MetadataOperation.tableDdl ∈ operations.map toMetadataOperation := by
    obtain ⟨op, hm, hop⟩ := any_eq_true.mp hddl
    cases op with
    | tableDdl => exact mem_map.mpr ⟨_, hm, rfl⟩
    | other => cases hop
  obtain ⟨sn, rfl⟩ := exists_published hm (mapError_eq_ok_iff.mp hpub)
  refine ⟨changed, sn, hch, rfl, ?_⟩
  unfold tableAfter at htbl
  split_ifs with hr
  · simp only [if_pos hr] at htbl
    exact htbl
  · rw [if_neg hr] at htbl
    exact (Except.ok.inj htbl).symm

/-- **The new snapshot of a commit that changes the schema names the schema that is current
    afterwards exactly if the table is not in a writable REST catalog or its current schema stays
    the same.** -/
theorem namesCurrentSchema_iff {catalog : RestCatalog T} {operations : List (TableOperation P T)}
    (hddl : ∃ effect, .tableDdl effect ∈ operations) {committed : CommittedTable P T}
    (h : commitTable env catalogType state metadata snapshotId catalog operations = .ok committed) :
    committed.NamesCurrentSchema ↔
      (catalogType = .restCatalogReadWrite → KeepsCurrentSchema catalog metadata operations) := by
  have hany : operations.any isDdl = true := by
    obtain ⟨effect, hmem⟩ := hddl
    exact any_eq_true.mpr ⟨_, hmem, rfl⟩
  obtain ⟨changed, snapshot, hchanged, hsnapshot, htable⟩ := commitTable_eq_ok hany h
  have hnames : committed.NamesCurrentSchema ↔
      committed.table.currentSchemaId = changed.1.currentSchemaId := by
    unfold CommittedTable.NamesCurrentSchema
    rw [hsnapshot]
    simp only [Option.some.injEq, exists_eq_left']
    exact eq_comm
  rw [hnames]
  by_cases hrest : catalogType = .restCatalogReadWrite
  · subst hrest
    obtain ⟨hsame, hrequests⟩ := changeSchema_rest hchanged
    rw [hsame] at htable ⊢
    rw [currentSchemaId_of_requests (ddlBuilder_holds operations) hany hrequests htable]
    simp
  · rw [if_neg hrest] at htable
    simp [htable, hrest]

end

/-! ## An added column -/

/-- A REST catalog that numbers schemas in order. -/
def countingCatalog (T : Type) : RestCatalog T := ⟨fun table _ => table.nextSchemaId⟩

def addColumnOperations : List (TableOperation Unit Unit) :=
  [.other (.add "f4" .data () 9 0) rfl,
    .tableDdl (.addSchema [lowerCaseField, { upperCaseField with id := 2 }])]

/-- In the internal catalog the snapshot names the new schema. -/
theorem namesCurrentSchema_iff_postgres :
    ∃ committed, commitTable exampleEnv .postgresCatalog exampleState beforeRename.toSchemaList 7
        (countingCatalog Unit) addColumnOperations = .ok committed ∧
      committed.table.currentSchemaId = 1 ∧ committed.NamesCurrentSchema := by
  obtain ⟨committed, hcommit, hcurrent⟩ : ∃ committed, commitTable exampleEnv .postgresCatalog
      exampleState beforeRename.toSchemaList 7 (countingCatalog Unit) addColumnOperations =
        .ok committed ∧ committed.table.currentSchemaId = 1 := ⟨_, rfl, rfl⟩
  have hddl : ∃ effect, .tableDdl effect ∈ addColumnOperations :=
    ⟨_, mem_cons_of_mem _ mem_cons_self⟩
  exact ⟨committed, hcommit, hcurrent, (namesCurrentSchema_iff hddl hcommit).mpr nofun⟩

/-- In a REST catalog the current schema is the new one, 1, and the snapshot names 0. -/
theorem rest_snapshot_names_old_schema :
    ∃ committed snapshot, commitTable exampleEnv .restCatalogReadWrite exampleState
        beforeRename.toSchemaList 7 (countingCatalog Unit) addColumnOperations = .ok committed ∧
      committed.table.currentSchemaId = 1 ∧ committed.newSnapshot = some snapshot ∧
      snapshot.schemaId = 0 ∧ ¬ committed.NamesCurrentSchema := by
  refine ⟨_, _, rfl, rfl, rfl, rfl, ?_⟩
  rintro ⟨snapshot, hsnapshot, hnames⟩
  cases hsnapshot
  exact absurd hnames (by decide)

end PgLake.Iceberg
