/-
  Pruning of data files by column statistics and partition values (`fdw/data_file_pruning.c`,
  `snapshot.c`).

  For every column a query filters on, the bounds recorded for a file and the file's partition
  tuple are turned into constraints.  A scan skips a file whose constraints refute the WHERE
  clauses; a simple DELETE removes a file without scanning it when the constraints imply them.

  Main result: `fullMatch_sound`.
-/
import Mathlib.Data.Int.Basic
import Mathlib.Data.List.AList
import Mathlib.Data.String.Basic
import PgLake.Lib.SqlPredicate

namespace PgLake.Fdw.Pruning

open SqlPredicate List

/-- Column numbers. -/
abbrev AttrNumber := ℤ

/-- A row by attribute number, `none` being NULL.  The synthetic column of a bucket
    partitioned column holds its bucket. -/
abbrev Row (V : Type) := AttrNumber → Option V

abbrev Constraint (V : Type) := Pred AttrNumber V

inductive TypeKind where
  | scalar
  | array
  | map
  | composite
  | geometry
  deriving DecidableEq

inductive Collation where
  | invalid
  | default
  | c
  | other
  deriving DecidableEq

/-- What the pruning code reads of a column; `operator` says which operators the
    default btree operator class of its type has. -/
structure Column where
  kind : TypeKind
  isTimeTz : Bool
  collation : Collation
  operator : Cmp → Bool

inductive TransformType where
  | identity
  | year
  | month
  | day
  | hour
  | bucket
  | truncate
  | void
  deriving DecidableEq

/-- `IcebergPartitionTransform`, made from a field of a partition spec. -/
structure PartitionTransform where
  partitionFieldId : ℤ
  sourceId : ℤ
  type : TransformType

inductive TableKind where
  | internalIceberg
  | externalIceberg
  | other
  deriving DecidableEq

/-- `field` is the registered field id of a column, for an external table the id of the
    field of the same name and type, if there is one. -/
structure Table (V : Type) where
  kind : TableKind
  column : AttrNumber → Column
  field : AttrNumber → Option ℤ
  partitionTransforms : List PartitionTransform
  columnBoundDatum : AttrNumber → String → V

/-- `DataFileColumnStats`. -/
structure ColumnStats where
  fieldId : ℤ
  lowerBoundText : Option String
  upperBoundText : Option String
  deriving DecidableEq

/-- A value of the partition tuple, as bytes `B`. -/
structure PartitionField (B : Type) where
  fieldId : ℤ
  value : Option B

/-- A data file, with the rows stored in it. -/
structure DataFile (V B : Type) where
  columnStats : List ColumnStats
  partition : Option (List (PartitionField B))
  rows : List (Row V)

/-- A comparison of a column with a constant that is filled in later. -/
structure OpTemplate where
  column : AttrNumber
  op : Cmp

/-- `ColumnToFieldIdMapping`. -/
structure ColumnMapping where
  attrNo : AttrNumber
  fieldId : ℤ
  columnBoundInclusiveUpper : Option (OpTemplate × OpTemplate)
  columnBoundExclusiveUpper : Option (OpTemplate × OpTemplate)
  equalityOperatorExpression : Option OpTemplate
  isNullExpression : Option AttrNumber
  syntheticColEqualityOperator : Option OpTemplate

/-- The columns of a query with their fields. -/
abbrev FieldIdMapping := AList (fun _ : AttrNumber => ColumnMapping)

inductive PruneType where
  | partialMatch
  | fullMatch
  deriving DecidableEq

/-- What the pruning code calls: the settings, Postgres on clauses of type `Clause`, the order
    of a hash table, and the decoding of partition values. -/
structure Env (V B Clause : Type) where
  enableDataFilePruning : Bool
  enablePartitionPruning : Bool
  eval : Clause → Row V → Option Bool
  pullVarClause : Clause → List AttrNumber
  stripAllImplicitCoercions : Clause → Clause
  predicateImpliedBy : List Clause → List (Constraint V) → Bool
  predicateRefutedBy : List (Constraint V) → List Clause → Bool
  extendClausesForBucketPartitioning :
    Option (List (PartitionField B)) → List PartitionTransform → FieldIdMapping →
      List Clause → List Clause
  hashOrder : FieldIdMapping → List ((_ : AttrNumber) × ColumnMapping)
  /-- `PartitionValueToDatum` of an identity transform -/
  partitionValueToDatum : PartitionTransform → B → V
  /-- the half-open range of a truncate, year, month, day or hour value, where supported -/
  partitionRange : PartitionTransform → B → Option (V × V)
  bucketValueDatum : B → V

variable {V B Clause : Type}

def maxAttrNumber : ℤ := 32767

def makeOpExpression (column : Column) (attrNo : AttrNumber) (op : Cmp) : Option OpTemplate :=
  if column.operator op then some ⟨attrNo, op⟩ else none

def buildConstraintsWithNullConst (column : Column) (attrNo : AttrNumber)
    (lessThan greaterThan : Cmp) : Option (OpTemplate × OpTemplate) :=
  match makeOpExpression column attrNo lessThan, makeOpExpression column attrNo greaterThan with
  | some lessThanExpr, some greaterThanExpr => some (lessThanExpr, greaterThanExpr)
  | _, _ => none

/-- The template with its constant. -/
def OpTemplate.fill (t : OpTemplate) (v : V) : Constraint V := .cmp t.column t.op v

def createConstraintWithBounds (template : Option (OpTemplate × OpTemplate))
    (minValue maxValue : V) : Option (Constraint V) :=
  template.map fun t => .and (t.1.fill maxValue) (t.2.fill minValue)

def createConstraintWithEquality (template : Option OpTemplate) (value : V) :
    Option (Constraint V) :=
  template.map fun t => t.fill value

/-- Text bounds are only used where the order of the column is the order of the bounds. -/
def Collation.supported : Collation → Bool
  | .invalid | .default | .c => true
  | .other => false

variable (table : Table V)

/-- The entry of a column: its templates if its collation allows them. -/
def columnMapping (attrNo : AttrNumber) (fieldId : ℤ) : ColumnMapping :=
  let column := table.column attrNo
  if column.collation.supported then
    let syntheticColId := maxAttrNumber - attrNo
    { attrNo := attrNo
      fieldId := fieldId
      columnBoundInclusiveUpper := buildConstraintsWithNullConst column attrNo .le .ge
      columnBoundExclusiveUpper := buildConstraintsWithNullConst column attrNo .lt .ge
      equalityOperatorExpression := makeOpExpression column attrNo .eq
      isNullExpression := some attrNo
      -- int4 has an equality operator
      syntheticColEqualityOperator :=
        if syntheticColId > 0 then some ⟨syntheticColId, .eq⟩ else none }
  else
    ⟨attrNo, fieldId, none, none, none, none, none⟩

/-- The loop body of `AddFieldIdsUsedInQuery`. -/
def addFieldId (mapping : FieldIdMapping) (used : AttrNumber × ℤ) : FieldIdMapping :=
  if (table.column used.1).kind ≠ .scalar then mapping
  else if used.1 ∈ mapping then mapping
  else mapping.insert used.1 (columnMapping table used.1 used.2)

/-- Nothing is pruned if a column has no field, which only an external table allows. -/
def addFieldIdsUsedInQuery (columnsUsedInFilters : List AttrNumber) : FieldIdMapping :=
  match columnsUsedInFilters.mapM table.field with
  | none => ∅
  | some fields => (columnsUsedInFilters.zip fields).foldl (addFieldId table) ∅

/-- The hash table is keyed by attribute number but searched with the first bytes of the
    source field id. -/
def getPartitionTransformsUsedInQuery (mapping : FieldIdMapping) : List PartitionTransform :=
  table.partitionTransforms.filter fun transform => Int.bmod transform.sourceId (2 ^ 16) ∈ mapping

/-- A bound of a TIMETZ column is a UTC time without zone. -/
def boundText (column : Column) (text : String) : String :=
  if column.isTimeTz && !text.toList.contains '+' && !text.toList.contains '-' then
    text ++ "+00"
  else text

/-- The loop body of `GetColumnBoundConstraintsFromColumnStats`. -/
def statConstraint (entry : ColumnMapping) (stat : ColumnStats) : Option (Constraint V) :=
  if stat.fieldId ≠ entry.fieldId then none
  else
    match stat.lowerBoundText, stat.upperBoundText with
    | some lower, some upper =>
      let lowerBoundText := boundText (table.column entry.attrNo) lower
      let upperBoundText := boundText (table.column entry.attrNo) upper
      if lowerBoundText = upperBoundText then
        createConstraintWithEquality entry.equalityOperatorExpression
          (table.columnBoundDatum entry.attrNo lowerBoundText)
      else
        createConstraintWithBounds entry.columnBoundInclusiveUpper
          (table.columnBoundDatum entry.attrNo lowerBoundText)
          (table.columnBoundDatum entry.attrNo upperBoundText)
    | _, _ => none

def getColumnBoundConstraintsFromColumnStats (columnStats : List ColumnStats)
    (entry : ColumnMapping) : List (Constraint V) :=
  columnStats.filterMap (statConstraint table entry)

variable (env : Env V B Clause)

/-- What a value of the partition tuple says about its column. -/
def partitionFieldBoundConstraint (partitionField : PartitionField B)
    (transform : PartitionTransform) (entry : ColumnMapping) : Option (Constraint V) :=
  match transform.type, partitionField.value with
  | .identity, some value =>
    createConstraintWithEquality entry.equalityOperatorExpression
      (env.partitionValueToDatum transform value)
  | .identity, none => entry.isNullExpression.map .isNull
  | .void, _ => none
  -- NULL is only used for identity transforms
  | _, none => none
  | .bucket, some value =>
    createConstraintWithEquality entry.syntheticColEqualityOperator (env.bucketValueDatum value)
  | _, some value =>
    (env.partitionRange transform value).bind fun range =>
      createConstraintWithBounds entry.columnBoundExclusiveUpper range.1 range.2

def findPartitionTransformById (transforms : List PartitionTransform) (partitionFieldId : ℤ) :
    Option PartitionTransform :=
  transforms.find? fun transform => transform.partitionFieldId = partitionFieldId

def getColumnBoundConstraintsFromPartition (entry : ColumnMapping)
    (transforms : List PartitionTransform) (partition : Option (List (PartitionField B))) :
    List (Constraint V) :=
  (partition.getD []).filterMap fun partitionField =>
    (findPartitionTransformById transforms partitionField.fieldId).bind fun transform =>
      if transform.sourceId ≠ entry.fieldId then none
      else partitionFieldBoundConstraint env partitionField transform entry

def getColumnBoundConstraints (table : Table V) (mapping : FieldIdMapping)
    (transforms : List PartitionTransform) (file : DataFile V B) : List (Constraint V) :=
  (env.hashOrder mapping).flatMap fun entry =>
    (if env.enableDataFilePruning then
      getColumnBoundConstraintsFromColumnStats table file.columnStats entry.2 else []) ++
    (if env.enablePartitionPruning then
      getColumnBoundConstraintsFromPartition env entry.2 transforms file.partition else [])

/-- The columns of the filter, each once. -/
def columnsUsedInRestrictions (baseRestrictInfos : List Clause) : List AttrNumber :=
  (baseRestrictInfos.flatMap env.pullVarClause).eraseDups

/-- `PruneDataFiles`: the files that may have matching rows, or those with matching rows only. -/
def pruneDataFiles (table : Table V) (dataFiles : List (DataFile V B))
    (baseRestrictInfos : List Clause) (pruneType : PruneType) : List (DataFile V B) :=
  let columnsUsedInFilters := columnsUsedInRestrictions env baseRestrictInfos
  if (!env.enableDataFilePruning && !env.enablePartitionPruning) || table.kind = .other then
    match pruneType with
    | .fullMatch => []
    | .partialMatch => dataFiles
  else if pruneType = .fullMatch ∧ baseRestrictInfos.isEmpty then dataFiles
  else if columnsUsedInFilters = [] then
    match pruneType with
    | .fullMatch => []
    | .partialMatch => dataFiles
  else
    let clauses := baseRestrictInfos.map env.stripAllImplicitCoercions
    let mapping := addFieldIdsUsedInQuery table columnsUsedInFilters
    let transforms := getPartitionTransformsUsedInQuery table mapping
    dataFiles.filter fun file =>
      let constraints := getColumnBoundConstraints env table mapping transforms file
      match pruneType with
      | .partialMatch =>
        !env.predicateRefutedBy constraints
          (env.extendClausesForBucketPartitioning file.partition transforms mapping clauses)
      | .fullMatch => env.predicateImpliedBy clauses constraints

/-! ## The filtered columns -/

variable {env} {table : Table V} {file : DataFile V B} {clauses : List Clause}

def Table.boundDatum (table : Table V) (attrNo : AttrNumber) (text : String) : V :=
  table.columnBoundDatum attrNo (boundText (table.column attrNo) text)

open Option

theorem field_of_mem_zip {f : AttrNumber → Option ℤ} {cols : List AttrNumber}
    {fs : List ℤ} (h : cols.mapM f = some fs) {a : AttrNumber} {fieldId : ℤ}
    (hm : (a, fieldId) ∈ cols.zip fs) : f a = some fieldId := by
  induction cols generalizing fs with
  | nil => simp at hm
  | cons b cols ih =>
    rw [mapM_cons] at h
    obtain ⟨fb, hfb, h⟩ := bind_eq_some_iff.mp h
    obtain ⟨rest, hr, h⟩ := bind_eq_some_iff.mp h
    cases h
    rcases mem_cons.mp hm with heq | hm
    · obtain ⟨rfl, rfl⟩ := Prod.mk.inj heq
      exact hfb
    · exact ih hr hm

structure IsEntry (table : Table V) (columns : List AttrNumber)
    (entry : (_ : AttrNumber) × ColumnMapping) : Prop where
  mem : entry.1 ∈ columns
  scalar : (table.column entry.1).kind = .scalar
  entry_eq : ∃ fieldId, table.field entry.1 = some fieldId ∧
    entry.2 = columnMapping table entry.1 fieldId

theorem isEntry_of_mem {cols : List AttrNumber} {entry : (_ : AttrNumber) × ColumnMapping}
    (h : entry ∈ (addFieldIdsUsedInQuery table cols).entries) :
    IsEntry table cols entry := by
  unfold addFieldIdsUsedInQuery at h
  cases hfs : cols.mapM table.field with
  | none => simp [hfs] at h
  | some fs =>
    simp only [hfs] at h
    -- every entry inserted so far is one
    have hinv : ∀ (used : List (AttrNumber × ℤ)) (mapping : FieldIdMapping),
        (∀ x ∈ used, x ∈ cols.zip fs) →
        (∀ entry ∈ mapping.entries, IsEntry table cols entry) →
        ∀ entry ∈ (used.foldl (addFieldId table) mapping).entries, IsEntry table cols entry := by
      intro used
      induction used with
      | nil => exact fun _ _ hm => hm
      | cons x used ih =>
        intro mapping hu hm
        obtain ⟨hx, hu⟩ := forall_mem_cons.mp hu
        refine ih _ hu fun entry he => ?_
        unfold addFieldId at he
        split_ifs at he with hk hme
        · exact hm entry he
        · exact hm entry he
        · rw [AList.entries_insert_of_notMem hme] at he
          rcases mem_cons.mp he with rfl | he
          · exact ⟨(of_mem_zip hx).1, not_not.mp hk, x.2, field_of_mem_zip hfs hx, rfl⟩
          · exact hm entry he
    exact hinv _ ∅ (fun _ hx => hx) (by simp) entry h

variable (attrNo : AttrNumber) (fieldId : ℤ)

@[simp] theorem columnMapping_attrNo : (columnMapping table attrNo fieldId).attrNo = attrNo := by
  unfold columnMapping
  simp only
  split_ifs <;> rfl

@[simp] theorem columnMapping_fieldId : (columnMapping table attrNo fieldId).fieldId = fieldId := by
  unfold columnMapping
  simp only
  split_ifs <;> rfl

theorem columnMapping_exclusiveUpper :
    (columnMapping table attrNo fieldId).columnBoundExclusiveUpper =
      if (table.column attrNo).collation.supported then
        buildConstraintsWithNullConst (table.column attrNo) attrNo .lt .ge else none := by
  unfold columnMapping
  simp only
  split_ifs <;> rfl

theorem columnMapping_equality : (columnMapping table attrNo fieldId).equalityOperatorExpression =
      if (table.column attrNo).collation.supported then
        makeOpExpression (table.column attrNo) attrNo .eq else none := by
  unfold columnMapping
  simp only
  split_ifs <;> rfl

theorem columnMapping_isNull : (columnMapping table attrNo fieldId).isNullExpression =
      if (table.column attrNo).collation.supported then some attrNo else none := by
  unfold columnMapping
  simp only
  split_ifs <;> rfl

variable {attrNo} {c : Constraint V}

theorem statConstraint_some {fieldId : ℤ} {stat : ColumnStats}
    (h : statConstraint table (columnMapping table attrNo fieldId) stat = some c) :
    stat.fieldId = fieldId ∧ (table.column attrNo).collation.supported = true ∧
    ∃ lo hi, stat.lowerBoundText = some lo ∧ stat.upperBoundText = some hi ∧
      (table.boundDatum attrNo lo = table.boundDatum attrNo hi ∧
        createConstraintWithEquality (makeOpExpression (table.column attrNo) attrNo .eq)
          (table.boundDatum attrNo lo) = some c ∨
        createConstraintWithBounds
          (buildConstraintsWithNullConst (table.column attrNo) attrNo .le .ge)
          (table.boundDatum attrNo lo) (table.boundDatum attrNo hi) = some c) := by
  unfold statConstraint at h
  rw [columnMapping_fieldId, columnMapping_attrNo] at h
  split_ifs at h with hf
  refine ⟨not_not.mp hf, ?_⟩
  split at h
  · next lo hi hl hu =>
    by_cases hc : (table.column attrNo).collation.supported = true
    · refine ⟨hc, lo, hi, hl, hu, ?_⟩
      simp only [columnMapping, hc, if_true] at h
      split_ifs at h with heq
      · exact Or.inl ⟨congrArg (table.columnBoundDatum attrNo) heq, h⟩
      · exact Or.inr h
    · simp [columnMapping, hc, createConstraintWithEquality, createConstraintWithBounds] at h
  · cases h

theorem fullMatch_cases {dfs : List (DataFile V B)}
    (h : file ∈ pruneDataFiles env table dfs clauses .fullMatch) :
    clauses = [] ∨
    let mapping := addFieldIdsUsedInQuery table (columnsUsedInRestrictions env clauses)
    env.predicateImpliedBy (clauses.map env.stripAllImplicitCoercions)
      (getColumnBoundConstraints env table mapping
        (getPartitionTransformsUsedInQuery table mapping) file) = true := by
  unfold pruneDataFiles at h
  simp only at h
  split_ifs at h with _ he
  · cases h
  · exact Or.inl (isEmpty_iff.mp he.2)
  · cases h
  · exact Or.inr (mem_filter.mp h).2

/-! ## Correct statistics and sound provers -/

variable [LinearOrder V]

/-- The recorded bounds of a column contain its non-NULL values. -/
def StatsCorrect (table : Table V) (file : DataFile V B) : Prop :=
  ∀ {attrNo fieldId}, table.field attrNo = some fieldId →
    ∀ stat ∈ file.columnStats, stat.fieldId = fieldId →
      ∀ {lower upper}, stat.lowerBoundText = some lower → stat.upperBoundText = some upper →
        ∀ row ∈ file.rows, ∀ {v}, row attrNo = some v →
          table.boundDatum attrNo lower ≤ v ∧ v ≤ table.boundDatum attrNo upper

/-- What Postgres promises: implied clauses are TRUE where the constraints are, implicit
    coercions do not change when a clause is TRUE, a hash table is iterated in some order. -/
structure Env.Sound (env : Env V B Clause) : Prop where
  implied : ∀ {clauses constraints}, env.predicateImpliedBy clauses constraints = true →
    ∀ {row}, (∀ c ∈ constraints, c.eval row = some true) →
      ∀ clause ∈ clauses, env.eval clause row = some true
  strip : ∀ {clause row}, env.eval (env.stripAllImplicitCoercions clause) row = some true →
    env.eval clause row = some true
  hashOrder_perm : ∀ mapping, (env.hashOrder mapping).Perm mapping.entries

/-- Every clause is TRUE for the row. -/
def Matches (env : Env V B Clause) (clauses : List Clause) (row : Row V) : Prop :=
  ∀ clause ∈ clauses, env.eval clause row = some true

/-- NULL in a filtered column whose bounds were recorded and are used. -/
def NullInBoundedColumn (env : Env V B Clause) (table : Table V) (clauses : List Clause)
    (file : DataFile V B) (row : Row V) : Prop :=
  env.enableDataFilePruning = true ∧
  ∃ attrNo ∈ columnsUsedInRestrictions env clauses, ∃ fieldId, table.field attrNo = some fieldId ∧
    (table.column attrNo).kind = .scalar ∧ (table.column attrNo).collation.supported = true ∧
    (∃ stat ∈ file.columnStats, stat.fieldId = fieldId ∧
      stat.lowerBoundText.isSome ∧ stat.upperBoundText.isSome) ∧
    row attrNo = none

/-- The constraints the code makes of the file's partition tuple. -/
def partitionConstraints (env : Env V B Clause) (table : Table V) (clauses : List Clause)
    (file : DataFile V B) : List (Constraint V) :=
  let mapping := addFieldIdsUsedInQuery table (columnsUsedInRestrictions env clauses)
  if env.enablePartitionPruning then
    (env.hashOrder mapping).flatMap fun entry =>
      getColumnBoundConstraintsFromPartition env entry.2
        (getPartitionTransformsUsedInQuery table mapping) file.partition
  else []

/-- The value of a partition field is that of the row in the column, or its range contains it; a
    bucket is that of the synthetic column. -/
def Describes (env : Env V B Clause) (transform : PartitionTransform) (value : Option B)
    (attrNo : AttrNumber) (row : Row V) : Prop :=
  match transform.type, value with
  | .identity, some bytes => row attrNo = some (env.partitionValueToDatum transform bytes)
  | .identity, none => row attrNo = none
  | .bucket, some bytes => row (maxAttrNumber - attrNo) = some (env.bucketValueDatum bytes)
  | .void, _ => True
  | _, none => True
  | _, some bytes => ∀ range, env.partitionRange transform bytes = some range →
    ∃ v, row attrNo = some v ∧ range.1 ≤ v ∧ v < range.2

/-- The values of the file's partition tuple are those of the row. -/
def DescribedByPartition (env : Env V B Clause) (table : Table V) (file : DataFile V B)
    (row : Row V) : Prop :=
  ∀ field ∈ file.partition.getD [], ∀ transform ∈ table.partitionTransforms,
    transform.partitionFieldId = field.fieldId → ∀ attrNo,
      table.field attrNo = some transform.sourceId → Describes env transform field.value attrNo row

/-! ## The constraints of a file -/

variable {row : Row V}

theorem createConstraintWithEquality_isTrue {col : Column} {v x : V}
    (h : createConstraintWithEquality (makeOpExpression col attrNo .eq) v = some c)
    (hx : row attrNo = some x) (heq : x = v) : c.eval row = some true := by
  obtain ⟨t, ht, rfl⟩ := map_eq_some_iff.mp h
  unfold makeOpExpression at ht
  split_ifs at ht
  cases ht
  exact isTrue_cmp.mpr ⟨x, hx, by simp [Cmp.holds, heq]⟩

theorem createConstraintWithBounds_isTrue {col : Column} {lo hi x : V}
    (h : createConstraintWithBounds (buildConstraintsWithNullConst col attrNo .le .ge) lo hi =
      some c)
    (hx : row attrNo = some x) (hlo : lo ≤ x) (hhi : x ≤ hi) : c.eval row = some true := by
  obtain ⟨t, ht, rfl⟩ := map_eq_some_iff.mp h
  unfold buildConstraintsWithNullConst makeOpExpression at ht
  split_ifs at ht
  cases ht
  exact isTrue_and.mpr ⟨isTrue_cmp.mpr ⟨x, hx, by simp [Cmp.holds, hhi]⟩,
    isTrue_cmp.mpr ⟨x, hx, by simp [Cmp.holds, hlo]⟩⟩

/-- **The constraint of correct bounds is TRUE where the column is not NULL.** -/
theorem statConstraint_isTrue (hs : StatsCorrect table file)
    {fieldId : ℤ} (hf : table.field attrNo = some fieldId) {stat : ColumnStats}
    (hst : stat ∈ file.columnStats)
    (hc : statConstraint table (columnMapping table attrNo fieldId) stat = some c)
    (hr : row ∈ file.rows) {x : V} (hx : row attrNo = some x) : c.eval row = some true := by
  obtain ⟨hid, -, lo, hi, hl, hu, hc⟩ := statConstraint_some hc
  obtain ⟨hlo, hhi⟩ := hs hf stat hst hid hl hu row hr hx
  rcases hc with ⟨heq, hc⟩ | hc
  · exact createConstraintWithEquality_isTrue hc hx (le_antisymm (heq ▸ hhi) hlo)
  · exact createConstraintWithBounds_isTrue hc hx hlo hhi

omit [LinearOrder V] in
/-- A constraint is made of the partition tuple or of the statistics of a filtered column. -/
theorem mem_getColumnBoundConstraints
    (hp : ∀ mapping, (env.hashOrder mapping).Perm mapping.entries)
    (hc : let mapping := addFieldIdsUsedInQuery table (columnsUsedInRestrictions env clauses)
      c ∈ getColumnBoundConstraints env table mapping
        (getPartitionTransformsUsedInQuery table mapping) file) :
    c ∈ partitionConstraints env table clauses file ∨ env.enableDataFilePruning = true ∧
      ∃ attrNo ∈ columnsUsedInRestrictions env clauses, (table.column attrNo).kind = .scalar ∧
        ∃ fieldId, table.field attrNo = some fieldId ∧ ∃ stat ∈ file.columnStats,
          statConstraint table (columnMapping table attrNo fieldId) stat = some c := by
  obtain ⟨e, he, hc⟩ := mem_flatMap.mp hc
  obtain ⟨hu, hs, fieldId, hf, heq⟩ := isEntry_of_mem ((hp _).mem_iff.mp he)
  rcases mem_append.mp hc with hc | hc
  · split_ifs at hc with hen
    · rw [heq] at hc
      obtain ⟨stat, hst, hc⟩ := mem_filterMap.mp hc
      exact .inr ⟨hen, e.1, hu, hs, fieldId, hf, stat, hst, hc⟩
    · cases hc
  · split_ifs at hc with hen
    · left
      rw [partitionConstraints, if_pos hen]
      exact mem_flatMap.mpr ⟨e, he, hc⟩
    · cases hc

theorem rangeConstraint_isTrue {fieldId : ℤ} {range : Option (V × V)}
    (hin : ∀ r, range = some r → ∃ v, row attrNo = some v ∧ r.1 ≤ v ∧ v < r.2)
    (hc : range.bind (fun r => createConstraintWithBounds
      (columnMapping table attrNo fieldId).columnBoundExclusiveUpper r.1 r.2) = some c) :
    c.eval row = some true := by
  obtain ⟨r, hdecoded, hc⟩ := bind_eq_some_iff.mp hc
  obtain ⟨v, hv, hlo, hhi⟩ := hin r hdecoded
  obtain ⟨t, ht, rfl⟩ := map_eq_some_iff.mp hc
  rw [columnMapping_exclusiveUpper] at ht
  unfold buildConstraintsWithNullConst makeOpExpression at ht
  split_ifs at ht
  cases ht
  exact isTrue_and.mpr ⟨isTrue_cmp.mpr ⟨v, hv, by simp [Cmp.holds, hhi]⟩,
    isTrue_cmp.mpr ⟨v, hv, by simp [Cmp.holds, hlo]⟩⟩

/-- **The constraint of a partition field that describes the row is TRUE on it.** -/
theorem partitionFieldBoundConstraint_isTrue {fieldId : ℤ} {f : PartitionField B}
    {tr : PartitionTransform} (h : Describes env tr f.value attrNo row)
    (hc : partitionFieldBoundConstraint env f tr (columnMapping table attrNo fieldId) =
      some c) : c.eval row = some true := by
  unfold Describes at h
  unfold partitionFieldBoundConstraint at hc
  cases hty : tr.type <;> cases hva : f.value <;> rw [hty, hva] at h hc
  case identity.none =>
    obtain ⟨a, ha, rfl⟩ := map_eq_some_iff.mp hc
    rw [columnMapping_isNull] at ha
    split_ifs at ha
    cases ha
    simp [Pred.eval, h]
  case identity.some =>
    rw [columnMapping_equality] at hc
    split_ifs at hc
    · exact createConstraintWithEquality_isTrue hc h rfl
    · cases hc
  case bucket.some =>
    obtain ⟨t, ht, rfl⟩ := map_eq_some_iff.mp hc
    unfold columnMapping at ht
    simp only at ht
    split_ifs at ht with hs
    simp only [ite_none_right_eq_some, some.injEq] at ht
    obtain ⟨-, rfl⟩ := ht
    exact isTrue_cmp.mpr ⟨_, h, by simp [Cmp.holds]⟩
  all_goals first
    | cases hc
    | exact rangeConstraint_isTrue h hc

theorem partitionConstraints_isTrue
    (hp : ∀ mapping, (env.hashOrder mapping).Perm mapping.entries)
    (h : DescribedByPartition env table file row)
    (hc : c ∈ partitionConstraints env table clauses file) : c.eval row = some true := by
  unfold partitionConstraints at hc
  simp only at hc
  split_ifs at hc
  · obtain ⟨e, he, hc⟩ := mem_flatMap.mp hc
    obtain ⟨-, -, fieldId, hf, heq⟩ := isEntry_of_mem ((hp _).mem_iff.mp he)
    obtain ⟨f, hm, hc⟩ := mem_filterMap.mp hc
    obtain ⟨tr, hfo, hc⟩ := bind_eq_some_iff.mp hc
    split_ifs at hc with hsrc
    rw [heq, columnMapping_fieldId, not_not] at hsrc
    rw [heq] at hc
    have hu := mem_of_find?_eq_some hfo
    have hid := find?_some hfo
    exact partitionFieldBoundConstraint_isTrue (h f hm tr (mem_filter.mp hu).1
      (of_decide_eq_true hid) e.1 (hsrc ▸ hf)) hc
  · cases hc

theorem constraints_isTrue (hso : env.Sound) (hs : StatsCorrect table file)
    (hr : row ∈ file.rows) (hn : ¬ NullInBoundedColumn env table clauses file row)
    (hp : DescribedByPartition env table file row) :
    let mapping := addFieldIdsUsedInQuery table (columnsUsedInRestrictions env clauses)
    ∀ c ∈ getColumnBoundConstraints env table mapping
      (getPartitionTransformsUsedInQuery table mapping) file, c.eval row = some true := by
  intro mapping c hc
  rcases mem_getColumnBoundConstraints hso.hashOrder_perm hc with
    hc | ⟨he, attrNo, hus, hsc, fieldId, hf, stat, hst, hc⟩
  · exact partitionConstraints_isTrue hso.hashOrder_perm hp hc
  · obtain ⟨hid, hco, lo, hi, hl, hu, -⟩ := statConstraint_some hc
    cases hx : row attrNo with
    | none =>
      exact absurd ⟨he, attrNo, hus, fieldId, hf, hsc, hco,
        ⟨stat, hst, hid, by simp [hl], by simp [hu]⟩, hx⟩ hn
    | some x => exact statConstraint_isTrue hs hf hst hc hr hx

/-- **A file kept by FULL_MATCH has only matching rows if its partition tuple has the values of its
    rows and none of them is NULL in a filtered column with recorded bounds.** -/
theorem fullMatch_sound (hsound : env.Sound) (hstats : StatsCorrect table file)
    (hpart : ∀ row ∈ file.rows, DescribedByPartition env table file row)
    (hnull : ∀ row ∈ file.rows, ¬ NullInBoundedColumn env table clauses file row)
    {dataFiles : List (DataFile V B)}
    (hkept : file ∈ pruneDataFiles env table dataFiles clauses .fullMatch) :
    ∀ row ∈ file.rows, Matches env clauses row := by
  intro row hrow clause hclause
  rcases fullMatch_cases hkept with rfl | himplied
  · cases hclause
  · have htrue := constraints_isTrue hsound hstats hrow (hnull row hrow) (hpart row hrow)
    exact hsound.strip (hsound.implied himplied htrue _ (mem_map_of_mem hclause))

/-! ## A file with a NULL row -/

def predColumns : Constraint V → List AttrNumber
  | .cmp a _ _ => [a]
  | .and p q => predColumns p ++ predColumns q
  | .isNull a => [a]

/-- Clauses that are comparisons, and the prover that knows that a clause implies itself. -/
def reflexiveEnv : Env String Unit (Constraint String) where
  enableDataFilePruning := true
  enablePartitionPruning := true
  eval clause row := clause.eval row
  pullVarClause := predColumns
  stripAllImplicitCoercions := id
  predicateImpliedBy clauses constraints := clauses.all fun clause => clause ∈ constraints
  predicateRefutedBy _ _ := false
  extendClausesForBucketPartitioning _ _ _ clauses := clauses
  hashOrder mapping := mapping.entries
  partitionValueToDatum _ _ := ""
  partitionRange _ _ := none
  bucketValueDatum _ := ""

theorem reflexiveEnv_sound : reflexiveEnv.Sound where
  implied h _ ht clause hc := by
    have := all_eq_true.mp h clause hc
    exact ht clause (by simpa using this)
  strip h := h
  hashOrder_perm _ := List.Perm.refl _

/-- An unpartitioned table whose column `n` is a text column with field id `n`. -/
def textTable : Table String where
  kind := .internalIceberg
  column _ := ⟨.scalar, false, .default, fun _ => true⟩
  field attrNo := some attrNo
  partitionTransforms := []
  columnBoundDatum _ text := text

/-- A file whose first column has minimum and maximum `a`. -/
def constantFile (rows : List (Row String)) : DataFile String Unit :=
  ⟨[⟨1, some "a", some "a"⟩], none, rows⟩

theorem constantFile_kept (rs : List (Row String)) :
    constantFile rs ∈ pruneDataFiles reflexiveEnv textTable [constantFile rs]
      [.cmp 1 .eq "a"] .fullMatch :=
  mem_singleton.mpr rfl

theorem constantFile_statsCorrect {rs : List (Row String)}
    (h : ∀ row ∈ rs, ∀ v, row 1 = some v → v = "a") :
    StatsCorrect textTable (constantFile rs) := by
  intro attrNo fieldId hf stat hs hid lower upper hl hu row hr v hv
  obtain rfl := mem_singleton.mp hs
  obtain rfl : attrNo = 1 := (some.inj hf).trans hid.symm
  obtain rfl : "a" = lower := some.inj hl
  obtain rfl : "a" = upper := some.inj hu
  obtain rfl := h row hr v hv
  exact ⟨le_refl _, le_refl _⟩

/-- `DELETE … WHERE c = 'a'` on a file with the rows `a`, `a` drops it rightly. -/
theorem fullMatch_sound_constant :
    constantFile [fun _ => some "a", fun _ => some "a"] ∈ pruneDataFiles reflexiveEnv textTable
      [constantFile [fun _ => some "a", fun _ => some "a"]] [.cmp 1 .eq "a"] .fullMatch ∧
    ∀ row ∈ (constantFile [fun _ => some "a", fun _ => some "a"]).rows,
      Matches reflexiveEnv [.cmp 1 .eq "a"] row := by
  have hkept := constantFile_kept [fun _ => some "a", fun _ => some "a"]
  refine ⟨hkept, fullMatch_sound reflexiveEnv_sound (constantFile_statsCorrect (by simp))
    (fun _ _ _ hfield => (not_mem_nil hfield).elim) (fun row hrow hnull => ?_) hkept⟩
  obtain ⟨-, attrNo, -, -, -, -, -, -, hnone⟩ := hnull
  have hvalue : row = fun _ => some "a" := by simpa [constantFile] using hrow
  simp [hvalue] at hnone

/-- **The rows `a` and NULL**: the bounds are correct, the file is kept by FULL_MATCH, and
    `DELETE … WHERE c = 'a'` drops the NULL row with it. -/
theorem null_row_is_dropped : reflexiveEnv.Sound ∧
    StatsCorrect textTable (constantFile [fun _ => some "a", fun _ => none]) ∧
    constantFile [fun _ => some "a", fun _ => none] ∈ pruneDataFiles reflexiveEnv textTable
      [constantFile [fun _ => some "a", fun _ => none]] [.cmp 1 .eq "a"] .fullMatch ∧
    ¬ ∀ row ∈ (constantFile [fun _ => some "a", fun _ => none]).rows,
      Matches reflexiveEnv [.cmp 1 .eq "a"] row := by
  refine ⟨reflexiveEnv_sound, constantFile_statsCorrect (by simp), constantFile_kept _, ?_⟩
  intro h
  have := h (fun _ => none) (by simp [constantFile]) (.cmp 1 .eq "a") (by simp)
  cases this

end PgLake.Fdw.Pruning
