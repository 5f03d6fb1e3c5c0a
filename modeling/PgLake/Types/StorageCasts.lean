/-
  Casts from surface to storage types (`parquet/field.c`, `pgduck/iceberg_query_validation.c`).

  Reads and writes decide again, from the type of the column and its storage tree, which leaves
  are stored as another type.

  Main result: `castsFollowDivergences_iff`.
-/
import PgLake.Types.EngineType
import PgLake.Types.FieldIds

namespace PgLake.Types

open List

/-- `GetDuckDBTypeByName` of an Iceberg name: a modifier is not read. -/
def IcebergScalar.duckDBTypeByName : IcebergScalar → DuckDBType
  | .boolean => .boolean
  | .int => .integer
  | .long => .bigint
  | .float => .float
  | .double => .double
  | .decimal _ => .decimal
  | .date => .date
  | .time => .time
  | .timestamp => .timestamp
  | .timestamptz => .timestampTz
  | .string => .varchar
  | .uuid => .uuid
  | .binary => .blob

/-! ## Rewrites -/

mutual

inductive Rewrite where
  /-- nothing is written: the value is used as it is -/
  | unchanged
  | cast (type : DuckDBType)
  | listTransform (element : Rewrite)
  | structPack (fields : RewriteFields)

inductive RewriteFields where
  | nil
  | cons (name : String) (rewrite : Rewrite) (rest : RewriteFields)

end

mutual

def Rewrite.castIds (fieldId : ℕ) (storage : Field) : Rewrite → List ℕ
  | .unchanged => []
  | .cast _ => [fieldId]
  | .listTransform element =>
    match storage with
    | .list elementId elementStorage => element.castIds elementId elementStorage
    | _ => []
  | .structPack fields =>
    match storage with
    | .struct storageFields => fields.castIds storageFields
    | _ => []

def RewriteFields.castIds (storage : StructFields) : RewriteFields → List ℕ
  | .nil => []
  | .cons name rewrite rest =>
    (match storage.fieldNamed? (.user name) with
      | some (id, field) => rewrite.castIds id field
      | none => []) ++ rest.castIds storage

end

section

variable (cfg : NumericSettings)

def scalarLeafStorageDiverges (storage : Field) (surface : PgType) (typmod : Typmod) : Bool :=
  match storage with
  | .scalar storageName => surface.icebergTypeName cfg typmod ≠ storageName
  | _ => false

mutual

/-- `TypeHasStorageDivergentLeaf`.  `getBaseTypeAndTypmod` looks through a chain of domains at
    once and returns the modifier of the innermost: while `unwrapping`, a domain is not checked
    itself. -/
def PgType.hasStorageDivergentLeaf (typmod : Typmod) (storage : Field) (unwrapping : Bool) :
    PgType → Bool
  | .plain t => t.hasStorageDivergentLeaf typmod storage unwrapping
  | .array element =>
    scalarLeafStorageDiverges cfg storage (.array element) typmod ||
      match storage with
      | .list _ elementStorage => element.hasStorageDivergentLeaf typmod elementStorage false
      | _ => false

def NonArrayType.hasStorageDivergentLeaf (typmod : Typmod) (storage : Field)
    (unwrapping : Bool) : NonArrayType → Bool
  | .scalar s => scalarLeafStorageDiverges cfg storage (.plain (.scalar s)) typmod
  | .domain base baseTypmod =>
    (!unwrapping &&
      scalarLeafStorageDiverges cfg storage (.plain (.domain base baseTypmod)) typmod) ||
      base.hasStorageDivergentLeaf baseTypmod storage true
  | .composite attrs =>
    scalarLeafStorageDiverges cfg storage (.plain (.composite attrs)) typmod ||
      match storage with
      | .struct fields => attrs.hasStorageDivergentLeaf fields
      | _ => false
  -- a domain over an array, which has no list as storage
  | .map key keyTypmod value valueTypmod =>
    scalarLeafStorageDiverges cfg storage (.plain (.map key keyTypmod value valueTypmod))
      typmod

def Attrs.hasStorageDivergentLeaf (storage : StructFields) : Attrs → Bool
  | .nil => false
  | .cons name type typmod rest =>
    (match storage.find? (.user name) with
      | some child => type.hasStorageDivergentLeaf typmod child false
      | none => false) || rest.hasStorageDivergentLeaf storage
  | .dropped _ rest => rest.hasStorageDivergentLeaf storage

end

/-- The cast of a leaf whose storage diverges, or else the rewrite of what is below. -/
def castOr (storage : Field) (diverges : Bool) (below : Rewrite) : Rewrite :=
  if diverges then
    match storage with
    | .scalar storageName => .cast storageName.duckDBTypeByName
    | _ => below
  else below

mutual

/-- `AppendRewriteExpression` with `ICEBERG_REWRITE_STORAGE_CAST` only. -/
def PgType.appendRewriteExpression (typmod : Typmod) (storage : Field) (unwrapping : Bool) :
    PgType → Rewrite
  | .plain t => t.appendRewriteExpression typmod storage unwrapping
  | .array element =>
    castOr storage (scalarLeafStorageDiverges cfg storage (.array element) typmod)
      (match storage with
        | .list _ elementStorage =>
          if element.hasStorageDivergentLeaf cfg typmod elementStorage false then
            .listTransform (element.appendRewriteExpression typmod elementStorage false)
          else .unchanged
        | _ => .unchanged)

def NonArrayType.appendRewriteExpression (typmod : Typmod) (storage : Field)
    (unwrapping : Bool) : NonArrayType → Rewrite
  | .scalar s =>
    castOr storage (scalarLeafStorageDiverges cfg storage (.plain (.scalar s)) typmod)
      .unchanged
  | .domain base baseTypmod =>
    castOr storage
      (!unwrapping &&
        scalarLeafStorageDiverges cfg storage (.plain (.domain base baseTypmod)) typmod)
      (base.appendRewriteExpression baseTypmod storage true)
  | .composite attrs =>
    castOr storage (scalarLeafStorageDiverges cfg storage (.plain (.composite attrs)) typmod)
      (match storage with
        | .struct fields =>
          if attrs.hasStorageDivergentLeaf cfg fields then
            .structPack (attrs.appendRewriteExpression fields)
          else .unchanged
        | _ => .unchanged)
  | .map key keyTypmod value valueTypmod =>
    castOr storage
      (scalarLeafStorageDiverges cfg storage (.plain (.map key keyTypmod value valueTypmod))
        typmod)
      .unchanged

def Attrs.appendRewriteExpression (storage : StructFields) : Attrs → RewriteFields
  | .nil => .nil
  | .cons name type typmod rest =>
    .cons name
      (match storage.find? (.user name) with
        | some child => type.appendRewriteExpression typmod child false
        -- no storage, nothing diverges
        | none => .unchanged)
      (rest.appendRewriteExpression storage)
  | .dropped _ rest => rest.appendRewriteExpression storage

end

end

/-! ## Columns -/

def Attrs.names : Attrs → List String
  | .nil => []
  | .cons name _ _ rest => name :: rest.names
  | .dropped _ rest => rest.names

mutual

/-- The attributes of every composite type have distinct names. -/
def PgType.distinctNames : PgType → Bool
  | .plain t => t.distinctNames
  | .array element => element.distinctNames

def NonArrayType.distinctNames : NonArrayType → Bool
  | .scalar _ => true
  | .domain base _ => base.distinctNames
  | .composite attrs => attrs.names.Nodup && attrs.distinctNames
  | .map key _ value _ => key.distinctNames && value.distinctNames

def Attrs.distinctNames : Attrs → Bool
  | .nil => true
  | .cons _ type _ rest => type.distinctNames && rest.distinctNames
  | .dropped _ rest => rest.distinctNames

end

/-- The type of a column, as Postgres lets it be defined. -/
structure ColumnType where
  type : PgType
  typmod : Typmod
  distinctNames : type.distinctNames = true

section

variable (cfg : NumericSettings) (mode : CompatibilityMode) (column : ColumnType)
  (fieldId : ℕ)

def ColumnType.mapping : ColumnMapping :=
  createColumnMapping cfg mode column.type column.typmod fieldId

def ColumnType.rewrite : Rewrite :=
  column.type.appendRewriteExpression cfg column.typmod
    (column.mapping cfg mode fieldId).storage false

/-- The column is cast iff a divergence was recorded, and then at recorded leaves only. -/
structure CastsFollowDivergences : Prop where
  rewritten : column.rewrite cfg mode fieldId ≠ .unchanged ↔
    (column.mapping cfg mode fieldId).storageOverrides ≠ []
  recorded : ∀ id ∈ (column.rewrite cfg mode fieldId).castIds fieldId
      (column.mapping cfg mode fieldId).storage,
    id ∈ (column.mapping cfg mode fieldId).storageOverrides.map StorageOverride.fieldId
  agrees : column.type.hasStorageDivergentLeaf cfg column.typmod
      (column.mapping cfg mode fieldId).storage false = true ↔
    column.rewrite cfg mode fieldId ≠ .unchanged

mutual

/-- Every leaf has the same Iceberg type under the modifier it is declared with and under each
    modifier the casts use for it. -/
def PgType.keepsTypmods (declared typmod : Typmod) (unwrapping : Bool) : PgType → Bool
  | .plain t => t.keepsTypmods declared typmod unwrapping
  | .array element => element.keepsTypmods declared typmod false

/-- The type is stored alike under both modifiers. -/
def NonArrayType.keepsTypmods (declared typmod : Typmod) (unwrapping : Bool) : NonArrayType → Bool
  | .scalar s => s.icebergName cfg typmod = s.icebergName cfg declared
  | .domain base baseTypmod =>
    (unwrapping ||
      base.icebergTypeName cfg typmod = base.icebergTypeName cfg declared) &&
      base.keepsTypmods declared baseTypmod true
  | .composite attrs => attrs.keepsTypmods
  | .map .. => true

def Attrs.keepsTypmods : Attrs → Bool
  | .nil => true
  | .cons _ type typmod rest => type.keepsTypmods typmod typmod false && rest.keepsTypmods
  | .dropped _ rest => rest.keepsTypmods

end

end

/-! ## One answer -/

open Rewrite NonArrayType

section Agreement

variable {cfg : NumericSettings} {storage : Field} {surface : PgType} {typmod : Typmod}

section

variable (h : scalarLeafStorageDiverges cfg storage surface typmod = true)

include h

theorem scalar_of_diverges : ∃ name, storage = .scalar name := by
  cases storage <;> simp_all [scalarLeafStorageDiverges]

theorem castOr_of_diverges (below : Rewrite) : ∃ type, castOr storage true below = .cast type := by
  obtain ⟨n, rfl⟩ := scalar_of_diverges h
  exact ⟨_, rfl⟩

end

theorem castOr_false (storage : Field) (below : Rewrite) : castOr storage false below = below :=
  rfl

theorem castOr_ne_unchanged
    {below : Rewrite} {has : Bool} (hb : has = true ↔ below ≠ .unchanged) :
    (scalarLeafStorageDiverges cfg storage surface typmod || has) = true ↔
      castOr storage (scalarLeafStorageDiverges cfg storage surface typmod) below ≠
        .unchanged := by
  cases hd : scalarLeafStorageDiverges cfg storage surface typmod with
  | false => rw [castOr_false, Bool.false_or, hb]
  | true =>
    obtain ⟨type, hc⟩ := castOr_of_diverges hd below
    simp [hc]

theorem diverges_iff_castOr : scalarLeafStorageDiverges cfg storage surface typmod = true ↔
      castOr storage (scalarLeafStorageDiverges cfg storage surface typmod) .unchanged ≠
        .unchanged := by
  have hb : false = true ↔ unchanged ≠ .unchanged := by simp
  simpa using castOr_ne_unchanged hb

mutual

/-- **The predicate that guards rebuilds holds iff a rewrite is written.** -/
theorem PgType.has_iff_append : ∀ (t : PgType) (typmod : Typmod) (storage : Field)
    (unwrapping : Bool),
    t.hasStorageDivergentLeaf cfg typmod storage unwrapping = true ↔
      t.appendRewriteExpression cfg typmod storage unwrapping ≠ .unchanged
  | .plain t, _, _, _ => by
    exact t.has_iff_append ..
  | .array element, _, storage, _ => by
    refine castOr_ne_unchanged ?_
    cases storage <;> simp

theorem NonArrayType.has_iff_append : ∀ (t : NonArrayType) (typmod : Typmod) (storage : Field)
    (unwrapping : Bool),
    t.hasStorageDivergentLeaf cfg typmod storage unwrapping = true ↔
      t.appendRewriteExpression cfg typmod storage unwrapping ≠ .unchanged
  | .scalar _, _, _, _ | .map .., _, _, _ => by
    exact diverges_iff_castOr
  | .domain base baseTypmod, _, storage, unwrapping => by
    have hb := base.has_iff_append baseTypmod storage true
    simp only [NonArrayType.hasStorageDivergentLeaf, NonArrayType.appendRewriteExpression]
    cases unwrapping with
    | true => simpa [castOr_false] using hb
    | false => simpa using castOr_ne_unchanged hb
  | .composite attrs, _, storage, _ => by
    refine castOr_ne_unchanged ?_
    cases storage <;> simp

end

/-! ### What is cast -/

theorem castIds_castOr_of_diverges
    (h : scalarLeafStorageDiverges cfg storage surface typmod = true) (below : Rewrite)
    (fieldId : ℕ) : (castOr storage true below).castIds fieldId storage = [fieldId] := by
  obtain ⟨type, hc⟩ := castOr_of_diverges h below
  rw [hc]
  rfl

theorem castIds_castOr (below : Rewrite) (fieldId : ℕ) :
    (castOr storage (scalarLeafStorageDiverges cfg storage surface typmod) below).castIds
        fieldId storage =
      if scalarLeafStorageDiverges cfg storage surface typmod then [fieldId]
      else below.castIds fieldId storage := by
  split_ifs with h
  · rw [h, castIds_castOr_of_diverges h]
  · rw [Bool.not_eq_true] at h
    rw [h, castOr_false]

theorem castIds_castOr_ne_nil {below : Rewrite} {has : Bool} {fieldId : ℕ}
    (hb : has = true ↔ below.castIds fieldId storage ≠ []) :
    (scalarLeafStorageDiverges cfg storage surface typmod || has) = true ↔
      (castOr storage (scalarLeafStorageDiverges cfg storage surface typmod) below).castIds
        fieldId storage ≠ [] := by
  rw [castIds_castOr]
  cases scalarLeafStorageDiverges cfg storage surface typmod with
  | false => simpa using hb
  | true => simp

theorem diverges_iff_castIds {fieldId : ℕ} :
    scalarLeafStorageDiverges cfg storage surface typmod = true ↔
      (castOr storage (scalarLeafStorageDiverges cfg storage surface typmod)
        .unchanged).castIds fieldId storage ≠ [] := by
  have hb : false = true ↔ unchanged.castIds fieldId storage ≠ [] := by
    simp [castIds]
  simpa using castIds_castOr_ne_nil hb

variable (cfg) in
mutual

theorem PgType.has_iff_castIds : ∀ (t : PgType) (typmod : Typmod) (storage : Field)
    (unwrapping : Bool) (fieldId : ℕ),
    t.hasStorageDivergentLeaf cfg typmod storage unwrapping = true ↔
      (t.appendRewriteExpression cfg typmod storage unwrapping).castIds fieldId storage ≠ []
  | .plain t, _, _, _, _ => by
    exact t.has_iff_castIds ..
  | .array element, typmod, storage, _, _ => by
    refine castIds_castOr_ne_nil ?_
    cases storage with
    | list elementId es =>
      have hel := element.has_iff_castIds typmod es false elementId
      dsimp only
      split_ifs <;> simp_all [Rewrite.castIds]
    | _ => simp [Rewrite.castIds]

theorem NonArrayType.has_iff_castIds : ∀ (t : NonArrayType) (typmod : Typmod) (storage : Field)
    (unwrapping : Bool) (fieldId : ℕ),
    t.hasStorageDivergentLeaf cfg typmod storage unwrapping = true ↔
      (t.appendRewriteExpression cfg typmod storage unwrapping).castIds fieldId storage ≠ []
  | .scalar _, _, _, _, _ | .map .., _, _, _, _ => by
    exact diverges_iff_castIds
  | .domain base baseTypmod, _, storage, unwrapping, fieldId => by
    have hb := base.has_iff_castIds baseTypmod storage true fieldId
    simp only [NonArrayType.hasStorageDivergentLeaf, NonArrayType.appendRewriteExpression]
    cases unwrapping with
    | true => simpa [castOr_false] using hb
    | false => simpa using castIds_castOr_ne_nil hb
  | .composite attrs, _, storage, _, _ => by
    refine castIds_castOr_ne_nil ?_
    cases storage with
    | struct fs =>
      have ha := attrs.has_iff_castIds fs
      dsimp only
      split_ifs <;> simp_all [castIds]
    | _ => simp [castIds]

theorem Attrs.has_iff_castIds : ∀ (as : Attrs) (storage : StructFields),
    as.hasStorageDivergentLeaf cfg storage = true ↔
      (as.appendRewriteExpression cfg storage).castIds storage ≠ []
  | .nil, _ => by
    simp [Attrs.hasStorageDivergentLeaf, Attrs.appendRewriteExpression, RewriteFields.castIds]
  | .cons n type typmod rest, storage => by
    simp only [Attrs.hasStorageDivergentLeaf, Attrs.appendRewriteExpression,
      RewriteFields.castIds, StructFields.find?_eq_fieldNamed?, Bool.or_eq_true, ne_eq,
      append_eq_nil_iff, not_and_or]
    refine or_congr ?_ (rest.has_iff_castIds storage)
    cases storage.fieldNamed? (.user n) with
    | none => simp
    | some e => exact type.has_iff_castIds typmod e.2 false e.1
  | .dropped _ rest, storage => by
    exact rest.has_iff_castIds storage

end

theorem castIds_listTransform (el : NonArrayType) (typmod : Typmod) (elementStorage : Field)
    (fieldId elementId : ℕ) :
    Rewrite.castIds fieldId (.list elementId elementStorage)
        (if el.hasStorageDivergentLeaf cfg typmod elementStorage false then
          .listTransform (el.appendRewriteExpression cfg typmod elementStorage false)
        else .unchanged) =
      (el.appendRewriteExpression cfg typmod elementStorage false).castIds elementId
        elementStorage := by
  have hel := el.has_iff_castIds cfg typmod elementStorage false elementId
  split_ifs <;> simp_all [castIds]

theorem castIds_structPack (as : Attrs) (storage : StructFields) (fieldId : ℕ) :
    castIds fieldId (.struct storage)
        (if as.hasStorageDivergentLeaf cfg storage then
          .structPack (as.appendRewriteExpression cfg storage)
        else .unchanged) =
      (as.appendRewriteExpression cfg storage).castIds storage := by
  have ha := as.has_iff_castIds cfg storage
  split_ifs <;> simp_all [castIds]

end Agreement

/-! ## Leaves -/

section Leaves

variable {cfg : NumericSettings}

theorem Scalar.icebergName_uuid {s : Scalar} {typmod : Typmod}
    (h : s.icebergName cfg typmod = .uuid) (typmod' : Typmod) :
    s.icebergName cfg typmod' = .uuid := by
  cases s <;> simp_all [Scalar.icebergName]
  split at h <;> cases h

variable (cfg) in
mutual

theorem PgType.toField_cases : ∀ (t : PgType) (typmod : Typmod) (fieldId : ℕ),
    t.toField cfg typmod fieldId = (.scalar (t.icebergTypeName cfg typmod), fieldId) ∨
      (∀ n, (t.toField cfg typmod fieldId).1 ≠ .scalar n) ∧
        ∀ typmod', t.icebergTypeName cfg typmod' = .string
  | .plain t, typmod, fieldId => by
    exact t.toField_cases typmod fieldId
  | .array element, _, _ => by
    right
    simp [PgType.toField, PgType.icebergTypeName]

theorem NonArrayType.toField_cases : ∀ (t : NonArrayType) (typmod : Typmod) (fieldId : ℕ),
    t.toField cfg typmod fieldId = (.scalar (t.icebergTypeName cfg typmod), fieldId) ∨
      (∀ n, (t.toField cfg typmod fieldId).1 ≠ .scalar n) ∧
        ∀ typmod', t.icebergTypeName cfg typmod' = .string
  | .scalar s, _, _ => by
    by_cases hs : s = .interval
    · subst hs
      right
      simp [NonArrayType.toField, NonArrayType.icebergTypeName, Scalar.icebergName]
    · left
      cases s <;> first | rfl | exact absurd rfl hs
  | .domain base _, typmod, fieldId => by
    exact base.toField_cases typmod fieldId
  | .composite attrs, typmod, fieldId | .map .., typmod, fieldId => by
    right
    simp [NonArrayType.toField, NonArrayType.icebergTypeName]

end

mutual

theorem PgType.icebergTypeName_uuid : ∀ (t : PgType) {typmod : Typmod},
    t.icebergTypeName cfg typmod = .uuid →
      ∀ typmod', t.icebergTypeName cfg typmod' = .uuid
  | .plain t, _, h, typmod' => by
    exact t.icebergTypeName_uuid h typmod'
  | .array _, _, h, _ => by simp [PgType.icebergTypeName] at h

theorem NonArrayType.icebergTypeName_uuid : ∀ (t : NonArrayType) {typmod : Typmod},
    t.icebergTypeName cfg typmod = .uuid →
      ∀ typmod', t.icebergTypeName cfg typmod' = .uuid
  | .scalar s, _, h, typmod' => by
    exact Scalar.icebergName_uuid h typmod'
  | .domain base _, _, h, typmod' => by
    exact base.icebergTypeName_uuid h typmod'
  | .composite _, _, h, _ | .map .., _, h, _ => by simp [NonArrayType.icebergTypeName] at h

end

variable (mode : CompatibilityMode)

def Field.recordedIds (level fieldId : ℕ) (field : Field) : List ℕ :=
  (field.collectStorageDivergences fieldId (field.applyMapping mode level)).map
    StorageOverride.fieldId

def StructFields.recordedIds (level : ℕ) (fields : StructFields) : List ℕ :=
  (fields.collectStorageDivergences (fields.applyMapping mode level)).map StorageOverride.fieldId

theorem recordedIds_scalar (level fieldId : ℕ) (n : IcebergScalar) :
    (Field.scalar n).recordedIds mode level fieldId =
      if n ≠ storedAs mode level n then [fieldId] else [] := by
  simp only [Field.recordedIds, Field.applyMapping, Field.collectStorageDivergences]
  split_ifs <;> rfl

variable (cfg) in
theorem diverges_scalar (t : PgType) (mode : CompatibilityMode) (level fieldId : ℕ)
    (declared typmod : Typmod) :
    scalarLeafStorageDiverges cfg
        ((Field.scalar (t.icebergTypeName cfg declared)).applyMapping mode level) t typmod =
      true ↔
      (Field.scalar (t.icebergTypeName cfg declared)).recordedIds mode level fieldId =
          [fieldId] ∨
        t.icebergTypeName cfg typmod ≠ t.icebergTypeName cfg declared := by
  simp only [Field.applyMapping, scalarLeafStorageDiverges, recordedIds_scalar]
  by_cases hu : t.icebergTypeName cfg declared = .uuid
  · simp [hu, t.icebergTypeName_uuid hu typmod]
  · simp [storedAs_of_ne_uuid hu]

theorem recordedIds_of_ne {t : PgType} {dc typmod : Typmod}
    (h : t.icebergTypeName cfg typmod ≠ t.icebergTypeName cfg dc)
    (mode : CompatibilityMode) (level fieldId : ℕ) :
    (Field.scalar (t.icebergTypeName cfg dc)).recordedIds mode level fieldId = [] := by
  have hne : t.icebergTypeName cfg dc ≠ .uuid := by
    intro hu
    rw [hu, t.icebergTypeName_uuid hu typmod] at h
    exact h rfl
  simp [recordedIds_scalar, storedAs_of_ne_uuid hne]

theorem recordedIds_scalar_cases (mode : CompatibilityMode) (level fieldId : ℕ)
    (n : IcebergScalar) :
    (Field.scalar n).recordedIds mode level fieldId = [] ∨
      (Field.scalar n).recordedIds mode level fieldId = [fieldId] := by
  rw [recordedIds_scalar]
  split_ifs
  · exact Or.inr rfl
  · exact Or.inl rfl

theorem not_diverges_of_ne_scalar {f : Field} (h : ∀ n, f ≠ .scalar n)
    (mode : CompatibilityMode) (level : ℕ) (t : PgType) (typmod : Typmod) :
    scalarLeafStorageDiverges cfg (f.applyMapping mode level) t typmod = false := by
  cases f with
  | scalar n => exact absurd rfl (h n)
  | list => rfl
  | struct _ => rfl
  | map => rfl

end Leaves

/-! ## Casts and records -/

/-- The casts of a subtree against its records: every record is cast, the casts are recorded iff
    the subtree keeps its modifiers, and all ids are those of the subtree. -/
structure Follows (cast recorded : List ℕ) (low high : ℕ) (keeps : Bool) : Prop where
  complete : recorded ⊆ cast
  sound_iff : cast ⊆ recorded ↔ keeps = true
  range : ∀ id ∈ cast, low ≤ id ∧ id ≤ high

namespace Follows

variable {cast recorded cast' recorded' : List ℕ} {low high low' high' : ℕ} {keeps keeps' : Bool}

theorem nil (low high : ℕ) : Follows [] [] low high true :=
  ⟨List.Subset.refl _, by simp, by simp⟩

theorem mono (h : Follows cast recorded low high keeps) (hlow : low' ≤ low)
    (hh : high ≤ high') : Follows cast recorded low' high' keeps := by
  refine ⟨h.complete, h.sound_iff, fun id hid => ?_⟩
  obtain ⟨h₁, h₂⟩ := h.range id hid
  omega

theorem append (h : Follows cast recorded low high keeps)
    (h' : Follows cast' recorded' low' high' keeps') (hle : low ≤ high) (hlt : high < low')
    (hle' : high ≤ high') :
    Follows (cast ++ cast') (recorded ++ recorded') low high' (keeps && keeps') := by
  refine ⟨append_subset.mpr ⟨?_, ?_⟩, ?_, ?_⟩
  · exact List.Subset.trans h.complete (subset_append_left _ _)
  · exact List.Subset.trans h'.complete (subset_append_right _ _)
  · rw [Bool.and_eq_true, ← h.sound_iff, ← h'.sound_iff, append_subset]
    constructor
    · rintro ⟨hl, hr⟩
      -- a cast of one subtree is not a record of the other
      refine ⟨fun id hid => ?_, fun id hid => ?_⟩
      · rcases mem_append.mp (hl hid) with hm | hm
        · exact hm
        · have := h.range id hid
          have := h'.range id (h'.complete hm)
          omega
      · rcases mem_append.mp (hr hid) with hm | hm
        · have := h.range id (h.complete hm)
          have := h'.range id hid
          omega
        · exact hm
    · rintro ⟨hl, hr⟩
      exact ⟨List.Subset.trans hl (subset_append_left _ _),
        List.Subset.trans hr (subset_append_right _ _)⟩
  · intro id hid
    rcases mem_append.mp hid with hm | hm
    · have := h.range id hm
      omega
    · have := h'.range id hm
      omega

theorem orElse {diverges : Bool} {id : ℕ}
    (h : Follows (if diverges then [id] else []) recorded id id keeps)
    (h' : Follows cast' recorded id id keeps') :
    Follows (if diverges then [id] else cast') recorded id id (keeps && keeps') := by
  cases diverges with
  | false =>
    obtain rfl : keeps = true := h.sound_iff.mp (nil_subset _)
    exact h'
  | true =>
    refine ⟨h.complete, ?_, h.range⟩
    rw [Bool.and_eq_true, ← h.sound_iff, ← h'.sound_iff]
    refine ⟨fun hid => ⟨hid, fun id' hid' => ?_⟩, And.left⟩
    obtain rfl : id' = id := by
      have := h'.range id' hid'
      omega
    exact hid (by simp)

theorem nil_iff (h : Follows cast recorded low high keeps) (hs : cast ⊆ recorded) :
    cast = [] ↔ recorded = [] := by
  constructor
  · rintro rfl
    exact subset_nil.mp h.complete
  · rintro rfl
    exact subset_nil.mp hs

end Follows

section

variable {cfg : NumericSettings} {mode}

/-- The casts of a type follow the records of the field registration builds for it. -/
def PgType.CastsFollow (cfg : NumericSettings) (mode : CompatibilityMode) (t : PgType)
    (declared typmod : Typmod) (unwrapping : Bool) (level fieldId : ℕ) : Prop :=
  let field := (t.toField cfg declared fieldId).1
  let storage := field.applyMapping mode level
  Follows ((t.appendRewriteExpression cfg typmod storage unwrapping).castIds fieldId storage)
    (field.recordedIds mode level fieldId) fieldId (t.toField cfg declared fieldId).2
    (t.keepsTypmods cfg declared typmod unwrapping)

theorem recordedIds_interval (typmod : Typmod) (level fieldId : ℕ) :
    ((PgType.plain (.scalar .interval)).toField cfg typmod fieldId).1.recordedIds mode level
      fieldId = [] := by
  have hl := storedAs_of_ne_uuid (show IcebergScalar.long ≠ .uuid by decide) mode (level + 1)
  simp only [PgType.toField, NonArrayType.toField, intervalFields, Field.recordedIds,
    StructFields.applyMapping, Field.applyMapping, hl,
    StructFields.collectStorageDivergences, Field.collectStorageDivergences]
  simp

theorem follows_leaf (t : PgType) (level fieldId : ℕ) (dc typmod : Typmod) : Follows
      (if scalarLeafStorageDiverges cfg
        ((Field.scalar (t.icebergTypeName cfg dc)).applyMapping mode level) t typmod
        then [fieldId] else [])
      ((Field.scalar (t.icebergTypeName cfg dc)).recordedIds mode level fieldId)
      fieldId fieldId
      (decide (t.icebergTypeName cfg typmod = t.icebergTypeName cfg dc)) := by
  have hd := diverges_scalar cfg t mode level fieldId dc typmod
  by_cases hn : t.icebergTypeName cfg typmod = t.icebergTypeName cfg dc
  · rcases recordedIds_scalar_cases mode level fieldId (t.icebergTypeName cfg dc) with
      hr | hr
    · have hf := mt hd.mp (by simp [hr, hn])
      simp only [hr, hn, hf, decide_true, Bool.false_eq_true, if_false]
      exact Follows.nil _ _
    · simp only [hr, hn, hd.mpr (Or.inl hr), decide_true, if_true]
      exact ⟨List.Subset.refl _, by simp, by simp⟩
  · simp only [recordedIds_of_ne hn, hd.mpr (Or.inr hn), hn, decide_false, if_true]
    exact ⟨nil_subset _, by simp, by simp⟩

theorem castsFollow_scalar (s : Scalar) (dc typmod : Typmod) (unwrapping : Bool)
    (level fieldId : ℕ) :
    (PgType.plain (.scalar s)).CastsFollow cfg mode dc typmod unwrapping level
      fieldId := by
  unfold PgType.CastsFollow
  simp only [PgType.appendRewriteExpression, NonArrayType.appendRewriteExpression, castIds_castOr]
  rcases (PgType.plain (.scalar s)).toField_cases cfg dc fieldId with
    hf | ⟨hf, hn⟩
  · rw [hf]
    exact follows_leaf (.plain (.scalar s)) level fieldId dc typmod
  · obtain rfl : s = .interval := by
      cases s <;> first | rfl | exact absurd rfl (hf _)
    rw [not_diverges_of_ne_scalar hf, recordedIds_interval]
    exact Follows.nil _ _

variable {unwrapping : Bool} {level fieldId : ℕ}

theorem castsFollow_domain {base : PgType} {baseTypmod dc typmod : Typmod}
    (hb : base.CastsFollow cfg mode dc baseTypmod true level fieldId) :
    (PgType.plain (.domain base baseTypmod)).CastsFollow cfg mode dc typmod unwrapping
      level fieldId := by
  have htoField : (PgType.plain (.domain base baseTypmod)).toField cfg dc fieldId =
      base.toField cfg dc fieldId := by
    simp [PgType.toField, NonArrayType.toField]
  unfold PgType.CastsFollow at hb ⊢
  rw [htoField]
  simp only [PgType.appendRewriteExpression, NonArrayType.appendRewriteExpression,
    PgType.keepsTypmods, NonArrayType.keepsTypmods]
  cases unwrapping with
  | true => simpa [castOr_false] using hb
  | false =>
    simp only [Bool.not_false, Bool.true_and, Bool.false_or, castIds_castOr]
    rcases base.toField_cases cfg dc fieldId with
      hf | ⟨hf, hn⟩
    · rw [hf] at hb ⊢
      exact Follows.orElse (follows_leaf (.plain (.domain base baseTypmod)) level fieldId dc
        typmod) hb
    · rw [not_diverges_of_ne_scalar hf, hn typmod, hn dc]
      simpa using hb

theorem castsFollow_array {el : NonArrayType} {dc typmod : Typmod}
    (hel : (PgType.plain el).CastsFollow cfg mode dc typmod false (level + 1)
      (fieldId + 1)) :
    (PgType.array el).CastsFollow cfg mode dc typmod unwrapping level
      fieldId := by
  unfold PgType.CastsFollow at hel ⊢
  simp only [PgType.toField, Field.applyMapping, PgType.appendRewriteExpression,
    scalarLeafStorageDiverges, castOr_false, castIds_listTransform]
  exact hel.mono (Nat.le_succ _) (le_refl _)

/-- The casts of the attributes of a composite type follow the records of its fields; `storage`
    is the whole struct. -/
def Attrs.CastsFollow (cfg : NumericSettings) (mode : CompatibilityMode) (attrs : Attrs)
    (storage : StructFields) (level fieldId : ℕ) : Prop :=
  Follows ((attrs.appendRewriteExpression cfg storage).castIds storage)
    ((attrs.toFields cfg fieldId).1.recordedIds mode level) (fieldId + 1)
    (attrs.toFields cfg fieldId).2 (attrs.keepsTypmods cfg)

theorem castsFollow_composite {as : Attrs} {dc typmod : Typmod}
    (ha : as.CastsFollow cfg mode
      ((as.toFields cfg fieldId).1.applyMapping mode (level + 1)) (level + 1) fieldId) :
    (PgType.plain (.composite as)).CastsFollow cfg mode dc typmod unwrapping level
      fieldId := by
  unfold PgType.CastsFollow Field.recordedIds
  simp only [PgType.toField, NonArrayType.toField, collect_applyMapping_struct]
  simp only [Field.applyMapping, PgType.appendRewriteExpression,
    NonArrayType.appendRewriteExpression, scalarLeafStorageDiverges, castOr_false,
    castIds_structPack]
  exact ha.mono (Nat.le_succ _) (le_refl _)

theorem castsFollow_map (k : PgType) (keyTypmod : Typmod) (v : PgType)
    (valueTypmod dc typmod : Typmod) (unwrapping : Bool) (level fieldId : ℕ) :
    (PgType.plain (.map k keyTypmod v valueTypmod)).CastsFollow cfg mode dc
      typmod unwrapping level fieldId := by
  unfold PgType.CastsFollow Field.recordedIds
  simp only [PgType.toField, NonArrayType.toField, Field.applyMapping, Field.collect_self]
  exact Follows.nil _ _

theorem castsFollow_cons {n : String} {type : PgType} {typmod : Typmod} {rest : Attrs}
    {storage : StructFields} (he : storage.fieldNamed? (.user n) = some (fieldId + 1,
      (type.toField cfg typmod (fieldId + 1)).1.applyMapping mode level))
    (ht : type.CastsFollow cfg mode typmod typmod false level (fieldId + 1))
    (hr : rest.CastsFollow cfg mode storage level
      (type.toField cfg typmod (fieldId + 1)).2) :
    (Attrs.cons n type typmod rest).CastsFollow cfg mode storage level fieldId := by
  unfold Attrs.CastsFollow at hr ⊢
  simp only [Attrs.appendRewriteExpression, RewriteFields.castIds, StructFields.find?_eq_fieldNamed?,
    he, Option.map_some, Attrs.toFields, StructFields.recordedIds, StructFields.applyMapping,
    StructFields.collectStorageDivergences, map_append, Attrs.keepsTypmods]
  have hle := (type.toField_ids cfg typmod (fieldId + 1)).le
  have hle' := (rest.toFields_ids cfg (type.toField cfg typmod (fieldId + 1)).2).le
  exact ht.append hr hle (Nat.lt_succ_self _) hle'

theorem castsFollow_dropped {attnum : ℕ} {rest : Attrs} {storage : StructFields}
    (hr : rest.CastsFollow cfg mode storage level (fieldId + 1)) :
    (Attrs.dropped attnum rest).CastsFollow cfg mode storage level fieldId := by
  unfold Attrs.CastsFollow StructFields.recordedIds at hr ⊢
  have hs := storedAs_of_ne_uuid (show IcebergScalar.string ≠ .uuid by decide) mode level
  simp only [Attrs.appendRewriteExpression, Attrs.toFields, StructFields.applyMapping,
    Field.applyMapping, hs, StructFields.collectStorageDivergences, Field.collect_self,
    nil_append, Attrs.keepsTypmods]
  exact hr.mono (Nat.le_succ _) (le_refl _)

mutual

/-- **The casts of every type follow its records.** -/
theorem PgType.castsFollow : ∀ (t : PgType), t.distinctNames = true →
    ∀ (dc typmod : Typmod) (unwrapping : Bool) (level fieldId : ℕ),
      t.CastsFollow cfg mode dc typmod unwrapping level fieldId
  | .plain t, hn, dc, typmod, unwrapping, level, fieldId => by
    exact t.castsFollow hn dc typmod unwrapping level fieldId
  | .array el, hn, dc, typmod, _, level, fieldId => by
    exact castsFollow_array
      (el.castsFollow hn dc typmod false (level + 1) (fieldId + 1))

theorem NonArrayType.castsFollow : ∀ (t : NonArrayType), t.distinctNames = true →
    ∀ (dc typmod : Typmod) (unwrapping : Bool) (level fieldId : ℕ),
      (PgType.plain t).CastsFollow cfg mode dc typmod unwrapping level fieldId
  | .scalar s, _, dc, typmod, unwrapping, level, fieldId =>
    castsFollow_scalar s dc typmod unwrapping level fieldId
  | .domain base baseTypmod, hn, dc, _, _, level, fieldId => by
    exact castsFollow_domain (base.castsFollow hn dc baseTypmod true level fieldId)
  | .composite as, hn, _, _, _, level, fieldId => by
    simp only [NonArrayType.distinctNames, Bool.and_eq_true, decide_eq_true_eq] at hn
    exact castsFollow_composite
      (as.castsFollow hn.1 hn.2 (level + 1) fieldId fun _ _ => rfl)
  | .map k keyTypmod v valueTypmod, _, dc, typmod, unwrapping, level, fieldId =>
    castsFollow_map k keyTypmod v valueTypmod dc typmod unwrapping level fieldId

theorem Attrs.castsFollow : ∀ (as : Attrs), as.names.Nodup → as.distinctNames = true →
    ∀ (level fieldId : ℕ) {storage : StructFields},
      (∀ n ∈ as.names, storage.fieldNamed? (.user n) =
        ((as.toFields cfg fieldId).1.applyMapping mode level).fieldNamed? (.user n)) →
      as.CastsFollow cfg mode storage level fieldId
  | .nil, _, _, _, _, _, _ => Follows.nil _ _
  | .cons n type typmod rest, hno, hna, level, fieldId, _, he => by
    simp only [Attrs.names, nodup_cons] at hno
    simp only [Attrs.distinctNames, Bool.and_eq_true] at hna
    simp only [Attrs.names, Attrs.toFields, StructFields.applyMapping] at he
    refine castsFollow_cons ?_ (type.castsFollow hna.1 typmod typmod false level (fieldId + 1))
      (rest.castsFollow hno.2 hna.2 level _ fun n' hn' => ?_)
    · rw [he n (mem_cons_self ..)]
      simp [StructFields.fieldNamed?]
    · rw [he n' (mem_cons_of_mem _ hn')]
      have hne : n ≠ n' := fun h => hno.1 (h ▸ hn')
      simp [StructFields.fieldNamed?, hne]
  | .dropped attnum rest, hno, hna, level, fieldId, _, he => by
    refine castsFollow_dropped
      (rest.castsFollow hno hna level (fieldId + 1) fun n hn => ?_)
    rw [he n hn]
    simp [Attrs.toFields, StructFields.applyMapping, StructFields.fieldNamed?, reduceCtorEq]

end

end

theorem append_ne_unchanged_iff (cfg : NumericSettings) (t : PgType) (typmod : Typmod)
    (storage : Field) (unwrapping : Bool) (fieldId : ℕ) :
    t.appendRewriteExpression cfg typmod storage unwrapping ≠ .unchanged ↔
      (t.appendRewriteExpression cfg typmod storage unwrapping).castIds fieldId storage ≠ [] :=
  (t.has_iff_append typmod storage unwrapping).symm.trans
    (t.has_iff_castIds cfg typmod storage unwrapping fieldId)

/-- **Casts follow the recorded divergences iff no modifier of a domain changes the Iceberg type
    of a numeric.** -/
theorem castsFollowDivergences_iff (cfg : NumericSettings) (mode : CompatibilityMode)
    (column : ColumnType) (fieldId : ℕ) :
    CastsFollowDivergences cfg mode column fieldId ↔
      column.type.keepsTypmods cfg column.typmod column.typmod false = true := by
  have hfollow : column.type.CastsFollow cfg mode column.typmod column.typmod false 0
      fieldId := column.type.castsFollow column.distinctNames _ _ _ _ _
  simp only [PgType.CastsFollow, Field.recordedIds, ← applyCompatibilityStorageMapping_eq]
    at hfollow
  constructor
  · intro h
    exact hfollow.sound_iff.mp h.recorded
  · intro hkeeps
    have hsound := hfollow.sound_iff.mpr hkeeps
    refine ⟨?_, hsound, column.type.has_iff_append _ _ _⟩
    rw [ne_eq (column.mapping cfg mode fieldId).storageOverrides,
      ← map_eq_nil_iff (f := StorageOverride.fieldId)]
    exact (append_ne_unchanged_iff cfg _ _ _ _ fieldId).trans (hfollow.nil_iff hsound).not

/-- A column of a domain over numeric(10,2) is declared decimal(38,9); without any compatibility
    mode its values are cast to DECIMAL, that is to DECIMAL(18,3). -/
theorem domain_over_numeric_is_cast : ¬ CastsFollowDivergences .default .auto
      ⟨.plain (.domain (.plain (.scalar .numeric)) (some ⟨10, 2⟩)), none, rfl⟩ 1 := by
  intro h
  have hcast : ColumnType.rewrite .default .auto
      ⟨.plain (.domain (.plain (.scalar .numeric)) (some ⟨10, 2⟩)), none, rfl⟩ 1 =
        .cast .decimal := rfl
  have hrewritten := h.rewritten.mp (by rw [hcast]; simp)
  exact hrewritten rfl

end PgLake.Types
