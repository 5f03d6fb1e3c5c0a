/-
  Storage types chosen at registration (`compatibility_mode.c`,
  `fdw/schema_operations/register_field_ids.c`, `field_id_mapping_catalog.c`).

  A compatibility mode stores some leaves of a column under another Iceberg type than the one
  their Postgres type maps to.  Registration builds the field tree of the column, remaps a copy
  of it and records where the two differ.
-/
import PgLake.Types.IcebergField

namespace PgLake.Types

/-! ## Compatibility modes -/

/-- `IcebergCompatibilityMode`. -/
inductive CompatibilityMode where
  | auto
  | snowflake
  deriving DecidableEq

/-- `CompatStorageScalarType`: what a nested leaf must be stored as, if not as itself. -/
def compatStorageScalarType (surface : IcebergScalar) : CompatibilityMode → Option IcebergScalar
  | .snowflake => if surface = .uuid then some .string else none
  | .auto => none

/-- The storage type of a leaf; level 0 is the column itself. -/
def storedAs (mode : CompatibilityMode) (level : ℕ) (surface : IcebergScalar) : IcebergScalar :=
  if level > 0 then (compatStorageScalarType surface mode).getD surface else surface

mutual

/-- `ApplyCompatibilityStorageMappingInternal`.  Maps are not descended. -/
def Field.applyMapping (mode : CompatibilityMode) (level : ℕ) : Field → Field
  | .scalar type => .scalar (storedAs mode level type)
  | .list elementId element => .list elementId (element.applyMapping mode (level + 1))
  | .struct fields => .struct (fields.applyMapping mode (level + 1))
  | .map keyId key valueId value => .map keyId key valueId value

def StructFields.applyMapping (mode : CompatibilityMode) (level : ℕ) : StructFields → StructFields
  | .nil => .nil
  | .cons id name type rest =>
    .cons id name (type.applyMapping mode level) (rest.applyMapping mode level)

end

def applyCompatibilityStorageMapping (field : Field) (mode : CompatibilityMode) : Field :=
  if mode = .auto then field else field.applyMapping mode 0

/-! ## Recorded divergences -/

/-- A leaf stored as another type, with that type. -/
structure StorageOverride where
  fieldId : ℕ
  storage : IcebergScalar
  deriving DecidableEq

def StructFields.nfields : StructFields → ℕ
  | .nil => 0
  | .cons _ _ _ rest => rest.nfields + 1

mutual

def Field.collectStorageDivergences (surface : Field) (fieldId : ℕ) : Field → List StorageOverride
  | .scalar storageName =>
    match surface with
    | .scalar surfaceName => if surfaceName ≠ storageName then [⟨fieldId, storageName⟩] else []
    | _ => []
  | .list elementId element =>
    match surface with
    | .list _ surfaceElement => surfaceElement.collectStorageDivergences elementId element
    | _ => []
  | .map keyId key valueId value =>
    match surface with
    | .map _ surfaceKey _ surfaceValue =>
      surfaceKey.collectStorageDivergences keyId key ++
        surfaceValue.collectStorageDivergences valueId value
    | _ => []
  | .struct fields =>
    match surface with
    | .struct surfaceFields =>
      if surfaceFields.nfields = fields.nfields then
        surfaceFields.collectStorageDivergences fields
      else []
    | _ => []

def StructFields.collectStorageDivergences (surface : StructFields) :
    StructFields → List StorageOverride
  | .nil => []
  | .cons id _ type rest =>
    match surface with
    | .nil => []
    | .cons _ _ surfaceType surfaceRest =>
      surfaceType.collectStorageDivergences id type ++ surfaceRest.collectStorageDivergences rest

end

/-- What registration keeps of a column. -/
structure ColumnMapping where
  storage : Field
  storageOverrides : List StorageOverride

/-- `CreatePostgresColumnMappingsForColumnDefs` for one column. -/
def createColumnMapping (settings : NumericSettings) (mode : CompatibilityMode) (type : PgType)
    (typmod : Typmod) (fieldId : ℕ) : ColumnMapping :=
  let surface := (type.toField settings typmod fieldId).1
  let storage := applyCompatibilityStorageMapping surface mode
  ⟨storage, surface.collectStorageDivergences fieldId storage⟩

/-! ## Remapped trees -/

theorem storedAs_of_ne_uuid {surface : IcebergScalar} (h : surface ≠ .uuid)
    (mode : CompatibilityMode) (level : ℕ) : storedAs mode level surface = surface := by
  unfold storedAs compatStorageScalarType
  cases mode <;> simp [h]

mutual

theorem Field.applyMapping_auto : ∀ (f : Field) (level : ℕ),
    f.applyMapping .auto level = f
  | .scalar type, _ => by simp [Field.applyMapping, storedAs, compatStorageScalarType]
  | .list elementId el, _ => by
    simp [Field.applyMapping, el.applyMapping_auto]
  | .struct fs, _ => by simp [Field.applyMapping, fs.applyMapping_auto]
  | .map .., _ => by simp [Field.applyMapping]

theorem StructFields.applyMapping_auto : ∀ (fs : StructFields) (level : ℕ),
    fs.applyMapping .auto level = fs
  | .nil, _ => rfl
  | .cons id n type rest, _ => by
    simp [StructFields.applyMapping, type.applyMapping_auto, rest.applyMapping_auto]

end

theorem applyCompatibilityStorageMapping_eq (f : Field) (mode : CompatibilityMode) :
    applyCompatibilityStorageMapping f mode = f.applyMapping mode 0 := by
  unfold applyCompatibilityStorageMapping
  split_ifs with hauto
  · rw [hauto, f.applyMapping_auto]
  · rfl

theorem StructFields.nfields_applyMapping (mode : CompatibilityMode) (level : ℕ) :
    ∀ fs : StructFields, (fs.applyMapping mode level).nfields = fs.nfields
  | .nil => rfl
  | .cons _ _ _ rest => by
    simp [StructFields.applyMapping, StructFields.nfields, rest.nfields_applyMapping mode]

theorem collect_applyMapping_struct (mode : CompatibilityMode) (level id : ℕ)
    (fs : StructFields) :
    (Field.struct fs).collectStorageDivergences id
        ((Field.struct fs).applyMapping mode level) =
      fs.collectStorageDivergences (fs.applyMapping mode (level + 1)) := by
  simp [Field.applyMapping, Field.collectStorageDivergences, StructFields.nfields_applyMapping]

mutual

theorem Field.collect_self : ∀ (f : Field) (id : ℕ),
    f.collectStorageDivergences id f = []
  | .scalar _, _ => by simp [Field.collectStorageDivergences]
  | .list elementId element, _ => by
    exact element.collect_self elementId
  | .struct fields, _ => by
    simp only [Field.collectStorageDivergences, if_true]
    exact fields.collect_self
  | .map keyId k valueId v, _ => by
    simp [Field.collectStorageDivergences, k.collect_self keyId, v.collect_self valueId]

theorem StructFields.collect_self : ∀ (fs : StructFields),
    fs.collectStorageDivergences fs = []
  | .nil => rfl
  | .cons id _ type rest => by
    simp [StructFields.collectStorageDivergences, type.collect_self id, rest.collect_self]

end

/-! ## Lookup by name -/

def StructFields.fieldNamed? (name : AttrName) : StructFields → Option (ℕ × Field)
  | .nil => none
  | .cons id name' type rest => if name' = name then some (id, type) else rest.fieldNamed? name

theorem StructFields.find?_eq_fieldNamed? (n : AttrName) :
    ∀ fs : StructFields, fs.find? n = (fs.fieldNamed? n).map Prod.snd
  | .nil => rfl
  | .cons _ _ _ rest => by
    simp only [StructFields.find?, StructFields.fieldNamed?]
    split_ifs
    · rfl
    · exact rest.find?_eq_fieldNamed? n

end PgLake.Types
