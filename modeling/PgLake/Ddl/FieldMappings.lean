/-
  The registered fields of an Iceberg table
  (`fdw/schema_operations/register_field_ids.c`, `field_id_mapping_catalog.c`).

  `lake_table.field_id_mappings` has a row for each field of each column.  The
  row of the column itself has no parent; a column has exactly one such row when
  all is well, but only the field ids are unique by a constraint.
-/
import Mathlib.Data.List.Count
import PgLake.Lib.Fallible
import PgLake.Types.IcebergField

namespace PgLake.Ddl

open PgLake.Types List

/-- A row of `lake_table.field_id_mappings`. -/
structure FieldMapping where
  fieldId : ℕ
  pgAttnum : ℕ
  parentFieldId : Option ℕ
  writeDefault : Option String
  initialDefault : Option String
  deriving DecidableEq

namespace FieldMapping

/-- The row is that of the column `attnum` itself. -/
def isTopLevelFor (attnum : ℕ) (mapping : FieldMapping) : Bool :=
  mapping.parentFieldId.isNone && mapping.pgAttnum = attnum

end FieldMapping

/-! ## Registration -/

mutual

def fieldMappingsBelow (attNo : ℕ) (parentFieldId : ℕ) : Field → List FieldMapping
  | .scalar _ => []
  | .list elementId element =>
    ⟨elementId, attNo, some parentFieldId, none, none⟩ ::
      fieldMappingsBelow attNo elementId element
  | .map keyId key valueId value =>
    ⟨keyId, attNo, some parentFieldId, none, none⟩ :: fieldMappingsBelow attNo keyId key ++
      ⟨valueId, attNo, some parentFieldId, none, none⟩ :: fieldMappingsBelow attNo valueId value
  | .struct fields => structMappingsBelow attNo parentFieldId fields

def structMappingsBelow (attNo : ℕ) (parentFieldId : ℕ) : StructFields → List FieldMapping
  | .nil => []
  | .cons id _ type rest =>
    ⟨id, attNo, some parentFieldId, none, none⟩ :: fieldMappingsBelow attNo id type ++
      structMappingsBelow attNo parentFieldId rest

end

variable (fields : List FieldMapping)

def insertFieldMapping (mapping : FieldMapping) : Except String (List FieldMapping) :=
  if mapping.fieldId ∈ fields.map (·.fieldId) then
    .error "duplicate key value violates unique constraint \"unique_attribute\""
  else .ok (fields ++ [mapping])

/-- `RegisterIcebergColumnMapping`: a field is inserted before its subfields. -/
def registerIcebergColumnMapping (field : Field) (attNo fieldId : ℕ)
    (writeDefault initialDefault : Option String) : Except String (List FieldMapping) :=
  (⟨fieldId, attNo, none, writeDefault, initialDefault⟩ ::
    fieldMappingsBelow attNo fieldId field).foldlM insertFieldMapping fields

/-- `GetLargestRegisteredFieldId`; 0 is `INVALID_FIELD_ID`. -/
def getLargestRegisteredFieldId : ℕ :=
  (fields.map (·.fieldId)).foldr max 0

/-! ## Lookup and update -/

def getRegisteredFieldForAttribute (attrNo : ℕ) : Except String FieldMapping :=
  match fields.filter (·.isTopLevelFor attrNo) with
  | [field] => .ok field
  | _ => .error "missing field for column"

/-! ## The rows below a column -/

mutual

theorem mem_fieldMappingsBelow {attNo : ℕ} {mapping : FieldMapping} :
    ∀ {parentFieldId : ℕ} {f : Field},
      mapping ∈ fieldMappingsBelow attNo parentFieldId f → mapping.parentFieldId.isNone = false
  | _, .scalar _, h => by simp [fieldMappingsBelow] at h
  | _, .list elementId element, h => by
    obtain rfl | h := mem_cons.mp h
    · rfl
    · exact mem_fieldMappingsBelow h
  | _, .map keyId key valueId value, h => by
    rw [fieldMappingsBelow, mem_append, mem_cons, mem_cons] at h
    obtain (rfl | h) | (rfl | h) := h
    · rfl
    · exact mem_fieldMappingsBelow h
    · rfl
    · exact mem_fieldMappingsBelow h
  | _, .struct fields, h => mem_structMappingsBelow h

theorem mem_structMappingsBelow {attNo : ℕ} {mp : FieldMapping} :
    ∀ {parentFieldId : ℕ} {fields : StructFields},
      mp ∈ structMappingsBelow attNo parentFieldId fields →
        mp.parentFieldId.isNone = false
  | _, .nil, h => by simp [structMappingsBelow] at h
  | _, .cons id _ type rest, h => by
    rw [structMappingsBelow, mem_append, mem_cons] at h
    obtain (rfl | h) | h := h
    · rfl
    · exact mem_fieldMappingsBelow h
    · exact mem_structMappingsBelow h

end

end PgLake.Ddl
