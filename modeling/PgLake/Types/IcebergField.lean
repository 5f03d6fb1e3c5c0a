/-
  Iceberg fields (`iceberg_field.c`).

  A domain is replaced by its base type and keeps the modifier of the column, an array hands its
  modifier to its elements.
-/
import PgLake.Types.PgType

namespace PgLake.Types

mutual

inductive Field where
  | scalar (type : IcebergScalar)
  | list (elementId : ℕ) (element : Field)
  | struct (fields : StructFields)
  | map (keyId : ℕ) (key : Field) (valueId : ℕ) (value : Field)

inductive StructFields where
  | nil
  | cons (id : ℕ) (name : AttrName) (type : Field) (rest : StructFields)

end

/-! ## The field of a type -/

def intervalFields (subFieldIndex : ℕ) : StructFields :=
  .cons (subFieldIndex + 1) (.user "months") (.scalar .long)
    (.cons (subFieldIndex + 2) (.user "days") (.scalar .long)
      (.cons (subFieldIndex + 3) (.user "microseconds") (.scalar .long) .nil))

section

variable (settings : NumericSettings)

mutual

/-- `PostgresTypeToIcebergField`: the field and the last id given. -/
def PgType.toField (typmod : Typmod) (subFieldIndex : ℕ) : PgType → Field × ℕ
  | .plain t => t.toField typmod subFieldIndex
  | .array element =>
    let elementId := subFieldIndex + 1
    let (field, last) := element.toField typmod elementId
    (.list elementId field, last)

def NonArrayType.toField (typmod : Typmod) (subFieldIndex : ℕ) : NonArrayType → Field × ℕ
  | .scalar .interval => (.struct (intervalFields subFieldIndex), subFieldIndex + 3)
  | .scalar s => (.scalar (s.icebergName settings typmod), subFieldIndex)
  | .domain base _ => base.toField typmod subFieldIndex
  | .composite attrs =>
    let (fields, last) := attrs.toFields subFieldIndex
    (.struct fields, last)
  | .map key keyTypmod value valueTypmod =>
    let keyId := subFieldIndex + 1
    let (keyField, lastKey) := key.toField keyTypmod keyId
    let valueId := lastKey + 1
    let (valueField, last) := value.toField valueTypmod valueId
    (.map keyId keyField valueId valueField, last)

/-- A dropped attribute has type 0, which maps to string. -/
def Attrs.toFields (subFieldIndex : ℕ) : Attrs → StructFields × ℕ
  | .nil => (.nil, subFieldIndex)
  | .cons name type typmod rest =>
    let id := subFieldIndex + 1
    let (field, last) := type.toField typmod id
    let (fields, last) := rest.toFields last
    (.cons id (.user name) field fields, last)
  | .dropped attnum rest =>
    let id := subFieldIndex + 1
    let (fields, last) := rest.toFields id
    (.cons id (.dropped attnum) (.scalar .string) fields, last)

end

end

/-! ## Paths -/

inductive PathStep where
  | element
  | attr (name : String)
  | key
  | value
  deriving DecidableEq

/-- A way from a field to one below it. -/
abbrev Path := List PathStep

def StructFields.find? (name : AttrName) : StructFields → Option Field
  | .nil => none
  | .cons _ name' type rest => if name' = name then some type else rest.find? name

def Field.at? : Field → Path → Option Field
  | field, [] => some field
  | .list _ element, .element :: path => element.at? path
  | .struct fields, .attr name :: path => (fields.find? (.user name)).bind fun f => f.at? path
  | .map _ key _ _, .key :: path => key.at? path
  | .map _ _ _ value, .value :: path => value.at? path
  | _, _ :: _ => none

@[simp] theorem Field.at?_nil (field : Field) : field.at? [] = some field := by
  cases field <;> rfl

end PgLake.Types
