/-
  Postgres types as the type-mapping code sees them (`pgduck/map.c`, `numeric.c`,
  `parquet/field.c`).
-/
import Mathlib.Data.Int.Basic

namespace PgLake.Types

/-! ## Types -/

/-- The base types the code distinguishes. -/
inductive Scalar where
  | bool
  | int2
  | int4
  | int8
  | float4
  | float8
  | numeric
  | date
  | time
  | timetz
  | timestamp
  | timestamptz
  | interval
  | text
  | varchar
  | bpchar
  | name
  | char
  | uuid
  | bytea
  | bit
  | oid
  | json
  | jsonb
  | unknown
  | geometry
  /-- any type the code does not name -/
  | other
  deriving DecidableEq

/-- `numeric(precision, scale)`; -1, no modifier, is `none`. -/
structure NumericTypmod where
  precision : ℤ
  scale : ℤ
  deriving DecidableEq

/-- Precision and scale, if they are given. -/
abbrev Typmod := Option NumericTypmod

/-- The name of an attribute, or the placeholder Postgres gives a dropped one. -/
inductive AttrName where
  | user (name : String)
  | dropped (attnum : ℕ)
  deriving DecidableEq

mutual

/-- A type.  Postgres has no arrays of arrays. -/
inductive PgType where
  | plain (t : NonArrayType)
  | array (element : NonArrayType)

inductive NonArrayType where
  | scalar (s : Scalar)
  /-- a domain and the type modifier it gives its base type.  `getBaseType` does not stop at map
      types, so a domain over a map type is one over the array of its pairs -/
  | domain (base : PgType) (typmod : Typmod)
  | composite (attrs : Attrs)
  /-- a map type, with the types and modifiers of its `key` and `val` -/
  | map (key : PgType) (keyTypmod : Typmod) (value : PgType) (valueTypmod : Typmod)

inductive Attrs where
  | nil
  | cons (name : String) (type : PgType) (typmod : Typmod) (rest : Attrs)
  | dropped (attnum : ℕ) (rest : Attrs)

end

/-! ## Numeric modifiers -/

/-- `pg_lake_table.unbounded_numeric_default_precision` and `_scale`. -/
structure NumericSettings where
  unboundedNumericDefaultPrecision : ℤ
  unboundedNumericDefaultScale : ℤ

/-- `UNBOUNDED_NUMERIC_DEFAULT_PRECISION` and `UNBOUNDED_NUMERIC_DEFAULT_SCALE`. -/
def NumericSettings.default : NumericSettings := ⟨38, 9⟩

/-- `DUCKDB_MAX_NUMERIC_PRECISION` and `DUCKDB_MAX_NUMERIC_SCALE`. -/
def duckdbMaxNumericPrecision : ℤ := 38

def duckdbMaxNumericScale : ℤ := 38

variable (cfg : NumericSettings)

/-- `GetDuckdbAdjustedPrecisionAndScaleFromNumericTypeMod`. -/
def adjustedPrecisionAndScale : Typmod → NumericTypmod
  | none =>
    ⟨cfg.unboundedNumericDefaultPrecision, cfg.unboundedNumericDefaultScale⟩
  | some ⟨precision, scale⟩ =>
    if scale < 0 then ⟨precision + scale.natAbs, 0⟩
    -- do not adjust precision if the scale is above the max limit
    else if scale > precision ∧ scale ≤ duckdbMaxNumericScale then ⟨scale, scale⟩
    else ⟨precision, scale⟩

/-- `CanPushdownNumericToDuckdb`. -/
def canPushdownNumericToDuckdb (n : NumericTypmod) : Bool :=
  !decide (n.scale < 0) && !decide (n.scale > n.precision) &&
    !decide (n.precision > duckdbMaxNumericPrecision) &&
    !decide (n.scale > duckdbMaxNumericScale)

/-- The precision and scale with which a numeric is stored, if it is stored as a decimal. -/
def decimalOf (typmod : Typmod) : Option NumericTypmod :=
  let adjusted := adjustedPrecisionAndScale cfg typmod
  if canPushdownNumericToDuckdb adjusted then some adjusted else none

/-! ## Iceberg scalars -/

inductive IcebergScalar where
  | boolean
  | int
  | long
  | float
  | double
  | decimal (n : NumericTypmod)
  | date
  | time
  | timestamp
  | timestamptz
  | string
  | uuid
  | binary
  deriving DecidableEq

def Scalar.icebergName (s : Scalar) (typmod : Typmod) : IcebergScalar :=
  match s with
  | .bool => .boolean
  | .int2 | .int4 => .int
  | .int8 => .long
  | .float4 => .float
  | .float8 => .double
  | .date => .date
  | .time | .timetz => .time
  | .timestamp => .timestamp
  | .timestamptz => .timestamptz
  | .uuid => .uuid
  | .bytea | .geometry => .binary
  | .numeric =>
    match decimalOf cfg typmod with
    | some n => .decimal n
    | none => .string
  | _ => .string

mutual

/-- `PostgresBaseTypeIdToIcebergTypeName`: domains are unwrapped, the modifier stays. -/
def PgType.icebergTypeName (typmod : Typmod) : PgType → IcebergScalar
  | .plain t => t.icebergTypeName typmod
  | .array _ => .string

def NonArrayType.icebergTypeName (typmod : Typmod) : NonArrayType → IcebergScalar
  | .scalar s => s.icebergName cfg typmod
  | .domain base _ => base.icebergTypeName typmod
  | .composite _ | .map .. => .string

end

/-! ## Nested types -/

mutual

/-- The types that are nested in a type, at any depth, itself included. -/
def PgType.parts : PgType → List NonArrayType
  | .plain t => NonArrayType.parts t
  | .array element => NonArrayType.parts element

def NonArrayType.parts : NonArrayType → List NonArrayType
  | .scalar s => [.scalar s]
  | .domain base typmod => .domain base typmod :: PgType.parts base
  | .composite attrs => .composite attrs :: Attrs.parts attrs
  | .map key keyTypmod value valueTypmod =>
    .map key keyTypmod value valueTypmod :: (PgType.parts key ++ PgType.parts value)

def Attrs.parts : Attrs → List NonArrayType
  | .nil => []
  | .cons _ type _ rest => PgType.parts type ++ Attrs.parts rest
  | .dropped _ rest => Attrs.parts rest

end

end PgLake.Types
