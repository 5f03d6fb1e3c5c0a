/-
  The values of Postgres types, for the validation of what is written to Iceberg tables.  A map
  is an array of pairs, and the domain that makes it a map has no check on them.
-/
import PgLake.Fdw.TemporalPartitions

namespace PgLake.Validation

open PgLake.Types
open Fdw.TemporalPartitions (Calendar TemporalType IsPostgres dateNotFinite timestampNotFinite)

/-! ## Scalars -/

/-- `DATE_NOT_FINITE` and `TIMESTAMP_NOT_FINITE`. -/
def notFinite : TemporalType → ℤ → Bool
  | .date, value => dateNotFinite value
  | .timestamp, value | .timestamptz, value => timestampNotFinite value

/-- `DATE_IS_NOBEGIN` and `TIMESTAMP_IS_NOBEGIN`. -/
def isNobegin : TemporalType → ℤ → Bool
  | .date, value => value = -2 ^ 31
  | .timestamp, value | .timestamptz, value => value = -2 ^ 63

/-- A date, in days, or a timestamp, in microseconds from 1 January 2000. -/
structure TemporalValue (type : TemporalType) where
  value : ℤ
  valid : IsPostgres type value ∨ notFinite type value = true

theorem TemporalValue.ext {type : TemporalType} {v w : TemporalValue type}
    (h : v.value = w.value) : v = w := by
  cases v
  cases w
  cases h
  rfl

/-- A numeric; the digits of a number do not matter here. -/
inductive NumericValue where
  | nan
  | number (digits : String)
  deriving DecidableEq

/-- The base types that the validation tells apart. -/
inductive Leaf where
  | temporal (type : TemporalType)
  | numeric
  | other
  deriving DecidableEq

/-- `IsTemporalType`, and the comparison with `NUMERICOID`. -/
def leafOf : Scalar → Leaf
  | .date => .temporal .date
  | .timestamp => .temporal .timestamp
  | .timestamptz => .temporal .timestamptz
  | .numeric => .numeric
  | _ => .other

/-- The values of a scalar type. -/
def Leaf.Val : Leaf → Type
  | .temporal type => TemporalValue type
  | .numeric => NumericValue
  | .other => String

/-! ## Nested values -/

/-- An array: the length and lower bound of each dimension, and the elements row by row.  The empty
    array has no dimensions. -/
structure PgArray (α : Type) where
  dims : List (ℕ × ℤ)
  elems : List (Option α)
  positive : ∀ d ∈ dims, 0 < d.1

/-- `ARR_NDIM`. -/
def PgArray.ndim {α : Type} (array : PgArray α) : ℕ := array.dims.length

mutual

/-- The values of a type. -/
def PgType.Val : PgType → Type
  | .plain t => NonArrayType.Val t
  | .array element => PgArray (NonArrayType.Val element)

def NonArrayType.Val : NonArrayType → Type
  | .scalar s => (leafOf s).Val
  | .domain base _ => PgType.Val base
  | .composite attrs => Attrs.Val attrs
  -- an array of composite values with the attributes `key` and `val`
  | .map key _ value _ => PgArray (Option (PgType.Val key) × Option (PgType.Val value))

def Attrs.Val : Attrs → Type
  | .nil => Unit
  | .cons _ type _ rest => Option (PgType.Val type) × Attrs.Val rest
  | .dropped _ rest => Option String × Attrs.Val rest

end

end PgLake.Validation
