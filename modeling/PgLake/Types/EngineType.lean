/-
  The DuckDB types with which a written column is parsed (`pgduck/write_data.c`, `type.c`,
  `parse_struct.c`, `map.c`).
-/
import PgLake.Types.PgType

namespace PgLake.Types

/-! ## DuckDB types -/

inductive DuckDBType where
  | invalid
  | boolean
  | smallint
  | integer
  | bigint
  | uinteger
  | float
  | double
  | decimal
  | varchar
  | blob
  | date
  | time
  | timeTz
  | timestamp
  | timestampTz
  | interval
  | uuid
  | json
  | geometry
  | list
  | struct
  | map
  deriving DecidableEq

inductive CopyDataFormat where
  | invalid
  | csv
  | json
  | parquet
  | iceberg
  | delta
  | gdal
  | log
  deriving DecidableEq

mutual

/-- The text of a type; `named .list` is the bare word LIST. -/
inductive TypeText where
  | named (type : DuckDBType)
  | decimal (modifier : Option NumericTypmod)
  | array (element : TypeText)
  | struct (fields : TextFields)
  | map (key value : TypeText)

inductive TextFields where
  | nil
  | cons (name : String) (type : TypeText) (rest : TextFields)

end

/-- `GetDuckDBTypeForPGType` of a base type. -/
def Scalar.duckDBType : Scalar → DuckDBType
  | .unknown | .bit | .char | .bpchar | .varchar | .text | .name => .varchar
  | .bool => .boolean
  | .bytea => .blob
  | .date => .date
  | .float4 => .float
  | .float8 => .double
  | .int2 => .smallint
  | .int4 => .integer
  | .int8 => .bigint
  | .interval => .interval
  | .numeric => .decimal
  | .oid => .uinteger
  | .timestamp => .timestamp
  | .timestamptz => .timestampTz
  | .timetz => .timeTz
  | .time => .time
  | .uuid => .uuid
  | .json | .jsonb => .json
  | .geometry => .geometry
  | .other => .invalid

def NonArrayType.duckDBType : NonArrayType → DuckDBType
  | .scalar s => s.duckDBType
  | .domain .. => .invalid
  | .composite _ => .struct
  | .map .. => .map

/-- `GetDuckDBTypeForPGType`. -/
def PgType.duckDBType : PgType → DuckDBType
  | .plain t => t.duckDBType
  | .array (.scalar .jsonb) => .invalid
  | .array _ => .list

mutual

/-- `ResolveDomainBaseType`. -/
def PgType.base : PgType → PgType
  | .plain t => t.base
  | .array element => .array element

def NonArrayType.base : NonArrayType → PgType
  | .domain base _ => base.base
  | .scalar s => .plain (.scalar s)
  | .composite attrs => .plain (.composite attrs)
  | .map key keyTypmod value valueTypmod => .plain (.map key keyTypmod value valueTypmod)

end

/-! ## The text of a type -/

/-- Where a type text is asked for: by `GetFullDuckDBTypeNameForPGType` with a modifier, or for
    a column of a composite type, whose modifier is not passed on. -/
inductive Rendering where
  | full (typmod : Typmod)
  | column
  | columnElement
  deriving DecidableEq

def intervalText : TypeText :=
  .struct (.cons "months" (.named .bigint) (.cons "days" (.named .bigint)
    (.cons "microseconds" (.named .bigint) .nil)))

def Scalar.typeText (format : CopyDataFormat) (typmod : Typmod) (s : Scalar) : TypeText :=
  if s = .interval ∧ format = .iceberg then intervalText
  else
    match s.duckDBType with
    | .invalid => .named .varchar
    | .decimal => .decimal typmod
    | type => .named type

/-- `composite types with a "%s" field cannot be exported to data lake`. -/
inductive ExportError where
  | compositeField (type : NonArrayType)

mutual

def PgType.typeText (format : CopyDataFormat) (rendering : Rendering) :
    PgType → Except ExportError TypeText
  | .plain t => t.typeText format rendering
  | .array element =>
    match rendering with
    | .full _ =>
      if (PgType.array element).duckDBType = .invalid then .ok (.named .varchar)
      else (element.typeText format (.full none)).map .array
    | .column | .columnElement => (element.typeText format .columnElement).map .array

def NonArrayType.typeText (format : CopyDataFormat) (rendering : Rendering) :
    NonArrayType → Except ExportError TypeText
  | .scalar s =>
    match rendering with
    | .full typmod => .ok (s.typeText format typmod)
    | .column | .columnElement =>
      if s.duckDBType = .invalid then .error (.compositeField (.scalar s))
      else .ok (s.typeText format none)
  | .domain base typmod =>
    match rendering with
    | .full _ => .ok (.named .varchar)
    | .column => base.typeText format .column
    | .columnElement => .error (.compositeField (.domain base typmod))
  | .composite attrs => (attrs.typeText format).map .struct
  | .map key keyTypmod value valueTypmod => do
    let keyText ← key.typeText format (.full keyTypmod)
    let valueText ← value.typeText format (.full valueTypmod)
    return .map keyText valueText

/-- `GetDuckDBStructDefinitionForCompositeType`. -/
def Attrs.typeText (format : CopyDataFormat) : Attrs → Except ExportError TextFields
  | .nil => .ok .nil
  | .cons name type _ rest => do
    let text ← type.typeText format .column
    let fields ← rest.typeText format
    return .cons name text fields
  | .dropped _ rest => rest.typeText format

end

def getFullDuckDBTypeNameForPGType (type : PgType) (typmod : Typmod) (format : CopyDataFormat) :
    Except ExportError TypeText :=
  type.typeText format (.full typmod)

/-! ## The type of a written column -/

/-- Append `[]`. -/
def TypeText.withArray (isArrayType : Bool) (text : TypeText) : TypeText :=
  if isArrayType then .array text else text

/-- The part of `ChooseDuckDBEngineTypeForWrite` after arrays are unwrapped. -/
def chooseElementType (cfg : NumericSettings) (element : NonArrayType) (typmod : Typmod)
    (isArrayType : Bool) (destinationFormat : CopyDataFormat) : Except ExportError TypeText :=
  let base := element.base
  match base.duckDBType with
  | .invalid => .ok ((TypeText.named .varchar).withArray isArrayType)
  | .decimal =>
    match decimalOf cfg typmod with
    | some modifier => .ok ((TypeText.decimal (some modifier)).withArray isArrayType)
    -- explicit precision which is too big
    | none => .ok ((TypeText.named .varchar).withArray isArrayType)
  | .timeTz =>
    if destinationFormat = .iceberg then .ok ((TypeText.named .time).withArray isArrayType)
    else .ok ((TypeText.named .timeTz).withArray isArrayType)
  | .blob =>
    if destinationFormat = .json then .ok (.named .varchar)
    else .ok ((TypeText.named .blob).withArray isArrayType)
  | .interval =>
    if destinationFormat = .iceberg then .ok (intervalText.withArray isArrayType)
    else .ok ((TypeText.named .interval).withArray isArrayType)
  | .struct | .map =>
    (getFullDuckDBTypeNameForPGType base typmod destinationFormat).map (·.withArray isArrayType)
  | type => .ok ((TypeText.named type).withArray isArrayType)

def chooseDuckDBEngineTypeForWrite (cfg : NumericSettings) (type : PgType) (typmod : Typmod)
    (destinationFormat : CopyDataFormat) : Except ExportError TypeText :=
  if destinationFormat = .csv then .ok (.named .varchar)
  else
    match type with
    | .array element => chooseElementType cfg element typmod true destinationFormat
    | .plain t => chooseElementType cfg t typmod false destinationFormat

end PgLake.Types
