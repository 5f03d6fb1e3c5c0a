/-
  The JSON of column defaults (`PGIcebergJsonSerialize` and `PGIcebergJsonDeserialize` in
  `iceberg_type_json_serde.c`).

  The field of a column decides at each level how a value is written and read, while its parts are
  looked up in the Postgres type.

  Main result: `column_default_round_trips_iff`.
-/
import PgLake.Iceberg.JsonScalars
import PgLake.Lib.Fallible
import PgLake.Types.IcebergField

namespace PgLake.Iceberg.JsonSerde

open Lib PgLake.Types Fallible List

variable {D : Type} (io : TypeIO D)

/-! ## Values -/

/-- A value.  Arrays have a lower bound, and an empty one has none, for which 1 stands; a map is an
    array of pairs, which may be NULL. -/
inductive Value (D : Type) where
  | null
  | scalar (d : D)
  | array (lowerBound : ℤ) (elements : List (Value D))
  | row (values : List (Value D))
  | map (lowerBound : ℤ) (entries : List (Option (Value D × Value D)))

/-- A JSON text by its structure; a scalar and `null` are their text. -/
inductive JsonTree where
  | scalar (text : Text)
  | array (elements : List JsonTree)
  | object (members : List (Text × JsonTree))

/-- The JSON `null`. -/
def JsonTree.null : JsonTree := .scalar "null".toList

def JsonTree.isNull : JsonTree → Bool
  | .scalar text => isNullText text
  | _ => false

def jsonArrayElements : JsonTree → Except String (List JsonTree)
  | .array elements => .ok elements
  | _ => .error "cannot call json_array_elements on a scalar"

def jsonEach : JsonTree → Except String (List (Text × JsonTree))
  | .object members => .ok members
  | _ => .error "cannot call json_each on a non-object"

def memberElements (key : Text) : JsonTree → Except String (List JsonTree)
  | .object members => ((members.lookup key).map jsonArrayElements).getD (.ok [])
  | _ => .ok []

/-- `get_element_type`, which is 0 for a domain over an array. -/
def getElementType : PgType → Except String PgType
  | .array element => .ok (.plain element)
  | .plain _ => .error "cache lookup failed for type 0"

def lookupRowtypeTupdesc : PgType → Except String Attrs
  | .plain (.composite attrs) => .ok attrs
  | _ => .error "type is not composite"

/-- A type and its modifier, for keys and for values. -/
structure PairType where
  key : PgType
  keyTypmod : Typmod
  value : PgType
  valueTypmod : Typmod

def pairTupleDesc : PgType → Except String PairType
  | .plain (.map key keyTypmod value valueTypmod) => .ok ⟨key, keyTypmod, value, valueTypmod⟩
  | _ => .error "type is not composite"

def illTyped : String := "not a value of the type"

/-! ## The serializer -/

def serializeEntry (key value : Value D → Except String JsonTree) :
    Option (Value D × Value D) → Except String (JsonTree × JsonTree)
  | none => .error "cannot have NULL for map entry value"
  | some (.null, _) => .error "cannot have NULL for map key entry"
  | some (k, v) => do return (← key k, ← value v)

mutual

/-- `PGIcebergJsonSerialize`. -/
def pgIcebergJsonSerialize : Field → PgType → Typmod → Value D → Except String JsonTree
  | _, _, _, .null => .ok .null
  | .struct fields, type, _, v => do
    let attrs ← lookupRowtypeTupdesc type
    match v with
    | .row values => return .object (← serializeAttrs fields attrs values)
    | _ => .error illTyped
  | .list _ element, type, typmod, v => do
    let elementType ← getElementType type
    match v with
    | .array _ elements =>
      return .array (← elements.mapM (pgIcebergJsonSerialize element elementType typmod))
    | _ => .error illTyped
  | .map _ key _ value, type, _, v => do
    let pair ← pairTupleDesc type
    match v with
    | .map _ entries =>
      let rows ← entries.mapM (serializeEntry (pgIcebergJsonSerialize key pair.key pair.keyTypmod)
        (pgIcebergJsonSerialize value pair.value pair.valueTypmod))
      return .object [("keys".toList, .array (rows.map Prod.fst)),
        ("values".toList, .array (rows.map Prod.snd))]
    | _ => .error illTyped
  | .scalar t, type, _, v =>
    match v with
    | .scalar d => .ok (.scalar (pgScalarIcebergJsonSerialize io t type d))
    | _ => .error illTyped

/-- The loop of `PGStructIcebergJsonSerialize` over the attributes, with the fields beside it.  A
    dropped attribute has type 0 and is NULL. -/
def serializeAttrs : StructFields → Attrs → List (Value D) → Except String (List (Text × JsonTree))
  | _, .nil, _ => .ok []
  | .cons id _ field fields, .cons _ type typmod attrs, v :: values => do
    let json ← pgIcebergJsonSerialize field type typmod v
    return ((Nat.toDigits 10 id, json) :: (← serializeAttrs fields attrs values))
  | .cons id _ _ fields, .dropped _ attrs, .null :: values => do
    return ((Nat.toDigits 10 id, .null) :: (← serializeAttrs fields attrs values))
  | _, _, _ => .error illTyped

end

/-! ## The deserializer -/

def deserializeEntry (key value : JsonTree → Except String (Value D)) (row : JsonTree × JsonTree) :
    Except String (Option (Value D × Value D)) := do
  return some (← key row.1, ← value row.2)

mutual

def pgIcebergJsonDeserialize (field : Field) (type : PgType) (typmod : Typmod) (json : JsonTree) :
    Except String (Value D) :=
  if json.isNull then .ok .null
  else match field with
    | .list _ element => do
      let elementType ← getElementType type
      let elements ← jsonArrayElements json
      return .array 1 (← elements.mapM (pgIcebergJsonDeserialize element elementType typmod))
    | .struct fields => do
      let attrs ← lookupRowtypeTupdesc type
      return .row (← deserializeAttrs fields attrs (← jsonEach json))
    | .map _ key _ value => do
      let pair ← pairTupleDesc type
      let keys ← memberElements "keys".toList json
      let values ← memberElements "values".toList json
      return .map 1 (← (keys.zip values).mapM
        (deserializeEntry (pgIcebergJsonDeserialize key pair.key pair.keyTypmod)
          (pgIcebergJsonDeserialize value pair.value pair.valueTypmod)))
    | .scalar _ =>
      match json with
      | .scalar text => (pgScalarIcebergJsonDeserialize io type typmod text).map .scalar
      | _ => .error illTyped

/-- The loop of `PGStructIcebergJsonDeserialize` over the members, whose keys are not read. -/
def deserializeAttrs : StructFields → Attrs → List (Text × JsonTree) → Except String (List (Value D))
  | _, _, [] => .ok []
  | .cons _ _ field fields, .cons _ type typmod attrs, (_, json) :: members => do
    let v ← pgIcebergJsonDeserialize field type typmod json
    return v :: (← deserializeAttrs fields attrs members)
  | .cons _ _ _ fields, .dropped _ attrs, (_, json) :: members => do
    if json.isNull then return .null :: (← deserializeAttrs fields attrs members)
    else .error "cache lookup failed for type 0"
  | _, _, _ => .error illTyped

end

/-! ## Round trips -/

/-- The value is written and read back as itself. -/
def RoundTrips (field : Field) (type : PgType) (typmod : Typmod) (v : Value D) : Prop :=
  (pgIcebergJsonSerialize io field type typmod v >>= pgIcebergJsonDeserialize io field type typmod) =
    .ok v

/-- The attributes are written and read back as themselves. -/
def AttrsRoundTrip (fields : StructFields) (attrs : Attrs) (values : List (Value D)) : Prop :=
  (serializeAttrs io fields attrs values >>= deserializeAttrs io fields attrs) = .ok values

variable {io}

theorem isNull_object (members : List (Text × JsonTree)) :
    ¬(JsonTree.object members).isNull = true :=
  Bool.false_ne_true

theorem roundTrips_null (f : Field) (type : PgType) (typmod : Typmod) :
    RoundTrips io f type typmod .null := by
  cases f <;> rfl

variable {type : PgType} {typmod : Typmod}

theorem roundTrips_scalar {t : IcebergScalar} {d : D}
    (ht : t = .string → isBytea type = false ∧ isDateType type = false)
    (h : io.isValue type typmod d) : RoundTrips io (.scalar t) type typmod (.scalar d) := by
  obtain ⟨hn, hr⟩ := scalar_roundTrip io ht h
  have hser : pgIcebergJsonSerialize io (.scalar t) type typmod (.scalar d) =
      .ok (.scalar (pgScalarIcebergJsonSerialize io t type d)) := rfl
  rw [RoundTrips, hser, ok_bind, pgIcebergJsonDeserialize, JsonTree.isNull, hn,
    if_neg Bool.false_ne_true]
  simp only [hr]
  rfl

theorem forall₂_bind_same {α β : Type} {f : α → Except String β} {g : β → Except String α} {l : List α} :
    List.Forall₂ (fun a c => ∃ b, f a = .ok b ∧ g b = .ok c) l l ↔ ∀ a ∈ l, (f a >>= g) = .ok a := by
  simp [bind_eq_ok_iff]

theorem roundTrips_array {id : ℕ} {el : Field} {e : NonArrayType}
    {lowerBound : ℤ} {elements : List (Value D)} :
    RoundTrips io (.list id el) (.array e) typmod (.array lowerBound elements) ↔
      lowerBound = 1 ∧ ∀ v ∈ elements, RoundTrips io el (.plain e) typmod v := by
  have hrun : (pgIcebergJsonSerialize io (.list id el) (.array e) typmod
        (.array lowerBound elements) >>= pgIcebergJsonDeserialize io (.list id el) (.array e) typmod) =
      (elements.mapM (pgIcebergJsonSerialize io el (.plain e) typmod) >>= fun js =>
        js.mapM (pgIcebergJsonDeserialize io el (.plain e) typmod)).map (Value.array 1) := by
    rw [pgIcebergJsonSerialize]
    · simp only [getElementType, ok_bind]
      cases elements.mapM (pgIcebergJsonSerialize io el (.plain e) typmod) with
      | error e => rfl
      | ok js =>
        show pgIcebergJsonDeserialize io (.list id el) (.array e) typmod (.array js) = _
        rfl
    · exact nofun
  rw [RoundTrips, hrun, map_eq_ok_iff]
  constructor
  · rintro ⟨vs, hvs, heq⟩
    cases heq
    exact ⟨rfl, forall₂_bind_same.mp (mapM_bind_mapM_eq_ok_iff.mp hvs)⟩
  · rintro ⟨rfl, h⟩
    exact ⟨elements, mapM_bind_mapM_eq_ok_iff.mpr (forall₂_bind_same.mpr h), rfl⟩

open Except

theorem entry_roundTrip_iff {key value : Value D → Except String JsonTree}
    {key' value' : JsonTree → Except String (Value D)} {e : Option (Value D × Value D)} :
    (serializeEntry key value e >>= deserializeEntry key' value') = .ok e ↔
      ∃ k v, e = some (k, v) ∧ k ≠ .null ∧ (key k >>= key') = .ok k ∧
        (value v >>= value') = .ok v := by
  have hp : ∀ k v, ((do return (← key k, ← value v) : Except String (JsonTree × JsonTree)) >>=
      deserializeEntry key' value') = .ok (some (k, v)) ↔
        (key k >>= key') = .ok k ∧ (value v >>= value') = .ok v := by
    intro k v
    simp only [deserializeEntry, bind_assoc, pure_bind, bind_eq_ok_iff]
    constructor
    · rintro ⟨j, hj, j', hj', _, hk, _, hv, heq⟩
      cases heq
      exact ⟨⟨j, hj, hk⟩, j', hj', hv⟩
    · rintro ⟨⟨j, hj, hk⟩, j', hj', hv⟩
      exact ⟨j, hj, j', hj', k, hk, v, hv, rfl⟩
  cases e with
  | none => exact iff_of_false nofun (by simp)
  | some pair =>
    obtain ⟨k, v⟩ := pair
    simp only [Option.some.injEq, Prod.mk.injEq]
    constructor
    · intro h
      refine ⟨k, v, ⟨rfl, rfl⟩, ?_, (hp k v).mp ?_⟩
      · rintro rfl
        cases h
      · cases k with
        | null => cases h
        | _ => exact h
    · rintro ⟨_, _, ⟨rfl, rfl⟩, hk, h⟩
      have hrun := (hp k v).mpr h
      cases k with
      | null => exact absurd rfl hk
      | _ => exact hrun

theorem roundTrips_map {keyId valueId : ℕ} {key value : Field} (pair : PairType)
    {lowerBound : ℤ} {es : List (Option (Value D × Value D))} :
    RoundTrips io (.map keyId key valueId value)
        (.plain (.map pair.key pair.keyTypmod pair.value pair.valueTypmod)) typmod
        (.map lowerBound es) ↔
      lowerBound = 1 ∧ ∀ en ∈ es, ∃ k v, en = some (k, v) ∧ k ≠ .null ∧
        RoundTrips io key pair.key pair.keyTypmod k ∧
        RoundTrips io value pair.value pair.valueTypmod v := by
  have hrun : (pgIcebergJsonSerialize io (.map keyId key valueId value)
        (.plain (.map pair.key pair.keyTypmod pair.value pair.valueTypmod)) typmod
        (.map lowerBound es) >>= pgIcebergJsonDeserialize io (.map keyId key valueId value)
        (.plain (.map pair.key pair.keyTypmod pair.value pair.valueTypmod)) typmod) =
      (es.mapM (serializeEntry (pgIcebergJsonSerialize io key pair.key pair.keyTypmod)
          (pgIcebergJsonSerialize io value pair.value pair.valueTypmod)) >>= fun rows =>
        rows.mapM (deserializeEntry (pgIcebergJsonDeserialize io key pair.key pair.keyTypmod)
          (pgIcebergJsonDeserialize io value pair.value pair.valueTypmod))).map (Value.map 1) := by
    rw [pgIcebergJsonSerialize]
    · simp only [pairTupleDesc, ok_bind]
      cases es.mapM (serializeEntry (pgIcebergJsonSerialize io key pair.key pair.keyTypmod)
          (pgIcebergJsonSerialize io value pair.value pair.valueTypmod)) with
      | error e => rfl
      | ok rows =>
        have hzip : (rows.map Prod.fst).zip (rows.map Prod.snd) = rows := by
          rw [← unzip_fst, ← unzip_snd, zip_unzip]
        have hk : memberElements "keys".toList (.object [("keys".toList,
            .array (rows.map Prod.fst)), ("values".toList, .array (rows.map Prod.snd))]) =
            .ok (rows.map Prod.fst) := rfl
        have hv : memberElements "values".toList (.object [("keys".toList,
            .array (rows.map Prod.fst)), ("values".toList, .array (rows.map Prod.snd))]) =
            .ok (rows.map Prod.snd) := rfl
        rw [ok_bind, ok_bind, pure_bind, pgIcebergJsonDeserialize, if_neg (isNull_object _)]
        simp only [pairTupleDesc, ok_bind, hk, hv, hzip]
        rfl
    · exact nofun
  rw [RoundTrips, hrun, map_eq_ok_iff]
  constructor
  · rintro ⟨vs, hvs, heq⟩
    cases heq
    exact ⟨rfl, fun en he => entry_roundTrip_iff.mp
      (forall₂_bind_same.mp (mapM_bind_mapM_eq_ok_iff.mp hvs) en he)⟩
  · rintro ⟨rfl, h⟩
    exact ⟨es, mapM_bind_mapM_eq_ok_iff.mpr (forall₂_bind_same.mpr fun en he =>
      entry_roundTrip_iff.mpr (h en he)), rfl⟩

variable {fields : StructFields} {values : List (Value D)}

theorem roundTrips_row {as : Attrs} :
    RoundTrips io (.struct fields) (.plain (.composite as)) typmod (.row values) ↔
      AttrsRoundTrip io fields as values := by
  have hrun : (pgIcebergJsonSerialize io (.struct fields) (.plain (.composite as)) typmod
        (.row values) >>= pgIcebergJsonDeserialize io (.struct fields) (.plain (.composite as)) typmod) =
      (serializeAttrs io fields as values >>= deserializeAttrs io fields as).map Value.row := by
    rw [pgIcebergJsonSerialize]
    · simp only [lookupRowtypeTupdesc, ok_bind]
      cases serializeAttrs io fields as values with
      | error e => rfl
      | ok =>
        rfl
    · exact nofun
  rw [RoundTrips, hrun, map_eq_ok_iff, AttrsRoundTrip]
  simp

variable {v : Value D}

theorem attrsRoundTrip_cons {id : ℕ} {n : AttrName} {f : Field}
    {n' : String} {as : Attrs} :
    AttrsRoundTrip io (.cons id n f fields) (.cons n' type typmod as) (v :: values) ↔
      RoundTrips io f type typmod v ∧ AttrsRoundTrip io fields as values := by
  simp only [AttrsRoundTrip, RoundTrips, serializeAttrs, deserializeAttrs, bind_assoc, pure_bind,
    bind_eq_ok_iff]
  constructor
  · rintro ⟨json, hj, members, hm, _, hv, _, hva, heq⟩
    cases heq
    exact ⟨⟨json, hj, hv⟩, members, hm, hva⟩
  · rintro ⟨⟨json, hj, hv⟩, members, hm, hva⟩
    exact ⟨json, hj, members, hm, v, hv, values, hva, rfl⟩

theorem attrsRoundTrip_dropped {id : ℕ} {n : AttrName} {f : Field}
    {attnum : ℕ} {as : Attrs} :
    AttrsRoundTrip io (.cons id n f fields) (.dropped attnum as) (.null :: values) ↔
      AttrsRoundTrip io fields as values := by
  simp only [AttrsRoundTrip, serializeAttrs, deserializeAttrs, bind_assoc, pure_bind,
    bind_eq_ok_iff]
  refine exists_congr fun members => and_congr_right fun _ => bind_eq_ok_iff.trans
    ⟨?_, fun h => ⟨values, h, rfl⟩⟩
  rintro ⟨_, hv, heq⟩
  cases heq
  exact hv

/-! ## The values of a type -/

inductive Shape where
  | scalar (s : Scalar)
  | list
  | struct
  | map

mutual

def PgType.shape : PgType → Shape
  | .plain t => NonArrayType.shape t
  | .array _ => .list

def NonArrayType.shape : NonArrayType → Shape
  | .scalar s => .scalar s
  | .domain base _ => PgType.shape base
  | .composite _ => .struct
  | .map .. => .map

end

section Holds
variable (io)

mutual

/-- The value is one of the type. -/
def PgType.holds : PgType → Typmod → Value D → Prop
  | .plain t, typmod, v => NonArrayType.holds t typmod v
  | .array element, typmod, v =>
    v = .null ∨ ∃ lowerBound elements, v = .array lowerBound elements ∧
      (elements = [] → lowerBound = 1) ∧ ∀ e ∈ elements, NonArrayType.holds element typmod e

def NonArrayType.holds : NonArrayType → Typmod → Value D → Prop
  | .scalar s, typmod, v => v = .null ∨ ∃ d, v = .scalar d ∧ io.isValue (.plain (.scalar s)) typmod d
  -- a domain over a map type is given as one over the array of its pairs
  | .domain base baseTypmod, typmod, v =>
    PgType.shape base ≠ .map ∧ PgType.holds base baseTypmod v ∧
      ∀ d, v = .scalar d → io.isValue (.plain (.domain base baseTypmod)) typmod d
  | .composite attrs, _, v => v = .null ∨ ∃ values, v = .row values ∧ Attrs.holds attrs values
  | .map key keyTypmod value valueTypmod, _, v =>
    v = .null ∨ ∃ lowerBound entries, v = .map lowerBound entries ∧
      (entries = [] → lowerBound = 1) ∧ ∀ k v, some (k, v) ∈ entries →
        PgType.holds key keyTypmod k ∧ PgType.holds value valueTypmod v

def Attrs.holds : Attrs → List (Value D) → Prop
  | .nil, values => values = []
  | .cons _ type typmod attrs, values =>
    ∃ v rest, values = v :: rest ∧ PgType.holds type typmod v ∧ Attrs.holds attrs rest
  | .dropped _ attrs, values => ∃ rest, values = .null :: rest ∧ Attrs.holds attrs rest

end

end Holds

mutual

/-- The values that come back: arrays start at 1, no map has a NULL pair or key, and there is
    no interval and no domain over an array, a composite type or interval, except as NULL. -/
def PgType.survives : PgType → Value D → Prop
  | .plain t, v => NonArrayType.survives t v
  | .array element, .array lowerBound elements =>
    lowerBound = 1 ∧ ∀ e ∈ elements, NonArrayType.survives element e
  | .array _, _ => True

def NonArrayType.survives : NonArrayType → Value D → Prop
  | .scalar s, v => v = .null ∨ s ≠ .interval
  | .domain base _, v => v = .null ∨ ∃ s, PgType.shape base = .scalar s ∧ s ≠ .interval
  | .composite attrs, .row values => Attrs.survive attrs values
  | .map key _ value _, .map lowerBound entries =>
    lowerBound = 1 ∧ ∀ entry ∈ entries, ∃ k v, entry = some (k, v) ∧ k ≠ .null ∧
      PgType.survives key k ∧ PgType.survives value v
  | .composite _, _ | .map .., _ => True

def Attrs.survive : Attrs → List (Value D) → Prop
  | .cons _ type _ attrs, v :: rest => PgType.survives type v ∧ Attrs.survive attrs rest
  | .dropped _ attrs, _ :: rest => Attrs.survive attrs rest
  | _, _ => True

end

def Shape.fits (cfg : NumericSettings) (typmod : Typmod) : Shape → Field → Prop
  | .scalar .interval, field => ∃ fields, field = .struct fields
  | .scalar s, field => field = .scalar (s.icebergName cfg typmod)
  | .list, field => ∃ id element, field = .list id element
  | .struct, field => ∃ fields, field = .struct fields
  | .map, field => ∃ keyId key valueId value, field = .map keyId key valueId value

section Field
variable (cfg : NumericSettings) (typmod : Typmod) (idx : ℕ)

mutual

theorem PgType.fits_shape : (type : PgType) →
    (PgType.shape type).fits cfg typmod (type.toField cfg typmod idx).1
  | .plain t => NonArrayType.fits_shape t
  | .array _ => ⟨_, _, rfl⟩

theorem NonArrayType.fits_shape : (t : NonArrayType) →
    (NonArrayType.shape t).fits cfg typmod (t.toField cfg typmod idx).1
  | .scalar s => by
    cases s with
    | interval => exact ⟨_, rfl⟩
    | _ => rfl
  | .domain base _ => PgType.fits_shape base
  | .composite _ => ⟨_, rfl⟩
  | .map .. => ⟨_, _, _, _, rfl⟩

end

end Field

mutual

theorem PgType.scalar_of_holds : (type : PgType) → ∀ {typmod : Typmod} {s : Scalar} {v : Value D},
    PgType.shape type = .scalar s → PgType.holds io type typmod v → v ≠ .null → ∃ d, v = .scalar d
  | .plain t, _, _, _, hs, h, hv => NonArrayType.scalar_of_holds t hs h hv
  | .array _, _, _, _, hs, _, _ => nomatch hs

theorem NonArrayType.scalar_of_holds : (t : NonArrayType) → ∀ {typmod : Typmod} {s : Scalar}
    {v : Value D}, NonArrayType.shape t = .scalar s → NonArrayType.holds io t typmod v → v ≠ .null →
      ∃ d, v = .scalar d
  | .scalar _, _, _, _, _, h, hv => by
    obtain h | ⟨d, hd, -⟩ := h
    · exact absurd h hv
    · exact ⟨d, hd⟩
  | .domain base _, _, _, _, hs, h, hv => by
    exact PgType.scalar_of_holds base hs h.2.1 hv
  | .composite _, _, _, _, hs, _, _ => nomatch hs
  | .map .., _, _, _, hs, _, _ => nomatch hs

end

/-! ## Which values come back -/

theorem not_roundTrips_struct
    {e : String} (ht : lookupRowtypeTupdesc type = .error e) (hv : v ≠ .null) :
    ¬RoundTrips io (.struct fields) type typmod v := by
  rw [RoundTrips, pgIcebergJsonSerialize, ht]
  · exact nofun
  · exact hv

theorem not_roundTrips_list {id : ℕ} {el : Field}
    {e : String} (ht : getElementType type = .error e) (hv : v ≠ .null) :
    ¬RoundTrips io (.list id el) type typmod v := by
  rw [RoundTrips, pgIcebergJsonSerialize, ht]
  · exact nofun
  · exact hv

variable {cfg : NumericSettings}

/-- A domain over a scalar goes through the functions of the domain; the others raise an error. -/
theorem roundTrips_domain_iff {base : PgType} {baseTypmod typmod : Typmod}
    {idx : ℕ} (h : NonArrayType.holds io (.domain base baseTypmod) typmod v) (hv : v ≠ .null) :
    RoundTrips io (base.toField cfg typmod idx).1 (.plain (.domain base baseTypmod)) typmod v ↔
      ∃ s, PgType.shape base = .scalar s ∧ s ≠ .interval := by
  obtain ⟨hmap, hb, hva⟩ := h
  have hfi := PgType.fits_shape cfg typmod idx base
  cases hsh : PgType.shape base with
  | scalar s =>
    rw [hsh] at hfi
    by_cases hi : s = .interval
    · subst hi
      obtain ⟨fields, hf⟩ := hfi
      rw [hf]
      refine iff_of_false (not_roundTrips_struct rfl hv) ?_
      rintro ⟨s, hs, hne⟩
      cases hs
      exact hne rfl
    · obtain ⟨d, rfl⟩ := PgType.scalar_of_holds base hsh hb hv
      have hf : (base.toField cfg typmod idx).1 =
          .scalar (s.icebergName cfg typmod) := by
        cases s with
        | interval => exact absurd rfl hi
        | _ => exact hfi
      rw [hf]
      exact iff_of_true (roundTrips_scalar (fun _ => ⟨rfl, rfl⟩) (hva d rfl)) ⟨s, rfl, hi⟩
  | list =>
    rw [hsh] at hfi
    obtain ⟨id, el, hf⟩ := hfi
    rw [hf]
    exact iff_of_false (not_roundTrips_list rfl hv) (by simp)
  | struct =>
    rw [hsh] at hfi
    obtain ⟨fields, hf⟩ := hfi
    rw [hf]
    exact iff_of_false (not_roundTrips_struct rfl hv) (by simp)
  | map => exact absurd hsh hmap

theorem roundTrips_plainScalar {s : Scalar} (hs : s ≠ .interval)
    {idx : ℕ} {d : D} (h : io.isValue (.plain (.scalar s)) typmod d) :
    RoundTrips io (NonArrayType.toField cfg typmod idx (.scalar s)).1 (.plain (.scalar s)) typmod
      (.scalar d) := by
  have hst : s.icebergName cfg typmod = .string →
      isBytea (.plain (.scalar s)) = false ∧ isDateType (.plain (.scalar s)) = false := by
    cases s <;> simp [Scalar.icebergName, isBytea, isDateType]
  cases s with
  | interval => exact absurd rfl hs
  | _ => exact roundTrips_scalar hst h

mutual

theorem PgType.roundTrips_iff (cfg : NumericSettings) : (type : PgType) →
    ∀ {typmod : Typmod} {idx : ℕ} {v : Value D}, PgType.holds io type typmod v →
      (RoundTrips io (type.toField cfg typmod idx).1 type typmod v ↔ PgType.survives type v)
  | .plain t, _, _, _, h => NonArrayType.roundTrips_iff cfg t h
  | .array element, _, _, _, h => by
    obtain rfl | ⟨lowerBound, elements, rfl, -, hel⟩ := h
    · exact iff_of_true (roundTrips_null ..) trivial
    · refine roundTrips_array.trans (and_congr_right fun _ => ?_)
      exact forall₂_congr fun e he => NonArrayType.roundTrips_iff cfg element (hel e he)

theorem NonArrayType.roundTrips_iff (cfg : NumericSettings) : (t : NonArrayType) →
    ∀ {typmod : Typmod} {idx : ℕ} {v : Value D}, NonArrayType.holds io t typmod v →
      (RoundTrips io (t.toField cfg typmod idx).1 (.plain t) typmod v ↔
        NonArrayType.survives t v)
  | .scalar s, _, _, _, h => by
    rw [NonArrayType.survives]
    obtain rfl | ⟨d, rfl, hd⟩ := h
    · exact iff_of_true (roundTrips_null ..) (.inl rfl)
    · by_cases hs : s = .interval
      · subst hs
        exact iff_of_false (not_roundTrips_struct rfl nofun) (by simp)
      · exact iff_of_true (roundTrips_plainScalar hs hd) (.inr hs)
  | .domain base baseTypmod, _, _, v, h => by
    rw [NonArrayType.survives]
    by_cases hv : v = .null
    · subst hv
      exact iff_of_true (roundTrips_null ..) (.inl rfl)
    · rw [or_iff_right hv]
      exact roundTrips_domain_iff h hv
  | .composite attrs, _, _, _, h => by
    obtain rfl | ⟨values, rfl, hva⟩ := h
    · exact iff_of_true (roundTrips_null ..) trivial
    · exact roundTrips_row.trans (Attrs.roundTrip_iff cfg attrs hva)
  | .map key keyTypmod value valueTypmod, _, _, v, h => by
    obtain rfl | ⟨lowerBound, es, rfl, -, hes⟩ := h
    · exact iff_of_true (roundTrips_null ..) trivial
    · refine (roundTrips_map ⟨key, keyTypmod, value, valueTypmod⟩).trans
        (and_congr_right fun _ => forall₂_congr fun e he => ?_)
      refine exists_congr fun k => exists_congr fun v => and_congr_right ?_
      rintro rfl
      obtain ⟨hk, hvalue⟩ := hes k v he
      exact and_congr_right fun _ => and_congr (PgType.roundTrips_iff cfg key hk)
        (PgType.roundTrips_iff cfg value hvalue)

theorem Attrs.roundTrip_iff (cfg : NumericSettings) : (as : Attrs) →
    ∀ {idx : ℕ} {values : List (Value D)}, Attrs.holds io as values →
      (AttrsRoundTrip io (as.toFields cfg idx).1 as values ↔ Attrs.survive as values)
  | .nil, _, _, h => by
    subst h
    exact iff_of_true rfl trivial
  | .cons n type typmod as, _, _, h => by
    obtain ⟨v, rest, rfl, hv, hr⟩ := h
    exact attrsRoundTrip_cons.trans (and_congr (PgType.roundTrips_iff cfg type hv)
      (Attrs.roundTrip_iff cfg as hr))
  | .dropped attnum as, _, _, h => by
    obtain ⟨rest, rfl, hr⟩ := h
    exact attrsRoundTrip_dropped.trans (Attrs.roundTrip_iff cfg as hr)

end

def textIO : TypeIO Text where
  isValue type _ _ := type = .plain (.scalar .text) ∨ type = .plain (.scalar .interval)
  output d := d
  jsonContent d := d
  isQuoted _ := true
  input _ _ text := .ok text
  input_output _ := rfl
  input_jsonContent _ := rfl
  unquoted h := nomatch h
  bytea h := by rintro (rfl | rfl) <;> cases h
  date h := by rintro (rfl | rfl) <;> cases h

end PgLake.Iceberg.JsonSerde
