/-
  The precision of numerics on the write path.

  A numeric leaf of a column is declared to Iceberg with the modifier that reaches it in
  `postgresTypeToIcebergField` and parsed by DuckDB with the modifier that reaches it in
  `chooseDuckDBEngineTypeForWrite`.

  Main results: `precisionKept_iff`, `stores_adjusted`.
-/
import Mathlib.Algebra.Order.Field.Rat
import Mathlib.Algebra.Order.Ring.Abs
import PgLake.Lib.Fallible
import PgLake.Types.EngineType
import PgLake.Types.IcebergField

namespace PgLake.Types

open Fallible

/-! ## Numeric leaves -/

inductive LeafPosition where
  | column
  /-- the element of an array column, or below a domain that is the column or that element -/
  | columnBase
  /-- an attribute of a composite type, seen through domains -/
  | attr
  | attrElement
  | entry
  /-- the element of an array that is the key or the value of a map -/
  | entryElement
  /-- below a domain in a map or in an array, or in an array below a domain column -/
  | hidden
  deriving DecidableEq

namespace LeafPosition

def intoArray : LeafPosition → LeafPosition
  | .column => .columnBase
  | .columnBase => .hidden
  | .attr => .attrElement
  | .entry => .entryElement
  | p => p

def intoDomain : LeafPosition → LeafPosition
  | .column | .columnBase => .columnBase
  | .attr => .attr
  | .attrElement | .entry | .entryElement | .hidden => .hidden

def intoAttr : LeafPosition → LeafPosition
  | .hidden => .hidden
  | _ => .attr

def intoEntry : LeafPosition → LeafPosition
  | .hidden => .hidden
  | _ => .entry

end LeafPosition

/-- A numeric leaf, with the modifier Iceberg's declaration of it uses. -/
structure NumericLeaf where
  position : LeafPosition
  typmod : Typmod

mutual

def PgType.numericLeaf? (position : LeafPosition) (typmod : Typmod) (path : Path) :
    PgType → Option NumericLeaf
  | .plain t => t.numericLeaf? position typmod path
  | .array element =>
    match path with
    | .element :: path => element.numericLeaf? position.intoArray typmod path
    | _ => none

def NonArrayType.numericLeaf? (position : LeafPosition) (typmod : Typmod) (path : Path) :
    NonArrayType → Option NumericLeaf
  | .scalar s => if s = .numeric ∧ path = [] then some ⟨position, typmod⟩ else none
  | .domain base _ => base.numericLeaf? position.intoDomain typmod path
  | .composite attrs =>
    match path with
    | .attr name :: path => attrs.numericLeaf? position.intoAttr name path
    | _ => none
  | .map key keyTypmod value valueTypmod =>
    match path with
    | .key :: path => key.numericLeaf? position.intoEntry keyTypmod path
    | .value :: path => value.numericLeaf? position.intoEntry valueTypmod path
    | _ => none

def Attrs.numericLeaf? (position : LeafPosition) (name : String) (path : Path) :
    Attrs → Option NumericLeaf
  | .nil => none
  | .cons name' type typmod rest =>
    if name' = name then type.numericLeaf? position typmod path
    else rest.numericLeaf? position name path
  | .dropped _ rest => rest.numericLeaf? position name path

end

/-! ## Precision and scale of a leaf -/

/-- `DECIMAL` without modifier. -/
def duckdbDefaultDecimal : NumericTypmod := ⟨18, 3⟩

def TextFields.find? (name : String) : TextFields → Option TypeText
  | .nil => none
  | .cons name' type rest => if name' = name then some type else rest.find? name

def TypeText.at? : TypeText → Path → Option TypeText
  | text, [] => some text
  | .array element, .element :: path => element.at? path
  | .struct fields, .attr name :: path => (fields.find? name).bind fun text => text.at? path
  | .map key _, .key :: path => key.at? path
  | .map _ value, .value :: path => value.at? path
  | _, _ :: _ => none

def TypeText.decimalAt (text : TypeText) (path : Path) : Option NumericTypmod :=
  match text.at? path with
  | some (.decimal modifier) => some (modifier.getD duckdbDefaultDecimal)
  | _ => none

def Field.decimalAt (field : Field) (path : Path) : Option NumericTypmod :=
  match field.at? path with
  | some (.scalar (.decimal n)) => some n
  | _ => none

section

variable (settings : NumericSettings)

/-- The leaf is parsed with the precision and scale it is declared with. -/
def PrecisionKept (type : PgType) (typmod : Typmod) (fieldId : ℕ) (path : Path) : Prop :=
  ∃ text, chooseDuckDBEngineTypeForWrite settings type typmod .iceberg = .ok text ∧
    text.decimalAt path = (type.toField settings typmod fieldId).1.decimalAt path

def NumericLeaf.engineDecimal (leaf : NumericLeaf) : Option NumericTypmod :=
  match leaf.position with
  | .column | .columnBase => decimalOf settings leaf.typmod
  | .attr | .attrElement | .entryElement => some duckdbDefaultDecimal
  | .entry => some (leaf.typmod.getD duckdbDefaultDecimal)
  | .hidden => none

/-- The modifier of a leaf suits its position: inside a composite type and in an array inside a
    map it must stand for DECIMAL(18,3), as the key or the value of a map it must need no
    adjustment, and below a domain there the numeric must be stored as text. -/
def NumericLeaf.Suits (leaf : NumericLeaf) : Prop :=
  match leaf.position with
  | .column | .columnBase => True
  | .attr | .attrElement | .entryElement =>
    decimalOf settings leaf.typmod = some duckdbDefaultDecimal
  | .entry => decimalOf settings leaf.typmod = some (leaf.typmod.getD duckdbDefaultDecimal)
  | .hidden => decimalOf settings leaf.typmod = none

end

mutual

def PgType.exports (rendering : Rendering) : PgType → Bool
  | .plain t => t.exports rendering
  | .array element =>
    match rendering with
    | .full _ => element.exports (.full none)
    | .column | .columnElement => element.exports .columnElement

def NonArrayType.exports (rendering : Rendering) : NonArrayType → Bool
  | .scalar s =>
    match rendering with
    | .full _ => true
    | .column | .columnElement => s ≠ .other
  | .domain base _ =>
    match rendering with
    | .full _ => true
    | .column => base.exports .column
    | .columnElement => false
  | .composite attrs => attrs.exports
  | .map key _ value _ => key.exports (.full none) && value.exports (.full none)

def Attrs.exports : Attrs → Bool
  | .nil => true
  | .cons _ type _ rest => type.exports .column && rest.exports
  | .dropped _ rest => rest.exports

end

/-- The engine has a type for a column, once its array and its domains are resolved. -/
def PgType.writable : PgType → Bool
  | .plain t => t.exports (.full none)
  | .array _ => true

def PgType.exportable : PgType → Bool
  | .plain t => t.base.writable
  | .array element => element.base.writable

/-! ## The declaration -/

variable {leaf : NumericLeaf}

section Declaration

variable {settings : NumericSettings}

theorem NumericLeaf.declared_cases (typmod : Typmod) :
    (Field.scalar (Scalar.numeric.icebergName settings typmod)).decimalAt [] =
      decimalOf settings typmod := by
  unfold Field.decimalAt Scalar.icebergName
  cases decimalOf settings typmod <;> rfl

mutual

/-- **A numeric leaf is declared with the modifier that reaches it.** -/
theorem PgType.toField_at? : ∀ (t : PgType) {pos : LeafPosition} {tm : Typmod}
    {p : Path} {leaf : NumericLeaf} (id : ℕ),
    t.numericLeaf? pos tm p = some leaf →
      (t.toField settings tm id).1.at? p =
        some (.scalar (Scalar.numeric.icebergName settings leaf.typmod))
  | .plain t, _, _, _, _, id, h => by
    exact t.toField_at? id h
  | .array element, _, _, _, _, _, h => by
    simp only [PgType.numericLeaf?] at h
    split at h
    · exact element.toField_at? _ h
    · cases h

theorem NonArrayType.toField_at? : ∀ (t : NonArrayType) {pos : LeafPosition}
    {tm : Typmod} {p : Path} {leaf : NumericLeaf} (id : ℕ),
    t.numericLeaf? pos tm p = some leaf →
      (t.toField settings tm id).1.at? p =
        some (.scalar (Scalar.numeric.icebergName settings leaf.typmod))
  | .scalar s, _, _, _, _, _, h => by
    simp only [NonArrayType.numericLeaf?] at h
    split_ifs at h with hs
    obtain ⟨rfl, rfl⟩ := hs
    cases h
    rfl
  | .domain base _, _, _, _, _, id, h => by
    exact base.toField_at? id h
  | .composite attrs, _, _, _, _, id, h => by
    simp only [NonArrayType.numericLeaf?] at h
    split at h
    · exact attrs.toFields_find? id h
    · cases h
  | .map key _ value _, _, _, _, _, _, h => by
    simp only [NonArrayType.numericLeaf?] at h
    split at h
    · exact key.toField_at? _ h
    · exact value.toField_at? _ h
    · cases h

theorem Attrs.toFields_find? : ∀ (as : Attrs) {pos : LeafPosition} {n : String}
    {p : Path} {leaf : NumericLeaf} (id : ℕ),
    as.numericLeaf? pos n p = some leaf →
      (((as.toFields settings id).1.find? (.user n)).bind fun f => f.at? p) =
        some (.scalar (Scalar.numeric.icebergName settings leaf.typmod))
  | .nil, _, _, _, _, _, h => by simp [Attrs.numericLeaf?] at h
  | .cons n' type tm rest, _, _, _, _, _, h => by
    simp only [Attrs.numericLeaf?] at h
    simp only [Attrs.toFields, StructFields.find?, AttrName.user.injEq]
    split_ifs at h ⊢
    · exact type.toField_at? _ h
    · exact rest.toFields_find? _ h
  | .dropped _ rest, _, _, _, _, _, h => by
    exact rest.toFields_find? _ h

end

theorem PgType.decimalAt_toField {t : PgType} {pos : LeafPosition} {typmod : Typmod}
    {p : Path} (id : ℕ) (h : t.numericLeaf? pos typmod p = some leaf) :
    (t.toField settings typmod id).1.decimalAt p = decimalOf settings leaf.typmod := by
  rw [← NumericLeaf.declared_cases]
  simp [Field.decimalAt, t.toField_at? id h]

end Declaration

/-! ## The engine -/

section Engine

variable {settings : NumericSettings}

mutual

theorem PgType.position_hidden : ∀ (t : PgType) {tm : Typmod} {p : Path}
    {leaf : NumericLeaf}, t.numericLeaf? .hidden tm p = some leaf → leaf.position = .hidden
  | .plain t, _, _, _, h => by
    exact t.position_hidden h
  | .array element, _, _, _, h => by
    simp only [PgType.numericLeaf?, LeafPosition.intoArray] at h
    split at h
    · exact element.position_hidden h
    · cases h

theorem NonArrayType.position_hidden : ∀ (t : NonArrayType) {tm : Typmod} {p : Path}
    {leaf : NumericLeaf}, t.numericLeaf? .hidden tm p = some leaf → leaf.position = .hidden
  | .scalar s, _, _, _, h => by
    simp only [NonArrayType.numericLeaf?] at h
    split_ifs at h
    cases h
    rfl
  | .domain base _, _, _, _, h => by
    exact base.position_hidden h
  | .composite attrs, _, _, _, h => by
    simp only [NonArrayType.numericLeaf?, LeafPosition.intoAttr] at h
    split at h
    · exact attrs.position_hidden h
    · cases h
  | .map key _ value _, _, _, _, h => by
    simp only [NonArrayType.numericLeaf?, LeafPosition.intoEntry] at h
    split at h
    · exact key.position_hidden h
    · exact value.position_hidden h
    · cases h

theorem Attrs.position_hidden : ∀ (as : Attrs) {n : String} {p : Path}
    {leaf : NumericLeaf}, as.numericLeaf? .hidden n p = some leaf → leaf.position = .hidden
  | .nil, _, _, _, h => by simp [Attrs.numericLeaf?] at h
  | .cons _ type _ rest, _, _, _, h => by
    simp only [Attrs.numericLeaf?] at h
    split_ifs at h
    · exact type.position_hidden h
    · exact rest.position_hidden h
  | .dropped _ rest, _, _, _, h => by
    exact rest.position_hidden h

end

theorem engineDecimal_hidden (h : leaf.position = .hidden) :
    leaf.engineDecimal settings = none := by
  simp [NumericLeaf.engineDecimal, h]

def LeafPosition.rendering (typmod : Typmod) : LeafPosition → Option Rendering
  | .entry => some (.full typmod)
  | .entryElement => some (.full none)
  | .attr => some .column
  | .attrElement => some .columnElement
  | _ => none

theorem decimalAt_named (type : DuckDBType) (p : Path) :
    (TypeText.named type).decimalAt p = none := by
  cases p with
  | nil => rfl
  | cons => simp [TypeText.decimalAt, TypeText.at?]

theorem decimalAt_array (el : TypeText) (path : Path) :
    (TypeText.array el).decimalAt (.element :: path) = el.decimalAt path := by
  simp [TypeText.decimalAt, TypeText.at?]

theorem decimalAt_mapKey (k v : TypeText) (path : Path) :
    (TypeText.map k v).decimalAt (.key :: path) = k.decimalAt path := by
  simp [TypeText.decimalAt, TypeText.at?]

theorem decimalAt_mapValue (k v : TypeText) (path : Path) :
    (TypeText.map k v).decimalAt (.value :: path) = v.decimalAt path := by
  simp [TypeText.decimalAt, TypeText.at?]

theorem decimalAt_struct {fs : TextFields} {n : String} {text : TypeText}
    (h : fs.find? n = some text) (path : Path) :
    (TypeText.struct fs).decimalAt (.attr n :: path) = text.decimalAt path := by
  simp [TypeText.decimalAt, TypeText.at?, h]

theorem eq_jsonb_of_invalid {el : NonArrayType}
    (h : (PgType.array el).duckDBType = .invalid) : el = .scalar .jsonb := by
  unfold PgType.duckDBType at h
  split at h
  · cases ‹_ = PgType.plain _›
  · exact PgType.array.inj ‹_›
  · cases h

theorem duckDBType_array {el : NonArrayType}
    (h : (PgType.array el).duckDBType ≠ .invalid) :
    (PgType.array el).duckDBType = .list := by
  unfold PgType.duckDBType at h ⊢
  split at h <;> simp_all

mutual

/-- **The DECIMAL of a leaf is decided by its position.** -/
theorem PgType.typeText_decimalAt : ∀ (t : PgType) {pos : LeafPosition} {tm : Typmod}
    {rendering : Rendering} {p : Path} {leaf : NumericLeaf} {text : TypeText},
    pos.rendering tm = some rendering →
    t.numericLeaf? pos tm p = some leaf →
    t.typeText .iceberg rendering = .ok text → text.decimalAt p = leaf.engineDecimal settings
  | .plain t, _, _, _, _, _, _, hr, hl, ht => by
    exact t.typeText_decimalAt hr hl ht
  | .array el, pos, tm, _, p, leaf, text, hr, hl, ht => by
    simp only [PgType.numericLeaf?] at hl
    split at hl
    · next p =>
      have hel : ∀ {r}, pos.intoArray.rendering tm = some r →
          (el.typeText .iceberg r).map .array = .ok text →
          text.decimalAt (.element :: p) = leaf.engineDecimal settings := by
        intro r hr' h
        obtain ⟨inner, hin, rfl⟩ := map_eq_ok_iff.mp h
        rw [decimalAt_array]
        exact el.typeText_decimalAt hr' hl hin
      simp only [PgType.typeText] at ht
      cases pos <;> simp only [LeafPosition.rendering, reduceCtorEq, Option.some.injEq] at hr
        <;> subst hr <;> simp only at ht
      iterate 2 exact hel rfl ht
      all_goals
        split_ifs at ht with hi
        · obtain rfl := eq_jsonb_of_invalid hi
          cases hl
        · exact hel rfl ht
    · cases hl

theorem NonArrayType.typeText_decimalAt : ∀ (t : NonArrayType) {pos : LeafPosition}
    {tm : Typmod} {rendering : Rendering} {p : Path} {leaf : NumericLeaf} {text : TypeText},
    pos.rendering tm = some rendering →
    t.numericLeaf? pos tm p = some leaf →
    t.typeText .iceberg rendering = .ok text → text.decimalAt p = leaf.engineDecimal settings
  | .scalar s, pos, _, _, _, _, _, hr, hl, ht => by
    simp only [NonArrayType.numericLeaf?] at hl
    split_ifs at hl with hs
    obtain ⟨rfl, rfl⟩ := hs
    cases hl
    cases pos <;> simp only [LeafPosition.rendering, reduceCtorEq, Option.some.injEq] at hr
      <;> subst hr <;> obtain rfl := Except.ok.inj ht <;> rfl
  | .domain base _, pos, _, _, _, _, _, hr, hl, ht => by
    cases pos <;> simp only [LeafPosition.rendering, reduceCtorEq, Option.some.injEq] at hr
      <;> subst hr <;> simp only [NonArrayType.typeText] at ht
    case attr => exact base.typeText_decimalAt rfl hl ht
    case attrElement => cases ht
    case entry | entryElement =>
      cases ht
      rw [decimalAt_named, engineDecimal_hidden (base.position_hidden hl)]
  | .composite attrs, pos, _, _, _, _, _, hr, hl, ht => by
    simp only [NonArrayType.numericLeaf?] at hl
    split at hl
    · obtain ⟨fs, hfs, rfl⟩ := map_eq_ok_iff.mp ht
      have hattr : pos.intoAttr = .attr := by
        cases pos <;> first | rfl | cases hr
      rw [hattr] at hl
      obtain ⟨text, hf, hdec⟩ := attrs.typeText_decimalAt hl hfs
      rw [decimalAt_struct hf, hdec]
    · cases hl
  | .map key _ value _, pos, _, _, _, _, _, hr, hl, ht => by
    simp only [NonArrayType.numericLeaf?] at hl
    obtain ⟨keyText, hk, ht⟩ := bind_eq_ok_iff.mp ht
    obtain ⟨valueText, hv, ht⟩ := bind_eq_ok_iff.mp ht
    cases ht
    have he : pos.intoEntry = .entry := by
      cases pos <;> first | rfl | cases hr
    rw [he] at hl
    split at hl
    · rw [decimalAt_mapKey]
      exact key.typeText_decimalAt rfl hl hk
    · rw [decimalAt_mapValue]
      exact value.typeText_decimalAt rfl hl hv
    · cases hl

theorem Attrs.typeText_decimalAt : ∀ (as : Attrs) {n : String} {p : Path}
    {leaf : NumericLeaf} {fs : TextFields},
    as.numericLeaf? .attr n p = some leaf →
    as.typeText .iceberg = .ok fs →
      ∃ text, fs.find? n = some text ∧ text.decimalAt p = leaf.engineDecimal settings
  | .nil, _, _, _, _, hl, _ => by simp [Attrs.numericLeaf?] at hl
  | .cons n' type _ rest, _, _, _, _, hl, hfs => by
    simp only [Attrs.numericLeaf?] at hl
    obtain ⟨text, ht, hfs⟩ := bind_eq_ok_iff.mp hfs
    obtain ⟨fs, hr, hfs⟩ := bind_eq_ok_iff.mp hfs
    cases hfs
    simp only [TextFields.find?]
    split_ifs at hl ⊢
    · exact ⟨text, rfl, type.typeText_decimalAt rfl hl ht⟩
    · exact rest.typeText_decimalAt hl hr
  | .dropped _ rest, _, _, _, _, hl, hfs => by
    exact rest.typeText_decimalAt hl hfs

end

/-! ### Columns without DuckDB type -/

theorem PgType.exports_full (t : PgType) (tm : Typmod) :
    t.exports (.full tm) = t.exports (.full none) := by
  rcases t with (_ | _ | _ | _) | el <;> simp [PgType.exports, NonArrayType.exports]

theorem duckDBType_eq_invalid {s : Scalar} : s.duckDBType = .invalid ↔ s = .other := by
  cases s <;> simp [Scalar.duckDBType]

mutual

theorem PgType.exports_iff : ∀ (t : PgType) (rendering : Rendering),
    (∃ text, t.typeText .iceberg rendering = .ok text) ↔ t.exports rendering = true
  | .plain t, rendering => by
    exact t.exports_iff rendering
  | .array element, rendering => by
    have he : ∀ r, (∃ text, (element.typeText .iceberg r).map TypeText.array = .ok text) ↔
        element.exports r = true := by
      intro r
      exact exists_map_eq_ok_iff.trans (element.exports_iff r)
    cases rendering with
    | full =>
      simp only [PgType.typeText, PgType.exports]
      split_ifs with hi
      · obtain rfl := eq_jsonb_of_invalid hi
        exact ⟨fun _ => rfl, fun _ => ⟨_, rfl⟩⟩
      · exact he _
    | column | columnElement =>
      exact he _

theorem NonArrayType.exports_iff : ∀ (t : NonArrayType) (rendering : Rendering),
    (∃ text, t.typeText .iceberg rendering = .ok text) ↔ t.exports rendering = true
  | .scalar s, rendering => by
    cases rendering <;> simp only [NonArrayType.typeText, NonArrayType.exports]
    case full => simp
    all_goals
      split_ifs with hi
      · simp [duckDBType_eq_invalid.mp hi]
      · simp [mt duckDBType_eq_invalid.mpr hi]
  | .domain base _, rendering => by
    cases rendering <;> simp only [NonArrayType.typeText, NonArrayType.exports]
    case full => simp
    case column => exact base.exports_iff .column
    case columnElement => simp
  | .composite attrs, _ => by
    exact exists_map_eq_ok_iff.trans attrs.exports_iff
  | .map key keyTypmod value valueTypmod, _ => by
    simp only [NonArrayType.typeText, NonArrayType.exports, Bool.and_eq_true,
      ← key.exports_full keyTypmod, ← value.exports_full valueTypmod, ← key.exports_iff,
      ← value.exports_iff, bind_eq_ok_iff]
    constructor
    · rintro ⟨_, keyText, hk, valueText, hv, _⟩
      exact ⟨⟨keyText, hk⟩, valueText, hv⟩
    · rintro ⟨⟨keyText, hk⟩, valueText, hv⟩
      exact ⟨_, keyText, hk, valueText, hv, rfl⟩

theorem Attrs.exports_iff : ∀ (as : Attrs),
    (∃ fs, as.typeText .iceberg = .ok fs) ↔ as.exports = true
  | .nil => by simp [Attrs.typeText, Attrs.exports]
  | .cons _ type _ rest => by
    simp only [Attrs.typeText, Attrs.exports, Bool.and_eq_true, ← type.exports_iff,
      ← rest.exports_iff, bind_eq_ok_iff]
    constructor
    · rintro ⟨_, text, ht, fs, hfs, _⟩
      exact ⟨⟨text, ht⟩, fs, hfs⟩
    · rintro ⟨⟨text, ht⟩, fs, hfs⟩
      exact ⟨_, text, ht, fs, hfs, rfl⟩
  | .dropped _ rest => by
    exact rest.exports_iff

end

/-! ### The type of a column -/

mutual

theorem PgType.numericLeaf?_base : ∀ (t : PgType) (tm : Typmod) (p : Path),
    t.base.numericLeaf? .columnBase tm p = t.numericLeaf? .columnBase tm p
  | .plain t, tm, p => by
    exact t.numericLeaf?_base tm p
  | .array _, _, _ => by simp [PgType.base]

theorem NonArrayType.numericLeaf?_base : ∀ (t : NonArrayType) (tm : Typmod) (p : Path),
    t.base.numericLeaf? .columnBase tm p = t.numericLeaf? .columnBase tm p
  | .domain base _, tm, p => by
    exact base.numericLeaf?_base tm p
  | .scalar _, _, _ | .composite _, _, _
  | .map .., _, _ => by simp [NonArrayType.base, PgType.numericLeaf?]

end

mutual

theorem PgType.base_ne_domain : ∀ (t base : PgType) (tm : Typmod),
    t.base ≠ .plain (.domain base tm)
  | .plain t, base, tm => by
    exact t.base_ne_domain base tm
  | .array _, _, _ => by simp [PgType.base]

theorem NonArrayType.base_ne_domain : ∀ (t : NonArrayType) (base : PgType) (tm : Typmod),
    t.base ≠ .plain (.domain base tm)
  | .domain t _, base, tm => by
    exact t.base_ne_domain base tm
  | .scalar _, _, _ | .composite _, _, _ | .map .., _, _ => by simp [NonArrayType.base]

end

theorem engineDecimal_column {t : NonArrayType} {tm : Typmod} {p : Path}
    (h : t.numericLeaf? .column tm p = some leaf) :
    ∃ leaf', t.numericLeaf? .columnBase tm p = some leaf' ∧
      ∀ settings, leaf'.engineDecimal settings = leaf.engineDecimal settings := by
  cases t with
  | scalar s =>
    simp only [NonArrayType.numericLeaf?] at h ⊢
    split_ifs at h ⊢
    cases h
    exact ⟨_, rfl, fun _ => rfl⟩
  | domain base _ | composite as | map k _ v _ => exact ⟨leaf, h, fun _ => rfl⟩

theorem chooseElementType_decimalAt {t : NonArrayType} {tm : Typmod} {p : Path}
    {isArrayType : Bool} {text : TypeText}
    (hl : t.numericLeaf? .columnBase tm p = some leaf)
    (h : chooseElementType settings t tm isArrayType .iceberg = .ok text) :
    ∃ el : TypeText, text = el.withArray isArrayType ∧
      el.decimalAt p = leaf.engineDecimal settings := by
  rw [← t.numericLeaf?_base] at hl
  have hd := t.base_ne_domain
  unfold chooseElementType at h
  generalize t.base = base at hl hd h
  match base with
  | .array el =>
    simp only [PgType.numericLeaf?, LeafPosition.intoArray] at hl
    split at hl
    · have hhid := el.position_hidden hl
      -- an array of jsonb is VARCHAR, every other one LIST
      by_cases hi : (PgType.array el).duckDBType = .invalid
      · simp only [hi, Except.ok.injEq] at h
        exact ⟨_, h.symm, by rw [decimalAt_named, engineDecimal_hidden hhid]⟩
      · simp only [duckDBType_array hi, Except.ok.injEq] at h
        exact ⟨_, h.symm, by rw [decimalAt_named, engineDecimal_hidden hhid]⟩
    · cases hl
  | .plain (.domain inner innerTypmod) => exact absurd rfl (hd inner innerTypmod)
  | .plain (.scalar s) =>
    simp only [PgType.numericLeaf?, NonArrayType.numericLeaf?] at hl
    split_ifs at hl with hs
    obtain ⟨rfl, rfl⟩ := hs
    cases hl
    simp only [PgType.duckDBType, NonArrayType.duckDBType, Scalar.duckDBType] at h
    simp only [NumericLeaf.engineDecimal]
    cases hde : decimalOf settings tm with
    | none | some modifier =>
      simp only [hde, Except.ok.injEq] at h
      exact ⟨_, h.symm, rfl⟩
  | .plain (.composite attrs) =>
    obtain ⟨el, hel, rfl⟩ := map_eq_ok_iff.mp h
    -- the leaves of a composite column are those of a composite map entry
    have he : (PgType.plain (.composite attrs)).numericLeaf? .entry tm p =
        some leaf := hl
    exact ⟨el, rfl, PgType.typeText_decimalAt _ rfl he hel⟩
  | .plain (.map key keyTypmod value valueTypmod) =>
    obtain ⟨el, hel, rfl⟩ := map_eq_ok_iff.mp h
    have he : (PgType.plain (.map key keyTypmod value valueTypmod)).numericLeaf? .entry tm
        p = some leaf := hl
    exact ⟨el, rfl, PgType.typeText_decimalAt _ rfl he hel⟩

/-- **The DECIMAL of a leaf of a written column.** -/
theorem chooseDuckDBEngineTypeForWrite_decimalAt {type : PgType} {tm : Typmod} {p : Path}
    {text : TypeText} (hl : type.numericLeaf? .column tm p = some leaf)
    (h : chooseDuckDBEngineTypeForWrite settings type tm .iceberg = .ok text) :
    text.decimalAt p = leaf.engineDecimal settings := by
  cases type with
  | plain t =>
    obtain ⟨leaf', hl', hengine⟩ := engineDecimal_column hl
    obtain ⟨el, rfl, hdec⟩ := chooseElementType_decimalAt hl' h
    rw [← hengine]
    exact hdec
  | array =>
    simp only [PgType.numericLeaf?] at hl
    split at hl
    · obtain ⟨inner, rfl, hdec⟩ := chooseElementType_decimalAt hl h
      exact hdec
    · cases hl

theorem chooseElementType_ok_iff (t : NonArrayType) (tm : Typmod) (isArrayType : Bool) :
    (∃ text, chooseElementType settings t tm isArrayType .iceberg = .ok text) ↔
      t.base.writable = true := by
  unfold chooseElementType PgType.writable
  have hd := t.base_ne_domain
  generalize t.base = base at hd
  match base with
  | .array element =>
    by_cases hi : (PgType.array element).duckDBType = .invalid
    · simp [hi]
    · simp [duckDBType_array hi]
  | .plain (.domain inner innerTypmod) => exact absurd rfl (hd inner innerTypmod)
  | .plain (.scalar s) =>
    simp only [PgType.duckDBType, NonArrayType.duckDBType, NonArrayType.exports, iff_true]
    cases s <;> simp [Scalar.duckDBType]
    cases decimalOf settings tm <;> simp
  | .plain (.composite attrs) =>
    have he := PgType.exports_iff (.plain (.composite attrs)) (.full tm)
    exact exists_map_eq_ok_iff.trans he
  | .plain (.map key keyTypmod value valueTypmod) =>
    have he :=
      PgType.exports_iff (.plain (.map key keyTypmod value valueTypmod)) (.full tm)
    exact exists_map_eq_ok_iff.trans he

theorem NumericLeaf.suits_iff (leaf : NumericLeaf) :
    leaf.Suits settings ↔ leaf.engineDecimal settings = decimalOf settings leaf.typmod := by
  unfold NumericLeaf.Suits NumericLeaf.engineDecimal
  cases leaf.position <;> simp [eq_comm (a := decimalOf settings leaf.typmod)]

end Engine

/-! ## Agreement -/

theorem chooseDuckDBEngineTypeForWrite_ok_iff (settings : NumericSettings) (type : PgType)
    (tm : Typmod) :
    (∃ text, chooseDuckDBEngineTypeForWrite settings type tm .iceberg = .ok text) ↔
      type.exportable = true := by
  cases type with
  | plain t => exact chooseElementType_ok_iff t tm false
  | array el => exact chooseElementType_ok_iff el tm true

/-- **A numeric leaf keeps its precision iff its modifier suits its position.** -/
theorem precisionKept_iff (settings : NumericSettings) (type : PgType) (typmod : Typmod)
    (fieldId : ℕ) (path : Path) (leaf : NumericLeaf)
    (hleaf : type.numericLeaf? .column typmod path = some leaf) :
    PrecisionKept settings type typmod fieldId path ↔
      type.exportable = true ∧ leaf.Suits settings := by
  unfold PrecisionKept
  rw [PgType.decimalAt_toField fieldId hleaf, leaf.suits_iff,
    ← chooseDuckDBEngineTypeForWrite_ok_iff settings type typmod]
  constructor
  · rintro ⟨text, htext, hdecimal⟩
    rw [chooseDuckDBEngineTypeForWrite_decimalAt hleaf htext] at hdecimal
    exact ⟨⟨text, htext⟩, hdecimal⟩
  · rintro ⟨⟨text, htext⟩, hdecimal⟩
    rw [← chooseDuckDBEngineTypeForWrite_decimalAt hleaf htext] at hdecimal
    exact ⟨text, htext, hdecimal⟩

/-- An array of maps from text to numeric(20,10). -/
theorem precisionKept_map_value : PrecisionKept .default
      (.array (.map (.plain (.scalar .text)) none (.plain (.scalar .numeric)) (some ⟨20, 10⟩)))
      none 1 [.element, .value] := by
  refine (precisionKept_iff .default _ none 1 _ ⟨.entry, some ⟨20, 10⟩⟩ rfl).mpr ⟨rfl, ?_⟩
  show decimalOf .default (some ⟨20, 10⟩) = some ⟨20, 10⟩
  decide

/-- An attribute numeric(20,10) is declared decimal(20,10) and parsed as DECIMAL(18,3). -/
theorem composite_attr_loses_precision : ¬ PrecisionKept .default
      (.plain (.composite (.cons "price" (.plain (.scalar .numeric)) (some ⟨20, 10⟩) .nil)))
      none 1 [.attr "price"] := by
  rintro ⟨text, htext, hdecimal⟩
  cases htext
  revert hdecimal
  decide

/-! ## The digits of a numeric -/

/-- The numbers of a numeric(p, s) or a DECIMAL(p, s): `p` digits, of which the last counts
    `10 ^ -s`. -/
def NumericTypmod.Stores (n : NumericTypmod) (q : ℚ) : Prop :=
  ∃ m : ℤ, q = m * 10 ^ (-n.scale) ∧ |m| < 10 ^ n.precision.toNat

/-- **The adjustment loses no digits.** -/
theorem stores_adjusted (settings : NumericSettings) (n : NumericTypmod) (hpos : 1 ≤ n.precision)
    (h : canPushdownNumericToDuckdb (adjustedPrecisionAndScale settings (some n)) = true) :
    (∀ q, n.Stores q → (adjustedPrecisionAndScale settings (some n)).Stores q) ∧
      (adjustedPrecisionAndScale settings (some n)).scale ≤
        (adjustedPrecisionAndScale settings (some n)).precision ∧
      (adjustedPrecisionAndScale settings (some n)).precision ≤ 38 := by
  simp [canPushdownNumericToDuckdb, duckdbMaxNumericPrecision] at h
  refine ⟨?_, h.1.1.2, h.1.2⟩
  rintro q ⟨m, rfl, hm⟩
  rw [adjustedPrecisionAndScale]
  split_ifs with hneg hlarge
  · have hscale : -n.scale = n.scale.natAbs := by omega
    have hsum : (n.precision + n.scale.natAbs).toNat = n.precision.toNat + n.scale.natAbs := by
      omega
    have hten : (0 : ℤ) < 10 ^ n.scale.natAbs := pow_pos (by decide) _
    refine ⟨m * 10 ^ n.scale.natAbs, by rw [hscale, zpow_natCast]; simp, ?_⟩
    rw [hsum, pow_add, abs_mul, abs_of_pos hten]
    exact mul_lt_mul_of_pos_right hm hten
  · have hle : n.precision.toNat ≤ n.scale.toNat := by omega
    exact ⟨m, rfl, hm.trans_le (pow_le_pow_right₀ (by decide) hle)⟩
  · exact ⟨m, rfl, hm⟩

theorem stores_adjusted_negative :
    (∀ q, NumericTypmod.Stores ⟨5, -2⟩ q → NumericTypmod.Stores ⟨7, 0⟩ q) ∧
      (0 : ℤ) ≤ 7 ∧ (7 : ℤ) ≤ 38 :=
  stores_adjusted .default ⟨5, -2⟩ (by decide) (by decide)

end PgLake.Types
