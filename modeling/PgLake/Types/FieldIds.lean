/-
  The ids of a field tree.

  `PostgresTypeToIcebergField` numbers the nodes below a column depth first with a
  running counter.
-/
import Mathlib.Data.List.Range
import PgLake.Types.StorageMapping

namespace PgLake.Types

mutual

/-- The ids below a node, in the order in which they were given. -/
def Field.ids : Field → List ℕ
  | .scalar _ => []
  | .list elementId element => elementId :: element.ids
  | .struct fields => fields.ids
  | .map keyId key valueId value => keyId :: (key.ids ++ valueId :: value.ids)

def StructFields.ids : StructFields → List ℕ
  | .nil => []
  | .cons id _ type rest => id :: (type.ids ++ rest.ids)

end

/-- The ids in `l` are those after `first`, up to `last`. -/
structure Numbers (l : List ℕ) (first last : ℕ) : Prop where
  le : first ≤ last
  eq : l = List.range' (first + 1) (last - first)

namespace Numbers
variable {l l' : List ℕ} {first mid last : ℕ}

theorem nil (first : ℕ) : Numbers [] first first :=
  ⟨le_rfl, by simp⟩

theorem cons (h : Numbers l (first + 1) last) : Numbers ((first + 1) :: l) first last := by
  refine ⟨by have := h.le; omega, ?_⟩
  have hlen : last - first = (last - (first + 1)) + 1 := by
    have := h.le
    omega
  rw [h.eq, hlen, List.range'_succ]

theorem append (h : Numbers l first mid) (h' : Numbers l' mid last) :
    Numbers (l ++ l') first last := by
  refine ⟨h.le.trans h'.le, ?_⟩
  have hlen : last - first = (mid - first) + (last - mid) := by
    have := h.le
    have := h'.le
    omega
  have hs : mid + 1 = first + 1 + 1 * (mid - first) := by
    have := h.le
    omega
  rw [h.eq, h'.eq, hlen, hs, List.range'_append]

theorem mem_iff (h : Numbers l first last) {id : ℕ} : id ∈ l ↔ first < id ∧ id ≤ last := by
  rw [h.eq, List.mem_range'_1]
  omega

theorem nodup (h : Numbers l first last) : l.Nodup := by
  rw [h.eq]
  exact List.nodup_range'

end Numbers

theorem intervalFields_ids (first : ℕ) : Numbers (intervalFields first).ids first (first + 3) :=
  (((Numbers.nil _).cons).cons).cons

section
variable (cfg : NumericSettings)

mutual

theorem PgType.toField_ids : ∀ (t : PgType) (tm : Typmod) (first : ℕ),
    Numbers (t.toField cfg tm first).1.ids first (t.toField cfg tm first).2
  | .plain t, tm, first => t.toField_ids tm first
  | .array el, tm, first => (el.toField_ids tm (first + 1)).cons

theorem NonArrayType.toField_ids : ∀ (t : NonArrayType) (tm : Typmod) (first : ℕ),
    Numbers (t.toField cfg tm first).1.ids first (t.toField cfg tm first).2
  | .scalar s, _, first => by
    cases s with
    | interval => exact intervalFields_ids first
    | _ => exact Numbers.nil first
  | .domain base _, tm, first => base.toField_ids tm first
  | .composite as, _, first => as.toFields_ids first
  | .map k keyTypmod v valueTypmod, _, first =>
    ((k.toField_ids keyTypmod (first + 1)).append
      (v.toField_ids valueTypmod _).cons).cons

theorem Attrs.toFields_ids : ∀ (as : Attrs) (first : ℕ),
    Numbers (as.toFields cfg first).1.ids first (as.toFields cfg first).2
  | .nil, first => Numbers.nil first
  | .cons _ type tm rest, first =>
    ((type.toField_ids tm (first + 1)).append (rest.toFields_ids _)).cons
  | .dropped _ rest, first =>
    ((Numbers.nil (first + 1)).append (rest.toFields_ids (first + 1))).cons

end

end

mutual

theorem Field.ids_applyMapping (mode : CompatibilityMode) : ∀ (f : Field) (level : ℕ),
    (f.applyMapping mode level).ids = f.ids
  | .scalar _, _ => rfl
  | .list _ el, _ => by
    simp [Field.applyMapping, Field.ids, el.ids_applyMapping mode]
  | .struct fs, _ => by
    simp [Field.applyMapping, Field.ids, fs.ids_applyMapping mode]
  | .map .., _ => rfl

theorem StructFields.ids_applyMapping (mode : CompatibilityMode) :
    ∀ (fs : StructFields) (level : ℕ), (fs.applyMapping mode level).ids = fs.ids
  | .nil, _ => rfl
  | .cons _ _ type rest, _ => by
    simp [StructFields.applyMapping, StructFields.ids, type.ids_applyMapping mode,
      rest.ids_applyMapping mode]

end

end PgLake.Types
