/-
  The names in the partition field map (`CreateManifestPartitionFieldMap` in `read_manifest.c`).

  Main result: `exact_iff`.
-/
import PgLake.Lib.Lookup

namespace PgLake.Iceberg.PartitionFieldMap

open List

/-- The size of the key of the map, with its NUL. -/
def partitionFieldNameMaxLength : ℕ := 100

/-- A row of the query, or an entry of the map.  The name is without its NUL. -/
structure Field (T : Type) where
  fieldName : List UInt8
  fieldId : UInt32
  fieldType : T

/-- The names in an Avro record are distinct. -/
structure Schema (T : Type) where
  fields : List (Field T)
  distinct : (fields.map Field.fieldName).Nodup

variable {T : Type}

/-- `strcpy` writes a NUL behind the name.  Behind the buffer it is the lowest byte of `fieldId`. -/
def Field.entry (field : Field T) : Field T :=
  if field.fieldName.length < partitionFieldNameMaxLength then field
  else { field with fieldId := field.fieldId &&& 0xFFFFFF00 }

/-- The last entry with a key counts: HASH_ENTER finds the one before and overwrites it. -/
def enter (map : List (Field T)) (field : Field T) : Except String (List (Field T)) :=
  if field.fieldName.length > partitionFieldNameMaxLength then
    .error "Partition field name is too long"
  else .ok (field.entry :: map)

def createManifestPartitionFieldMap (schema : Schema T) : Except String (List (Field T)) :=
  schema.fields.foldlM enter []

/-- The hash table compares all bytes of a key but the last. -/
def sameKey (a b : List UInt8) : Bool :=
  a.take (partitionFieldNameMaxLength - 1) = b.take (partitionFieldNameMaxLength - 1)

/-- A map that is created has every field of the schema under its name. -/
def Exact (schema : Schema T) : Prop :=
  ∀ map, createManifestPartitionFieldMap schema = .ok map → ∀ field ∈ schema.fields,
    map.find? (fun entry => sameKey entry.fieldName field.fieldName) = some field ∧
      field.fieldName.length + 1 ≤ partitionFieldNameMaxLength ∧
      ∀ other ∈ schema.fields, sameKey other.fieldName field.fieldName →
        other.fieldName = field.fieldName

theorem foldlM_enter {fs map map' : List (Field T)} : fs.foldlM enter map = .ok map' ↔
      (∀ f ∈ fs, f.fieldName.length ≤ partitionFieldNameMaxLength) ∧
        map' = (fs.map Field.entry).reverse ++ map := by
  induction fs generalizing map with
  | nil => simp [pure, Except.pure, eq_comm]
  | cons f rest ih =>
    by_cases h : f.fieldName.length > partitionFieldNameMaxLength
    · simp [enter, h, bind, Except.bind, Nat.not_le.mpr h]
    · simp [enter, h, bind, Except.bind, ih, Nat.le_of_not_lt h]

/-- **Every field is found**, unless a name fills its buffer. -/
theorem exact_iff (schema : Schema T) : Exact schema ↔
    (∃ field ∈ schema.fields, partitionFieldNameMaxLength < field.fieldName.length) ∨
      ∀ field ∈ schema.fields, field.fieldName.length < partitionFieldNameMaxLength := by
  by_cases hlong :
      ∃ field ∈ schema.fields, partitionFieldNameMaxLength < field.fieldName.length
  · refine iff_of_true (fun map hmap => ?_) (.inl hlong)
    obtain ⟨field, hfield, hlt⟩ := hlong
    exact absurd ((foldlM_enter.mp hmap).1 field hfield) (by omega)
  · rw [or_iff_right hlong]
    refine ⟨fun h => ?_, fun h map hmap field hfield => ?_⟩
    · exact fun field hfield => (h _ (foldlM_enter.mpr ⟨fun field hfield =>
        Nat.le_of_not_lt fun hlt => hlong ⟨field, hfield, hlt⟩, rfl⟩) field hfield).2.1
    · have hkey : ∀ f ∈ schema.fields,
          f.fieldName.take (partitionFieldNameMaxLength - 1) = f.fieldName :=
        fun f hf => take_of_length_le (Nat.le_sub_one_of_lt (h f hf))
      refine ⟨?_, h field hfield, fun other hother hsame => ?_⟩
      · have hself : schema.fields.map Field.entry = schema.fields.map id :=
          map_congr_left fun f hf => if_pos (h f hf)
        rw [(foldlM_enter.mp hmap).2, append_nil, hself, map_id]
        refine Lookup.find?_of_mem ?_ (mem_reverse.mpr hfield)
        rw [map_reverse, nodup_reverse, map_congr_left hkey]
        exact schema.distinct
      · rw [← hkey other hother, of_decide_eq_true hsame, hkey field hfield]

theorem not_exact_hundred : ¬ Exact ⟨[⟨replicate 100 97, 1000, ()⟩], by simp⟩ := fun h =>
  absurd (h _ rfl _ (mem_singleton_self _)).2.1 (by decide)

end PgLake.Iceberg.PartitionFieldMap
