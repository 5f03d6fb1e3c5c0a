/-
  Bounds of truncated texts: those a partition field of a truncate transform of a text or bytea
  column is pruned by (`TruncatePartitionFieldBoundConstraint`, `truncate_utils.c`), and the column
  statistics of a data file (`data_file_stats.c`).

  Main results: `text_truncate_sound`, `stats_truncation_valid_iff`.
-/
import PgLake.Lib.Utf8

namespace PgLake.Fdw.TextBounds

open Utf8 WireBytes Option

/-- The characters that are kept; lengths are compared in bytes first. -/
def icebergTruncateTransformText (value : List Char) (truncateLength : ℕ) : List Char :=
  if truncateLength < (encode value).length then value.take truncateLength else value

/-- `IcebergTruncateTransformBytea`. -/
def icebergTruncateTransformBytea (value : Bytes) (length : ℕ) : Bytes :=
  if length < value.length then value.take length else value

/-- `TruncateUpperBoundForText` and `TruncateUpperBoundForBytea`, which differ in the largest byte.
    What is behind the length stays. -/
def truncateUpperBound (max : UInt8) (data : Bytes) (truncateLen : ℕ) : Option Bytes :=
  (incrementLast max (data.take truncateLen)).map (· ++ data.drop truncateLen)

/-- The bounds for a text, which is only pruned by if it is ASCII. -/
def textPartitionBounds (partitionValue : List Char) (truncateLen : ℕ) : Option (Bytes × Bytes) :=
  if (encode partitionValue).length ≠ partitionValue.length then none
  else (truncateUpperBound 127 (encode partitionValue) truncateLen).map fun upper =>
    (encode partitionValue, upper)

/-- The bounds of a truncated partition value. -/
def byteaPartitionBounds (partitionValue : Bytes) (truncateLen : ℕ) : Option (Bytes × Bytes) :=
  (truncateUpperBound 255 partitionValue truncateLen).map fun upper => (partitionValue, upper)

/-- The truncated lower bound. -/
def truncateStatsMinForText (lowerBound : Bytes) (truncateLen : ℕ) : Bytes :=
  if lowerBound.length ≤ truncateLen then lowerBound else lowerBound.take truncateLen

/-- The truncated upper bound; `none` when there is none. -/
def truncateStatsMaxForText (upperBound : Bytes) (truncateLen : ℕ) : Option Bytes :=
  if upperBound.length ≤ truncateLen then some upperBound
  else incrementLast 127 (upperBound.take truncateLen)

/-! ## Partitions -/

open List

theorem exists_truncatedText (v : List Char) (n : ℕ) :
    ∃ rest, encode v = encode (icebergTruncateTransformText v n) ++ rest := by
  unfold icebergTruncateTransformText
  split_ifs
  · exact ⟨encode (v.drop n), by
      rw [encode, encode, encode, ← flatMap_append, take_append_drop]⟩
  · exact ⟨[], (append_nil _).symm⟩

theorem exists_truncatedBytea (v : Bytes) (n : ℕ) :
    ∃ rest, v = icebergTruncateTransformBytea v n ++ rest := by
  unfold icebergTruncateTransformBytea
  split_ifs
  · exact ⟨v.drop n, (take_append_drop n v).symm⟩
  · exact ⟨[], (append_nil _).symm⟩

theorem append_lt_truncateUpperBound {max : UInt8} {data upper : Bytes} {n : ℕ}
    (h : truncateUpperBound max data n = some upper) (hmax : ∀ b ∈ data, b ≠ max → b ≠ 255)
    (rest : Bytes) : data ++ rest < upper := by
  obtain ⟨q, hq, rfl⟩ := map_eq_some_iff.mp h
  rw [← take_append_drop n data, append_assoc, take_append_drop n data]
  exact append_lt_of_incrementLast hq (fun b hb => hmax b (mem_of_mem_take hb)) _ _

theorem length_truncateUpperBound {max : UInt8} {data hi : Bytes} {n : ℕ}
    (h : truncateUpperBound max data n = some hi) : hi.length = data.length := by
  obtain ⟨q, hq, rfl⟩ := map_eq_some_iff.mp h
  rw [length_append, length_incrementLast hq, ← length_append, take_append_drop]

/-- **A value is not below the lower bound of its partition and below the upper one**, byte by
    byte, **and there is no upper bound where nothing as long is above the partition value.** -/
theorem text_truncate_sound (truncateLen : ℕ) :
    (∀ v : List Char, ∀ p, p = icebergTruncateTransformText v truncateLen →
      (∀ lower upper, textPartitionBounds p truncateLen = some (lower, upper) →
        lower ≤ encode v ∧ encode v < upper) ∧
      ((∀ q : List Char, q.length ≤ p.length → ¬ encode p < encode q) →
        textPartitionBounds p truncateLen = none)) ∧
    ∀ v : Bytes, ∀ p, p = icebergTruncateTransformBytea v truncateLen →
      (∀ lower upper, byteaPartitionBounds p truncateLen = some (lower, upper) →
        lower ≤ v ∧ v < upper) ∧
      ((∀ q : Bytes, q.length ≤ p.length → ¬ p < q) → byteaPartitionBounds p truncateLen = none) := by
  refine ⟨?_, ?_⟩
  · rintro v p rfl
    obtain ⟨rest, hrest⟩ := exists_truncatedText v truncateLen
    set p := icebergTruncateTransformText v truncateLen
    have hmax : ∀ b ∈ encode p, b ≠ 127 → b ≠ 255 := fun b hb _ => ne_of_mem_encode hb
    unfold textPartitionBounds
    split_ifs with hascii
    · exact ⟨fun _ _ h => (by cases h), fun _ => rfl⟩
    · refine ⟨fun lower upper h => ?_, fun hnone => ?_⟩
      · obtain ⟨_, hupper, ⟨⟩⟩ := map_eq_some_iff.mp h
        rw [hrest]
        exact ⟨le_append_left, append_lt_truncateUpperBound hupper hmax rest⟩
      · refine map_eq_none_iff.mpr <|
          eq_none_iff_forall_ne_some.mpr fun upper hupper => ?_
        have hlt := append_lt_truncateUpperBound hupper hmax []
        have hbytes := ascii_of_length (not_not.mp hascii)
        obtain ⟨q, hq, heq⟩ := map_eq_some_iff.mp hupper
        obtain ⟨text, hlength, rfl⟩ := valid_of_ascii (p := upper) fun b hb => by
          rw [← heq] at hb
          rcases mem_append.mp hb with hb | hb
          · exact ascii_incrementLast hq (fun b hb => hbytes b (mem_of_mem_take hb)) b hb
          · exact hbytes b (mem_of_mem_drop hb)
        rw [append_nil] at hlt
        refine hnone text ?_ hlt
        rw [hlength, length_truncateUpperBound hupper, not_not.mp hascii]
  · rintro v p rfl
    obtain ⟨rest, hrest⟩ := exists_truncatedBytea v truncateLen
    set p := icebergTruncateTransformBytea v truncateLen
    refine ⟨fun lower upper h => ?_, fun hnone => ?_⟩
    · obtain ⟨_, hupper, ⟨⟩⟩ := map_eq_some_iff.mp h
      rw [hrest]
      exact ⟨le_append_left, append_lt_truncateUpperBound hupper (fun _ _ => id) rest⟩
    · refine map_eq_none_iff.mpr <|
        eq_none_iff_forall_ne_some.mpr fun upper hupper => ?_
      have hlt := append_lt_truncateUpperBound hupper (fun _ _ => id) []
      rw [append_nil] at hlt
      exact hnone upper (length_truncateUpperBound hupper).le hlt

/-- The partition of `abc` that is kept by its first two characters. -/
theorem abc_between_ab_and_ac : "ab".toList = icebergTruncateTransformText "abc".toList 2 ∧
    textPartitionBounds "ab".toList 2 = some ([97, 98], [97, 99]) ∧
    ([97, 98] : Bytes) ≤ encode "abc".toList ∧ encode "abc".toList < [97, 99] := by
  have hbounds : textPartitionBounds "ab".toList 2 = some ([97, 98], [97, 99]) := by decide
  exact ⟨rfl, hbounds, ((text_truncate_sound 2).1 "abc".toList "ab".toList rfl).1 _ _ hbounds⟩

/-! ## Statistics -/

/-- The truncated bounds enclose the bounds and are valid texts. -/
def StatsValid (lower upper : List Char) (truncateLen : ℕ) : Prop :=
  (truncateStatsMinForText (encode lower) truncateLen ≤ encode lower ∧
      Valid (truncateStatsMinForText (encode lower) truncateLen)) ∧
    ∀ u ∈ truncateStatsMaxForText (encode upper) truncateLen, encode upper ≤ u ∧ Valid u

theorem statsMin_valid_iff (lo : List Char) (n : ℕ) :
    truncateStatsMinForText (encode lo) n ≤ encode lo ∧
        Valid (truncateStatsMinForText (encode lo) n) ↔
      ∀ b ∈ ((encode lo).drop n).head?, isContinuation b = false := by
  rw [← take_valid_iff]
  have ht : truncateStatsMinForText (encode lo) n = (encode lo).take n := by
    unfold truncateStatsMinForText
    split_ifs with h
    · rw [take_of_length_le h]
    · rfl
  rw [ht]
  refine and_iff_right ?_
  conv_rhs => rw [← take_append_drop n (encode lo)]
  exact le_append_left

/-- **Truncated statistics stay valid texts that enclose the values** exactly if the lower one is
    not cut within a character, and the upper one is short, or begins with DEL only, or is not cut
    within a character and the byte that is incremented is not the largest that ends one. -/
theorem stats_truncation_valid_iff (lower upper : List Char) (truncateLen : ℕ) :
    StatsValid lower upper truncateLen ↔
      (∀ b ∈ ((encode lower).drop truncateLen).head?, isContinuation b = false) ∧
      ((encode upper).length ≤ truncateLen ∨ (∀ b ∈ (encode upper).take truncateLen, b = 127) ∨
        (∀ b ∈ ((encode upper).drop truncateLen).head?, isContinuation b = false) ∧
          ∀ b ∈ (((encode upper).take truncateLen).filter (· ≠ 127)).getLast?, b ≠ 191) := by
  rw [StatsValid, statsMin_valid_iff, truncateStatsMaxForText]
  refine and_congr_right fun _ => ?_
  split_ifs with hshort
  · refine iff_of_true ?_ (.inl hshort)
    rintro u ⟨⟩
    exact ⟨List.le_refl _, upper, rfl⟩
  · rw [or_iff_right hshort, ← take_valid_iff]
    cases hq : incrementLast 127 ((encode upper).take truncateLen) with
    | none => exact iff_of_true (by simp) (.inl (incrementLast_eq_none_iff.mp hq))
    | some q =>
      have hnot : ¬ ∀ b ∈ (encode upper).take truncateLen, b = 127 := fun hall => by
        rw [incrementLast_eq_none_iff.mpr hall] at hq
        cases hq
      have hlt := append_lt_of_incrementLast hq
        (fun b hb _ => ne_of_mem_encode (List.mem_of_mem_take hb)) ((encode upper).drop truncateLen) []
      rw [take_append_drop, append_nil] at hlt
      rw [or_iff_right hnot, ← incrementLast_valid_iff upper truncateLen hq]
      simp [List.le_of_lt hlt]

/-- The text `é` has two bytes. -/
theorem cut_character_is_no_text :
    truncateStatsMinForText (encode ['é']) 1 = [195] ∧ ¬ StatsValid ['é'] ['é'] 1 := by
  refine ⟨by decide, fun h => ?_⟩
  exact absurd ((statsMin_valid_iff ['é'] 1).mp h.1 169 (by decide)) (by decide)

end PgLake.Fdw.TextBounds
