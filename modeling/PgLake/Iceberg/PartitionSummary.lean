/-
  Partition summaries of manifests (`GetPartitionFieldSummaryFromDataFiles` in `manifest.c`).

  The bounds are the first least and the first greatest value of the data files, in the order of
  Postgres (`IsDatumLessThan`, `IsDatumGreaterThan`).

  Main result: `summary_exact_iff`.
-/
import Mathlib.Tactic.Common
import PgLake.Iceberg.BinarySerde

namespace PgLake.Iceberg.PartitionSummary

open WireBytes PgLake.Types BinarySerde Fallible List

/-! ## Orders -/

/-- The order of a collation, by its sort keys. -/
structure Collation where
  key : Text → List ℚ
  key_injective : key.Injective

/-- The C collation. -/
def bytewise : Collation where
  key t := textKey t.bytes
  key_injective := by
    rintro ⟨bytes, _⟩ ⟨bytes', _⟩ h
    have hinj : Function.Injective fun b : UInt8 => (b.toNat : ℚ) :=
      Nat.cast_injective.comp fun _ _ => UInt8.toNat_inj.mp
    exact (Text.mk.injEq ..).mpr (hinj.list_map h)

/-- Finite floats by sign and magnitude, and NaN above them; `zeros` tells `-0` from `0`. -/
def floatSortKey (zeros isNaN : Bool) (signBit bits : ℕ) : List ℚ :=
  if isNaN then [1, 0]
  else if signBit ≤ bits then [0, -((bits - signBit : ℕ) : ℚ) - if zeros then 1 else 0]
  else [0, bits]

def Numeric.sortKey : Numeric → List ℚ
  | .infinity true => [-1, 0]
  | .finite negative integral fraction => [0, Numeric.value negative integral fraction]
  | .infinity false => [1, 0]
  | .nan => [2, 0]

def sortKey (zeros : Bool) (string : Text → List ℚ) (trimmed : Text → List ℚ) : Datum → List ℚ
  | .float4 bits => floatSortKey zeros (!isFinite4 bits && bits.toNat % 2 ^ 23 ≠ 0) (2 ^ 31) bits.toNat
  | .float8 bits => floatSortKey zeros (!isFinite8 bits && bits.toNat % 2 ^ 52 ≠ 0) (2 ^ 63) bits.toNat
  | .text t | .varchar t => string t
  | .bpchar t => trimmed t
  | .numeric n => Numeric.sortKey n
  | d => d.key

def Text.trimBlanks (t : Text) : Text where
  bytes := (t.bytes.reverse.dropWhile (· = 32)).reverse
  noZero h := t.noZero (mem_reverse.mp ((dropWhile_sublist _).mem (mem_reverse.mp h)))

variable (collation : Collation)

/-- The key by which Postgres sorts. -/
def pgKey : Datum → List ℚ :=
  sortKey false collation.key (collation.key ∘ Text.trimBlanks)

/-- `IsDatumLessThan`. -/
def isDatumLessThan (v1 v2 : Datum) : Bool :=
  pgKey collation v1 < pgKey collation v2

def isDatumGreaterThan (v1 v2 : Datum) : Bool :=
  pgKey collation v2 < pgKey collation v1

/-- The order of Iceberg: strings are compared bytewise, and `-0` is before `0`. -/
def icebergKey : Datum → List ℚ := sortKey true bytewise.key bytewise.key

structure FieldSummary where
  containsNull : Bool
  containsNan : Bool
  lowerBound : Option Bytes
  upperBound : Option Bytes

section Code
variable (cfg : NumericSettings) (io : TypeIO) (typmod : Typmod) (collation : Collation)

def updateBound (isBetter : Datum → Datum → Bool) (bound : Option Datum) (d : Datum) :
    Option Datum :=
  match bound with
  | none => some d
  | some b => if isBetter d b then some d else some b

def serializeBound : Option Datum → Except String (Option Bytes)
  | none => .ok none
  | some d => pgIcebergBinarySerializeBoundValue cfg io typmod d

/-- The values of the field in the data files; `none` is a NULL pointer. -/
def getPartitionFieldSummaryFromDataFiles (type : Scalar) (values : List (Option Bytes)) :
    Except String FieldSummary := do
  let datums ← values.reduceOption.mapM (pgIcebergBinaryDeserialize cfg io typmod type)
  let lowerBound ← serializeBound cfg io typmod
    (datums.foldl (updateBound (isDatumLessThan collation)) none)
  let upperBound ← serializeBound cfg io typmod
    (datums.foldl (updateBound (isDatumGreaterThan collation)) none)
  return ⟨true, true, lowerBound, upperBound⟩

end Code

/-! ## The loop -/

section Loop
variable {α β : Type*} [LinearOrder β]

/-- The first of the least elements. -/
def FirstLeast (key : α → β) (l : List α) (m : α) : Prop :=
  ∃ before after, l = before ++ m :: after ∧ (∀ d ∈ before, key m < key d) ∧
    ∀ d ∈ after, key m ≤ key d

variable {key : α → β}

theorem FirstLeast.mem {l : List α} {m : α} (h : FirstLeast key l m) : m ∈ l := by
  obtain ⟨before, after, rfl, -⟩ := h
  simp

theorem FirstLeast.le {l : List α} {m : α} (h : FirstLeast key l m) : ∀ d ∈ l, key m ≤ key d := by
  obtain ⟨before, after, rfl, hb, ha⟩ := h
  intro d hd
  rcases mem_append.mp hd with hd | hd
  · exact (hb d hd).le
  · rcases mem_cons.mp hd with rfl | hd
    · exact le_rfl
    · exact ha d hd

theorem FirstLeast.unique {l : List α} {m m' : α} (h : FirstLeast key l m)
    (h' : FirstLeast key l m') : m = m' := by
  have hle := h.le
  have hle' := h'.le
  have hm := h.mem
  have hm' := h'.mem
  obtain ⟨before, after, rfl, hb, ha⟩ := h
  obtain ⟨before', after', heq, hb', -⟩ := h'
  -- neither is before the other one
  rcases append_eq_append_iff.mp heq with ⟨mid, rfl, hmid⟩ | ⟨mid, rfl, hmid⟩
  · cases mid with
    | nil => exact (List.cons.inj hmid).1
    | cons =>
      obtain ⟨rfl, -⟩ := List.cons.inj hmid
      exact absurd (hle m' hm') (hb' m (by simp)).not_ge
  · cases mid with
    | nil => exact (List.cons.inj hmid).1.symm
    | cons =>
      obtain ⟨rfl, -⟩ := List.cons.inj hmid
      exact absurd (hle' m hm) (hb m' (by simp)).not_ge

end Loop

section Fold
variable {β : Type} [LinearOrder β] {key : Datum → β} {isBetter : Datum → Datum → Bool}

theorem foldl_updateBound_eq_none {l : List Datum} (h : l.foldl (updateBound isBetter) none = none) :
    l = [] := by
  induction l using List.reverseRecOn with
  | nil => rfl
  | append_singleton l =>
    rw [foldl_append, foldl_cons, foldl_nil] at h
    cases hl : l.foldl (updateBound isBetter) none with
    | none => rw [hl] at h; cases h
    | some b =>
      rw [hl, updateBound] at h
      split_ifs at h

/-- The loop ends with the first of the least values: a value replaces the bound only if it is
    less than it. -/
theorem firstLeast_foldl (hle : ∀ d b, isBetter d b = true ↔ key d < key b) {l : List Datum}
    {m : Datum} (h : l.foldl (updateBound isBetter) none = some m) : FirstLeast key l m := by
  induction l using List.reverseRecOn generalizing m with
  | nil => cases h
  | append_singleton l a ih =>
    rw [foldl_append, foldl_cons, foldl_nil] at h
    cases hl : l.foldl (updateBound isBetter) none with
    | none =>
      rw [hl] at h
      cases h
      rw [foldl_updateBound_eq_none hl]
      exact ⟨[], [], rfl, by simp⟩
    | some b =>
      have hb := ih hl
      rw [hl, updateBound] at h
      split_ifs at h with hlt
      · cases h
        exact ⟨l, [], rfl, fun d hd => ((hle _ _).mp hlt).trans_le (hb.le d hd), by simp⟩
      · cases h
        obtain ⟨before, after, rfl, hbe, ha⟩ := hb
        refine ⟨before, after ++ [a], by simp, hbe, fun d hd => ?_⟩
        rcases mem_append.mp hd with hd | hd
        · exact ha d hd
        · exact mem_singleton.mp hd ▸ not_lt.mp fun h => hlt ((hle _ _).mpr h)

end Fold

/-! ## What the summary should say -/

section Summary
variable (cfg : NumericSettings) (io : TypeIO) (typmod : Typmod) (collation : Collation)

def BoundReadAs (type : Scalar) (bound : Option Bytes) (d : Datum) : Prop :=
  ∃ bytes, bound = some bytes ∧ pgIcebergBinaryDeserialize cfg io typmod type bytes = .ok d

/-- The bound is one of the values, and least among them by this key. -/
def IsMinimum {β : Type} [LE β] (key : Datum → β) (type : Scalar) (datums : List Datum)
    (bound : Option Bytes) : Prop :=
  datums = [] ∧ bound = none ∨
    ∃ d ∈ datums, BoundReadAs cfg io typmod type bound d ∧ ∀ d' ∈ datums, key d ≤ key d'

/-- The summary says whether there is a NULL, and its bounds are the extrema of the values. -/
def SummaryExact (type : Scalar) (values : List (Option Bytes)) (datums : List Datum) : Prop :=
  ∃ summary, getPartitionFieldSummaryFromDataFiles cfg io typmod collation type values =
      .ok summary ∧
    (summary.containsNull = true ↔ none ∈ values) ∧
    IsMinimum cfg io typmod icebergKey type datums summary.lowerBound ∧
    IsMinimum cfg io typmod (OrderDual.toDual ∘ icebergKey) type datums summary.upperBound

variable {cfg io typmod collation}

theorem isMinimum_iff {β : Type} [LinearOrder β] (pg iceberg : Datum → β)
    {isBetter : Datum → Datum → Bool} (hl : ∀ d b, isBetter d b = true ↔ pg d < pg b)
    {type : Scalar} {datums : List Datum}
    (hb : ∀ d ∈ datums, ∃ bs, pgIcebergBinarySerializeBoundValue cfg io typmod d =
      .ok (some bs) ∧ pgIcebergBinaryDeserialize cfg io typmod type bs = .ok d) :
    ∃ bound, serializeBound cfg io typmod (datums.foldl (updateBound isBetter) none) =
        .ok bound ∧
      (IsMinimum cfg io typmod iceberg type datums bound ↔
        ∀ m, FirstLeast pg datums m → ∀ d ∈ datums, iceberg m ≤ iceberg d) := by
  cases hmin : datums.foldl (updateBound isBetter) none with
  | none =>
    have hnil := foldl_updateBound_eq_none hmin
    refine ⟨none, rfl, iff_of_true (.inl ⟨hnil, rfl⟩) fun _ _ => ?_⟩
    simp [hnil]
  | some m =>
    have hf := firstLeast_foldl hl hmin
    obtain ⟨bs, hbs, hr⟩ := hb m hf.mem
    refine ⟨some bs, hbs, ?_⟩
    constructor
    · rintro (⟨-, hn⟩ | ⟨d, -, ⟨bs', hs, hr'⟩, hle⟩) m' hm'
      · cases hn
      cases hs
      cases hr.symm.trans hr'
      rwa [hm'.unique hf]
    · intro h
      exact .inr ⟨m, hf.mem, ⟨bs, rfl, hr⟩, h m hf⟩

theorem pgKey_eq_icebergKey {d : Datum} (hs : d.type ≠ .text ∧ d.type ≠ .varchar ∧ d.type ≠ .bpchar)
    (hf : d.type ≠ .float4 ∧ d.type ≠ .float8) : pgKey collation d = icebergKey d := by
  cases d with
  | text | varchar | bpchar => simp [Datum.type] at hs
  | float4 | float8 => simp [Datum.type] at hf
  | _ => rfl

/-- **The summary is exact, exactly if** a file has a NULL, and the first least and the first
    greatest value in the order of Postgres are the least and the greatest one in that of
    Iceberg. -/
theorem summary_exact_iff (cfg : NumericSettings) (io : TypeIO) (typmod : Typmod)
    (collation : Collation) {type : Scalar} {values : List (Option Bytes)} {datums : List Datum}
    (hread : values.reduceOption.mapM (pgIcebergBinaryDeserialize cfg io typmod type) =
      .ok datums)
    (hback : ∀ d ∈ datums, ∃ bytes, pgIcebergBinarySerializeBoundValue cfg io typmod d =
      .ok (some bytes) ∧ pgIcebergBinaryDeserialize cfg io typmod type bytes = .ok d) :
    SummaryExact cfg io typmod collation type values datums ↔ none ∈ values ∧
      (∀ m, FirstLeast (pgKey collation) datums m → ∀ d ∈ datums, icebergKey m ≤ icebergKey d) ∧
      ∀ m, FirstLeast (OrderDual.toDual ∘ pgKey collation) datums m →
        ∀ d ∈ datums, icebergKey d ≤ icebergKey m := by
  have hless : ∀ d b, isDatumLessThan collation d b = true ↔ pgKey collation d < pgKey collation b :=
    fun _ _ => decide_eq_true_iff
  have hgreater : ∀ d b, isDatumGreaterThan collation d b = true ↔
      (OrderDual.toDual ∘ pgKey collation) d < (OrderDual.toDual ∘ pgKey collation) b :=
    fun _ _ => decide_eq_true_iff
  obtain ⟨lower, hlower, hmin⟩ := isMinimum_iff _ icebergKey hless hback
  obtain ⟨upper, hupper, hmax⟩ := isMinimum_iff _ (OrderDual.toDual ∘ icebergKey) hgreater hback
  have hsummary : getPartitionFieldSummaryFromDataFiles cfg io typmod collation type values =
      .ok ⟨true, true, lower, upper⟩ := by
    rw [getPartitionFieldSummaryFromDataFiles, hread, ok_bind, hlower, ok_bind, hupper]
    rfl
  unfold SummaryExact
  rw [hsummary]
  simp only [Except.ok.injEq, exists_eq_left', true_iff]
  rw [hmin, hmax]
  rfl

end Summary

def plainIO : TypeIO where
  output
    | .text t | .varchar t | .bpchar t => t
    | _ => ⟨[], by simp⟩
  input type t := if type = .bpchar then .bpchar t else .varchar t
  input_output := by
    rintro d (h | h)
    iterate 2 cases d <;> simp_all [Datum.type]

/-- Two files with the integers 3 and 5, and one with NULL. -/
theorem summary_exact_three_files : SummaryExact .default plainIO none bytewise .int4
      [some (int32Bytes 3), none, some (int32Bytes 5)] [.int4 3, .int4 5] := by
  have hkeys : ∀ d ∈ [Datum.int4 3, .int4 5], pgKey bytewise d = icebergKey d := by
    simp [pgKey_eq_icebergKey, Datum.type]
  refine (summary_exact_iff .default plainIO none bytewise (by rfl) ?_).mpr ⟨by simp, ?_, ?_⟩
  · simp only [forall_mem_cons, not_mem_nil, false_imp_iff, implies_true, and_true]
    exact ⟨⟨_, rfl, by rfl⟩, _, rfl, by rfl⟩
  iterate 2
    intro m hm d hd
    rw [← hkeys m hm.mem, ← hkeys d hd]
    exact hm.le d hd

/-- A collation with capital letters right after the small ones. -/
def dictionary : Collation where
  key t := t.bytes.map fun b =>
    ((if 65 ≤ b.toNat ∧ b.toNat ≤ 90 then 2 * b.toNat + 65 else 2 * b.toNat : ℕ) : ℚ)
  key_injective := by
    rintro ⟨bytes, _⟩ ⟨bytes', _⟩ h
    have hinj : Function.Injective fun b : UInt8 =>
        ((if 65 ≤ b.toNat ∧ b.toNat ≤ 90 then 2 * b.toNat + 65 else 2 * b.toNat : ℕ) : ℚ) := by
      intro b b' hb
      have hb' := Nat.cast_injective (R := ℚ) hb
      refine UInt8.toNat_inj.mp ?_
      split_ifs at hb' <;> omega
    exact (Text.mk.injEq ..).mpr (hinj.list_map h)

/-- Two files with "a" and "B". -/
theorem a_before_capital_b :
    getPartitionFieldSummaryFromDataFiles .default plainIO none dictionary .text
        [some [97, 0], some [66, 0]] = .ok ⟨true, true, some [97], some [66]⟩ ∧
      icebergKey (.text ⟨[66], by decide⟩) < icebergKey (.text ⟨[97], by decide⟩) := by
  constructor
  · rfl
  · decide

end PgLake.Iceberg.PartitionSummary
