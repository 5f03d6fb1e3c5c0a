/-
  Bucket transforms (`murmur.c`, `ApplyBucketTransformToColumn`).

  A value is hashed with the 32-bit Murmur3, numbers and times as 64-bit numbers, and the bucket
  is the hash without its sign bit, modulo the number of buckets.

  Main result: `murmur_and_buckets`.
-/
import PgLake.Fdw.IdentityPartitions

namespace PgLake.Fdw.BucketTransform

open Iceberg.BinarySerde PgLake.Types SignedBytes WireBytes

/-! ## Murmur3 -/

def rotl32 (x r : UInt32) : UInt32 := (x <<< r) ||| (x >>> (32 - r))

def fmix32 (h : UInt32) : UInt32 :=
  let h := h ^^^ (h >>> 16)
  let h := h * 0x85ebca6b
  let h := h ^^^ (h >>> 13)
  let h := h * 0xc2b2ae35
  h ^^^ (h >>> 16)

def mixk1 (k1 : UInt32) : UInt32 :=
  let k1 := k1 * 0xcc9e2d51
  let k1 := rotl32 k1 15
  k1 * 0x1b873593

def mixh1 (seed k1 : UInt32) : UInt32 :=
  let h1 := seed ^^^ k1
  let h1 := rotl32 h1 13
  h1 * 5 + 0xe6546b64

def mixBytes (h1 : UInt32) : Bytes → UInt32
  | a :: b :: c :: d :: data =>
    let k1 := a.toUInt32 ||| (b.toUInt32 <<< 8) ||| (c.toUInt32 <<< 16) ||| (d.toUInt32 <<< 24)
    mixBytes (mixh1 h1 (mixk1 k1)) data
  | [a, b, c] => h1 ^^^ mixk1 ((c.toUInt32 <<< 16) ^^^ (b.toUInt32 <<< 8) ^^^ a.toUInt32)
  | [a, b] => h1 ^^^ mixk1 ((b.toUInt32 <<< 8) ^^^ a.toUInt32)
  | [a] => h1 ^^^ mixk1 a.toUInt32
  | [] => h1

/-- `MurmurHash3_32_Bytes`, with seed 0. -/
def murmurHash3Bytes (key : Bytes) : Int32 :=
  (fmix32 (mixBytes 0 key ^^^ UInt32.ofNat key.length)).toInt32

/-- `MurmurHash3_32_Int`. -/
def murmurHash3Int (key : Int32) : Int32 :=
  let k1 := mixk1 key.toUInt32
  let h1 := mixh1 0 k1
  (fmix32 (h1 ^^^ 4)).toInt32

/-- `MurmurHash3_32_Long`. -/
def murmurHash3Long (key : Int64) : Int32 :=
  let low := key.toUInt64.toUInt32
  let high := (key.toUInt64 >>> 32).toUInt32
  let h1 := mixh1 0 (mixk1 low)
  let h1 := mixh1 h1 (mixk1 high)
  (fmix32 (h1 ^^^ 8)).toInt32

/-! ## Buckets -/

/-- What the transform reads of its column, and the number of buckets. -/
structure BucketColumn where
  settings : NumericSettings
  io : TypeIO
  typmod : Typmod
  bucketCount : ℕ

/-- `(hash & INT32_MAX) % bucketCount`. -/
def bucketOf (bucketCount : ℕ) (hash : Int32) : Int32 :=
  Int32.ofNat ((hash &&& Int32.maxValue).toNatClampNeg % bucketCount)

/-- `ApplyBucketTransformToColumn`: the hash without its sign, modulo the number of buckets. -/
def applyBucketTransformToColumn (t : BucketColumn) (columnValue : Datum) : Except String Int32 :=
  let ofLong (key : Int64) : Except String Int32 := .ok (bucketOf t.bucketCount (murmurHash3Long key))
  let ofBytes (key : Bytes) : Int32 := bucketOf t.bucketCount (murmurHash3Bytes key)
  match columnValue with
  -- the hash of a number does not change with the width of its type
  | .int2 n => ofLong n.toInt64
  | .int4 n => ofLong n.toInt64
  | .int8 n => ofLong n
  | .text s | .varchar s | .bpchar s => .ok (ofBytes s.bytes)
  | .bytea bytes => .ok (ofBytes bytes)
  | .date days => ofLong (adjustDateFromPostgresToUnix days).toInt64
  | .timestamp usecs | .timestamptz usecs => ofLong (adjustTimestampFromPostgresToUnix usecs)
  | .time usecs => ofLong usecs
  | .timetz usecs zone => ofLong (Int64.ofInt (timeTzGetUTCMicros usecs zone))
  | .uuid _ | .numeric _ =>
    (pgIcebergBinarySerialize t.settings t.io t.typmod columnValue).map fun value =>
      ofBytes (value.getD [])
  | .bool _ | .float4 _ | .float8 _ => .error "cannot perform bucket transform on type"

/-! ## Numbers as bytes -/

theorem block_eq (n : ℕ) :
    (UInt8.ofNat n).toUInt32 ||| ((UInt8.ofNat (n / 2 ^ 8)).toUInt32 <<< 8) |||
        ((UInt8.ofNat (n / 2 ^ 16)).toUInt32 <<< 16) |||
        ((UInt8.ofNat (n / 2 ^ 24)).toUInt32 <<< 24) = UInt32.ofNat n := by
  refine UInt32.eq_of_toBitVec_eq (BitVec.eq_of_getLsbD_eq fun i hi => ?_)
  simp [-Nat.reducePow, UInt8.toBitVec_ofNat', UInt32.toBitVec_ofNat', BitVec.getLsbD_ofNat,
    Nat.testBit_div_two_pow]
  generalize n.testBit = bit
  grind

-- otherwise their constants are unfolded when two hashes are compared
attribute [local irreducible] mixh1 mixk1 fmix32

theorem mixBytes_littleEndian (h1 : UInt32) (n : ℕ) (data : Bytes) :
    mixBytes h1 (littleEndian 4 n ++ data) = mixBytes (mixh1 h1 (mixk1 (UInt32.ofNat n))) data := by
  have hbs : littleEndian 4 n = [UInt8.ofNat n, UInt8.ofNat (n / 2 ^ 8),
      UInt8.ofNat (n / 2 ^ 16), UInt8.ofNat (n / 2 ^ 24)] := by
    simp [littleEndian, bigEndian]
  rw [hbs, ← block_eq n]
  rfl

theorem murmurHash3Int_eq (k : Int32) :
    murmurHash3Int k = murmurHash3Bytes (int32Bytes k) := by
  have hk : UInt32.ofNat k.toBitVec.toNat = k.toUInt32 := @UInt32.ofNat_toNat k.toUInt32
  have hmix := mixBytes_littleEndian 0 k.toBitVec.toNat []
  rw [List.append_nil, hk] at hmix
  rw [murmurHash3Bytes, int32Bytes, length_littleEndian, hmix]
  rfl

theorem murmurHash3Long_eq (k : Int64) :
    murmurHash3Long k = murmurHash3Bytes (int64Bytes k) := by
  have hs : ∀ n, littleEndian 8 n = littleEndian 4 n ++ (littleEndian 4 (n / 2 ^ 32) ++ []) := by
    simp [littleEndian, bigEndian, Nat.div_div_eq_div_mul]
  have hh : UInt32.ofNat (k.toBitVec.toNat / 2 ^ 32) = (k.toUInt64 >>> 32).toUInt32 :=
    congrArg UInt32.ofNat (Nat.shiftRight_eq_div_pow ..).symm
  rw [murmurHash3Bytes, int64Bytes, length_littleEndian, hs, mixBytes_littleEndian,
    mixBytes_littleEndian, hh]
  rfl

/-! ## The hashed bytes -/

/-- The types that can be partitioned by bucket. -/
def acceptsBucket (type : Scalar) : Bool := type ∉ [.bool, .float4, .float8]

/-- The bytes of a value that are hashed: integers, dates and times as 64-bit numbers, and decimals
    as their unscaled value. -/
def hashedBytes (t : BucketColumn) : Datum → Bytes
  | .int2 n => int64Bytes n.toInt64
  | .int4 n => int64Bytes n.toInt64
  | .int8 n => int64Bytes n
  | .text s | .varchar s | .bpchar s => s.bytes
  | .bytea bytes => bytes
  | .date days => int64Bytes (adjustDateFromPostgresToUnix days).toInt64
  | .timestamp usecs | .timestamptz usecs => int64Bytes (adjustTimestampFromPostgresToUnix usecs)
  | .time usecs => int64Bytes usecs
  | .timetz usecs zone => int64Bytes (Int64.ofInt (timeTzGetUTCMicros usecs zone))
  | .uuid data => bigEndian 16 data.toNat
  | .numeric (.finite negative integral fraction) => strip negative
    (storedBinary negative (unscaled (icebergScale t.settings t.typmod) integral fraction))
  | .numeric _ | .bool _ | .float4 _ | .float8 _ => []

section

variable {t : BucketColumn} {d d' : Datum}

theorem isDecimal_of_valid {neg : Bool} {whole fraction : Digits}
    (h : (Datum.numeric (.finite neg whole fraction)).Valid t.settings t.typmod) :
    IsDecimal (icebergScale t.settings t.typmod) neg whole fraction := by
  obtain ⟨hdec, hd, hf, hs⟩ := h
  exact ⟨hd, hf.trans (decimal_lt hdec), hs⟩

/-- **A value of an accepted type has a bucket**, that of the hash of its bytes. -/
theorem applyBucketTransformToColumn_eq (hacc : acceptsBucket d.type = true)
    (hv : d.Valid t.settings t.typmod) : applyBucketTransformToColumn t d =
      .ok (bucketOf t.bucketCount (murmurHash3Bytes (hashedBytes t d))) := by
  have hl : ∀ k, .ok (bucketOf t.bucketCount (murmurHash3Long k)) =
      (.ok (bucketOf t.bucketCount (murmurHash3Bytes (int64Bytes k))) : Except String Int32) :=
    fun k => by rw [murmurHash3Long_eq]
  cases d with
  | bool | float4 | float8 => cases hacc
  | text | varchar | bpchar | bytea | uuid => rfl
  | numeric n =>
    have hnot : requiresConversionToIcebergString t.settings t.typmod (Datum.numeric n).type =
        false := numeric_not_string hv.1
    rw [applyBucketTransformToColumn, pgIcebergBinarySerialize, hnot, if_neg Bool.false_ne_true]
    cases n with
    | nan | infinity => rfl
    | finite neg whole frac =>
      rw [numericSerialize_eq (isDecimal_of_valid hv)]
      rfl
  | _ => exact hl _

theorem bucketOf_lt (h : 0 < t.bucketCount) (hash : Int32) :
    0 ≤ (bucketOf t.bucketCount hash).toInt ∧
      (bucketOf t.bucketCount hash).toInt < t.bucketCount := by
  have hhash : (hash &&& Int32.maxValue).toNatClampNeg < 2 ^ 31 := Int32.toNatClampNeg_lt _
  have hlt := Nat.mod_lt (hash &&& Int32.maxValue).toNatClampNeg h
  have hle := Nat.mod_le (hash &&& Int32.maxValue).toNatClampNeg t.bucketCount
  rw [bucketOf, Int32.toInt_ofNat_of_lt (by omega)]
  omega

/-! ## Equal values -/

/-- Integers of any width, or values of one column.  Those of a bpchar column are padded to its
    length. -/
def SameColumn (d d' : Datum) : Prop :=
  d.type ∈ [.int2, .int4, .int8] ∧ d'.type ∈ [.int2, .int4, .int8] ∨
    d.type = d'.type ∧
      ∀ s s', d = .bpchar s → d' = .bpchar s' → s.bytes.length = s'.bytes.length

theorem hashedBytes_int (h : d.type ∈ [.int2, .int4, .int8]) :
    ∃ n : Int64, d.key = [(n.toInt : ℚ)] ∧ hashedBytes t d = int64Bytes n := by
  cases d <;> simp [Datum.type] at h
  case int2 n => exact ⟨n.toInt64, by simp [Datum.key], rfl⟩
  case int4 n => exact ⟨n.toInt64, by simp [Datum.key], rfl⟩
  case int8 n => exact ⟨n, rfl, rfl⟩

theorem textKey_injective : Function.Injective textKey :=
  List.map_injective_iff.mpr fun b b' h => UInt8.toNat.inj (Nat.cast_injective h)

/-- A text is given by its length and what is before the blanks at its end. -/
theorem eq_of_trimmed_eq {bs bs' : Bytes} (hl : bs.length = bs'.length)
    (h : (bs.reverse.dropWhile (· = 32)).reverse = (bs'.reverse.dropWhile (· = 32)).reverse) :
    bs = bs' := by
  have hbl : ∀ bs : Bytes, ∃ n,
      bs.reverse = List.replicate n 32 ++ bs.reverse.dropWhile (· = 32) := by
    intro bs
    refine ⟨(bs.reverse.takeWhile (· = 32)).length, ?_⟩
    have ht : bs.reverse.takeWhile (· = 32) =
        List.replicate (bs.reverse.takeWhile (· = 32)).length 32 :=
      List.eq_replicate_iff.mpr ⟨rfl, fun b hb => by simpa using List.mem_takeWhile_imp hb⟩
    rw [← ht, List.takeWhile_append_dropWhile]
  obtain ⟨n, hn⟩ := hbl bs
  obtain ⟨n', hn'⟩ := hbl bs'
  rw [← List.reverse_inj.mp h] at hn'
  have hc : n = n' := by
    have hlen := congrArg List.length hn
    have hlen' := congrArg List.length hn'
    simp only [List.length_append, List.length_replicate, List.length_reverse] at hlen hlen'
    omega
  exact List.reverse_inj.mp (by rw [hn, hn', hc])

/-- Equal decimals have the same sign and unscaled value. -/
theorem unscaled_eq_of_value_eq {scale : ℕ} {neg neg' : Bool}
    {whole frac whole' frac' : Digits}
    (h : IsDecimal scale neg whole frac)
    (h' : IsDecimal scale neg' whole' frac')
    (hv : Numeric.value neg whole frac =
      Numeric.value neg' whole' frac') :
    neg = neg' ∧
      unscaled scale whole frac = unscaled scale whole' frac' := by
  rw [value_eq_unscaled h.digits, value_eq_unscaled h'.digits] at hv
  have hs := h.sign
  have hs' := h'.sign
  generalize unscaled scale whole frac = n at hv hs ⊢
  generalize unscaled scale whole' frac' = n' at hv hs' ⊢
  have hpos : (0 : ℚ) < 10 ^ scale := by positivity
  have hc : (if neg then -1 else 1) * (n : ℚ) = (if neg' then -1 else 1) * n' := by
    rw [← mul_div_assoc, ← mul_div_assoc] at hv
    exact (div_left_inj' hpos.ne').mp hv
  have hint : (if neg then -1 else 1) * (n : ℤ) = (if neg' then -1 else 1) * n' := by
    exact_mod_cast hc
  cases neg <;> cases neg' <;> simp at hint hs hs' ⊢ <;> omega

/-- **Equal values have the same bytes.** -/
theorem hashedBytes_of_key (hs : SameColumn d d') (hv : d.Valid t.settings t.typmod)
    (hv' : d'.Valid t.settings t.typmod) (h : d.key = d'.key) :
    hashedBytes t d = hashedBytes t d' := by
  have hint : d.type ∈ [.int2, .int4, .int8] → d'.type ∈ [.int2, .int4, .int8] →
      hashedBytes t d = hashedBytes t d' := by
    intro hd hd'
    obtain ⟨n, hk, hbs⟩ := hashedBytes_int (t := t) hd
    obtain ⟨n', hk', hbs'⟩ := hashedBytes_int (t := t) hd'
    have heq : n = n' := by simpa [hk, hk', Int64.toInt_inj] using h
    rw [hbs, hbs', heq]
  rcases hs with ⟨hd, hd'⟩ | ⟨ht, hpadded⟩
  · exact hint hd hd'
  cases d <;> cases d' <;> cases ht
  case bool.bool.refl | float4.float4.refl | float8.float8.refl => rfl
  case int2.int2.refl | int4.int4.refl | int8.int8.refl => exact hint (by simp [Datum.type]) (by simp [Datum.type])
  case date.date.refl n n' =>
    obtain rfl : n = n' := by simpa [Datum.key, Int32.toInt_inj] using h
    rfl
  case timestamp.timestamp.refl n n' | timestamptz.timestamptz.refl n n' | time.time.refl n n' =>
    obtain rfl : n = n' := by simpa [Datum.key, Int64.toInt_inj] using h
    rfl
  case timetz.timetz.refl usecs zone usecs' zone' =>
    simp only [Datum.key, List.cons.injEq, and_true, Int.cast_inj] at h
    obtain ⟨hti, hz⟩ := h
    obtain rfl := Int32.toInt_inj.mp hz
    obtain rfl := Int64.toInt_inj.mp (by exact_mod_cast add_right_cancel hti)
    rfl
  case text.text.refl s s' | varchar.varchar.refl s s' => exact textKey_injective h
  case bytea.bytea.refl bs bs' => exact textKey_injective h
  case bpchar.bpchar.refl s s' => exact eq_of_trimmed_eq (hpadded s s' rfl rfl) (textKey_injective h)
  case uuid.uuid.refl data data' =>
    obtain rfl : data = data' := BitVec.eq_of_toNat_eq (by simpa [Datum.key] using h)
    rfl
  case numeric.numeric.refl n n' =>
    cases n <;> cases n'
    case finite.finite neg whole frac neg' whole' frac' =>
      obtain ⟨rfl, hu⟩ := unscaled_eq_of_value_eq (isDecimal_of_valid hv)
        (isDecimal_of_valid hv') (by simpa [Datum.key, Numeric.key] using h)
      simp only [hashedBytes, hu]
    all_goals first | rfl | simp [Datum.key, Numeric.key] at h

end

end PgLake.Fdw.BucketTransform
