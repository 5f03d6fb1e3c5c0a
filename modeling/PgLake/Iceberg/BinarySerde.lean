/-
  Binary values of partition fields (`iceberg_type_binary_serde.c`).

  Main result: `scalars_round_trip`.
-/
import PgLake.Iceberg.NumericSerde
import PgLake.Lib.MachineInt
import PgLake.Types.PgType

namespace PgLake.Iceberg.BinarySerde

open WireBytes PgLake.Types List

/-! ## Values -/

structure Text where
  bytes : Bytes
  noZero : 0 ∉ bytes

def Text.ofCString (bytes : Bytes) : Text := ⟨cString bytes, zero_notMem_cString bytes⟩

/-- A value.  Floats are given by their bits; a time with time zone has its local time and the
    offset of the zone in seconds west of UTC. -/
inductive Datum where
  | bool (b : Bool)
  | int2 (n : Int16)
  | int4 (n : Int32)
  | int8 (n : Int64)
  | float4 (bits : UInt32)
  | float8 (bits : UInt64)
  | date (days : Int32)
  | timestamp (usecs : Int64)
  | timestamptz (usecs : Int64)
  | time (usecs : Int64)
  | timetz (time : Int64) (zone : Int32)
  | text (t : Text)
  | varchar (t : Text)
  | bpchar (t : Text)
  | bytea (bytes : Bytes)
  | numeric (n : Numeric)
  | uuid (data : BitVec 128)

/-- The type of a datum. -/
def Datum.type : Datum → Scalar
  | .bool _ => .bool
  | .int2 _ => .int2
  | .int4 _ => .int4
  | .int8 _ => .int8
  | .float4 _ => .float4
  | .float8 _ => .float8
  | .date _ => .date
  | .timestamp _ => .timestamp
  | .timestamptz _ => .timestamptz
  | .time _ => .time
  | .timetz .. => .timetz
  | .text _ => .text
  | .varchar _ => .varchar
  | .bpchar _ => .bpchar
  | .bytea _ => .bytea
  | .numeric _ => .numeric
  | .uuid _ => .uuid

/-- The output and input functions of the types that are stored as strings, with the type
    modifier of the column. -/
structure TypeIO where
  output : Datum → Text
  input : Scalar → Text → Datum
  input_output : ∀ d, d.type = .varchar ∨ d.type = .bpchar → input d.type (output d) = d

def usecsPerSec : ℤ := 1000000

def usecsPerHour : ℤ := 3600000000

def usecsPerDay : ℤ := 86400000000

def postgresToUnixEpochDiffInDays : Int32 := 10957

def postgresToUnixEpochDiffInMicrosecs : Int64 := 946684800000000

def adjustDateFromPostgresToUnix (date : Int32) : Int32 := date + postgresToUnixEpochDiffInDays

def adjustDateFromUnixToPostgres (date : Int32) : Int32 := date - postgresToUnixEpochDiffInDays

def adjustTimestampFromPostgresToUnix (ts : Int64) : Int64 :=
  ts + postgresToUnixEpochDiffInMicrosecs

def adjustTimestampFromUnixToPostgres (ts : Int64) : Int64 :=
  ts - postgresToUnixEpochDiffInMicrosecs

/-- `TimeTzGetUTCMicros`, in `[0, USECS_PER_DAY)`. -/
def timeTzGetUTCMicros (time : Int64) (zone : Int32) : ℤ :=
  let utcMicros := time.toInt + zone.toInt * usecsPerSec
  (utcMicros.tmod usecsPerDay + usecsPerDay).tmod usecsPerDay

def isFinite4 (bits : UInt32) : Bool := bits.toNat / 2 ^ 23 % 2 ^ 8 ≠ 2 ^ 8 - 1

def isFinite8 (bits : UInt64) : Bool := bits.toNat / 2 ^ 52 % 2 ^ 11 ≠ 2 ^ 11 - 1

/-- Four bytes, the lowest first. -/
def int32Bytes (n : Int32) : Bytes := littleEndian 4 n.toBitVec.toNat

/-- Eight bytes, the lowest first. -/
def int64Bytes (n : Int64) : Bytes := littleEndian 8 n.toBitVec.toNat

def bytesInt32 (bytes : Bytes) : Int32 := Int32.ofBitVec (BitVec.ofNat 32 (ofLittleEndian bytes))

def bytesInt64 (bytes : Bytes) : Int64 := Int64.ofBitVec (BitVec.ofNat 64 (ofLittleEndian bytes))

section Code
variable (cfg : NumericSettings) (io : TypeIO) (typmod : Typmod)

/-- `PGTypeRequiresConversionToIcebergString`. -/
def requiresConversionToIcebergString (type : Scalar) : Bool :=
  type.icebergName cfg typmod = .string ∧ type ≠ .text

def icebergScale : ℕ := (adjustedPrecisionAndScale cfg typmod).scale.toNat

/-- `PGIcebergBinarySerializePartitionFieldValue`: texts are stored with a zero byte, and `none`
    is the NULL pointer with length 0. -/
def pgIcebergBinarySerialize (datum : Datum) : Except String (Option Bytes) :=
  if requiresConversionToIcebergString cfg typmod datum.type then
    .ok (some ((io.output datum).bytes ++ [0]))
  else
    match datum with
    | .bool b => .ok (some [if b then 1 else 0])
    -- stored as int32
    | .int2 n => .ok (some (int32Bytes n.toInt32))
    | .int4 n => .ok (some (int32Bytes n))
    | .int8 n => .ok (some (int64Bytes n))
    | .float4 bits => .ok (if isFinite4 bits then some (littleEndian 4 bits.toNat) else none)
    | .float8 bits => .ok (if isFinite8 bits then some (littleEndian 8 bits.toNat) else none)
    | .date days => .ok (some (int32Bytes (adjustDateFromPostgresToUnix days)))
    | .timestamp usecs | .timestamptz usecs =>
      .ok (some (int64Bytes (adjustTimestampFromPostgresToUnix usecs)))
    | .time usecs => .ok (some (int64Bytes usecs))
    | .timetz time zone => .ok (some (int64Bytes (Int64.ofInt (timeTzGetUTCMicros time zone))))
    | .text t => .ok (some (t.bytes ++ [0]))
    | .bytea bytes => .ok (some bytes)
    | .numeric n => numericSerialize (icebergScale cfg typmod) n
    | .uuid data => .ok (some (bigEndian 16 data.toNat))
    | .varchar _ | .bpchar _ => .error "unsupported type for binary serialization"

/-- `PGIcebergBinarySerializeBoundValue`: the same, with no zero byte after texts. -/
def pgIcebergBinarySerializeBoundValue (datum : Datum) : Except String (Option Bytes) :=
  if requiresConversionToIcebergString cfg typmod datum.type then
    .ok (some (io.output datum).bytes)
  else
    match datum with
    | .text t => .ok (some t.bytes)
    | _ => pgIcebergBinarySerialize cfg io typmod datum

/-- `PGIcebergBinaryDeserialize`. -/
def pgIcebergBinaryDeserialize (type : Scalar) (bytes : Bytes) : Except String Datum :=
  if requiresConversionToIcebergString cfg typmod type then
    .ok (io.input type (Text.ofCString bytes))
  else
    match type with
    | .bool => .ok (.bool (bytes.head? = some 1))
    | .int2 => .ok (.int2 (bytesInt32 bytes).toInt16)
    | .int4 => .ok (.int4 (bytesInt32 bytes))
    | .int8 => .ok (.int8 (bytesInt64 bytes))
    | .float4 => .ok (.float4 (UInt32.ofNat (ofLittleEndian bytes)))
    | .float8 => .ok (.float8 (UInt64.ofNat (ofLittleEndian bytes)))
    | .date => .ok (.date (adjustDateFromUnixToPostgres (bytesInt32 bytes)))
    | .timestamp => .ok (.timestamp (adjustTimestampFromUnixToPostgres (bytesInt64 bytes)))
    | .timestamptz => .ok (.timestamptz (adjustTimestampFromUnixToPostgres (bytesInt64 bytes)))
    | .time => .ok (.time (bytesInt64 bytes))
    | .timetz => .ok (.timetz (bytesInt64 bytes) 0)
    | .text => .ok (.text (Text.ofCString bytes))
    | .bytea => .ok (.bytea bytes)
    | .numeric => .ok (.numeric (numericDeserialize (icebergScale cfg typmod) bytes))
    | .uuid => .ok (.uuid (BitVec.ofNat 128 (ofBigEndian bytes)))
    | _ => .error "unsupported type for binary deserialization"

end Code

/-! ## Equality of values -/

/-- `0` and `-0` are equal, and so are all NaNs. -/
def floatKey (isNaN : Bool) (negativeZero bits : ℕ) : List ℚ :=
  if isNaN then [] else [if bits = negativeZero then 0 else bits]

def Numeric.key : Numeric → List ℚ
  | .nan => []
  | .infinity negative => [if negative then -1 else 1, 0]
  | .finite negative integral fraction => [Numeric.value negative integral fraction]

def textKey (bytes : Bytes) : List ℚ := bytes.map fun b => (b.toNat : ℚ)

/-- What is compared of a value.  Times with time zone are compared in UTC and then by zone, and
    blanks at the end of a bpchar do not count. -/
def Datum.key : Datum → List ℚ
  | .bool b => [if b then 1 else 0]
  | .int2 n => [n.toInt]
  | .int4 n => [n.toInt]
  | .int8 n => [n.toInt]
  | .float4 bits =>
    floatKey (!isFinite4 bits && bits.toNat % 2 ^ 23 ≠ 0) (2 ^ 31) bits.toNat
  | .float8 bits =>
    floatKey (!isFinite8 bits && bits.toNat % 2 ^ 52 ≠ 0) (2 ^ 63) bits.toNat
  | .date days => [days.toInt]
  | .timestamp usecs => [usecs.toInt]
  | .timestamptz usecs => [usecs.toInt]
  | .time usecs => [usecs.toInt]
  | .timetz usecs zone => [usecs.toInt + zone.toInt * usecsPerSec, zone.toInt]
  | .text t => textKey t.bytes
  | .varchar t => textKey t.bytes
  | .bpchar t => textKey (t.bytes.reverse.dropWhile (· = 32)).reverse
  | .bytea bytes => textKey bytes
  | .numeric n => n.key
  | .uuid data => [data.toNat]

/-! ## Values that come back -/

/-- A value of a column with this modifier.  A numeric column has a modifier that can be stored as
    a decimal: other ones are made float8 columns or refused when a table is created. -/
def Datum.Valid (cfg : NumericSettings) (typmod : Typmod) : Datum → Prop
  | .numeric n =>
    let decimal := adjustedPrecisionAndScale cfg typmod
    canPushdownNumericToDuckdb decimal = true ∧ match n with
      | .finite negative integral fraction =>
        fraction.length ≤ decimal.scale.toNat ∧
          unscaled decimal.scale.toNat integral fraction < 10 ^ decimal.precision.toNat ∧
          (negative = true → 0 < unscaled decimal.scale.toNat integral fraction)
      | _ => True
  | .timetz usecs zone =>
    (0 ≤ usecs.toInt ∧ usecs.toInt ≤ usecsPerDay) ∧ -57600 < zone.toInt ∧ zone.toInt < 57600
  | _ => True

def Datum.Survives : Datum → Prop
  | .float4 bits => isFinite4 bits = true
  | .float8 bits => isFinite8 bits = true
  | .numeric (.finite ..) => True
  | .numeric _ => False
  | .bytea bytes => bytes ≠ []
  | .timetz usecs zone => zone = 0 ∧ usecs.toInt < usecsPerDay
  | _ => True

/-! ## Round trips -/

theorem bytesInt32_int32Bytes (n : Int32) : bytesInt32 (int32Bytes n) = n := by
  have hr : ofLittleEndian (int32Bytes n) = n.toBitVec.toNat :=
    ofLittleEndian_littleEndian n.toBitVec.isLt
  rw [bytesInt32, hr, BitVec.ofNat_toNat, BitVec.setWidth_eq, Int32.ofBitVec_toBitVec]

theorem bytesInt64_int64Bytes (n : Int64) : bytesInt64 (int64Bytes n) = n := by
  have hr : ofLittleEndian (int64Bytes n) = n.toBitVec.toNat :=
    ofLittleEndian_littleEndian n.toBitVec.isLt
  rw [bytesInt64, hr, BitVec.ofNat_toNat, BitVec.setWidth_eq, Int64.ofBitVec_toBitVec]

theorem int32Bytes_ne_nil (n : Int32) : int32Bytes n ≠ [] :=
  ne_nil_of_length_eq_add_one (length_littleEndian 4 _)

theorem int64Bytes_ne_nil (n : Int64) : int64Bytes n ≠ [] :=
  ne_nil_of_length_eq_add_one (length_littleEndian 8 _)

open Text Except Datum

theorem Text.ofCString_zero (t : Text) : ofCString (t.bytes ++ [0]) = t := by
  obtain ⟨bs, hbs⟩ := t
  rw [ofCString, mk.injEq]
  exact cString_append hbs

variable {d : Datum}

section RoundTrip
variable {cfg : NumericSettings} {io : TypeIO} {typmod : Typmod}

/-- The value is stored with bytes, and read back as another one. -/
def ReadAs (cfg : NumericSettings) (io : TypeIO) (typmod : Typmod) (d d' : Datum) : Prop :=
  ∃ bytes, pgIcebergBinarySerialize cfg io typmod d = .ok (some bytes) ∧ bytes ≠ [] ∧
    pgIcebergBinaryDeserialize cfg io typmod d.type bytes = .ok d'

theorem readAs_of_string (ht : d.type = .varchar ∨ d.type = .bpchar)
    (h : requiresConversionToIcebergString cfg typmod d.type = true) :
    ReadAs cfg io typmod d d := by
  have hser : pgIcebergBinarySerialize cfg io typmod d =
      .ok (some ((io.output d).bytes ++ [0])) := by
    unfold pgIcebergBinarySerialize
    rw [if_pos h]
  refine ⟨_, hser, append_ne_nil_of_right_ne_nil _ (cons_ne_nil _ _), ?_⟩
  unfold pgIcebergBinaryDeserialize
  rw [if_pos h, ofCString_zero, io.input_output d ht]

theorem numeric_not_string
    (h : canPushdownNumericToDuckdb (adjustedPrecisionAndScale cfg typmod) = true) :
    requiresConversionToIcebergString cfg typmod .numeric = false := by
  simp [requiresConversionToIcebergString, Scalar.icebergName, decimalOf, h]

theorem decimal_lt {n : NumericTypmod} (h : canPushdownNumericToDuckdb n = true) :
    10 ^ n.precision.toNat < 2 ^ 127 := by
  have hp : n.precision.toNat ≤ 38 := by
    simp only [canPushdownNumericToDuckdb, duckdbMaxNumericPrecision, Bool.and_eq_true,
      Bool.not_eq_true'] at h
    have hle := of_decide_eq_false h.1.2
    omega
  exact lt_of_le_of_lt (Nat.pow_le_pow_right (by decide) hp) (by decide)

theorem readAs_timetz (usecs : Int64) (zone : Int32) :
    ReadAs cfg io typmod (.timetz usecs zone)
      (.timetz (Int64.ofInt (timeTzGetUTCMicros usecs zone)) 0) := by
  refine ⟨_, rfl, int64Bytes_ne_nil _, ?_⟩
  show ok (timetz _ _) = _
  rw [bytesInt64_int64Bytes]

theorem utcMicros_eq (usecs : Int64) (zone : Int32) :
    timeTzGetUTCMicros usecs zone = (usecs.toInt + zone.toInt * usecsPerSec) % usecsPerDay :=
  MachineInt.tmod_add_tmod (by decide)

theorem utcMicros_eq_self {usecs : Int64} (h : 0 ≤ usecs.toInt) (hday : usecs.toInt < usecsPerDay) :
    timeTzGetUTCMicros usecs 0 = usecs.toInt := by
  have hz : (0 : Int32).toInt = 0 := rfl
  rw [utcMicros_eq, hz, zero_mul, add_zero, Int.emod_eq_of_lt h hday]

def hasExactForm : Scalar → Bool
  | .bool | .int2 | .int4 | .int8 | .date | .timestamp | .timestamptz | .time | .timetz | .text
  | .varchar | .bytea | .uuid => true
  | _ => false

/-- The datum after a round trip: a time with time zone moves to UTC. -/
def Datum.normalized : Datum → Datum
  | .timetz usecs zone =>
    .timetz (Int64.ofInt ((usecs.toInt + zone.toInt * usecsPerSec) % usecsPerDay)) 0
  | d => d

variable (io) in
theorem readAs_normalized (h : hasExactForm d.type = true) (hne : d ≠ .bytea []) :
    ReadAs cfg io typmod d d.normalized := by
  cases d with
  | bool b => exact ⟨[if b then 1 else 0], rfl, cons_ne_nil _ _, by cases b <;> rfl⟩
  | int2 n =>
    refine ⟨_, rfl, int32Bytes_ne_nil _, ?_⟩
    show ok (int2 _) = _
    rw [bytesInt32_int32Bytes, Int16.toInt16_toInt32]
    rfl
  | int4 n =>
    refine ⟨_, rfl, int32Bytes_ne_nil _, ?_⟩
    show ok (int4 _) = _
    rw [bytesInt32_int32Bytes]
    rfl
  | int8 n =>
    refine ⟨_, rfl, int64Bytes_ne_nil _, ?_⟩
    show ok (int8 _) = _
    rw [bytesInt64_int64Bytes]
    rfl
  | date =>
    refine ⟨_, rfl, int32Bytes_ne_nil _, ?_⟩
    show ok (date _) = _
    rw [bytesInt32_int32Bytes, adjustDateFromUnixToPostgres, adjustDateFromPostgresToUnix,
      Int32.add_sub_cancel]
    rfl
  | timestamp =>
    refine ⟨_, rfl, int64Bytes_ne_nil _, ?_⟩
    show ok (timestamp _) = _
    rw [bytesInt64_int64Bytes, adjustTimestampFromUnixToPostgres, adjustTimestampFromPostgresToUnix,
      Int64.add_sub_cancel]
    rfl
  | timestamptz =>
    refine ⟨_, rfl, int64Bytes_ne_nil _, ?_⟩
    show ok (timestamptz _) = _
    rw [bytesInt64_int64Bytes, adjustTimestampFromUnixToPostgres, adjustTimestampFromPostgresToUnix,
      Int64.add_sub_cancel]
    rfl
  | time =>
    refine ⟨_, rfl, int64Bytes_ne_nil _, ?_⟩
    show ok (time _) = _
    rw [bytesInt64_int64Bytes]
    rfl
  | timetz usecs zone =>
    have hr := @readAs_timetz cfg io typmod usecs zone
    rwa [utcMicros_eq] at hr
  | text t =>
    refine ⟨_, rfl, append_ne_nil_of_right_ne_nil _ (cons_ne_nil _ _), ?_⟩
    show ok (text _) = _
    rw [ofCString_zero]
    rfl
  | varchar t => exact readAs_of_string (.inl rfl) rfl
  | bytea bs => exact ⟨bs, rfl, fun hnil => hne (congrArg bytea hnil), rfl⟩
  | uuid data =>
    have hr : ofBigEndian (bigEndian 16 data.toNat) = data.toNat :=
      ofBigEndian_bigEndian data.isLt
    refine ⟨_, rfl, ne_nil_of_length_eq_add_one (length_bigEndian 16 _), ?_⟩
    show ok (uuid _) = _
    rw [hr, BitVec.ofNat_toNat, BitVec.setWidth_eq]
    rfl
  | float4 | float8 | bpchar | numeric => cases h

variable (io) in
/-- **The values that survive are read back as equal ones.** -/
theorem readAs_of_survives (hva : d.Valid cfg typmod) (h : d.Survives) :
    ∃ d', ReadAs cfg io typmod d d' ∧ d'.type = d.type ∧ d'.key = d.key := by
  cases d with
  | bool | int2 | int4 | int8 | date | timestamp | timestamptz | time | text | varchar | uuid =>
    exact ⟨_, readAs_normalized io rfl (by rintro ⟨⟩), rfl, rfl⟩
  | bytea =>
    exact ⟨_, readAs_normalized io rfl (fun heq => h (bytea.inj heq)), rfl, rfl⟩
  | float4 bits =>
    have hr : ofLittleEndian (littleEndian 4 bits.toNat) = bits.toNat :=
      ofLittleEndian_littleEndian bits.toNat_lt
    refine ⟨.float4 bits, ⟨littleEndian 4 bits.toNat, ?_, ?_, ?_⟩, rfl, rfl⟩
    · exact congrArg ok (if_pos h)
    · exact ne_nil_of_length_eq_add_one (length_littleEndian 4 _)
    · show ok (float4 _) = _
      rw [hr, UInt32.ofNat_toNat]
  | float8 bits =>
    have hr : ofLittleEndian (littleEndian 8 bits.toNat) = bits.toNat :=
      ofLittleEndian_littleEndian bits.toNat_lt
    refine ⟨.float8 bits, ⟨littleEndian 8 bits.toNat, ?_, ?_, ?_⟩, rfl, rfl⟩
    · exact congrArg ok (if_pos h)
    · exact ne_nil_of_length_eq_add_one (length_littleEndian 8 _)
    · show ok (float8 _) = _
      rw [hr, UInt64.ofNat_toNat]
  | timetz usecs =>
    obtain ⟨rfl, hday⟩ := h
    refine ⟨_, readAs_timetz usecs 0, rfl, ?_⟩
    rw [utcMicros_eq_self hva.1.1 hday, Int64.ofInt_toInt]
  | bpchar t => exact ⟨_, readAs_of_string (.inr rfl) rfl, rfl, rfl⟩
  | numeric n =>
    match n, h with
    | .finite negative whole frac, _ =>
      obtain ⟨hdec, hd, hf, hs⟩ := hva
      have hnot := numeric_not_string hdec
      obtain ⟨bs, whole', frac', hser, hne, hr, hv⟩ :=
        numeric_roundTrip ⟨hd, hf.trans (decimal_lt hdec), hs⟩
      refine ⟨.numeric (.finite negative whole' frac'), ⟨bs, ?_, hne, ?_⟩, rfl, ?_⟩
      · unfold pgIcebergBinarySerialize
        rw [type, if_neg (by rw [hnot]; exact Bool.false_ne_true)]
        exact hser
      · unfold pgIcebergBinaryDeserialize
        rw [type, if_neg (by rw [hnot]; exact Bool.false_ne_true)]
        exact congrArg (fun n => ok (numeric n)) hr
      · rw [key, key, Numeric.key, Numeric.key, hv]

theorem utcMicros_range (usecs : Int64) (zone : Int32) :
    0 ≤ timeTzGetUTCMicros usecs zone ∧ timeTzGetUTCMicros usecs zone < usecsPerDay := by
  rw [utcMicros_eq]
  exact ⟨Int.emod_nonneg _ (by decide), Int.emod_lt_of_pos _ (by decide)⟩

variable (io) in
/-- **The others have no bytes, or are read back as different ones.** -/
theorem lost_of_not_survives (hv : d.Valid cfg typmod) (h : ¬ d.Survives) :
    (∃ v, pgIcebergBinarySerialize cfg io typmod d = .ok v ∧ v.getD [] = []) ∨
      ∃ d', ReadAs cfg io typmod d d' ∧ d'.type = d.type ∧ d'.key ≠ d.key := by
  cases d with
  | float4 bits | float8 bits => exact .inl ⟨none, congrArg ok (if_neg h), rfl⟩
  | numeric n =>
    refine .inl ⟨none, ?_, rfl⟩
    have hnot := numeric_not_string hv.1
    unfold pgIcebergBinarySerialize
    rw [type, if_neg (by rw [hnot]; exact Bool.false_ne_true)]
    match n, h with
    | .nan, _ => rfl
    | .infinity _, _ => rfl
    | .finite .., h => exact absurd trivial h
  | bytea bs => exact .inl ⟨some bs, rfl, not_ne_iff.mp h⟩
  | timetz usecs zone =>
    refine .inr ⟨_, readAs_timetz usecs zone, rfl, fun heq => h ?_⟩
    obtain ⟨hutc, hz, -⟩ : _ ∧ _ ∧ _ := by
      simpa only [key, List.cons.injEq, Int.cast_inj] using heq
    have hz' : zone = 0 := Int32.toInt_inj.mp (Int.cast_injective hz).symm
    subst hz'
    have hday := utcMicros_range usecs 0
    have hr : (Int64.ofInt (timeTzGetUTCMicros usecs 0)).toInt = timeTzGetUTCMicros usecs 0 :=
      Int64.toInt_ofInt_of_le (le_trans (by decide) hday.1) (lt_trans hday.2 (by decide))
    have hutc' : timeTzGetUTCMicros usecs 0 = usecs.toInt := by
      rw [hr] at hutc
      exact_mod_cast (by simpa using hutc)
    exact ⟨rfl, hutc' ▸ hday.2⟩
  | bool | int2 | int4 | int8 | date | timestamp | timestamptz | time | text | varchar | bpchar
  | uuid => exact absurd trivial h

/-! ## Exact types -/

theorem Text.ofCString_bytes (t : Text) : ofCString t.bytes = t := by
  obtain ⟨bs, hbs⟩ := t
  rw [ofCString, mk.injEq, cString, takeWhile_eq_self_iff]
  intro b hb
  exact decide_eq_true fun heq => hbs (heq ▸ hb)

/-- The value is stored with bytes that are read as another one. -/
def Stores (serialize : Datum → Except String (Option Bytes)) (cfg : NumericSettings)
    (io : TypeIO) (typmod : Typmod) (d d' : Datum) : Prop :=
  ∃ bytes, serialize d = .ok (some bytes) ∧
    pgIcebergBinaryDeserialize cfg io typmod d.type bytes = .ok d'

variable (cfg io typmod)

theorem stores_normalized (h : hasExactForm d.type = true) :
    Stores (pgIcebergBinarySerialize cfg io typmod) cfg io typmod d d.normalized := by
  by_cases hnil : d = .bytea []
  · rw [hnil]
    exact ⟨[], rfl, rfl⟩
  · obtain ⟨bs, hser, -, hr⟩ := readAs_normalized io h hnil
    exact ⟨bs, hser, hr⟩

theorem stores_normalized_bound (h : hasExactForm d.type = true) :
    Stores (pgIcebergBinarySerializeBoundValue cfg io typmod) cfg io typmod d
      d.normalized := by
  obtain ⟨bs, hser, hr⟩ := stores_normalized cfg io typmod h
  cases d with
  | text t =>
    refine ⟨t.bytes, rfl, ?_⟩
    show ok (text _) = _
    rw [ofCString_bytes]
    rfl
  | varchar t =>
    refine ⟨(io.output (.varchar t)).bytes, rfl, ?_⟩
    show ok (io.input .varchar _) = _
    rw [ofCString_bytes]
    exact congrArg ok (io.input_output (.varchar t) (.inl rfl))
  | bool | int2 | int4 | int8 | date | timestamp | timestamptz | time | timetz | bytea | uuid =>
    exact ⟨bs, hser, hr⟩
  | float4 | float8 | bpchar | numeric => cases h

theorem serialize_ne_of_stores {serialize : Datum → Except String (Option Bytes)} {d d' e e' : Datum}
    (h : Stores serialize cfg io typmod d e) (h' : Stores serialize cfg io typmod d' e')
    (ht : d'.type = d.type) (hne : e ≠ e') : serialize d ≠ serialize d' := by
  obtain ⟨bs, hser, hr⟩ := h
  obtain ⟨bs', hser', hr'⟩ := h'
  intro heq
  rw [hser, hser'] at heq
  cases heq
  rw [ht, hr] at hr'
  exact hne (ok.inj hr')

/-- A datum whose type has an exact binary form. -/
abbrev ExactDatum := {d : Datum // hasExactForm d.type = true}

/-- **Both serializers are round trips** for the types with an exact form, up to the time zone of
    times, and so different values of a type have different bytes. -/
theorem scalars_round_trip (d d' : ExactDatum) :
    (Stores (pgIcebergBinarySerialize cfg io typmod) cfg io typmod d d.1.normalized ∧
      Stores (pgIcebergBinarySerializeBoundValue cfg io typmod) cfg io typmod d
        d.1.normalized) ∧
    (d'.1.type = d.1.type → d.1.normalized ≠ d'.1.normalized →
      pgIcebergBinarySerialize cfg io typmod d ≠
          pgIcebergBinarySerialize cfg io typmod d' ∧
        pgIcebergBinarySerializeBoundValue cfg io typmod d ≠
          pgIcebergBinarySerializeBoundValue cfg io typmod d') := by
  have hstores := stores_normalized cfg io typmod d.2
  have hbound := stores_normalized_bound cfg io typmod d.2
  refine ⟨⟨hstores, hbound⟩, ?_⟩
  intro htype hne
  exact ⟨serialize_ne_of_stores cfg io typmod hstores
      (stores_normalized cfg io typmod d'.2) htype hne,
    serialize_ne_of_stores cfg io typmod hbound
      (stores_normalized_bound cfg io typmod d'.2) htype hne⟩

end RoundTrip

end PgLake.Iceberg.BinarySerde
