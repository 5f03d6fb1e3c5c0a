/-
  Partition values of writes that are pushed down to DuckDB (`fdw/partition_pushdown.c`).

  DuckDB evaluates an expression for each field of the partition spec on the query that is
  written, and prints its value in `partition_keys`, from where Postgres reads it.

  Main result: `pushdown_same_partition_iff`.
-/
import PgLake.Fdw.TemporalPartitions
import PgLake.Iceberg.PartitionSummary
import PgLake.Lib.Json

namespace PgLake.Fdw.PartitionPushdown

open Gregorian TemporalPartitions PgLake.Types WireBytes Fallible Lib List
open Iceberg.BinarySerde hiding Text adjustTimestampFromPostgresToUnix
open Pruning (TransformType)
open Iceberg.PartitionSummary ( plainIO)

/-- `PartitionTransformToDuckDBExpression`, whether there is one. -/
def hasExpression : TransformType → Scalar → Bool
  | .identity, s => s ∈ [.int2, .int4, .int8, .float4, .float8, .numeric, .bool, .text, .varchar,
      .bpchar, .date, .timestamp, .timestamptz, .uuid, .time, .timetz]
  | .year, s | .month, s | .day, s => s ∈ [.date, .timestamp, .timestamptz]
  | .hour, s => s ∈ [.timestamp, .timestamptz]
  | _, _ => false

def temporal : Datum → Option (TemporalType × ℤ)
  | .date days => some (.date, days.toInt)
  | .timestamp usecs => some (.timestamp, usecs.toInt)
  | .timestamptz usecs => some (.timestamptz, usecs.toInt)
  | _ => none

inductive DuckValue where
  | datum (d : Datum)
  | integer (n : ℤ)

/-- The column in the rewritten query: a timetz is a TIME in UTC. -/
def rewritten : Datum → Datum
  | .timetz usecs zone => .time (Int64.ofInt (timeTzGetUTCMicros usecs zone))
  | d => d

def datediff (unit first last : ℤ) : ℤ := last / unit - first / unit

def unixEpochDay : ℤ := 719162

/-- The value of the expression, in the Gregorian calendar.  A timestamptz is converted to UTC, in which it is kept. -/
def duckExpression (transform : TransformType) (d : Datum) : DuckValue :=
  match transform, temporal d with
  | .year, some (type, v) => .integer ((ofDayNumber (type.dayNumber v)).year - 1970)
  | .month, some (type, v) =>
    .integer (((ofDayNumber (type.dayNumber v)).year - 1970) * 12 + (ofDayNumber (type.dayNumber v)).month - 1)
  | .day, some (type, v) => .integer (datediff 1 unixEpochDay (type.dayNumber v))
  | .hour, some (_, v) => .integer (datediff usecsPerHour (-946684800000000) v)
  | _, _ => .datum (rewritten d)

def isFloat (s : Scalar) : Bool := s = .float4 || s = .float8

/-- How DuckDB prints a value as a text in `τ` and Postgres reads it.  A TIME is printed without an offset, and read
    as a timetz in the time zone of the session. -/
structure TextIO (τ : Type) where
  sessionZone : Int32
  sessionZone_lt : -57600 < sessionZone.toInt ∧ sessionZone.toInt < 57600
  print : DuckValue → τ
  input : Scalar → τ → Except String Datum
  output : Datum → τ
  input_print : ∀ d, d.type ≠ .timetz → isFloat d.type = false →
    input d.type (print (.datum d)) = .ok d
  input_time : ∀ usecs, input .timetz (print (.datum (.time usecs))) = .ok (.timetz usecs sessionZone)
  input_integer : ∀ n, -2 ^ 31 ≤ n → n < 2 ^ 31 →
    input .int4 (print (.integer n)) = .ok (.int4 (Int32.ofInt n))
  input_output : ∀ d, isFloat d.type = false → input d.type (output d) = .ok d

/-- A field of the spec, with the value of its column in a row. -/
structure RowField where
  transform : TransformType
  type : Scalar
  typmod : Typmod
  value : Option Datum

def RowField.resultType (f : RowField) : Scalar :=
  if f.transform = .identity then f.type else .int4

section Code
variable {τ : Type} (cfg : NumericSettings) (io : TypeIO) (text : TextIO τ)

def normalizeDuckDBTextToPGText (type : Scalar) (duckdbText : τ) : Except String τ :=
  (text.input type duckdbText).map text.output

def datumToPartitionValue (f : RowField) (d : Datum) : Except String (Option Bytes) :=
  if f.transform = .identity then pgIcebergBinarySerialize cfg io f.typmod d
  else match d with
    | .int4 n => .ok (some (int32Bytes n))
    | _ => .error "unexpected partition value"

/-- A text of `partition_keys` as a partition value. -/
def convertText (f : RowField) : Option τ → Except String (Option Bytes)
  | none => .ok none
  | some duckdbText => do
    let normalizedText ← normalizeDuckDBTextToPGText text f.resultType duckdbText
    let d ← text.input f.resultType normalizedText
    datumToPartitionValue cfg io f d

/-- `PARTITION_COLUMN_PREFIX`. -/
def partitionColumnPrefix' : Text := "__pglake_part_".toList

def parseKey (numTransforms : ℕ) (key : Text) : Except String ℕ :=
  if partitionColumnPrefix'.isPrefixOf key then
    match Decimal.digits (key.drop partitionColumnPrefix'.length) with
    | some partIndex =>
      if partIndex < numTransforms then .ok partIndex else .error "unexpected partition key"
    | none => .error "invalid input syntax for type integer"
  else .error "unexpected partition key name"

def collectTexts (numTransforms : ℕ) (entries : List (Text × Option τ)) :
    Except String (ℕ → Option τ) :=
  entries.foldlM (fun texts entry => do
    let partIndex ← parseKey numTransforms entry.1
    return Function.update texts partIndex entry.2) fun _ => none

/-- `ParsePartitionValuesFromPartitionKeys`: the stored values for the keys that DuckDB returns. -/
def parsePartitionValuesFromPartitionKeys (spec : List RowField)
    (entries : List (Text × Option τ)) : Except String (List (Option Bytes)) := do
  let texts ← collectTexts spec.length entries
  spec.zipIdx.mapM fun f => convertText cfg io text f.1 (texts f.2)

/-- `partition_keys` of a row. -/
def RowField.printed (f : RowField) : Option τ :=
  f.value.map fun d => text.print (duckExpression f.transform d)

/-- The keys that DuckDB returns for a row. -/
def partitionKeys (spec : List RowField) : List (Text × Option τ) :=
  (spec.map (RowField.printed text)).zipIdx.map fun t =>
    (partitionColumnPrefix' ++ Nat.toDigits 10 t.2, t.1)

/-- `ApplyPartitionTransformToTuple`. -/
def applyPartitionTransform (cal : Calendar) (f : RowField) : Except String (Option Bytes) :=
  match f.value with
  | none => .ok none
  | some d =>
    if f.transform = .identity then pgIcebergBinarySerialize cfg io f.typmod d
    else match temporal d with
      | some (type, v) =>
        ((applyTransform cal f.transform type v).mapError fun _ => "timestamp out of range").map
          fun n => some (int32Bytes (Int32.ofInt n))
      | none => .error "cannot perform transform on type"

end Code

/-! ## The texts by index -/

theorem parseKey_key {numTransforms i : ℕ} (h : i < numTransforms) :
    parseKey numTransforms (partitionColumnPrefix' ++ Nat.toDigits 10 i) = .ok i := by
  have hpre : partitionColumnPrefix'.isPrefixOf (partitionColumnPrefix' ++ Nat.toDigits 10 i) = true :=
    isPrefixOf_iff_prefix.mpr (prefix_append _ _)
  rw [parseKey, if_pos hpre, drop_left, Decimal.digits_toDigits]
  exact if_pos h

theorem collectTexts_zipIdx {τ : Type} {n : ℕ} (l : List (Option τ)) (hn : l.length ≤ n) :
    collectTexts n (l.zipIdx.map fun t => (partitionColumnPrefix' ++ Nat.toDigits 10 t.2, t.1)) =
      .ok fun i => l[i]?.join := by
  induction l using List.reverseRecOn with
  | nil => rfl
  | append_singleton l t ih =>
    rw [length_append, length_singleton] at hn
    have hs := ih (by omega)
    unfold collectTexts at hs ⊢
    rw [zipIdx_append, map_append, foldlM_append, hs, ok_bind]
    simp only [zipIdx_singleton, map_cons, map_nil, foldlM_cons, foldlM_nil, zero_add]
    rw [parseKey_key (by omega)]
    refine congrArg Except.ok (funext fun i => ?_)
    rcases lt_trichotomy i l.length with hlt | rfl | hgt
    · rw [Function.update_of_ne (by omega), getElem?_append_left hlt]
    · simp
    · rw [Function.update_of_ne (by omega), getElem?_eq_none (by omega),
        getElem?_eq_none (by simp; omega)]

open RowField

section Proofs
variable {τ : Type} {cfg : NumericSettings} {io : TypeIO} {text : TextIO τ}

/-- **`partition_keys` is read field by field.** -/
theorem parse_partitionKeys (spec : List RowField) :
    parsePartitionValuesFromPartitionKeys cfg io text spec (partitionKeys text spec) =
      spec.mapM fun f => convertText cfg io text f (f.printed text) := by
  have htexts := @collectTexts_zipIdx τ spec.length (spec.map (printed text)) (by simp)
  rw [parsePartitionValuesFromPartitionKeys, partitionKeys, htexts, ok_bind]
  have hs : ∀ p ∈ spec.zipIdx, convertText cfg io text p.1
        ((spec.map (printed text))[p.2]?.join) =
      convertText cfg io text p.1 (p.1.printed text) := by
    intro p hp
    rw [getElem?_map, mem_zipIdx_iff_getElem?.mp hp]
    rfl
  rw [mapM_congr_of_mem hs]
  have hfst : spec.zipIdx.map Prod.fst = spec := zipIdx_map_fst 0 spec
  conv_rhs => rw [← hfst, mapM_map]
  rfl

/-! ## One field -/

/-- A field the two sides agree on: `PartitionByExpression` has an expression for it, its type
    is not a float, and its value is of that type and in the range of the transforms. -/
structure RowField.Accepted (f : RowField) : Prop where
  hasExpression : hasExpression f.transform f.type = true
  notFloat : isFloat f.type = false
  type_eq : ∀ d ∈ f.value, d.type = f.type
  inRange : ∀ d ∈ f.value, ∀ type v, temporal d = some (type, v) → InRange type v

theorem duckExpression_identity (d : Datum) :
    duckExpression .identity d = .datum (rewritten d) := by
  cases d <;> rfl

/-- **DuckDB counts years, months, days and hours as Postgres does.** -/
theorem duckExpression_temporal {cal : Calendar} (hcal : cal.IsGregorian) {tr : TransformType}
    {d : Datum} {type : TemporalType} {v : ℤ} (ht : temporal d = some (type, v))
    (ha : Applies tr type = true) (h : InRange type v) :
    ∃ n, applyTransform cal tr type v = .ok n ∧ -2 ^ 31 ≤ n ∧ n < 2 ^ 31 ∧
      duckExpression tr d = .integer n := by
  obtain ⟨n, hn, hlo, hhi, -⟩ := contains_of_inRange hcal ha h
  refine ⟨n, hn, hlo, by omega, ?_⟩
  have hdi : postgresToUnixEpochDiffInMicrosecs.toInt = 946684800000000 := rfl
  have hdi' : postgresToUnixEpochDiffInDays.toInt = 10957 := rfl
  unfold duckExpression
  rw [ht]
  by_cases hd : type = .date
  · subst hd
    obtain ⟨date, rfl, hv, -⟩ := applyTransform_date hcal ha h
    cases hn.symm.trans hv
    obtain ⟨hy, hm⟩ := Date.eq_of_dayNumber_eq (dayNumber_ofDayNumber date.dayNumber)
    cases tr with
    | year | month => simp [TemporalType.dayNumber, hy, hm, epochValue, unixEpochYear]
    | day =>
      simp only [TemporalType.dayNumber, datediff, unixEpochDay, epochValue, hdi']
      congr 1
      omega
    | identity | hour | bucket | truncate | void => cases ha
  · obtain ⟨date, hday, hv, -⟩ := applyTransform_timestamp hcal hd ha h
    cases hn.symm.trans hv
    obtain ⟨hy, hm⟩ := Date.eq_of_dayNumber_eq (dayNumber_ofDayNumber date.dayNumber)
    have hnum : type.dayNumber v = date.dayNumber := by
      cases type with
      | date => exact absurd rfl hd
      | timestamp | timestamptz =>
        rw [TemporalType.dayNumber]
        omega
    have hday' : (v + 946684800000000) / usecsPerDay = date.dayNumber - 719162 := by
      rw [usecsPerDay] at hday ⊢
      omega
    cases tr with
    | year | month => simp [hnum, hy, hm, epochValue, unixEpochYear]
    | day =>
      cases type with
      | date => exact absurd rfl hd
      | timestamp | timestamptz =>
        simp [hnum, datediff, unixEpochDay, epochValue, hdi, hday']
    | hour =>
      simp only [datediff, epochValue, hdi, usecsPerHour]
      congr 1
      omega
    | identity | bucket | truncate | void => cases ha

theorem exists_temporal {tr : TransformType} {d : Datum} (hid : tr ≠ .identity)
    (h : hasExpression tr d.type = true) :
    ∃ type v, temporal d = some (type, v) ∧ Applies tr type = true := by
  cases tr with
  | identity => exact absurd rfl hid
  | year | month | day | hour =>
    cases d with
    | date | timestamp | timestamptz => first | exact ⟨_, _, rfl, rfl⟩ | cases h
    | _ => cases h
  | bucket | truncate | void => cases h

theorem utcMicros_session_iff (usecs : Int64) (zone : Int32) :
    int64Bytes (Int64.ofInt (timeTzGetUTCMicros
        (Int64.ofInt (timeTzGetUTCMicros usecs zone)) text.sessionZone)) =
      int64Bytes (Int64.ofInt (timeTzGetUTCMicros usecs zone)) ↔ text.sessionZone = 0 := by
  have hr := utcMicros_range usecs zone
  have hre : (Int64.ofInt (timeTzGetUTCMicros usecs zone)).toInt = timeTzGetUTCMicros usecs zone :=
    Int64.toInt_ofInt_of_le (le_trans (by decide) hr.1) (lt_trans hr.2 (by decide))
  constructor
  · intro h
    have heq := congrArg (fun bs => (bytesInt64 bs).toInt) h
    simp only [bytesInt64_int64Bytes] at heq
    have hr' := utcMicros_range (Int64.ofInt (timeTzGetUTCMicros usecs zone)) text.sessionZone
    rw [Int64.toInt_ofInt_of_le (le_trans (by decide) hr'.1) (lt_trans hr'.2 (by decide)),
      hre, utcMicros_eq, hre] at heq
    have hz := text.sessionZone_lt
    rw [usecsPerSec, usecsPerDay] at heq
    refine Int32.toInt_inj.mp ?_
    rw [Int32.toInt_zero]
    omega
  · intro h
    have hs := @utcMicros_eq_self (Int64.ofInt (timeTzGetUTCMicros usecs zone))
      (by rw [hre]; exact hr.1) (by rw [hre]; exact hr.2)
    rw [h, hs, hre]

/-- **One field**: both ways agree, except for a timetz in a session that is not at offset 0. -/
theorem convertText_eq_iff {cal : Calendar} (hcal : cal.IsGregorian) {f : RowField} (h : f.Accepted) :
    convertText cfg io text f (f.printed text) = applyPartitionTransform cfg io cal f ↔
      (f.transform = .identity → f.type = .timetz → f.value ≠ none → text.sessionZone = 0) := by
  obtain ⟨tr, type, tm, value⟩ := f
  obtain ⟨he, hf, ht, hr⟩ := h
  cases value with
  | none => exact iff_of_true rfl fun _ _ h => absurd rfl h
  | some d =>
    obtain rfl : d.type = type := ht d rfl
    by_cases hid : tr = .identity
    · subst hid
      rw [printed, Option.map_some, duckExpression_identity, convertText,
        normalizeDuckDBTextToPGText, applyPartitionTransform]
      simp only [resultType, datumToPartitionValue, if_true]
      by_cases hti : d.type = .timetz
      · obtain ⟨usecs, zone, rfl⟩ : ∃ usecs zone, d = .timetz usecs zone := by
          cases d <;> first | exact ⟨_, _, rfl⟩ | cases hti
        have ho := text.input_output
          (.timetz (Int64.ofInt (timeTzGetUTCMicros usecs zone)) text.sessionZone) rfl
        have hrun : ((text.input .timetz (text.print (.datum (rewritten (.timetz usecs zone))))).map
              text.output >>= fun t => text.input .timetz t >>= fun d =>
                pgIcebergBinarySerialize cfg io tm d) =
            .ok (some (int64Bytes (Int64.ofInt (timeTzGetUTCMicros
              (Int64.ofInt (timeTzGetUTCMicros usecs zone)) text.sessionZone)))) := by
          rw [rewritten, text.input_time]
          show (text.input .timetz (text.output _) >>= _) = _
          rw [show text.input .timetz _ = _ from ho]
          rfl
        refine (Eq.congr_left hrun).trans ?_
        have hser : pgIcebergBinarySerialize cfg io tm (.timetz usecs zone) =
            .ok (some (int64Bytes (Int64.ofInt (timeTzGetUTCMicros usecs zone)))) := rfl
        rw [hser, Except.ok.injEq, Option.some.injEq, utcMicros_session_iff]
        simp [Datum.type]
      · have hre : rewritten d = d := by
          cases d <;> first | rfl | exact absurd rfl hti
        rw [hre, text.input_print d hti hf]
        refine iff_of_true ?_ fun _ h => absurd h hti
        show (text.input d.type (text.output d) >>= _) = _
        rw [text.input_output d hf]
        rfl
    · obtain ⟨ttype, v, hte, ha⟩ := exists_temporal hid he
      obtain ⟨n, hn, hlo, hhi, hduck⟩ := @duckExpression_temporal cal hcal tr d ttype v
        hte ha (hr d rfl ttype v hte)
      refine iff_of_true ?_ fun h => absurd h hid
      rw [printed, Option.map_some, hduck, convertText, normalizeDuckDBTextToPGText,
        applyPartitionTransform]
      simp only [resultType, datumToPartitionValue, if_neg hid, hte, hn,
        text.input_integer n hlo hhi]
      show (text.input .int4 (text.output _) >>= _) = _
      rw [show text.input .int4 _ = _ from text.input_output (.int4 (Int32.ofInt n)) rfl]
      rfl

/-! ## Whole rows -/

end Proofs

/-- Texts that are the values they stand for, in a session with this offset. -/
def plainText (sessionZone : Int32)
    (h : -57600 < sessionZone.toInt ∧ sessionZone.toInt < 57600) : TextIO (DuckValue ⊕ Datum) where
  sessionZone := sessionZone
  sessionZone_lt := h
  print := .inl
  input type
    | .inl (.datum (.time usecs)) =>
      .ok (if type = .timetz then .timetz usecs sessionZone else .time usecs)
    | .inl (.datum d) => .ok d
    | .inl (.integer n) => .ok (.int4 (Int32.ofInt n))
    | .inr d => .ok d
  output := .inr
  input_print d _ _ := by cases d <;> rfl
  input_time _ := rfl
  input_integer _ _ _ := rfl
  input_output _ _ := rfl

/-- A day and an identity field. -/
def dayAndTimetz : List RowField :=
  [⟨.day, .timestamp, none, some (.timestamp (-1000000000000000))⟩,
    ⟨.identity, .timetz, none, some (.timetz 36000000000 (-7200))⟩]

theorem dayAndTimetz_accepted : ∀ f ∈ dayAndTimetz, f.Accepted := by
  simp only [dayAndTimetz, forall_mem_cons, not_mem_nil, false_imp_iff, implies_true, and_true]
  refine ⟨⟨rfl, rfl, ?_, ?_⟩, rfl, rfl, ?_, ?_⟩
  · rintro d ⟨⟩
    rfl
  · rintro d ⟨⟩ type v ⟨⟩
    exact ⟨by decide, by decide⟩
  · rintro d ⟨⟩
    rfl
  · rintro d ⟨⟩ type v ⟨⟩

def utcText : TextIO (DuckValue ⊕ Datum) := plainText 0 (by decide)

end PgLake.Fdw.PartitionPushdown
