/-
  Validation of values that are written to Iceberg tables, row by row
  (`iceberg_datum_validation.c`, `iceberg_validation.c`).
-/
import PgLake.Lib.Repair
import PgLake.Validation.Values

namespace PgLake.Validation

open CheckedInt PgLake.Types Repair
open Fdw.TemporalPartitions hiding Failure
open Iceberg.BinarySerde (usecsPerDay)

inductive IcebergOutOfRangePolicy where
  | none
  | error
  | clamp
  deriving DecidableEq

inductive Failure where
  | outOfRange (type : TemporalType)
  | nan
  | multidimensional
  | temporal (failure : Fdw.TemporalPartitions.Failure)
  deriving DecidableEq

/-- What `ereport` prints. -/
def Failure.message : Failure → String
  | .outOfRange .date => "date out of range"
  | .outOfRange .timestamp | .temporal _ => "timestamp out of range"
  | .outOfRange .timestamptz => "timestamptz out of range"
  | .nan => "NaN is not supported for Iceberg decimal"
  | .multidimensional => "multidimensional arrays are not supported in Iceberg tables"

/-! ## Types -/

section Types
variable (cfg : NumericSettings)

/-- `IsUnsupportedNumericForIceberg`, for a numeric. -/
def isUnsupportedNumericForIceberg (typmod : Typmod) : Bool :=
  -- `IsUnboundedNumeric`
  typmod.isNone ||
    decide ((adjustedPrecisionAndScale cfg typmod).precision > duckdbMaxNumericPrecision) ||
    decide ((adjustedPrecisionAndScale cfg typmod).scale > duckdbMaxNumericScale)

/-- Whether values of the type may be out of range. -/
def Leaf.needsIcebergValidation (isPushdown : Bool) (typmod : Typmod) : Leaf → Bool
  | .temporal _ => true
  | .numeric => !isPushdown && !isUnsupportedNumericForIceberg cfg typmod
  | .other => false

mutual

def PgType.needsIcebergValidation (isPushdown : Bool) : PgType → Typmod → Bool
  | .plain t, typmod => NonArrayType.needsIcebergValidation isPushdown t typmod
  | .array _, _ => true

def NonArrayType.needsIcebergValidation (isPushdown : Bool) : NonArrayType → Typmod → Bool
  | .scalar s, typmod => (leafOf s).needsIcebergValidation cfg isPushdown typmod
  | .domain base baseTypmod, _ => PgType.needsIcebergValidation isPushdown base baseTypmod
  | .composite attrs, _ => Attrs.needsIcebergValidation isPushdown attrs
  | .map key keyTypmod value valueTypmod, _ =>
    PgType.needsIcebergValidation isPushdown key keyTypmod ||
      PgType.needsIcebergValidation isPushdown value valueTypmod

def Attrs.needsIcebergValidation (isPushdown : Bool) : Attrs → Bool
  | .nil => false
  | .cons _ type typmod rest =>
    PgType.needsIcebergValidation isPushdown type typmod ||
      Attrs.needsIcebergValidation isPushdown rest
  | .dropped _ rest => Attrs.needsIcebergValidation isPushdown rest

end

end Types

/-! ## Temporal values -/

structure PostgresCalendar extends Calendar where
  isGregorian : toCalendar.IsGregorian

def usecsPerSec : ℤ := 1000000

section Temporal
variable (cal : Calendar)

def makeDateFromYMD (y m d : ℤ) : Except Fdw.TemporalPartitions.Failure ℤ :=
  int32 (cal.date2j y m d - postgresEpochJdate)

def makeTimestampUsec (y m d h min sec usec : ℤ) : Except Fdw.TemporalPartitions.Failure ℤ := do
  let date ← makeDateFromYMD cal y m d
  let days ← int64 (date * usecsPerDay)
  let seconds ← int32 ((h * 60 + min) * 60 + sec)
  let time ← int64 (seconds * usecsPerSec)
  let result ← int64 (days + time)
  int64 (result + usec)

/-- `GetYearFromDate` and `GetYearFromTimestamp`. -/
def getYear : TemporalType → ℤ → Except Fdw.TemporalPartitions.Failure ℤ
  | .date, value => getYearFromDate cal value
  | .timestamp, value | .timestamptz, value => getYearFromTimestamp cal value

def boundary (clampToMin : Bool) : TemporalType → Except Fdw.TemporalPartitions.Failure ℤ
  | .date =>
    if clampToMin then makeDateFromYMD cal TemporalType.date.minYear 1 1
    else makeDateFromYMD cal temporalMaxYear 12 31
  | .timestamp =>
    if clampToMin then makeTimestampUsec cal TemporalType.timestamp.minYear 1 1 0 0 0 0
    else makeTimestampUsec cal temporalMaxYear 12 31 23 59 59 999999
  -- in UTC
  | .timestamptz =>
    if clampToMin then makeTimestampUsec cal TemporalType.timestamptz.minYear 1 1 0 0 0 0
    else makeTimestampUsec cal temporalMaxYear 12 31 23 59 59 999999

def errorOrClampTemporal (policy : IcebergOutOfRangePolicy) (type : TemporalType)
    (value year : ℤ) : Except Failure ℤ :=
  if policy = .error then .error (.outOfRange type)
  else
    let clampToMin :=
      if notFinite type value then isNobegin type value else decide (year < type.minYear)
    (boundary cal clampToMin type).mapError .temporal

def icebergErrorOrClampTemporalDatum (policy : IcebergOutOfRangePolicy) (type : TemporalType)
    (value : ℤ) : Except Failure ℤ :=
  if notFinite type value then errorOrClampTemporal cal policy type value 0
  else
    match getYear cal type value with
    | .error failure => .error (.temporal failure)
    | .ok year =>
      if year < type.minYear || year > temporalMaxYear then
        errorOrClampTemporal cal policy type value year
      else .ok value

end Temporal

/-! ### The range -/

/-- `-4712-01-01`, and the first microsecond of the year 1. -/
def minValue : TemporalType → ℤ
  | .date => -2451507
  | .timestamp | .timestamptz => -730119 * usecsPerDay

/-- `9999-12-31`, and the last microsecond of that day. -/
def maxValue : TemporalType → ℤ
  | .date => 2921939
  | .timestamp | .timestamptz => 2921940 * usecsPerDay - 1

variable {type : TemporalType} {value : ℤ}

theorem inRange_iff : InRange type value ↔ minValue type ≤ value ∧ value ≤ maxValue type := by
  rw [InRange, daysBeforeYear_minYear, daysBeforeYear_maxYear]
  cases type with
  | date =>
    simp only [TemporalType.dayNumber, minValue, maxValue, if_true]
    omega
  | timestamp | timestamptz =>
    simp only [TemporalType.dayNumber, minValue, maxValue, usecsPerDay, reduceCtorEq, if_false]
    omega

theorem minValue_le_maxValue (type : TemporalType) : minValue type ≤ maxValue type := by
  cases type <;> decide

def lastDay : Gregorian.Date where
  year := 9999
  month := 12
  day := 31
  month_pos := by decide
  month_le := by decide
  day_pos := by decide
  day_le := by decide

variable (cal : PostgresCalendar)

open Gregorian

theorem makeDateFromYMD_first {year : ℤ} (hlo : -4712 ≤ year) (hhi : year ≤ 10000) :
    makeDateFromYMD cal.toCalendar year 1 1 = .ok (daysBeforeYear year - 730119) := by
  have hb := daysBeforeYear_bounds hlo hhi
  have hf := date2j_first cal.isGregorian hlo hhi (le_refl 1) (by decide)
  rw [firstOfMonth_one, Nat.cast_one] at hf
  rw [makeDateFromYMD, hf, postgresEpochJdate, int32_eq_ok (by omega)]
  congr 1
  omega

theorem makeDateFromYMD_last : makeDateFromYMD cal.toCalendar 9999 12 31 = .ok 2921939 := by
  have hl : cal.date2j 9999 12 31 = lastDay.julianDay :=
    cal.isGregorian.date2j lastDay (by decide) (by decide)
  have hday : lastDay.julianDay = 5373484 := by decide
  rw [makeDateFromYMD, hl, hday, postgresEpochJdate, int32_eq_ok (by decide)]
  rfl

theorem makeTimestampUsec_eq {y m d h min sec usec date : ℤ}
    (hd : makeDateFromYMD cal.toCalendar y m d = .ok date) (hlo : -2 ^ 24 ≤ date)
    (hhi : date ≤ 2 ^ 24) (hh : 0 ≤ h ∧ h < 24) (hmin : 0 ≤ min ∧ min < 60)
    (hsec : 0 ≤ sec ∧ sec < 60) (husec : 0 ≤ usec ∧ usec < 1000000) :
    makeTimestampUsec cal.toCalendar y m d h min sec usec =
      .ok (date * usecsPerDay + ((h * 60 + min) * 60 + sec) * usecsPerSec + usec) := by
  unfold makeTimestampUsec
  rw [hd]
  show (int64 (date * usecsPerDay) >>= _) = _
  rw [usecsPerDay, usecsPerSec, int64_bind (by omega), int32_bind (by omega),
    int64_bind (by omega), int64_bind (by omega),
    int64_eq_ok (by omega)]

theorem boundary_eq (clampToMin : Bool) (type : TemporalType) :
    boundary cal.toCalendar clampToMin type =
      .ok (if clampToMin then minValue type else maxValue type) := by
  have hf : ∀ type : TemporalType, makeDateFromYMD cal.toCalendar type.minYear 1 1 =
      .ok (daysBeforeYear type.minYear - 730119) := fun type =>
    makeDateFromYMD_first cal (by cases type <;> decide) (by cases type <;> decide)
  have hl : makeDateFromYMD cal.toCalendar temporalMaxYear 12 31 = .ok 2921939 :=
    makeDateFromYMD_last cal
  cases type <;> cases clampToMin
  · rw [boundary, if_neg Bool.false_ne_true, hl]
    rfl
  · rw [boundary, if_pos rfl, hf]
    rfl
  all_goals
    simp only [boundary, Bool.false_eq_true, if_true, if_false]
    first
    | rw [makeTimestampUsec_eq cal hl]
      all_goals decide
    | rw [makeTimestampUsec_eq cal (hf _)]
      all_goals decide

theorem getYear_eq (h : IsPostgres type value) :
    ∃ year, getYear cal.toCalendar type value = .ok year ∧
      (year < type.minYear ↔ value < minValue type) ∧
      (year > temporalMaxYear ↔ maxValue type < value) := by
  obtain ⟨d, hday, hfs⟩ := fields_eq cal.isGregorian h
  refine ⟨d.year, ?_, ?_⟩
  · cases type <;> simp only [fields] at hfs <;>
      simp only [getYear, getYearFromDate, getYearFromTimestamp, hfs] <;> rfl
  · have hin := @inRange_iff type value
    have hy := @year_mem_iff d type.minYear temporalMaxYear
    have hle := d.daysBeforeYear_le
    have hlt := d.lt_daysBeforeYear
    rw [hday] at hy hle hlt
    rw [InRange, ← hy] at hin
    have hr := minValue_le_maxValue type
    -- a year before the first ends before the first value
    have hb : d.year < type.minYear → value < minValue type := by
      intro hb
      by_contra hv
      have hm := daysBeforeYear_mono (show d.year + 1 ≤ type.minYear from hb)
      rw [daysBeforeYear_minYear] at hm
      cases type <;>
        simp only [TemporalType.dayNumber, minValue, usecsPerDay, reduceCtorEq, if_true,
          if_false] at hm hlt hv <;> omega
    have ha : temporalMaxYear < d.year → maxValue type < value := by
      intro ha
      by_contra hv
      have hm := daysBeforeYear_mono (show temporalMaxYear + 1 ≤ d.year from ha)
      rw [daysBeforeYear_maxYear] at hm
      cases type <;>
        simp only [TemporalType.dayNumber, maxValue, usecsPerDay] at hm hle hv <;> omega
    refine ⟨⟨hb, fun hv => ?_⟩, ha, fun hv => ?_⟩
    · by_contra hy
      exact absurd (hin.mp ⟨not_lt.mp hy, not_lt.mp fun h => by have := ha h; omega⟩).1
        (not_le.mpr hv)
    · by_contra hy
      exact absurd (hin.mp ⟨not_lt.mp fun h => by have := hb h; omega, not_lt.mp hy⟩).2
        (not_le.mpr hv)

theorem notFinite_of_isPostgres (h : IsPostgres type value) : notFinite type value = false := by
  cases type with
  | date =>
    rw [IsPostgres, postgresEpochJdate, dateEndJulian] at h
    simp only [notFinite, dateNotFinite, Bool.or_eq_false_iff, decide_eq_false_iff_not]
    omega
  | timestamp | timestamptz =>
    rw [IsPostgres, postgresEpochJdate, timestampEndJulian, usecsPerDay] at h
    simp only [notFinite, timestampNotFinite, Bool.or_eq_false_iff, decide_eq_false_iff_not]
    omega

theorem isNobegin_iff (h : notFinite type value = true) :
    (isNobegin type value = true ↔ value < minValue type) ∧
      (value < minValue type ∨ maxValue type < value) := by
  cases type <;>
    simp only [notFinite, dateNotFinite, timestampNotFinite, isNobegin, minValue, maxValue,
      usecsPerDay, Bool.or_eq_true, decide_eq_true_eq] at h ⊢ <;> omega

theorem icebergErrorOrClampTemporalDatum_eq (pol : IcebergOutOfRangePolicy)
    (v : TemporalValue type) :
    icebergErrorOrClampTemporalDatum cal.toCalendar pol type v.value =
      if minValue type ≤ v.value ∧ v.value ≤ maxValue type then .ok v.value
      else if pol = .error then .error (.outOfRange type)
      else .ok (if v.value < minValue type then minValue type else maxValue type) := by
  have hc : ∀ year, (v.value < minValue type ∨ maxValue type < v.value) →
      ((if notFinite type v.value then isNobegin type v.value else decide (year < type.minYear)) =
        decide (v.value < minValue type)) →
      errorOrClampTemporal cal.toCalendar pol type v.value year =
        if minValue type ≤ v.value ∧ v.value ≤ maxValue type then .ok v.value
        else if pol = .error then .error (.outOfRange type)
        else .ok (if v.value < minValue type then minValue type else maxValue type) := by
    intro year hout hmin
    rw [errorOrClampTemporal, if_neg (show ¬(minValue type ≤ v.value ∧ _) by omega)]
    simp only [hmin, boundary_eq, decide_eq_true_eq]
    rfl
  rcases v.valid with hv | hi
  · have hf := notFinite_of_isPostgres hv
    obtain ⟨year, hy, hb, ha⟩ := getYear_eq cal hv
    rw [icebergErrorOrClampTemporalDatum, hf, if_neg Bool.false_ne_true, hy]
    simp only [Bool.or_eq_true, decide_eq_true_eq]
    by_cases hout : year < type.minYear ∨ year > temporalMaxYear
    · rw [if_pos hout, hc year (by rwa [hb, ha] at hout)]
      rw [hf, if_neg Bool.false_ne_true]
      exact decide_eq_decide.mpr hb
    · rw [if_neg hout, if_pos]
      omega
  · obtain ⟨hnobegin, hout⟩ := isNobegin_iff hi
    rw [icebergErrorOrClampTemporalDatum, if_pos hi, hc 0 hout]
    rw [if_pos hi, Bool.eq_iff_iff, hnobegin, decide_eq_true_eq]

theorem valid_of_icebergErrorOrClampTemporalDatum {pol : IcebergOutOfRangePolicy}
    {v : TemporalValue type} {result : ℤ}
    (h : icebergErrorOrClampTemporalDatum cal.toCalendar pol type v.value = .ok result) :
    IsPostgres type result ∨ notFinite type result = true := by
  have hr := minValue_le_maxValue type
  rw [icebergErrorOrClampTemporalDatum_eq] at h
  split_ifs at h <;> cases h
  · exact v.valid
  · exact .inl (InRange.isPostgres (inRange_iff.mpr ⟨Int.le_refl _, hr⟩))
  · exact .inl (InRange.isPostgres (inRange_iff.mpr ⟨hr, Int.le_refl _⟩))

/-! ## Values -/

variable (cfg : NumericSettings)

def TemporalValue.icebergErrorOrClamp (policy : IcebergOutOfRangePolicy) {type : TemporalType}
    (v : TemporalValue type) : Except Failure (TemporalValue type) :=
  match h : icebergErrorOrClampTemporalDatum cal.toCalendar policy type v.value with
  | .error failure => .error failure
  | .ok result => .ok ⟨result, valid_of_icebergErrorOrClampTemporalDatum cal h⟩

/-- The value, or `none` for `*isNull`. -/
def icebergErrorOrClampNumericDatum (policy : IcebergOutOfRangePolicy) (typmod : Typmod)
    (v : NumericValue) : Except Failure (Option NumericValue) :=
  if isUnsupportedNumericForIceberg cfg typmod then .ok (some v)
  else if v ≠ .nan then .ok (some v)
  else if policy = .clamp then .ok none
  else .error .nan

def icebergErrorOrClampMultiDimArrayDatum {α : Type} (policy : IcebergOutOfRangePolicy) :
    Except Failure (Option α) :=
  if policy = .error then .error .multidimensional else .ok none

/-- The branches of `IcebergErrorOrClampNestedDatum` for base types. -/
def Leaf.icebergErrorOrClamp (policy : IcebergOutOfRangePolicy) (typmod : Typmod) :
    (leaf : Leaf) → leaf.Val → Except Failure (Option leaf.Val × Bool)
  | .temporal _, v =>
    (v.icebergErrorOrClamp cal policy).map fun result =>
      (some result, decide (result.value ≠ v.value))
  | .numeric, v =>
    (icebergErrorOrClampNumericDatum cfg policy typmod v).map fun result =>
      (result, result.isNone)
  | .other, v => .ok (some v, false)

/-- The branch for arrays.  The loop over the elements skips those that are NULL. -/
def errorOrClampArray {α : Type} (policy : IcebergOutOfRangePolicy) (needsElementValidation : Bool)
    (errorOrClamp : α → Except Failure (Option α × Bool)) (array : PgArray α) :
    Except Failure (Option (PgArray α) × Bool) :=
  let needsMultidimClamp := decide (array.ndim > 1)
  if !needsMultidimClamp && !needsElementValidation then .ok (some array, false)
  else if needsMultidimClamp then
    (icebergErrorOrClampMultiDimArrayDatum policy).map fun result => (result, true)
  else
    match onEach (onMember errorOrClamp) array.elems with
    | .error failure => .error failure
    | .ok (elems, anyModified) =>
      if anyModified then .ok (some { array with elems := elems }, true)
      else .ok (some array, false)

mutual

/-- `IcebergErrorOrClampNestedDatum`. -/
def PgType.icebergErrorOrClamp (policy : IcebergOutOfRangePolicy) :
    (type : PgType) → Typmod → PgType.Val type → Except Failure (Option (PgType.Val type) × Bool)
  | .plain t, typmod, v => NonArrayType.icebergErrorOrClamp policy t typmod v
  | .array element, typmod, v =>
    errorOrClampArray policy (NonArrayType.needsIcebergValidation cfg false element typmod)
      (NonArrayType.icebergErrorOrClamp policy element typmod) v

def NonArrayType.icebergErrorOrClamp (policy : IcebergOutOfRangePolicy) :
    (t : NonArrayType) → Typmod → NonArrayType.Val t →
      Except Failure (Option (NonArrayType.Val t) × Bool)
  | .scalar s, typmod, v => (leafOf s).icebergErrorOrClamp cal cfg policy typmod v
  | .domain base baseTypmod, _, v => PgType.icebergErrorOrClamp policy base baseTypmod v
  | .composite attrs, _, v => onWhole (Attrs.icebergErrorOrClamp policy attrs) v
  -- a map is a domain as well: its base type is the array of its pairs
  | .map key keyTypmod value valueTypmod, _, v =>
    let keyNeeds := PgType.needsIcebergValidation cfg false key keyTypmod
    let valueNeeds := PgType.needsIcebergValidation cfg false value valueTypmod
    errorOrClampArray policy (keyNeeds || valueNeeds)
      (onWhole
        (onBoth (onAttribute keyNeeds (PgType.icebergErrorOrClamp policy key keyTypmod))
          (onAttribute valueNeeds (PgType.icebergErrorOrClamp policy value valueTypmod)))) v

def Attrs.icebergErrorOrClamp (policy : IcebergOutOfRangePolicy) :
    (attrs : Attrs) → Attrs.Val attrs → Except Failure (Attrs.Val attrs × Bool)
  | .nil, v => .ok (v, false)
  | .cons _ type typmod rest, v =>
    onBoth
      (onAttribute (PgType.needsIcebergValidation cfg false type typmod)
        (PgType.icebergErrorOrClamp policy type typmod))
      (Attrs.icebergErrorOrClamp policy rest) v
  | .dropped _ rest, v =>
    onBoth (fun dropped => .ok (dropped, false)) (Attrs.icebergErrorOrClamp policy rest) v

end

/-- `IcebergErrorOrClampDatum`. -/
def icebergErrorOrClampDatum (policy : IcebergOutOfRangePolicy) (type : PgType) (typmod : Typmod)
    (v : PgType.Val type) : Except Failure (Option (PgType.Val type)) :=
  (PgType.icebergErrorOrClamp cal cfg policy type typmod v).map Prod.fst

end PgLake.Validation
