/-
  Pruning by the fields of year, month, day and hour transforms (`temporal_utils.c`, the
  `Apply*TransformToColumn` and `*PartitionFieldBoundConstraint` functions).

  A date is a number of days and a timestamp one of microseconds, both from 1 January 2000.

  Main result: `temporal_sound`.
-/
import PgLake.Fdw.PartitionBounds
import PgLake.Iceberg.BinarySerde
import PgLake.Iceberg.PartitionTuples
import PgLake.Lib.CheckedInt
import PgLake.Lib.Gregorian

namespace PgLake.Fdw.TemporalPartitions

open CheckedInt Gregorian Pruning WireBytes
open Iceberg.BinarySerde (usecsPerDay usecsPerHour int32Bytes bytesInt32 bytesInt32_int32Bytes
  int32Bytes_ne_nil postgresToUnixEpochDiffInDays postgresToUnixEpochDiffInMicrosecs)
open Iceberg.Partitioning (copyField)

inductive Failure where
  | overflow
  | notFinite
  | outOfRange
  | unsupportedType
  deriving DecidableEq

instance : HasOverflow Failure := ⟨.overflow⟩

/-- `date2j`, `j2date` and the date of `timestamp2tm`, which is `none` for an error.  Dates are
    given by year, month and day. -/
structure Calendar where
  date2j : ℤ → ℤ → ℤ → ℤ
  j2date : ℤ → ℤ × ℤ × ℤ
  timestamp2tm : ℤ → Option (ℤ × ℤ × ℤ)

def postgresEpochJdate : ℤ := 2451545

def unixEpochJdate : ℤ := 2440588

def unixEpochYear : ℤ := 1970

def dateNotFinite (date : ℤ) : Bool := date = -2 ^ 31 || date = 2 ^ 31 - 1

def timestampNotFinite (ts : ℤ) : Bool := ts = -2 ^ 63 || ts = 2 ^ 63 - 1

def ensureFiniteDate (date : ℤ) : Except Failure Unit :=
  if dateNotFinite date then .error .notFinite else .ok ()

def ensureFiniteTimestamp (ts : ℤ) : Except Failure Unit :=
  if timestampNotFinite ts then .error .notFinite else .ok ()

def divFloorInt64 (x y : ℤ) : Except Failure ℤ :=
  if x ≥ 0 then int64 (x.tdiv y)
  else do
    let n ← int64 (-x)
    let n ← int64 (n + y)
    let n ← int64 (n - 1)
    int64 (-(n.tdiv y))

def adjustTimestampFromPostgresToUnix (ts : ℤ) : Except Failure ℤ :=
  int64 (ts + postgresToUnixEpochDiffInMicrosecs.toInt)

def adjustTimestampFromUnixToPostgres (ts : ℤ) : Except Failure ℤ :=
  int64 (ts - postgresToUnixEpochDiffInMicrosecs.toInt)

section Code
variable (cal : Calendar)

def dateFields (d : ℤ) : Except Failure (ℤ × ℤ × ℤ) := do
  let julianDay ← int32 (d + postgresEpochJdate)
  return cal.j2date julianDay

def timestampFields (ts : ℤ) : Except Failure (ℤ × ℤ × ℤ) :=
  match cal.timestamp2tm ts with
  | some tm => .ok tm
  | none => .error .outOfRange

def getYearFromDate (d : ℤ) : Except Failure ℤ := return (← dateFields cal d).1

def getYearFromTimestamp (ts : ℤ) : Except Failure ℤ := return (← timestampFields cal ts).1

/-! The write path. -/

def dateYearFromUnixEpoch (date : ℤ) : Except Failure ℤ := do
  ensureFiniteDate date
  let year ← getYearFromDate cal date
  int32 (year - unixEpochYear)

def dateMonthFromUnixEpoch (date : ℤ) : Except Failure ℤ := do
  ensureFiniteDate date
  let tm ← dateFields cal date
  let years ← int32 (tm.1 - unixEpochYear)
  let months ← int32 (years * 12)
  let months ← int32 (months + tm.2.1)
  int32 (months - 1)

def dateDayFromUnixEpoch (date : ℤ) : Except Failure ℤ := do
  ensureFiniteDate date
  int32 (date + postgresToUnixEpochDiffInDays.toInt)

def timestampYearFromUnixEpoch (ts : ℤ) : Except Failure ℤ := do
  ensureFiniteTimestamp ts
  let year ← getYearFromTimestamp cal ts
  int32 (year - unixEpochYear)

def timestampMonthFromUnixEpoch (ts : ℤ) : Except Failure ℤ := do
  ensureFiniteTimestamp ts
  let tm ← timestampFields cal ts
  let years ← int32 (tm.1 - unixEpochYear)
  let months ← int32 (years * 12)
  let month ← int32 (tm.2.1 - 1)
  int32 (months + month)

def timestampDayFromUnixEpoch (ts : ℤ) : Except Failure ℤ := do
  ensureFiniteTimestamp ts
  let unixTs ← adjustTimestampFromPostgresToUnix ts
  int32 (← divFloorInt64 unixTs usecsPerDay)

def timestampHourFromUnixEpoch (ts : ℤ) : Except Failure ℤ := do
  ensureFiniteTimestamp ts
  let unixTs ← adjustTimestampFromPostgresToUnix ts
  int32 (← divFloorInt64 unixTs usecsPerHour)

/-! The way back. -/

def yearsFromEpochToDate (yearsSinceEpoch : ℤ) : Except Failure ℤ := do
  let year ← int32 (unixEpochYear + yearsSinceEpoch)
  int32 (cal.date2j year 1 1 - postgresEpochJdate)

def monthsFromEpochToDate (monthsSinceEpoch : ℤ) : Except Failure ℤ := do
  let yearsOffset := monthsSinceEpoch.tdiv 12
  let monthOffset := monthsSinceEpoch.tmod 12
  let year ← int32 (unixEpochYear + yearsOffset)
  -- the remainder of C has the sign of the dividend
  if monthOffset < 0 then do
    let monthOffset ← int32 (monthOffset + 12)
    let year ← int32 (year - 1)
    let month ← int32 (monthOffset + 1)
    int32 (cal.date2j year month 1 - postgresEpochJdate)
  else do
    let month ← int32 (monthOffset + 1)
    int32 (cal.date2j year month 1 - postgresEpochJdate)

def daysFromEpochToDate (daysSinceEpoch : ℤ) : Except Failure ℤ := do
  let julianDay ← int32 (unixEpochJdate + daysSinceEpoch)
  int32 (julianDay - postgresEpochJdate)

def midnight (days : ℤ) : Except Failure ℤ := int64 (days * usecsPerDay)

def yearsFromEpochToTimestamp (yearsSinceEpoch : ℤ) : Except Failure ℤ := do
  midnight (← yearsFromEpochToDate cal yearsSinceEpoch)

def monthsFromUnixEpochToTimestamp (monthsSinceEpoch : ℤ) : Except Failure ℤ := do
  midnight (← monthsFromEpochToDate cal monthsSinceEpoch)

def daysFromUnixEpochToTimestamp (daysSinceEpoch : ℤ) : Except Failure ℤ := do
  midnight (← daysFromEpochToDate daysSinceEpoch)

def hoursFromUnixEpochToTimestamp (hoursSinceEpoch : ℤ) : Except Failure ℤ := do
  let unixTs ← int64 (hoursSinceEpoch * usecsPerHour)
  adjustTimestampFromUnixToPostgres unixTs

/-! Columns. -/

/-- The types with year, month, day and hour transforms. -/
inductive TemporalType where
  | date
  | timestamp
  | timestamptz
  deriving DecidableEq

variable (transform : TransformType) (type : TemporalType)

/-- The values that `Apply*TransformToColumn` compute. -/
def applyTransform (value : ℤ) : Except Failure ℤ :=
  match transform, type with
  | .year, .date => dateYearFromUnixEpoch cal value
  | .year, .timestamp | .year, .timestamptz => timestampYearFromUnixEpoch cal value
  | .month, .date => dateMonthFromUnixEpoch cal value
  | .month, .timestamp | .month, .timestamptz => timestampMonthFromUnixEpoch cal value
  | .day, .date => dateDayFromUnixEpoch value
  | .day, .timestamp | .day, .timestamptz => timestampDayFromUnixEpoch value
  | .hour, .timestamp | .hour, .timestamptz => timestampHourFromUnixEpoch value
  | _, _ => .error .unsupportedType

def partitionStart (partitionValue : ℤ) : Except Failure ℤ :=
  match transform, type with
  | .year, .date => yearsFromEpochToDate cal partitionValue
  | .year, .timestamp | .year, .timestamptz => yearsFromEpochToTimestamp cal partitionValue
  | .month, .date => monthsFromEpochToDate cal partitionValue
  | .month, .timestamp | .month, .timestamptz => monthsFromUnixEpochToTimestamp cal partitionValue
  | .day, .date => daysFromEpochToDate partitionValue
  | .day, .timestamp | .day, .timestamptz => daysFromUnixEpochToTimestamp partitionValue
  | .hour, .timestamp | .hour, .timestamptz => hoursFromUnixEpochToTimestamp partitionValue
  | _, _ => .error .unsupportedType

/-- The bounds of `*PartitionFieldBoundConstraint`. -/
def temporalRange (value : Bytes) : Except Failure (ℤ × ℤ) := do
  let partitionValue := (bytesInt32 value).toInt
  let partitionLowerBound ← partitionStart cal transform type partitionValue
  let next ← int32 (partitionValue + 1)
  let partitionUpperBound ← partitionStart cal transform type next
  return (partitionLowerBound, partitionUpperBound)

/-- The partition field as it is stored for a value. -/
def storedField (fieldId : Int32) (transform : TransformType) (type : TemporalType)
    (columnValue : Option ℤ) : Except Failure Iceberg.Partitioning.PartitionField :=
  match columnValue with
  | none => .ok (copyField ⟨fieldId, .int32, none⟩)
  | some value => do
    let partitionValue ← applyTransform cal transform type value
    return copyField ⟨fieldId, .int32, some (int32Bytes (Int32.ofInt partitionValue))⟩

/-- `TEMPORAL_DATE_MIN_YEAR` and `TEMPORAL_TIMESTAMP_MIN_YEAR`. -/
def TemporalType.minYear : TemporalType → ℤ
  | .date => -4712
  | .timestamp | .timestamptz => 1

def temporalMaxYear : ℤ := 9999

end Code

/-! ## The range of years -/

def TemporalType.dayNumber (type : TemporalType) (value : ℤ) : ℤ :=
  match type with
  | .date => value + 730119
  | .timestamp | .timestamptz => value / usecsPerDay + 730119

/-- The date is in the years that the transforms take. -/
def InRange (type : TemporalType) (value : ℤ) : Prop :=
  daysBeforeYear type.minYear ≤ type.dayNumber value ∧
    type.dayNumber value < daysBeforeYear (temporalMaxYear + 1)

def dateEndJulian : ℤ := 2147483494

def timestampEndJulian : ℤ := 109203528

/-- The functions implement the proleptic Gregorian calendar, in the range of Postgres. -/
structure Calendar.IsGregorian (cal : Calendar) : Prop where
  date2j : ∀ d : Date, 0 ≤ d.julianDay → d.julianDay < dateEndJulian →
    cal.date2j d.year d.month d.day = d.julianDay
  j2date : ∀ n, 0 ≤ n → n < dateEndJulian →
    ∃ d : Date, d.julianDay = n ∧ cal.j2date n = (d.year, (d.month : ℤ), (d.day : ℤ))
  timestamp2tm : ∀ ts, 0 ≤ ts / usecsPerDay + postgresEpochJdate →
    ts / usecsPerDay + postgresEpochJdate < timestampEndJulian →
      ∃ d : Date, d.julianDay = ts / usecsPerDay + postgresEpochJdate ∧
        cal.timestamp2tm ts = some (d.year, (d.month : ℤ), (d.day : ℤ))

def IsPostgres (type : TemporalType) (value : ℤ) : Prop :=
  match type with
  | .date => 0 ≤ value + postgresEpochJdate ∧ value + postgresEpochJdate < dateEndJulian
  | .timestamp | .timestamptz => 0 ≤ value / usecsPerDay + postgresEpochJdate ∧
      value / usecsPerDay + postgresEpochJdate < timestampEndJulian

section Proofs
variable {cal : Calendar}

theorem divFloorInt64_eq {x y : ℤ} (hy : 0 < y) (hy' : y < 2 ^ 62) (h : -2 ^ 62 ≤ x ∧ x < 2 ^ 62) :
    divFloorInt64 x y = .ok (x / y) := by
  unfold divFloorInt64
  split_ifs with hx
  · have hle := Int.ediv_le_self y hx
    have hn := Int.ediv_nonneg hx hy.le
    rw [Int.tdiv_eq_ediv_of_nonneg hx, int64_eq_ok (by omega)]
  · have hdiv : (-x + y - 1) / y = -(x / y) := by
      have hmod := Int.emod_add_mul_ediv x y
      have hsum : -x + y - 1 = (y - 1 - x % y) + y * -(x / y) := by
        rw [Int.mul_neg]
        omega
      have hn := Int.emod_nonneg x hy.ne'
      have hlt := Int.emod_lt_of_pos x hy
      rw [hsum, Int.add_mul_ediv_left _ _ hy.ne', Int.ediv_eq_zero_of_lt (by omega) (by omega),
        Int.zero_add]
    have hquot : x ≤ x / y ∧ x / y ≤ 0 := by
      refine ⟨Int.le_ediv_of_mul_le hy ?_, (Int.ediv_neg_of_neg_of_pos (not_le.mp hx) hy).le⟩
      have hmul := Int.mul_le_mul_of_nonpos_left (not_le.mp hx).le hy
      omega
    rw [int64_bind (by omega), int64_bind (by omega),
      int64_bind (by omega), Int.tdiv_eq_ediv_of_nonneg (by omega), hdiv, Int.neg_neg,
      int64_eq_ok (by omega)]

variable {year : ℤ}

theorem daysBeforeYear_bounds (hlo : -4712 ≤ year) (hhi : year ≤ 10000) :
    -1721388 ≤ daysBeforeYear year ∧ daysBeforeYear year ≤ 3652059 := by
  unfold daysBeforeYear
  omega

variable {month : ℕ}

theorem firstOfMonth_bounds (hlo : -4712 ≤ year) (hhi : year ≤ 10000) (hle : month ≤ 12) :
    -1721388 ≤ firstOfMonth year month ∧ firstOfMonth year month ≤ 3652425 := by
  have hb := daysBeforeYear_bounds hlo hhi
  have hm := daysBeforeMonth_mono (isLeap year) (hle.trans (Nat.le_succ 12))
  have hy : daysInYear (isLeap year) ≤ 366 := by cases isLeap year <;> decide
  rw [daysBeforeMonth_thirteen] at hm
  rw [firstOfMonth]
  omega

theorem date2j_first (hcal : cal.IsGregorian) (hlo : -4712 ≤ year)
    (hhi : year ≤ 10000) (hpos : 1 ≤ month) (hle : month ≤ 12) :
    cal.date2j year month 1 = firstOfMonth year month + 1721426 := by
  have hb := firstOfMonth_bounds hlo hhi hle
  have hj : (Date.first year month hpos hle).julianDay = firstOfMonth year month + 1721426 := by
    rw [Date.julianDay, Date.dayNumber_first]
  have hd := hcal.date2j (Date.first year month hpos hle) (by omega)
    (by rw [hj, dateEndJulian]; omega)
  rw [hj] at hd
  exact hd

theorem yearsFromEpochToDate_eq (hcal : cal.IsGregorian) (hlo : -4712 ≤ year) (hhi : year ≤ 10000) :
    yearsFromEpochToDate cal (year - unixEpochYear) = .ok (daysBeforeYear year - 730119) := by
  have hb := daysBeforeYear_bounds hlo hhi
  have hf := date2j_first hcal hlo hhi (le_refl 1) (by decide)
  rw [firstOfMonth_one, Nat.cast_one] at hf
  rw [yearsFromEpochToDate, add_sub_cancel, int32_bind (by omega), hf,
    postgresEpochJdate, int32_eq_ok (by omega)]
  congr 1
  omega

theorem monthsFromEpochToDate_floor {months : ℤ} (h : -2 ^ 30 ≤ months ∧ months < 2 ^ 30) :
    monthsFromEpochToDate cal months =
      int32 (cal.date2j (unixEpochYear + months / 12) (months % 12 + 1) 1 - postgresEpochJdate) := by
  unfold monthsFromEpochToDate
  by_cases hneg : months.tmod 12 < 0
  · obtain ⟨hdiv, hmod⟩ := MachineInt.floor_of_neg (by decide) hneg
    have hy : unixEpochYear + months.tdiv 12 - 1 = unixEpochYear + months / 12 := by omega
    rw [unixEpochYear] at *
    rw [int32_bind (by omega), if_pos hneg, int32_bind (by omega),
      int32_bind (by omega), int32_bind (by omega), hy, hmod]
  · obtain ⟨hdiv, hmod⟩ := MachineInt.floor_of_nonneg (by decide) (not_lt.mp hneg)
    rw [unixEpochYear] at *
    rw [int32_bind (by omega), if_neg hneg, int32_bind (by omega), hdiv, hmod]

theorem monthsFromEpochToDate_eq (hcal : cal.IsGregorian) (hlo : -4712 ≤ year)
    (hhi : year ≤ 10000) (hpos : 1 ≤ month) (hle : month ≤ 12) :
    monthsFromEpochToDate cal ((year - unixEpochYear) * 12 + month - 1) =
      .ok (firstOfMonth year month - 730119) := by
  have hb := firstOfMonth_bounds hlo hhi hle
  have hy : unixEpochYear + ((year - unixEpochYear) * 12 + month - 1) / 12 = year := by omega
  have hm : ((year - unixEpochYear) * 12 + month - 1) % 12 + 1 = month := by omega
  rw [monthsFromEpochToDate_floor (by rw [unixEpochYear]; omega), hy,
    hm, date2j_first hcal hlo hhi hpos hle, postgresEpochJdate, int32_eq_ok (by omega)]
  congr 1
  omega

theorem monthsFromEpochToDate_next (hcal : cal.IsGregorian) (hlo : -4712 ≤ year)
    (hhi : year ≤ 9999) (hpos : 1 ≤ month) (hle : month ≤ 12) :
    monthsFromEpochToDate cal ((year - unixEpochYear) * 12 + month - 1 + 1) =
      .ok (firstOfMonth year (month + 1) - 730119) := by
  rcases Nat.lt_or_eq_of_le hle with hlt | rfl
  · have hn := monthsFromEpochToDate_eq hcal hlo (hhi.trans (by decide))
      (Nat.le_add_left 1 month) hlt
    rw [← hn]
    congr 1
    omega
  · have hn := monthsFromEpochToDate_eq hcal (hlo.trans (Int.le_add_one le_rfl)) (Int.add_le_add_right hhi 1)
      (le_refl 1) (by decide)
    rw [firstOfMonth_thirteen, ← hn]
    congr 1
    omega

/-! ## Partitions around a value -/

/-- The partition with this number begins at or before a value, and the next one after it. -/
def Around (start : ℤ → Except Failure ℤ) (t value : ℤ) : Prop :=
  ∃ lower upper, start t = .ok lower ∧ start (t + 1) = .ok upper ∧ lower ≤ value ∧ value < upper

def DaysAround (start : ℤ → Except Failure ℤ) (t day : ℤ) : Prop :=
  ∃ lower upper, start t = .ok lower ∧ start (t + 1) = .ok upper ∧ lower ≤ day ∧ day < upper ∧
    -2 ^ 24 ≤ lower ∧ upper ≤ 2 ^ 24

variable {start : ℤ → Except Failure ℤ}

theorem DaysAround.around {t day : ℤ} (h : DaysAround start t day) : Around start t day := by
  obtain ⟨lo, hi, hl, hu, hle, hlt, -⟩ := h
  exact ⟨lo, hi, hl, hu, hle, hlt⟩

theorem DaysAround.midnight {t ts : ℤ} (h : DaysAround start t (ts / usecsPerDay)) :
    Around (fun t => do midnight (← start t)) t ts := by
  obtain ⟨lo, hi, hl, hu, hle, hlt, hlo, hhi⟩ := h
  have hm : ∀ {day : ℤ}, -2 ^ 24 ≤ day → day ≤ 2 ^ 24 →
      TemporalPartitions.midnight day = .ok (day * usecsPerDay) := by
    intro day hday hday'
    rw [TemporalPartitions.midnight, usecsPerDay]
    exact int64_eq_ok (by omega)
  refine ⟨lo * usecsPerDay, hi * usecsPerDay, ?_, ?_, ?_, ?_⟩
  · simp only [hl]
    exact hm hlo (by omega)
  · simp only [hu]
    exact hm (by omega) hhi
  · exact (Int.le_ediv_iff_mul_le (by decide)).mp hle
  · exact (Int.ediv_lt_iff_lt_mul (by decide)).mp hlt

theorem year_around (hcal : cal.IsGregorian) {d : Date} (hlo : -4712 ≤ d.year)
    (hhi : d.year ≤ 9999) :
    DaysAround (yearsFromEpochToDate cal) (d.year - unixEpochYear) (d.dayNumber - 730119) := by
  have hl := daysBeforeYear_bounds hlo (hhi.trans (by decide))
  have hu : _ ∧ daysBeforeYear (d.year + 1) ≤ 3652059 :=
    daysBeforeYear_bounds (by omega) (by omega)
  have hn : yearsFromEpochToDate cal (d.year - unixEpochYear + 1) =
      .ok (daysBeforeYear (d.year + 1) - 730119) := by
    rw [← yearsFromEpochToDate_eq hcal (by omega) (by omega), sub_add_eq_add_sub]
  have hle := d.daysBeforeYear_le
  have hlt := d.lt_daysBeforeYear
  refine ⟨_, _, yearsFromEpochToDate_eq hcal hlo (hhi.trans (by decide)), hn, ?_, ?_, ?_, ?_⟩
  all_goals omega

theorem month_around (hcal : cal.IsGregorian) {d : Date} (hlo : -4712 ≤ d.year)
    (hhi : d.year ≤ 9999) :
    DaysAround (monthsFromEpochToDate cal) ((d.year - unixEpochYear) * 12 + d.month - 1)
      (d.dayNumber - 730119) := by
  have hl := firstOfMonth_bounds hlo (hhi.trans (by decide)) d.month_le
  have hle := d.firstOfMonth_le
  have hlt := d.lt_firstOfMonth
  have hs := firstOfMonth_succ d.year d.month_pos
  have hd : daysInMonth (isLeap d.year) d.month ≤ 31 := daysInMonth_le _ _
  refine ⟨_, _, monthsFromEpochToDate_eq hcal hlo (hhi.trans (by decide)) d.month_pos d.month_le,
    monthsFromEpochToDate_next hcal hlo hhi d.month_pos d.month_le, ?_, ?_, ?_, ?_⟩
  all_goals omega

theorem day_around {day : ℤ} (h : -2 ^ 23 ≤ day ∧ day < 2 ^ 23) :
    DaysAround daysFromEpochToDate (day + postgresToUnixEpochDiffInDays.toInt) day := by
  have hd : ∀ {t : ℤ}, -2 ^ 24 ≤ t ∧ t ≤ 2 ^ 24 → daysFromEpochToDate t = .ok (t - 10957) := by
    intro t ht
    rw [daysFromEpochToDate, unixEpochJdate, postgresEpochJdate, int32_bind (by omega),
      int32_eq_ok (by omega)]
    congr 1
    omega
  have hdi : postgresToUnixEpochDiffInDays.toInt = 10957 := rfl
  refine ⟨_, _, hd (by omega), hd (by omega), ?_⟩
  omega

theorem hour_around {ts : ℤ} (h : -2 ^ 60 ≤ ts ∧ ts < 2 ^ 60) :
    Around hoursFromUnixEpochToTimestamp
      ((ts + postgresToUnixEpochDiffInMicrosecs.toInt) / usecsPerHour) ts := by
  have hd : postgresToUnixEpochDiffInMicrosecs.toInt = 946684800000000 := rfl
  have hhours : ∀ {t : ℤ}, -2 ^ 61 ≤ t * usecsPerHour → t * usecsPerHour ≤ 2 ^ 61 →
      hoursFromUnixEpochToTimestamp t = .ok (t * usecsPerHour - 946684800000000) := by
    intro t ht ht'
    rw [hoursFromUnixEpochToTimestamp, int64_bind (by omega),
      adjustTimestampFromUnixToPostgres, hd, int64_eq_ok (by omega)]
  have hhour : usecsPerHour = 3600000000 := rfl
  refine ⟨_, _, hhours ?_ ?_, hhours ?_ ?_, ?_, ?_⟩
  all_goals
    rw [hhour] at *
    omega

/-! ## The write path -/

theorem ensureFiniteDate_eq {date : ℤ} (h : -2 ^ 31 < date ∧ date < 2 ^ 31 - 1) :
    ensureFiniteDate date = .ok () := by
  have hf : dateNotFinite date = false := by
    simp only [dateNotFinite, Bool.or_eq_false_iff, decide_eq_false_iff_not]
    omega
  rw [ensureFiniteDate, hf]
  rfl

theorem ensureFiniteTimestamp_eq {ts : ℤ} (h : -2 ^ 63 < ts ∧ ts < 2 ^ 63 - 1) :
    ensureFiniteTimestamp ts = .ok () := by
  have hf : timestampNotFinite ts = false := by
    simp only [timestampNotFinite, Bool.or_eq_false_iff, decide_eq_false_iff_not]
    omega
  rw [ensureFiniteTimestamp, hf]
  rfl

theorem year_mem_iff {d : Date} {first last : ℤ} : first ≤ d.year ∧ d.year ≤ last ↔
      daysBeforeYear first ≤ d.dayNumber ∧ d.dayNumber < daysBeforeYear (last + 1) := by
  have hle := d.daysBeforeYear_le
  have hlt := d.lt_daysBeforeYear
  refine and_congr ⟨fun h => (daysBeforeYear_mono h).trans hle, fun h => ?_⟩
    ⟨fun h => hlt.trans_le (daysBeforeYear_mono (Int.add_le_add_right h 1)), fun h => ?_⟩
  · by_contra hy
    have hm := daysBeforeYear_mono (show d.year + 1 ≤ first by omega)
    omega
  · by_contra hy
    have hm := daysBeforeYear_mono (show last + 1 ≤ d.year by omega)
    omega

/-- Year, month and day of a value. -/
def fields (cal : Calendar) : TemporalType → ℤ → Except Failure (ℤ × ℤ × ℤ)
  | .date => dateFields cal
  | .timestamp | .timestamptz => timestampFields cal

variable {type : TemporalType} {value : ℤ}

theorem fields_eq (hcal : cal.IsGregorian) (h : IsPostgres type value) :
    ∃ d : Date, d.dayNumber = type.dayNumber value ∧
      fields cal type value = .ok (d.year, (d.month : ℤ), (d.day : ℤ)) := by
  cases type with
  | date =>
    obtain ⟨hlo, hhi⟩ := h
    obtain ⟨d, hd, hj2date⟩ := hcal.j2date _ hlo hhi
    rw [postgresEpochJdate] at hd hlo hhi hj2date
    rw [dateEndJulian] at hhi
    refine ⟨d, ?_, ?_⟩
    · rw [Date.julianDay] at hd
      rw [TemporalType.dayNumber]
      omega
    · rw [fields, dateFields, postgresEpochJdate, int32_bind (by omega), hj2date]
      rfl
  | timestamp | timestamptz =>
    obtain ⟨hlo, hhi⟩ := h
    obtain ⟨d, hd, htm⟩ := hcal.timestamp2tm _ hlo hhi
    refine ⟨d, ?_, ?_⟩
    · rw [Date.julianDay, postgresEpochJdate] at hd
      rw [TemporalType.dayNumber]
      omega
    · rw [fields, timestampFields, htm]

theorem daysBeforeYear_minYear (type : TemporalType) :
    daysBeforeYear type.minYear = if type = .date then -1721388 else 0 := by
  cases type <;> decide

theorem daysBeforeYear_maxYear : daysBeforeYear (temporalMaxYear + 1) = 3652059 := by decide

theorem InRange.isPostgres (h : InRange type value) : IsPostgres type value := by
  obtain ⟨h, h'⟩ := h
  rw [daysBeforeYear_minYear] at h
  rw [daysBeforeYear_maxYear] at h'
  cases type with
  | date =>
    rw [TemporalType.dayNumber] at h h'
    rw [IsPostgres, postgresEpochJdate, dateEndJulian]
    omega
  | timestamp | timestamptz =>
    rw [TemporalType.dayNumber] at h h'
    rw [IsPostgres, postgresEpochJdate, timestampEndJulian]
    omega

def Applies : TransformType → TemporalType → Bool
  | .year, _ | .month, _ | .day, _ => true
  | .hour, type => type ≠ .date
  | _, _ => false

/-- The partition of a value is computed without an overflow, and so are its bounds. -/
def Contains (cal : Calendar) (transform : TransformType) (type : TemporalType) (value : ℤ) : Prop :=
  ∃ t, applyTransform cal transform type value = .ok t ∧ -2 ^ 31 ≤ t ∧ t + 1 < 2 ^ 31 ∧
    Around (partitionStart cal transform type) t value

/-- The years, months, days or hours from 1 January 1970 to a value whose date is `d`. -/
def epochValue (transform : TransformType) (type : TemporalType) (d : Date) (value : ℤ) : ℤ :=
  match transform, type with
  | .year, _ => d.year - unixEpochYear
  | .month, _ => (d.year - unixEpochYear) * 12 + d.month - 1
  | .day, .date => value + postgresToUnixEpochDiffInDays.toInt
  | .day, _ => (value + postgresToUnixEpochDiffInMicrosecs.toInt) / usecsPerDay
  | .hour, _ => (value + postgresToUnixEpochDiffInMicrosecs.toInt) / usecsPerHour
  | _, _ => 0

variable {transform : TransformType}

section

variable (hcal : cal.IsGregorian)

include hcal

theorem InRange.fields_eq (h : InRange type value) :
    ∃ d : Date, d.dayNumber = type.dayNumber value ∧
      fields cal type value = .ok (d.year, (d.month : ℤ), (d.day : ℤ)) ∧
      type.minYear ≤ d.year ∧ d.year ≤ temporalMaxYear := by
  obtain ⟨d, hday, hfs⟩ := TemporalPartitions.fields_eq hcal h.isPostgres
  exact ⟨d, hday, hfs, year_mem_iff.mpr (hday ▸ h)⟩

theorem InRange.dateFields_eq (h : InRange .date value) : ∃ d : Date, value = d.dayNumber - 730119 ∧
      dateFields cal value = .ok (d.year, (d.month : ℤ), (d.day : ℤ)) ∧
      (-4712 ≤ d.year ∧ d.year ≤ 9999) ∧ -1721388 ≤ d.dayNumber ∧ d.dayNumber < 3652059 := by
  obtain ⟨d, hday, hfs, hy⟩ := h.fields_eq hcal
  have hb := year_mem_iff.mp hy
  exact ⟨d, eq_sub_of_add_eq hday.symm, hfs, hy, hb⟩

theorem InRange.timestampFields_eq (ht : type ≠ .date) (h : InRange type value) :
    ∃ d : Date, d.dayNumber - 730119 = value / usecsPerDay ∧
      timestampFields cal value = .ok (d.year, (d.month : ℤ), (d.day : ℤ)) ∧
      (1 ≤ d.year ∧ d.year ≤ 9999) ∧ 0 ≤ d.dayNumber ∧ d.dayNumber < 3652059 := by
  obtain ⟨d, hday, hfs, hy⟩ := h.fields_eq hcal
  have hb := year_mem_iff.mp hy
  cases type with
  | date => exact absurd rfl ht
  | timestamp | timestamptz => exact ⟨d, sub_eq_of_eq_add hday, hfs, hy, hb⟩

theorem applyTransform_date (ha : Applies transform .date = true) (h : InRange .date value) :
    ∃ d : Date, value = d.dayNumber - 730119 ∧
      applyTransform cal transform .date value = .ok (epochValue transform .date d value) ∧
      (-4712 ≤ d.year ∧ d.year ≤ 9999) ∧ -1721388 ≤ d.dayNumber ∧ d.dayNumber < 3652059 := by
  obtain ⟨d, rfl, hfs, ⟨hlo, hhi⟩, hmin, hmax⟩ := h.dateFields_eq hcal
  refine ⟨d, rfl, ?_, ⟨hlo, hhi⟩, hmin, hmax⟩
  have hf := @ensureFiniteDate_eq (d.dayNumber - 730119) (by omega)
  have he : unixEpochYear = 1970 := rfl
  have hm := d.month_le
  cases transform with
  | year =>
    rw [applyTransform, dateYearFromUnixEpoch, hf, getYearFromDate, hfs]
    exact int32_eq_ok (by omega)
  | month =>
    rw [applyTransform, dateMonthFromUnixEpoch, hf, hfs, epochValue, unixEpochYear]
    show (int32 (d.year - 1970) >>= fun years => int32 (years * 12) >>= fun months =>
      int32 (months + d.month) >>= fun months => int32 (months - 1)) = _
    rw [int32_bind (by omega), int32_bind (by omega), int32_bind (by omega), int32_eq_ok (by omega)]
  | day =>
    have hd : postgresToUnixEpochDiffInDays.toInt = 10957 := rfl
    rw [applyTransform, dateDayFromUnixEpoch, hf]
    exact int32_eq_ok (by omega)
  | identity | hour | bucket | truncate | void => cases ha

theorem applyTransform_timestamp
    (ht : type ≠ .date) (ha : Applies transform type = true) (h : InRange type value) :
    ∃ d : Date, d.dayNumber - 730119 = value / usecsPerDay ∧
      applyTransform cal transform type value = .ok (epochValue transform type d value) ∧
      (1 ≤ d.year ∧ d.year ≤ 9999) ∧ 0 ≤ d.dayNumber ∧ d.dayNumber < 3652059 := by
  obtain ⟨d, hday, hfs, ⟨hlo, hhi⟩, hmin, hmax⟩ := h.timestampFields_eq hcal ht
  refine ⟨d, hday, ?_, ⟨hlo, hhi⟩, hmin, hmax⟩
  have hv : -2 ^ 56 ≤ value ∧ value < 2 ^ 58 := by
    rw [usecsPerDay] at hday
    omega
  have hf := @ensureFiniteTimestamp_eq value (by omega)
  have hd : postgresToUnixEpochDiffInMicrosecs.toInt = 946684800000000 := rfl
  have hunix : adjustTimestampFromPostgresToUnix value = .ok (value + 946684800000000) := by
    rw [adjustTimestampFromPostgresToUnix, hd, int64_eq_ok (by omega)]
  have he : unixEpochYear = 1970 := rfl
  have hm := d.month_le
  -- timestamptz is in UTC
  cases type with
  | date => exact absurd rfl ht
  | timestamp | timestamptz =>
    cases transform with
    | year =>
      rw [applyTransform, timestampYearFromUnixEpoch, hf, getYearFromTimestamp, hfs]
      exact int32_eq_ok (by omega)
    | month =>
      rw [applyTransform, timestampMonthFromUnixEpoch, hf, hfs, epochValue, unixEpochYear]
      show (int32 (d.year - 1970) >>= fun years => int32 (years * 12) >>= fun months =>
        int32 (d.month - 1) >>= fun month => int32 (months + month)) = _
      rw [int32_bind (by omega), int32_bind (by omega),
        int32_bind (by omega), int32_eq_ok (by omega), add_sub_assoc]
    | day =>
      rw [applyTransform, timestampDayFromUnixEpoch, hf, hunix]
      show (divFloorInt64 _ _ >>= _) = _
      rw [divFloorInt64_eq (by decide) (by decide) (by omega)]
      exact int32_eq_ok (by rw [usecsPerDay]; omega)
    | hour =>
      rw [applyTransform, timestampHourFromUnixEpoch, hf, hunix]
      show (divFloorInt64 _ _ >>= _) = _
      rw [divFloorInt64_eq (by decide) (by decide) (by omega)]
      exact int32_eq_ok (by rw [usecsPerHour]; omega)
    | identity | bucket | truncate | void => cases ha

theorem date_contains (ha : Applies transform .date = true) (h : InRange .date value) :
    Contains cal transform .date value := by
  obtain ⟨d, rfl, hv, ⟨hlo, hhi⟩, hmin, hmax⟩ := applyTransform_date hcal ha h
  have he : unixEpochYear = 1970 := rfl
  have hm := d.month_le
  have hd : postgresToUnixEpochDiffInDays.toInt = 10957 := rfl
  refine ⟨_, hv, ?_⟩
  cases transform with
  | year =>
    rw [epochValue]
    exact ⟨by omega, by omega, (year_around hcal hlo hhi).around⟩
  | month =>
    rw [epochValue]
    exact ⟨by omega, by omega, (month_around hcal hlo hhi).around⟩
  | day =>
    rw [epochValue]
    exact ⟨by omega, by omega, (day_around (by omega)).around⟩
  | identity | hour | bucket | truncate | void => cases ha

theorem timestamp_contains (ht : type ≠ .date) (ha : Applies transform type = true)
    (h : InRange type value) : Contains cal transform type value := by
  obtain ⟨d, hday, hap, ⟨hlo, hhi⟩, hmin, hmax⟩ :=
    applyTransform_timestamp hcal ht ha h
  have hv : -2 ^ 56 ≤ value ∧ value < 2 ^ 58 := by
    rw [usecsPerDay] at hday
    omega
  have hd : postgresToUnixEpochDiffInMicrosecs.toInt = 946684800000000 := rfl
  have he : unixEpochYear = 1970 := rfl
  have hm := d.month_le
  refine ⟨_, hap, ?_⟩
  cases type with
  | date => exact absurd rfl ht
  | timestamp | timestamptz =>
    cases transform with
    | year =>
      rw [epochValue]
      exact ⟨by omega, by omega, (hday ▸ year_around hcal (hlo.trans' (by decide)) hhi).midnight⟩
    | month =>
      rw [epochValue]
      exact ⟨by omega, by omega, (hday ▸ month_around hcal (hlo.trans' (by decide)) hhi).midnight⟩
    | day =>
      have hda : (value + postgresToUnixEpochDiffInMicrosecs.toInt) / usecsPerDay =
          value / usecsPerDay + postgresToUnixEpochDiffInDays.toInt := by
        have hd' : postgresToUnixEpochDiffInDays.toInt = 10957 := rfl
        rw [hd, hd', usecsPerDay]
        omega
      have har := @day_around (value / usecsPerDay) (by omega)
      rw [epochValue]
      · exact ⟨by rw [hd, usecsPerDay]; omega, by rw [hd, usecsPerDay]; omega,
          (hda ▸ har).midnight⟩
      · exact nofun
    | hour =>
      have har := @hour_around value (by omega)
      rw [epochValue]
      exact ⟨by rw [hd, usecsPerHour]; omega, by rw [hd, usecsPerHour]; omega, har⟩
    | identity | bucket | truncate | void => cases ha

/-- **A value lies between the start of its partition and that of the next one.** -/
theorem contains_of_inRange (ha : Applies transform type = true)
    (h : InRange type value) : Contains cal transform type value := by
  by_cases ht : type = .date
  · subst ht
    exact date_contains hcal ha h
  · exact timestamp_contains hcal ht ha h
end

end Proofs

/-! ## Soundness -/

variable {Clause : Type}

/-- A column partitioned by a temporal transform, with the ranges of the pruning code. -/
structure IsTemporal (env : Env ℤ Bytes Clause) (table : Table ℤ) (transform : PartitionTransform)
    (attrNo : AttrNumber) (cal : Calendar) (type : TemporalType) : Prop where
  isRange : IsRange table transform attrNo
  applies : Applies transform.type type = true
  range : ∀ bytes, env.partitionRange transform bytes =
    (temporalRange cal transform.type type bytes).toOption

/-- The partition of the value and its bounds are computed without an overflow, the value lies
    between them, and scans keep the file. -/
def TemporalSound (env : Env ℤ Bytes Clause) (table : Table ℤ) (transform : PartitionTransform)
    (attrNo : AttrNumber) (cal : Calendar) (type : TemporalType) (value : ℤ) : Prop :=
  ∃ field bytes range,
    storedField cal (Int32.ofInt transform.partitionFieldId) transform.type type (some value) =
      .ok field ∧ field.value = some bytes ∧
    temporalRange cal transform.type type bytes = .ok range ∧ range.1 ≤ value ∧ value < range.2 ∧
    Satisfied env table transform attrNo field.value value ∧
    Keeps env table transform attrNo field.value value

/-- **Temporal pruning is sound** for every value in range. -/
theorem temporal_sound {env : Env ℤ Bytes Clause} {table : Table ℤ} {transform : PartitionTransform}
    {attrNo : AttrNumber} {cal : Calendar} {type : TemporalType} {value : ℤ}
    (hcal : cal.IsGregorian) (h : IsTemporal env table transform attrNo cal type)
    (henv : env.Refutes) (hops : table.HasOperatorClasses) (hvalue : InRange type value) :
    TemporalSound env table transform attrNo cal type value := by
  obtain ⟨t, happly, hlo, hhi, lower, upper, hlower, hupper, hle, hlt⟩ :=
    contains_of_inRange hcal h.applies hvalue
  have hread : (bytesInt32 (int32Bytes (Int32.ofInt t))).toInt = t := by
    rw [bytesInt32_int32Bytes, Int32.toInt_ofInt_of_le hlo (by omega)]
  have hrange : temporalRange cal transform.type type (int32Bytes (Int32.ofInt t)) =
      .ok (lower, upper) := by
    unfold temporalRange
    simp only [hread, hlower]
    show (int32 (t + 1) >>= _) = _
    rw [int32_bind (by omega), hupper]
    rfl
  have hsound := (range_sound_iff h.isRange henv hops (v := value)
    (by rw [h.range, hrange]; rfl)).mpr ⟨hle, hlt⟩
  refine ⟨⟨Int32.ofInt transform.partitionFieldId, .int32, some (int32Bytes (Int32.ofInt t))⟩, _, _,
    ?_, rfl, hrange, hle, hlt, hsound⟩
  rw [storedField, happly]
  rfl

/-- The calendar of Postgres. -/
def gregorian : Calendar where
  date2j year month day := firstOfMonth year month.toNat + (day - 1) + 1721426
  j2date n :=
    let d := ofDayNumber (n - 1721426)
    (d.year, d.month, d.day)
  timestamp2tm ts :=
    let d := ofDayNumber (ts / usecsPerDay + 730119)
    some (d.year, d.month, d.day)

theorem gregorian_isGregorian : gregorian.IsGregorian where
  date2j d _ _ := rfl
  j2date n _ _ := by
    refine ⟨ofDayNumber (n - 1721426), ?_, rfl⟩
    rw [Date.julianDay, dayNumber_ofDayNumber, sub_add_cancel]
  timestamp2tm ts _ _ := by
    refine ⟨ofDayNumber (ts / usecsPerDay + 730119), ?_, rfl⟩
    rw [Date.julianDay, dayNumber_ofDayNumber, postgresEpochJdate, add_assoc]
    rfl

def monthEnv : Env ℤ Bytes (Constraint ℤ) :=
  partitionEnv 0 (fun _ => 0) fun bytes => (temporalRange gregorian .month .timestamp bytes).toOption

/-- A time on 23 April 1968. -/
theorem temporal_sound_before_1970 :
    TemporalSound monthEnv (columnTable .month 0) (columnTransform .month) 1 gregorian .timestamp
      (-1000000000000000) :=
  temporal_sound gregorian_isGregorian ⟨columnTable_isRange rfl 0, rfl, fun _ => rfl⟩
    (partitionEnv_refutes _ _ _) (fun _ _ _ _ => rfl) ⟨by decide, by decide⟩

end PgLake.Fdw.TemporalPartitions
