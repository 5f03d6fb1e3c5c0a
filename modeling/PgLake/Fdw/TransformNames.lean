/-
  The names of partition transforms and of partition fields (`partitioning/partition_by_parser.c`,
  `partition_transform.c`).

  Main results: `transform_name_exact_iff`, `field_names_distinct_iff`.
-/
import PgLake.Lib.Fallible
import PgLake.Lib.Json
import PgLake.Types.PgType

namespace PgLake.Fdw.TransformNames

open Fallible Lib PgLake.Types List

/-! ## Names of transforms -/

/-- A transform with its bucket count or truncate length. -/
inductive Transform where
  | identity
  | year
  | month
  | day
  | hour
  | void
  | bucket (bucketCount : ℕ)
  | truncate (truncateLen : ℕ)
  deriving DecidableEq

/-- The digits of a number. -/
def decimal (n : ℕ) : Text := Nat.toDigits 10 n

def bucketKeyword : Text := ['b', 'u', 'c', 'k', 'e', 't', '[']
def truncateKeyword : Text := ['t', 'r', 'u', 'n', 'c', 'a', 't', 'e', '[']

/-- `GenerateTransformName`. -/
def generateTransformName : Transform → Text
  | .identity => ['i', 'd', 'e', 'n', 't', 'i', 't', 'y']
  | .bucket n => bucketKeyword ++ decimal n ++ [']']
  | .truncate n => truncateKeyword ++ decimal n ++ [']']
  | .year => ['y', 'e', 'a', 'r']
  | .month => ['m', 'o', 'n', 't', 'h']
  | .day => ['d', 'a', 'y']
  | .hour => ['h', 'o', 'u', 'r']
  | .void => ['v', 'o', 'i', 'd']

/-- `pg_strncasecmp` finds no difference up to the length of a keyword in lower case. -/
def hasKeyword (keyword name : Text) : Bool := (name.take keyword.length).map Char.toLower = keyword

section
variable (strtoint64 : Text → Except String ℤ)

/-- The text up to the bracket is copied to a buffer of 32 bytes. -/
def parseBracketUintSize (name keyword : Text) : Except String ℕ :=
  let digits := name.drop keyword.length
  let number := digits.takeWhile (· ≠ ']')
  if ']' ∉ digits ∨ number = [] ∨ 32 ≤ number.length then .error "invalid transform"
  else do
    let parsedValue ← strtoint64 number
    if parsedValue ≤ 0 ∨ 2 ^ 31 - 1 < parsedValue then .error "numeric argument out of range"
    else .ok parsedValue.toNat

/-- The text in the brackets is read as the number of a transform. -/
def IsSize (text : Text) (n : ℕ) : Prop :=
  text ≠ [] ∧ text.length < 32 ∧ strtoint64 text = .ok n ∧ 1 ≤ n ∧ n < 2 ^ 31

/-- The transforms without a number, as they are looked for. -/
def plainTransforms : List Transform := [.identity, .year, .month, .day, .hour, .void]

/-- `ParseTransformName`. -/
def parseTransformName (name : Text) : Except String Transform :=
  if name = [] then .error "empty partition transform name"
  else
    match plainTransforms.find? fun t => hasKeyword (generateTransformName t) name with
    | some t => .ok t
    | none =>
      if hasKeyword bucketKeyword name then
        (parseBracketUintSize strtoint64 name bucketKeyword).map .bucket
      else if hasKeyword truncateKeyword name then
        (parseBracketUintSize strtoint64 name truncateKeyword).map .truncate
      else .error "unknown partition transform"

/-- The number, if there is one, is that of a bucket count or a truncate length. -/
def Transform.InRange : Transform → Prop
  | .bucket n | .truncate n => 1 ≤ n ∧ n < 2 ^ 31
  | _ => True

/-- The name is refused, or it is a written name up to the case of its letters. -/
def ReadsOnlyGenerated (name : Text) : Prop :=
  ∀ t, parseTransformName strtoint64 name = .ok t → t ≠ .void →
    name.map Char.toLower = generateTransformName t

end

/-! ## Reading a name -/

variable {c : Char}

theorem head_of_hasKeyword {kw name : Text} (h : hasKeyword (c :: kw) name = true) :
    name.head?.map Char.toLower = some c:= by
  cases name with
  | nil => simp [hasKeyword] at h
  | cons =>
    simp only [hasKeyword, length_cons, take_succ_cons, map_cons, decide_eq_true_eq,
      List.cons.injEq] at h
    simp [h.1]

theorem map_toLower_eq_iff {kw name rest : Text} (h : hasKeyword kw name = true) :
    name.map Char.toLower = kw ++ rest ↔
      (name.drop kw.length).map Char.toLower = rest := by
  conv_lhs => lhs; rw [← take_append_drop kw.length name, map_append]
  rw [of_decide_eq_true h, append_cancel_left_eq]

theorem hasKeyword_append {kw : Text} (h : kw.map Char.toLower = kw) (rest : Text) :
    hasKeyword kw (kw ++ rest) = true := by
  simp [hasKeyword, h]

theorem notMem_decimal (n : ℕ) (hc : c.isDigit = false) : c ∉ decimal n := fun h => by
  rw [Decimal.isDigit_of_mem_toDigits h] at hc
  cases hc

theorem decimal_injective : Function.Injective decimal := fun n m h => by
  have hn := Decimal.digits_toDigits n
  rw [show Nat.toDigits 10 n = Nat.toDigits 10 m from h, Decimal.digits_toDigits] at hn
  exact (Option.some.inj hn).symm

variable {t : Transform} {name : Text}

/-- The keywords begin with different letters. -/
theorem find?_plainTransforms (ht : t ∈ plainTransforms)
    (h : hasKeyword (generateTransformName t) name = true) :
    plainTransforms.find? (fun t => hasKeyword (generateTransformName t) name) = some t := by
  have ho : ∀ s ∈ plainTransforms, hasKeyword (generateTransformName s) name = true →
      s = t := by
    intro s hs hkw
    have heads : ∀ s ∈ plainTransforms, ∀ t ∈ plainTransforms,
        (generateTransformName s).head? = (generateTransformName t).head? → s = t := by decide
    have hh : ∀ s ∈ plainTransforms, hasKeyword (generateTransformName s) name = true →
        (generateTransformName s).head? = name.head?.map Char.toLower := by
      intro s hs hkw
      fin_cases hs <;> exact (head_of_hasKeyword hkw).symm
    exact heads s hs t ht ((hh s hs hkw).trans (hh t ht h).symm)
  cases hf : plainTransforms.find? fun t => hasKeyword (generateTransformName t) name with
  | none => exact absurd h (find?_eq_none.mp hf t ht)
  | some s => exact congrArg some (ho s (mem_of_find?_eq_some hf)
      (find?_eq_some_iff_append.mp hf).1)

section
variable {strtoint64 : Text → Except String ℤ}

theorem parseBracketUintSize_eq_ok_iff {kw : Text} {n : ℕ} :
    parseBracketUintSize strtoint64 name kw = .ok n ↔ ∃ text rest,
      name.drop kw.length = text ++ ']' :: rest ∧ ']' ∉ text ∧ IsSize strtoint64 text n := by
  have htake : ∀ {text rest : Text}, ']' ∉ text →
      (text ++ ']' :: rest).takeWhile (· ≠ ']') = text := by
    intro text rest h
    rw [takeWhile_append_of_pos fun c hc => by simpa using fun heq : c = ']' => h (heq ▸ hc)]
    simp
  unfold parseBracketUintSize
  constructor
  · intro h
    simp only at h
    split_ifs at h with hbad
    obtain ⟨hmem, hne, hlen⟩ := not_or.mp hbad |>.imp_right not_or.mp
    obtain ⟨text, rest, heq, hnot⟩ := eq_append_cons_of_mem (not_not.mp hmem)
    rw [heq, htake hnot] at h hne hlen
    obtain ⟨v, hv, h⟩ := bind_eq_ok_iff.mp h
    split_ifs at h
    cases h
    refine ⟨text, rest, heq, hnot, hne, not_le.mp hlen, ?_, by omega, by omega⟩
    rw [hv, Int.toNat_of_nonneg (by omega)]
  · rintro ⟨text, rest, heq, hnot, hne, hlen, hv, hpos, hlt⟩
    simp only [heq, htake hnot]
    rw [if_neg (by simp [hne, hlen]), hv, ok_bind, if_neg (by omega), Int.toNat_natCast]

theorem isSize_decimal (hr : ∀ n : ℕ, 1 ≤ n → n < 2 ^ 31 → strtoint64 (decimal n) = .ok n) {n : ℕ}
    (hpos : 1 ≤ n) (hlt : n < 2 ^ 31) : IsSize strtoint64 (decimal n) n :=
  have hlen : (decimal n).length ≤ 10 := Nat.toDigits_length 10 n 10 (by omega) (by omega)
  ⟨Nat.toDigits_ne_nil, by omega, hr n hpos hlt, hpos, hlt⟩

theorem parseBracketUintSize_decimal
    (hr : ∀ n : ℕ, 1 ≤ n → n < 2 ^ 31 → strtoint64 (decimal n) = .ok n) (kw : Text) {n : ℕ}
    (hpos : 1 ≤ n) (hlt : n < 2 ^ 31) :
    parseBracketUintSize strtoint64 (kw ++ decimal n ++ [']']) kw = .ok n :=
  parseBracketUintSize_eq_ok_iff.mpr ⟨decimal n, [], by rw [append_assoc, drop_left],
    notMem_decimal n (by decide), isSize_decimal hr hpos hlt⟩

/-- A text in brackets is the digits of a number with nothing behind exactly if its parts are. -/
theorem map_toLower_bracket_iff {text rest : Text} {n : ℕ} :
    (text ++ ']' :: rest).map Char.toLower = decimal n ++ [']'] ↔
      text.map Char.toLower = decimal n ∧ rest = [] := by
  rw [map_append, map_cons, show Char.toLower ']' = ']' by decide]
  constructor
  · intro h
    rcases append_eq_append_iff.mp h with ⟨l, hl, htail⟩ | ⟨l, hl, htail⟩
    · cases l with
      | nil => exact ⟨by simpa using hl.symm, by simpa using htail⟩
      | cons c l =>
        obtain ⟨rfl, -⟩ := List.cons.inj htail
        have hmem : ']' ∈ decimal n := by
          rw [hl]
          simp
        exact absurd hmem (notMem_decimal n (by decide))
    · cases l with
      | nil => exact ⟨by simpa using hl, by simpa using htail⟩
      | cons => simp at htail
  · rintro ⟨h, rfl⟩
    rw [h]
    rfl

theorem parseTransformName_plain (ht : t ∈ plainTransforms)
    (h : hasKeyword (generateTransformName t) name = true) :
    parseTransformName strtoint64 name = .ok t := by
  have hne : name ≠ [] := by
    rintro rfl
    revert h
    fin_cases ht <;> decide
  rw [parseTransformName, if_neg hne, find?_plainTransforms ht h]

/-- Only the keyword with a bracket is left if the name begins with its letter. -/
theorem parseTransformName_bracket {kw name : Text}
    (hc : ∀ t ∈ plainTransforms, (generateTransformName t).head? ≠ some c)
    (h : hasKeyword (c :: kw) name = true) :
    parseTransformName strtoint64 name = if hasKeyword bucketKeyword name then
        (parseBracketUintSize strtoint64 name bucketKeyword).map .bucket
      else if hasKeyword truncateKeyword name then
        (parseBracketUintSize strtoint64 name truncateKeyword).map .truncate
      else .error "unknown partition transform" := by
  have hh := head_of_hasKeyword h
  have hne : name ≠ [] := by
    rintro rfl
    cases hh
  rw [parseTransformName, if_neg hne, find?_eq_none.mpr fun t ht hkw => hc t ht ?_]
  rw [← hh]
  fin_cases ht <;> exact (head_of_hasKeyword hkw).symm

theorem parseTransformName_bucket (h : hasKeyword bucketKeyword name = true) :
    parseTransformName strtoint64 name =
      (parseBracketUintSize strtoint64 name bucketKeyword).map .bucket := by
  rw [parseTransformName_bracket (by decide) h, if_pos h]

theorem parseTransformName_truncate (h : hasKeyword truncateKeyword name = true) :
    parseTransformName strtoint64 name =
      (parseBracketUintSize strtoint64 name truncateKeyword).map .truncate := by
  rw [parseTransformName_bracket (by decide) h, if_neg, if_pos h]
  intro hb
  exact absurd ((head_of_hasKeyword h).symm.trans (head_of_hasKeyword hb)) (by decide)

theorem parseTransformName_cases (h : parseTransformName strtoint64 name = .ok t) :
    t ∈ plainTransforms ∧ hasKeyword (generateTransformName t) name = true ∨
      (∃ n, t = .bucket n ∧ hasKeyword bucketKeyword name = true ∧
        parseBracketUintSize strtoint64 name bucketKeyword = .ok n) ∨
      ∃ n, t = .truncate n ∧ hasKeyword truncateKeyword name = true ∧
        parseBracketUintSize strtoint64 name truncateKeyword = .ok n := by
  rw [parseTransformName] at h
  by_cases hna : name = []
  · rw [if_pos hna] at h
    cases h
  rw [if_neg hna] at h
  split at h
  · rename_i s hf
    cases h
    exact .inl ⟨mem_of_find?_eq_some hf, (find?_eq_some_iff_append.mp hf).1⟩
  · split_ifs at h with hb ht
    · obtain ⟨n, hn, rfl⟩ := map_eq_ok_iff.mp h
      exact .inr (.inl ⟨n, rfl, hb, hn⟩)
    · obtain ⟨n, hn, rfl⟩ := map_eq_ok_iff.mp h
      exact .inr (.inr ⟨n, rfl, ht, hn⟩)

theorem parseTransformName_generate
    (hr : ∀ n : ℕ, 1 ≤ n → n < 2 ^ 31 → strtoint64 (decimal n) = .ok n) (ht : t.InRange) :
    parseTransformName strtoint64 (generateTransformName t) = .ok t:= by
  cases t with
  | bucket n =>
    obtain ⟨hpos, hlt⟩ : 1 ≤ n ∧ n < 2 ^ 31 := ht
    rw [generateTransformName, parseTransformName_bucket,
      parseBracketUintSize_decimal hr _ hpos hlt]
    · rfl
    · exact hasKeyword_append (by decide) _
  | truncate n =>
    obtain ⟨hpos, hlt⟩ : 1 ≤ n ∧ n < 2 ^ 31 := ht
    rw [generateTransformName, parseTransformName_truncate,
      parseBracketUintSize_decimal hr _ hpos hlt]
    · rfl
    · exact hasKeyword_append (by decide) _
  | _ => exact parseTransformName_plain (by decide) (by decide)

end

/-- **A written name is read back, and a name is read only if it is a written one**, up to the case
    of its letters, exactly if nothing follows the keyword, and in brackets the number stands as it
    is written, with nothing behind the bracket. -/
theorem transform_name_exact_iff (strtoint64 : Text → Except String ℤ)
    (hread : ∀ n : ℕ, 1 ≤ n → n < 2 ^ 31 → strtoint64 (decimal n) = .ok n) (name : Text) :
    (∀ t : Transform, t.InRange → parseTransformName strtoint64 (generateTransformName t) = .ok t) ∧
    (ReadsOnlyGenerated strtoint64 name ↔
      (∀ t ∈ plainTransforms, t ≠ .void → hasKeyword (generateTransformName t) name = true →
        name.drop (generateTransformName t).length = []) ∧
      ∀ keyword ∈ [bucketKeyword, truncateKeyword], hasKeyword keyword name = true →
        ∀ text rest n, name.drop keyword.length = text ++ ']' :: rest → ']' ∉ text →
          IsSize strtoint64 text n → text.map Char.toLower = decimal n ∧ rest = []) := by
  refine ⟨fun t ht => parseTransformName_generate hread ht, fun h => ⟨?_, ?_⟩, ?_⟩
  · intro t ht hvoid hkeyword
    have hname := h t (parseTransformName_plain ht hkeyword) hvoid
    rw [← append_nil (generateTransformName t), map_toLower_eq_iff hkeyword] at hname
    exact map_eq_nil_iff.mp hname
  · intro keyword hmem hkeyword text rest n heq hnot hsize
    have hn : parseBracketUintSize strtoint64 name keyword = .ok n :=
      parseBracketUintSize_eq_ok_iff.mpr ⟨text, rest, heq, hnot, hsize⟩
    rw [← map_toLower_bracket_iff, ← heq, ← map_toLower_eq_iff hkeyword, ← append_assoc]
    simp only [mem_cons, not_mem_nil, or_false] at hmem
    rcases hmem with rfl | rfl
    · exact h (.bucket n) (by rw [parseTransformName_bucket hkeyword, hn]; rfl) nofun
    · exact h (.truncate n) (by rw [parseTransformName_truncate hkeyword, hn]; rfl) nofun
  · rintro ⟨hplain, hbracket⟩ t ht hvoid
    rcases parseTransformName_cases ht with
      ⟨hmem, hkeyword⟩ | ⟨n, rfl, hkeyword, hn⟩ | ⟨n, rfl, hkeyword, hn⟩
    · rw [← append_nil (generateTransformName t), map_toLower_eq_iff hkeyword,
        hplain t hmem hvoid hkeyword]
      rfl
    iterate 2
      rw [generateTransformName, append_assoc, map_toLower_eq_iff hkeyword]
      obtain ⟨text, rest, heq, hnot, hsize⟩ := parseBracketUintSize_eq_ok_iff.mp hn
      rw [heq, map_toLower_bracket_iff]
      exact hbracket _ (by simp) hkeyword text rest n heq hnot hsize

/-- A `pg_strtoint64` for texts of digits. -/
def readDigits (text : Text) : Except String ℤ :=
  match Decimal.digits text with
  | some n => .ok n
  | none => .error "invalid input syntax for type bigint"

theorem readDigits_decimal (n : ℕ) : readDigits (decimal n) = .ok n := by
  rw [readDigits, decimal, Decimal.digits_toDigits]

theorem bucket_sixteen_exact : (∀ n : ℕ, 1 ≤ n → n < 2 ^ 31 → readDigits (decimal n) = .ok n) ∧
    parseTransformName readDigits (generateTransformName (.bucket 16)) = .ok (.bucket 16) :=
  have hread : ∀ n : ℕ, 1 ≤ n → n < 2 ^ 31 → readDigits (decimal n) = .ok n :=
    fun n _ _ => readDigits_decimal n
  ⟨hread, (transform_name_exact_iff readDigits hread []).1 (.bucket 16) ⟨by decide, by decide⟩⟩

/-- A name that only begins with a keyword. -/
theorem yearly_is_read_as_year :
    parseTransformName readDigits ['y', 'e', 'a', 'r', 'l', 'y'] = .ok .year ∧
      ¬ ReadsOnlyGenerated readDigits ['y', 'e', 'a', 'r', 'l', 'y'] := by
  have hread : parseTransformName readDigits ['y', 'e', 'a', 'r', 'l', 'y'] = .ok .year :=
    parseTransformName_plain (by decide) (by decide)
  exact ⟨hread, fun h => absurd (h .year hread nofun) (by decide)⟩

/-! ## Names of partition fields -/

/-- What is appended to the name of the column. -/
def fieldSuffix : Transform → Text
  | .identity => []
  | .bucket n => ['_', 'b', 'u', 'c', 'k', 'e', 't', '_'] ++ decimal n
  | .truncate n => ['_', 't', 'r', 'u', 'n', 'c', '_'] ++ decimal n
  | .year => ['_', 'y', 'e', 'a', 'r']
  | .month => ['_', 'm', 'o', 'n', 't', 'h']
  | .day => ['_', 'd', 'a', 'y']
  | .hour => ['_', 'h', 'o', 'u', 'r']
  | .void => ['_', 'v', 'o', 'i', 'd']

/-- `GeneratePartitionFieldName`. -/
def generatePartitionFieldName (t : Transform) (columnName : Text) : Text :=
  columnName ++ fieldSuffix t

/-- A column and its registered field; `type` matters for a scalar one. -/
structure Column where
  name : Text
  fieldId : ℤ
  type : Scalar
  isScalar : Bool
  customCollation : Bool

/-- Names and field ids belong to one column each. -/
structure Table where
  columns : List Column
  names_nodup : (columns.map Column.name).Nodup
  fieldIds_nodup : (columns.map Column.fieldId).Nodup

/-- A field of a spec, with the transform it has been made from. -/
structure SpecField where
  partitionFieldId : ℤ
  sourceId : ℤ
  name : Text
  transform : Transform

def temporalTypes : List Scalar := [.date, .timestamp, .timestamptz]

/-- `EnsureValidTypeForTransform`: the types, and the error for the others. -/
def validTypes : Transform → List Scalar × String
  | .identity => (temporalTypes ++ [.time, .timetz, .int2, .int4, .int8, .bool, .float4, .float8,
      .numeric, .text, .varchar, .bpchar, .bytea, .uuid],
    "identity transform requires a date, timestamp(tz), time(tz), int2, int4, int8, bool, float4, " ++
      "float8, numeric, text, bytea, varchar or uuid column, but type is ")
  | .year => (temporalTypes, "year transform requires a date or timestamp(tz) column, but type is ")
  | .month =>
    (temporalTypes, "month transform requires a date or timestamp(tz) column, but type is ")
  | .day => (temporalTypes, "day transform requires a date or timestamp(tz) column, but type is ")
  | .hour => ([.timestamp, .timestamptz],
    "hour transform requires a timestamp(tz) column, but type is ")
  | .truncate _ => ([.int2, .int4, .int8, .text, .varchar, .bpchar, .bytea],
    "truncate transform requires a int2, int4, int8, text, varchar or bytea column, but type is ")
  | .bucket _ => (temporalTypes ++ [.time, .timetz, .int2, .int4, .int8, .numeric, .text, .varchar,
      .bpchar, .bytea, .uuid],
    "bucket transform requires a int2, int4, int8, numeric, text, varchar, bytea, uuid, date, " ++
      "time(tz) or timestamp(tz) column, but type is ")
  | .void => ([], "void partition transform is not supported")

/-- The loop body of `AnalyzeIcebergTablePartitionBy`. -/
def analyzeTransform (table : Table) (partitionFieldId : ℤ) (t : Transform) (columnName : Text) :
    Except String SpecField :=
  match table.columns.find? fun c => c.name = columnName with
  | none => .error "column does not exist in relation"
  | some c =>
    if c.customCollation then .error "Columns with collation are not supported in partition_by"
    else if t = .void then .error "void partition transform is not supported"
    else if !c.isScalar then .error "partition transform column must be a scalar type"
    else if c.type ∉ (validTypes t).1 then .error (validTypes t).2
    else .ok ⟨partitionFieldId, c.fieldId, generatePartitionFieldName t columnName, t⟩

/-- `IcebergPartitionTransformType`, by one transform of the type. -/
def Transform.type : Transform → Transform
  | .bucket _ => .bucket 0
  | .truncate _ => .truncate 0
  | t => t

/-- `AnalyzeIcebergTablePartitionBy`: the fields of a new spec. -/
def analyzeIcebergTablePartitionBy (table : Table) (largestPartitionFieldId : ℤ)
    (transforms : List (Transform × Text)) : Except String (List SpecField) := do
  let fields ← transforms.zipIdx.mapM fun t =>
    analyzeTransform table (largestPartitionFieldId + 1 + t.2) t.1.1 t.1.2
  -- `EnsureNoDuplicateTransforms`
  if fields.Pairwise fun a b =>
      ¬(a.transform.type = b.transform.type ∧ a.sourceId = b.sourceId) then
    .ok fields
  else .error "transform on column appears multiple times in partition spec"

/-- `PartitionTransformsEqual`; `strcasecmp` compares the names. -/
def partitionTransformsEqual (spec transforms : List SpecField) : Bool :=
  spec.length = transforms.length && (spec.zip transforms).all fun f =>
    f.1.sourceId = f.2.sourceId && f.1.name.map Char.toLower = f.2.name.map Char.toLower

def getPartitionSpecIfAlreadyExist (allSpecs : List (List SpecField))
    (transforms : List SpecField) : Option (List SpecField) :=
  allSpecs.find? fun spec => partitionTransformsEqual spec transforms

/-- A field is named after its column, if that is not dropped.  It cannot be renamed. -/
def SpecField.Named (table : Table) (f : SpecField) : Prop :=
  ∀ c ∈ table.columns, f.sourceId = c.fieldId →
    f.name = generatePartitionFieldName f.transform c.name

/-- Fields are told apart by their names. -/
structure ToldApart (table : Table) (fields : List SpecField) : Prop where
  nodup : (fields.map SpecField.name).Nodup
  identity : ∀ f ∈ fields, ∀ c ∈ table.columns, f.name = c.name →
    f.transform = .identity ∧ f.sourceId = c.fieldId
  found : ∀ allSpecs : List (List SpecField), (∀ spec ∈ allSpecs, ∀ f ∈ spec, f.Named table) →
    ∀ spec ∈ getPartitionSpecIfAlreadyExist allSpecs fields,
      spec.map (fun f => (f.sourceId, f.transform)) = fields.map fun f => (f.sourceId, f.transform)

theorem split_last_inj {a a' b b' : Text} (hb : c ∉ b) (hb' : c ∉ b')
    (h : a ++ c :: b = a' ++ c :: b') : a = a' ∧ b = b' := by
  have hspan : ∀ {a b : Text}, c ∉ b → (a ++ c :: b).reverse.takeWhile (· ≠ c) = b.reverse := by
    intro a b hb
    rw [reverse_append, reverse_cons, append_assoc, takeWhile_append_of_pos fun x hx => by
        simpa using fun heq : x = c => hb (heq ▸ mem_reverse.mp hx)]
    simp
  have hrev := hspan (a := a) hb
  rw [h, hspan hb', reverse_inj] at hrev
  subst hrev
  exact ⟨append_cancel_right h, rfl⟩

/-- The suffix before its last underscore, and after it. -/
def suffixParts : Transform → Text × Text
  | .identity => ([], [])
  | .bucket n => (['_', 'b', 'u', 'c', 'k', 'e', 't'], decimal n)
  | .truncate n => (['_', 't', 'r', 'u', 'n', 'c'], decimal n)
  | t => ([], (fieldSuffix t).tail)

theorem fieldSuffix_eq (ht : t ≠ .identity) :
    fieldSuffix t = (suffixParts t).1 ++ '_' :: (suffixParts t).2 ∧ '_' ∉ (suffixParts t).2 := by
  cases t with
  | identity => exact absurd rfl ht
  | bucket n | truncate n => exact ⟨rfl, notMem_decimal n (by decide)⟩
  | _ => exact ⟨rfl, by decide⟩

theorem decimal_ne_cons (n : ℕ) (hc : c.isDigit = false) (s : Text) : decimal n ≠ c :: s :=
  fun h => notMem_decimal n hc (h ▸ mem_cons_self)

theorem generatePartitionFieldName_inj {t t' : Transform} {col col' : Text}
    (ht : t ≠ .identity) (ht' : t' ≠ .identity)
    (h : generatePartitionFieldName t col = generatePartitionFieldName t' col') :
    t = t' ∧ col = col' := by
  obtain ⟨heq, hnot⟩ := fieldSuffix_eq ht
  obtain ⟨heq', hnot'⟩ := fieldSuffix_eq ht'
  rw [generatePartitionFieldName, generatePartitionFieldName, heq, heq', ← append_assoc,
    ← append_assoc] at h
  obtain ⟨hf, hl⟩ := split_last_inj hnot hnot' h
  cases t <;> cases t' <;>
    simp_all [suffixParts, fieldSuffix, decimal_ne_cons, (decimal_ne_cons _ _ _).symm,
      decimal_injective.eq_iff]
  all_goals exact absurd (congrArg List.getLast? hf) (by simp)

theorem fieldSuffix_injective : Function.Injective fieldSuffix := fun t t' h => by
  have hne : ∀ {t : Transform}, t ≠ .identity → fieldSuffix t ≠ [] := fun ht => by
    simp [(fieldSuffix_eq ht).1]
  by_cases ht : t = .identity
  · by_contra hd
    exact hne (fun heq => hd (ht.trans heq.symm)) (h ▸ ht ▸ rfl)
  · by_cases ht' : t' = .identity
    · exact absurd (h.trans (ht' ▸ rfl)) (hne ht)
    · exact (@generatePartitionFieldName_inj t t' [] [] ht ht' h).1

theorem toLower_fieldSuffix (t : Transform) : (fieldSuffix t).map Char.toLower = fieldSuffix t := by
  have hdec : ∀ n, (decimal n).map Char.toLower = decimal n := fun n => by
    refine (map_congr_left fun c hc => ?_).trans (map_id _)
    have hd : c.isDigit = true := Decimal.isDigit_of_mem_toDigits hc
    simp only [Char.isDigit, ge_iff_le, Bool.and_eq_true, decide_eq_true_eq,
      UInt32.le_iff_toNat_le] at hd
    refine dif_neg ?_
    simp only [ge_iff_le, UInt32.le_iff_toNat_le]
    simp at hd ⊢
    omega
  cases t with
  | bucket n | truncate n => simp [fieldSuffix, hdec]
  | _ => rfl

section
variable {table : Table} {f g : SpecField}

/-- The field is made from a column of the table. -/
structure SpecField.Of (table : Table) (f : SpecField) (c : Column) : Prop where
  mem : c ∈ table.columns
  source : f.sourceId = c.fieldId
  name : f.name = generatePartitionFieldName f.transform c.name

theorem of_analyzeTransform {partitionFieldId : ℤ} {columnName : Text}
    (h : analyzeTransform table partitionFieldId t columnName = .ok f) :
    f.transform = t ∧ f.name = generatePartitionFieldName t columnName ∧ ∃ c, f.Of table c := by
  unfold analyzeTransform at h
  split at h
  · cases h
  · rename_i c hf
    split_ifs at h
    cases h
    have hn : c.name = columnName := by simpa using find?_some hf
    exact ⟨rfl, rfl, c, mem_of_find?_eq_some hf, rfl, by rw [hn]⟩

theorem of_analyzeIcebergTablePartitionBy {largest : ℤ} {trs : List (Transform × Text)}
    {fs : List SpecField}
    (h : analyzeIcebergTablePartitionBy table largest trs = .ok fs) :
    (∀ f ∈ fs, ∃ c, f.Of table c) ∧
      (fs.Pairwise fun a b => ¬(a.transform.type = b.transform.type ∧ a.sourceId = b.sourceId)) ∧
      fs.map (fun f => (f.transform, f.name)) =
        trs.map fun t => (t.1, generatePartitionFieldName t.1 t.2) := by
  obtain ⟨fs', hmap, h⟩ := bind_eq_ok_iff.mp h
  split_ifs at h with hp
  cases h
  refine ⟨fun f hf => ?_, hp, ?_⟩
  · obtain ⟨t, -, ht⟩ := (mem_of_mapM_eq_ok hmap).mp hf
    exact (of_analyzeTransform ht).2.2
  · have hall := forall₂_of_mapM_eq_ok hmap
    rw [← zipIdx_map_fst 0 trs, map_map]
    exact forall₂_eq_eq_eq ▸ forall₂_map_left_iff.mpr (forall₂_map_right_iff.mpr
      (hall.flip.imp fun f t ht => Prod.ext (of_analyzeTransform ht).1 (of_analyzeTransform ht).2.1))

theorem SpecField.Of.source_eq {c c' : Column} (hf : f.Of table c) (hg : g.Of table c')
    (h : c.name = c'.name) : f.sourceId = g.sourceId := by
  rw [hf.source, hg.source, inj_on_of_nodup_map table.names_nodup hf.mem hg.mem h]

theorem SpecField.Of.name_of_identity {c : Column} (hf : f.Of table c)
    (h : f.transform = .identity) : f.name = c.name := by
  rw [hf.name, h]
  exact append_nil _

/-- Two fields with one name are the same if the name is not that of a column. -/
theorem SpecField.Of.eq_of_name {c c' : Column} (hf : f.Of table c) (hg : g.Of table c')
    (hcol : ∀ f' ∈ [f, g], f'.transform ≠ .identity → ∀ c ∈ table.columns, f'.name ≠ c.name)
    (h : f.name = g.name) : f.transform = g.transform ∧ f.sourceId = g.sourceId := by
  by_cases hid : f.transform = .identity
  · have hfc := hf.name_of_identity hid
    have hid' : g.transform = .identity := by
      by_contra hid'
      exact hcol g (by simp) hid' c hf.mem (h.symm.trans hfc)
    exact ⟨hid.trans hid'.symm,
      hf.source_eq hg (hfc.symm.trans (h.trans (hg.name_of_identity hid')))⟩
  · have hid' : g.transform ≠ .identity := fun hid' =>
      hcol f (by simp) hid c' hg.mem (h.trans (hg.name_of_identity hid'))
    rw [hf.name, hg.name] at h
    obtain ⟨ht, hc⟩ := generatePartitionFieldName_inj hid hid' h
    exact ⟨ht, hf.source_eq hg hc⟩

theorem SpecField.Of.transform_eq {c : Column} (hg : g.Of table c) (hf : f.Named table)
    (hsrc : f.sourceId = g.sourceId)
    (hn : f.name.map Char.toLower = g.name.map Char.toLower) : f.transform = g.transform := by
  rw [hf c hg.mem (hsrc.trans hg.source), hg.name, generatePartitionFieldName,
    generatePartitionFieldName, map_append, map_append, toLower_fieldSuffix,
    toLower_fieldSuffix] at hn
  exact fieldSuffix_injective (append_cancel_left hn)

theorem map_eq_of_partitionTransformsEqual {spec fields : List SpecField}
    (hs : ∀ f ∈ spec, f.Named table) (hfs : ∀ f ∈ fields, ∃ c, f.Of table c)
    (h : partitionTransformsEqual spec fields = true) :
    spec.map (fun f => (f.sourceId, f.transform)) =
      fields.map fun f => (f.sourceId, f.transform) := by
  simp only [partitionTransformsEqual, Bool.and_eq_true, decide_eq_true_eq, all_eq_true] at h
  have hpairs : List.Forall₂ (fun f g : SpecField =>
      (f.sourceId, f.transform) = (g.sourceId, g.transform)) spec fields := by
    refine forall₂_iff_zip.mpr ⟨h.1, fun {f g} hm => ?_⟩
    obtain ⟨hf, hg⟩ := of_mem_zip hm
    obtain ⟨hsrc, hn⟩ := h.2 _ hm
    obtain ⟨c, hc⟩ := hfs g hg
    rw [hsrc, hc.transform_eq (hs f hf) hsrc hn]
  exact forall₂_eq_eq_eq ▸
    forall₂_map_left_iff.mpr (forall₂_map_right_iff.mpr hpairs)

end

/-- **The fields of a spec are told apart by their names** exactly if no requested transform but
    an identity gives its field the name of a column. -/
theorem field_names_distinct_iff (table : Table) (largest : ℤ)
    (transforms : List (Transform × Text)) (fields : List SpecField)
    (h : analyzeIcebergTablePartitionBy table largest transforms = .ok fields) :
    ToldApart table fields ↔ ∀ t ∈ transforms, t.1 ≠ .identity →
      ∀ c ∈ table.columns, generatePartitionFieldName t.1 t.2 ≠ c.name := by
  obtain ⟨hof, hpairwise, hnames⟩ := of_analyzeIcebergTablePartitionBy h
  -- the fields have the transforms and the names of the request
  have hrequest : (∀ t ∈ transforms, t.1 ≠ .identity →
      ∀ c ∈ table.columns, generatePartitionFieldName t.1 t.2 ≠ c.name) ↔
      ∀ f ∈ fields, f.transform ≠ .identity → ∀ c ∈ table.columns, f.name ≠ c.name := by
    have hall := congrArg (fun l : List (Transform × Text) =>
      ∀ p ∈ l, p.1 ≠ .identity → ∀ c ∈ table.columns, p.2 ≠ c.name) hnames
    simpa only [forall_mem_map, eq_iff_iff, iff_comm] using hall
  rw [hrequest]
  refine ⟨fun hapart f hf hid c hc hname => hid (hapart.identity f hf c hc hname).1, fun hcolumn =>
    ⟨?_, fun f hf c hc hname => ?_, fun allSpecs hspecs spec hfound => ?_⟩⟩
  · refine pairwise_map.mpr (hpairwise.imp_of_mem fun {f g} hf hg hdiff hname => hdiff ?_)
    obtain ⟨c, hc⟩ := hof f hf
    obtain ⟨c', hc'⟩ := hof g hg
    have hsame := hc.eq_of_name hc' (by simpa using ⟨hcolumn f hf, hcolumn g hg⟩) hname
    exact ⟨by rw [hsame.1], hsame.2⟩
  · have hid : f.transform = .identity := by
      by_contra hid
      exact hcolumn f hf hid c hc hname
    obtain ⟨c', hc'⟩ := hof f hf
    have hnames := (hc'.name_of_identity hid).symm.trans hname
    exact ⟨hid, hc'.source.trans
      (congrArg _ (inj_on_of_nodup_map table.names_nodup hc'.mem hc hnames))⟩
  · exact map_eq_of_partitionTransformsEqual (hspecs spec (mem_of_find?_eq_some hfound)) hof
      (by simpa using find?_some hfound)

/-- A column called `a_year` beside `a`. -/
def yearTable : Table where
  columns :=
    [⟨['a'], 1, .date, true, false⟩, ⟨['a', '_', 'y', 'e', 'a', 'r'], 2, .int4, true, false⟩]
  names_nodup := by decide
  fieldIds_nodup := by decide

theorem month_field_told_apart : analyzeIcebergTablePartitionBy yearTable 999 [(.month, ['a'])] =
        .ok [⟨1000, 1, ['a', '_', 'm', 'o', 'n', 't', 'h'], .month⟩] ∧
      ToldApart yearTable [⟨1000, 1, ['a', '_', 'm', 'o', 'n', 't', 'h'], .month⟩] :=
  have h : analyzeIcebergTablePartitionBy yearTable 999 [(.month, ['a'])] =
      .ok [⟨1000, 1, ['a', '_', 'm', 'o', 'n', 't', 'h'], .month⟩] := by rfl
  ⟨h, (field_names_distinct_iff _ _ _ _ h).mpr
    (by simp [yearTable, generatePartitionFieldName, fieldSuffix])⟩

theorem year_field_has_name_of_column : analyzeIcebergTablePartitionBy yearTable 999
        [(.year, ['a']), (.identity, ['a', '_', 'y', 'e', 'a', 'r'])] =
      .ok [⟨1000, 1, ['a', '_', 'y', 'e', 'a', 'r'], .year⟩,
        ⟨1001, 2, ['a', '_', 'y', 'e', 'a', 'r'], .identity⟩] ∧
    ¬ ToldApart yearTable [⟨1000, 1, ['a', '_', 'y', 'e', 'a', 'r'], .year⟩,
        ⟨1001, 2, ['a', '_', 'y', 'e', 'a', 'r'], .identity⟩] :=
  ⟨by rfl, fun h => absurd h.nodup (by simp)⟩

end PgLake.Fdw.TransformNames
