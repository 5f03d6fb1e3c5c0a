/-
  Scalars in the JSON of column defaults (`iceberg_type_json_serde.c`, `UnEscapeJson` in
  `json_utils.c`, `ConvertBCToISOYearIfNeeded` in `pgduck/serialize.c`).
-/
import Mathlib.Tactic.Common
import PgLake.Lib.JsonText
import PgLake.Types.PgType

namespace PgLake.Iceberg.JsonSerde

open Lib PgLake.Types

/-! ## Texts -/

def unescapedChar (c : Char) : Char :=
  if c = 'b' then '\x08'
  else if c = 'f' then '\x0c'
  else if c = 'n' then '\n'
  else if c = 'r' then '\r'
  else if c = 't' then '\t'
  else c

def hexValue (c : Char) : ℕ := if c.isDigit then c.toNat - 48 else c.toLower.toNat - 87

def unescape : Text → Text
  | '\\' :: 'u' :: c₁ :: c₂ :: c₃ :: c₄ :: p =>
    Char.ofNat ([c₁, c₂, c₃, c₄].foldl (fun n c => 16 * n + hexValue c) 0 % 256) :: unescape p
  | '\\' :: c :: p => unescapedChar c :: unescape p
  | c :: p => c :: unescape p
  | [] => []

/-- `UnEscapeJson`, which first drops the quotes. -/
def unEscapeJson (val : Text) : Text :=
  let p := if val.head? = some '"' then val.tail else val
  unescape (if p.getLast? = some '"' then p.dropLast else p)

theorem unescape_escapeChar (c : Char) (p : Text) : unescape (escapeChar c ++ p) = c :: unescape p := by
  induction c using escapeChar_cases with
  | plain c hp =>
    obtain ⟨-, hb, -⟩ := isPlain_iff.mp hp
    rw [escapeChar_of_isPlain hp, List.singleton_append]
    rw [unescape]
    · intro c₁ c₂ c₃ c₄ p' h
      exact absurd h hb
    · intro d p' h
      exact absurd h hb
  | control n => interval_cases n <;> rfl
  | quote => rfl
  | backslash => rfl

theorem unescape_flatMap_escapeChar (s : Text) : unescape (s.flatMap escapeChar) = s := by
  induction s with
  | nil => rfl
  | cons c s ih => rw [List.flatMap_cons, unescape_escapeChar, ih]

theorem unEscapeJson_escapeJson (s : Text) : unEscapeJson (escapeJson s) = s := by
  simp [unEscapeJson, escapeJson, unescape_flatMap_escapeChar]

variable {s : Text}

theorem unEscapeJson_of_isPlain (h : ∀ c ∈ s, isPlain c = true) : unEscapeJson s = s := by
  have hq : '"' ∉ s := fun hm => absurd (h _ hm) (by decide)
  have hmap : s.flatMap escapeChar = s := by
    have hqu := escapeJson_of_isPlain h
    simpa [escapeJson, quoted] using hqu
  have hh : s.head? ≠ some '"' := fun hh => hq (List.mem_of_mem_head? hh)
  have hl : s.getLast? ≠ some '"' := fun hl => hq (List.mem_of_getLast? hl)
  rw [unEscapeJson, if_neg hh, if_neg hl, ← hmap, unescape_flatMap_escapeChar, hmap]

/-! ## Years -/

/-- `%04d`. -/
def pad4 (n : ℕ) : Text := (Nat.toDigits 10 n).leftpad 4 '0'

/-- `strtoint`: the number in front and what follows it, or `none` without digits. -/
def strtoint (s : Text) : Option (ℤ × Text) :=
  let digits := if s.head? = some '-' then s.tail else s
  let number := digits.takeWhile Char.isDigit
  if number = [] then none
  else some (if s.head? = some '-' then -(Nat.ofDigitChars 10 number 0 : ℤ)
    else (Nat.ofDigitChars 10 number 0 : ℤ), digits.dropWhile Char.isDigit)

def bcSuffix : Text := " BC".toList

/-- `ConvertBCToISOYearIfNeeded`: year 1 BC is 0, year 2 BC is -1. -/
def convertBCToISOYearIfNeeded (s : Text) : Text :=
  if bcSuffix.isSuffixOf s then
    match strtoint s with
    | none => s
    | some (pgBcYear, rest) =>
      if pgBcYear ≤ 0 ∨ rest.head? ≠ some '-' then s
      else
        let remainder := rest.take (rest.length - 3)
        if pgBcYear = 1 then pad4 0 ++ remainder else '-' :: (pad4 (pgBcYear - 1).toNat ++ remainder)
  else s

def convertISOYearToBCIfNeeded (s : Text) : Text :=
  match strtoint s with
  | none => s
  | some (isoYear, rest) =>
    if 0 < isoYear then s else pad4 (1 - isoYear).toNat ++ (rest ++ bcSuffix)

/-- What `to_json` writes for a date or a timestamp: a year from 1 on with at least four digits,
    the rest, and the era; or an infinity. -/
inductive IsDateText : Text → Prop where
  | ad (year : ℕ) (rest : Text) (hyear : 0 < year) (hrest : rest.head? = some '-')
    (hlast : rest.getLast? ≠ some 'C') (hplain : ∀ c ∈ rest, isPlain c = true) :
    IsDateText (pad4 year ++ rest)
  | bc (year : ℕ) (rest : Text) (hyear : 0 < year) (hrest : rest.head? = some '-')
    (hplain : ∀ c ∈ rest, isPlain c = true) : IsDateText (pad4 year ++ (rest ++ bcSuffix))
  | infinity (negative : Bool) :
    IsDateText (if negative then "-infinity".toList else "infinity".toList)

variable (n : ℕ)

theorem pad4_isDigit : ∀ c ∈ pad4 n, c.isDigit = true := by
  intro c hc
  rcases List.mem_append.mp hc with hc | hc
  · rw [List.eq_of_mem_replicate hc]
    rfl
  · exact Decimal.isDigit_of_mem_toDigits hc

theorem ofDigitChars_pad4 : Nat.ofDigitChars 10 (pad4 n) 0 = n := by
  have hz : ∀ k, Nat.ofDigitChars 10 (List.replicate k '0') 0 = 0 := by
    intro k
    induction k with
    | zero => rfl
    | succ k ih => rw [List.replicate_succ]; exact ih
  rw [pad4, List.leftpad, Nat.ofDigitChars_append, hz]
  exact Nat.ofDigitChars_ten_toDigits

theorem pad4_ne_nil : pad4 n ≠ [] :=
  List.append_ne_nil_of_right_ne_nil _ Nat.toDigits_ne_nil

theorem head?_pad4 (s : Text) : (pad4 n ++ s).head? ≠ some '-' := by
  rw [List.head?_append_of_ne_nil _ (pad4_ne_nil n)]
  intro h
  exact absurd (pad4_isDigit n _ (List.mem_of_mem_head? h)) (by decide)

theorem takeWhile_pad4 (h : s.head? = some '-') :
    (pad4 n ++ s).takeWhile Char.isDigit = pad4 n ∧ (pad4 n ++ s).dropWhile Char.isDigit = s := by
  obtain ⟨s, rfl⟩ : ∃ s', s = '-' :: s' := by
    cases s with
    | nil => cases h
    | cons c s =>
      cases h
      exact ⟨s, rfl⟩
  have hall := pad4_isDigit n
  constructor
  · rw [List.takeWhile_append_of_pos hall]
    simp [List.takeWhile, Char.isDigit]
  · rw [List.dropWhile_append_of_pos hall]
    simp [List.dropWhile, Char.isDigit]

theorem strtoint_pad4 (h : s.head? = some '-') : strtoint (pad4 n ++ s) = some ((n : ℤ), s) := by
  obtain ⟨ht, hd⟩ := takeWhile_pad4 n h
  rw [strtoint, if_neg (head?_pad4 n s), if_neg (head?_pad4 n s), ht, hd, ofDigitChars_pad4,
    if_neg (pad4_ne_nil n)]

theorem strtoint_neg_pad4 (h : s.head? = some '-') :
    strtoint ('-' :: (pad4 n ++ s)) = some (-(n : ℤ), s) := by
  obtain ⟨ht, hd⟩ := takeWhile_pad4 n h
  have hh : ('-' :: (pad4 n ++ s)).head? = some '-' := rfl
  rw [strtoint, if_pos hh, if_pos hh, List.tail_cons, ht, hd, ofDigitChars_pad4,
    if_neg (pad4_ne_nil n)]

theorem convertBC_of_ad (year : ℕ) {rest : Text} (hr : rest.head? = some '-')
    (hl : rest.getLast? ≠ some 'C') :
    convertBCToISOYearIfNeeded (pad4 year ++ rest) = pad4 year ++ rest := by
  have hnot : ¬bcSuffix.isSuffixOf (pad4 year ++ rest) = true := by
    intro hs
    obtain ⟨before, heq⟩ := List.isSuffixOf_iff_suffix.mp hs
    have hend := congrArg List.getLast? heq
    rw [List.getLast?_append, List.getLast?_append_of_ne_nil _ (by rintro rfl; cases hr)] at hend
    exact hl hend.symm
  rw [convertBCToISOYearIfNeeded, if_neg hnot]

theorem convertBC_of_bc {year : ℕ} (hy : 0 < year) {rest : Text} (hr : rest.head? = some '-') :
    convertBCToISOYearIfNeeded (pad4 year ++ (rest ++ bcSuffix)) =
      if (year : ℤ) = 1 then pad4 0 ++ rest else '-' :: (pad4 ((year : ℤ) - 1).toNat ++ rest) := by
  have hh : (rest ++ bcSuffix).head? = some '-' := by
    rw [List.head?_append_of_ne_nil _ (by rintro rfl; cases hr), hr]
  have hs : bcSuffix.isSuffixOf (pad4 year ++ (rest ++ bcSuffix)) = true :=
    List.isSuffixOf_iff_suffix.mpr ⟨pad4 year ++ rest, by simp⟩
  have hre : (rest ++ bcSuffix).take ((rest ++ bcSuffix).length - 3) = rest := by
    simp [bcSuffix]
  have hnot : ¬((year : ℤ) ≤ 0 ∨ (rest ++ bcSuffix).head? ≠ some '-') :=
    not_or.mpr ⟨by omega, not_not.mpr hh⟩
  rw [convertBCToISOYearIfNeeded, if_pos hs, strtoint_pad4 year hh]
  simp only [if_neg hnot, hre]

/-- **The era survives.** -/
theorem convertISOYear_convertBC (h : IsDateText s) :
    convertISOYearToBCIfNeeded (convertBCToISOYearIfNeeded s) = s := by
  cases h with
  | infinity neg => cases neg <;> rfl
  | ad year rest hy hr hl =>
    rw [convertBC_of_ad year hr hl, convertISOYearToBCIfNeeded, strtoint_pad4 year hr]
    simp [hy]
  | bc year rest hy hr =>
    rw [convertBC_of_bc hy hr]
    split_ifs with hone
    · rw [convertISOYearToBCIfNeeded, strtoint_pad4 0 hr]
      obtain rfl : year = 1 := by exact_mod_cast hone
      rfl
    · rw [convertISOYearToBCIfNeeded, strtoint_neg_pad4 _ hr]
      have hy' : (1 - -(((year : ℤ) - 1).toNat : ℤ)).toNat = year := by omega
      simp only [hy']
      rw [if_neg (by omega)]

theorem isPlain_of_isDigit {c : Char} (h : c.isDigit = true) : isPlain c = true := by
  have hnat : 48 ≤ c.toNat ∧ c.toNat ≤ 57 := by
    simpa [Char.isDigit, UInt32.le_iff_toNat_le] using h
  refine isPlain_iff.mpr ⟨?_, ?_, by omega⟩ <;> rintro rfl <;> simp at hnat

theorem isPlain_date (h : IsDateText s) :
    (∀ c ∈ s, isPlain c = true) ∧ ∀ c ∈ convertBCToISOYearIfNeeded s, isPlain c = true := by
  have hpad : ∀ n, ∀ c ∈ pad4 n, isPlain c = true :=
    fun n c hc => isPlain_of_isDigit (pad4_isDigit n c hc)
  cases h with
  | infinity neg =>
    have hp : ∀ neg : Bool,
        (if neg then "-infinity".toList else "infinity".toList).all isPlain = true := by decide
    have hs : convertBCToISOYearIfNeeded (if neg then "-infinity".toList else "infinity".toList) =
        if neg then "-infinity".toList else "infinity".toList := by
      cases neg <;> rfl
    rw [hs]
    exact ⟨List.all_eq_true.mp (hp neg), List.all_eq_true.mp (hp neg)⟩
  | ad year rest hy hr hl hp =>
    rw [convertBC_of_ad year hr hl]
    have hall := List.forall_mem_append.mpr ⟨hpad year, hp⟩
    exact ⟨hall, hall⟩
  | bc year rest hy hr hp =>
    have hsu : bcSuffix.all isPlain = true := by decide
    refine ⟨List.forall_mem_append.mpr ⟨hpad year, List.forall_mem_append.mpr ⟨hp,
      List.all_eq_true.mp hsu⟩⟩, ?_⟩
    rw [convertBC_of_bc hy hr]
    split_ifs
    · exact List.forall_mem_append.mpr ⟨hpad 0, hp⟩
    · exact List.forall_mem_cons.mpr ⟨by decide, List.forall_mem_append.mpr ⟨hpad _, hp⟩⟩

/-! ## Scalars -/

def isDateType : PgType → Bool
  | .plain (.scalar .date) | .plain (.scalar .timestamp) | .plain (.scalar .timestamptz) => true
  | _ => false

def isBytea : PgType → Bool
  | .plain (.scalar .bytea) => true
  | _ => false

def isText : PgType → Bool
  | .plain (.scalar .text) => true
  | _ => false

def isGeometry : PgType → Bool
  | .plain (.scalar .geometry) => true
  | _ => false

theorem isGeometry_eq_true : ∀ {type : PgType}, isGeometry type = true →
    isBytea type = false ∧ isDateType type = false
  | .plain (.scalar .geometry), _ => ⟨rfl, rfl⟩

/-- `strcasecmp(s, "null") == 0`. -/
def isNullText (s : Text) : Bool := s.map Char.toLower = "null".toList

/-- The scalar values, their input and output functions and what `to_json` writes for them,
    between quotes unless it is a number or a boolean.  Binary values are written in hexadecimal. -/
structure TypeIO (D : Type) where
  isValue : PgType → Typmod → D → Prop
  output : D → Text
  jsonContent : D → Text
  isQuoted : D → Bool
  input : PgType → Typmod → Text → Except String D
  input_output : ∀ {type typmod d}, isValue type typmod d → input type typmod (output d) = .ok d
  input_jsonContent : ∀ {type typmod d}, isValue type typmod d →
    input type typmod (jsonContent d) = .ok d
  unquoted : ∀ {d}, isQuoted d = false →
    (∀ c ∈ jsonContent d, isPlain c = true) ∧ isNullText (jsonContent d) = false
  bytea : ∀ {type typmod d}, isBytea type = true → isValue type typmod d →
    isQuoted d = true ∧ ∃ hex, jsonContent d = '\\' :: 'x' :: hex
  date : ∀ {type typmod d}, isDateType type = true → isValue type typmod d →
    isQuoted d = true ∧ IsDateText (jsonContent d)

variable {D : Type} (io : TypeIO D)

def toJson (d : D) : Text :=
  if io.isQuoted d then escapeJson (io.jsonContent d) else io.jsonContent d

/-- `PGTypeRequiresConversionToIcebergString`. -/
def requiresConversionToIcebergString (t : IcebergScalar) (type : PgType) : Bool :=
  isGeometry type || t = .string && !isText type

/-- `PGScalarIcebergJsonSerialize`, and the conversion to a text before it. -/
def pgScalarIcebergJsonSerialize (t : IcebergScalar) (type : PgType) (d : D) : Text :=
  if requiresConversionToIcebergString t type then escapeJson (io.output d)
  else if isBytea type then '"' :: (toJson io d).drop 4
  else if isDateType type then quoted (convertBCToISOYearIfNeeded (toJson io d).tail.dropLast)
  else toJson io d

/-- `PGScalarIcebergJsonDeserialize`, after the quotes and escapes are gone. -/
def pgScalarIcebergJsonDeserialize (type : PgType) (typmod : Typmod) (json : Text) :
    Except String D :=
  let scalarJson := unEscapeJson json
  if isBytea type then io.input type typmod ('\\' :: 'x' :: scalarJson)
  else if isDateType type then io.input type typmod (convertISOYearToBCIfNeeded scalarJson)
  else io.input type typmod scalarJson

/-- **A scalar comes back**, and its text is not taken for NULL. -/
theorem scalar_roundTrip {t : IcebergScalar} {type : PgType} {tm : Typmod} {d : D}
    (ht : t = .string → isBytea type = false ∧ isDateType type = false)
    (h : io.isValue type tm d) :
    isNullText (pgScalarIcebergJsonSerialize io t type d) = false ∧
      pgScalarIcebergJsonDeserialize io type tm (pgScalarIcebergJsonSerialize io t type d) =
        .ok d := by
  have hn : ∀ s : Text, isNullText ('"' :: s) = false := by
    intro s
    simp [isNullText]
  unfold pgScalarIcebergJsonSerialize
  split_ifs with hs hb hd
  · have ho : isBytea type = false ∧ isDateType type = false := by
      rcases Bool.or_eq_true_iff.mp hs with hg | hs
      · exact isGeometry_eq_true hg
      · exact ht (by simpa using (Bool.and_eq_true_iff.mp hs).1)
    obtain ⟨hb, hd⟩ := ho
    refine ⟨hn _, ?_⟩
    rw [pgScalarIcebergJsonDeserialize, hb, hd]
    rw [if_neg Bool.false_ne_true, if_neg Bool.false_ne_true, unEscapeJson_escapeJson,
      io.input_output h]
  · obtain ⟨hq, hex, hhex⟩ := io.bytea hb h
    have hj : '"' :: (toJson io d).drop 4 = escapeJson hex := by
      rw [toJson, if_pos hq, hhex]
      rfl
    rw [hj]
    refine ⟨hn _, ?_⟩
    rw [pgScalarIcebergJsonDeserialize, if_pos hb, unEscapeJson_escapeJson, ← hhex,
      io.input_jsonContent h]
  · obtain ⟨hq, hdateText⟩ := io.date hd h
    obtain ⟨hp, hp'⟩ := isPlain_date hdateText
    have hj : (toJson io d).tail.dropLast = io.jsonContent d := by
      rw [toJson, if_pos hq, escapeJson_of_isPlain hp]
      simp [quoted]
    rw [hj, ← escapeJson_of_isPlain hp']
    refine ⟨hn _, ?_⟩
    rw [pgScalarIcebergJsonDeserialize, if_neg hb, if_pos hd, unEscapeJson_escapeJson,
      convertISOYear_convertBC hdateText, io.input_jsonContent h]
  · rw [pgScalarIcebergJsonDeserialize, if_neg hb, if_neg hd, toJson]
    cases hq : io.isQuoted d with
    | true =>
      rw [if_pos rfl, unEscapeJson_escapeJson, io.input_jsonContent h]
      exact ⟨hn _, rfl⟩
    | false =>
      obtain ⟨hp, hnot⟩ := io.unquoted hq
      rw [if_neg Bool.false_ne_true, unEscapeJson_of_isPlain hp, io.input_jsonContent h]
      exact ⟨hnot, rfl⟩

end PgLake.Iceberg.JsonSerde
