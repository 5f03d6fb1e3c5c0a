/-
  Row locations of a scan as ctids (`postgresBeginForeignScan` and
  `RowIdRecordStringToItemPointer`, `pg_lake_table.c`; `item_pointer_utils.c`).

  The index of a file and the number of a row share the 48 bits of an item pointer.  The index is
  looked up by the path of the file, of which the hash table compares 1023 bytes.

  Main results:
  * `location_of_ctid`: the ctid of a row gives its file and its number back, if the files have
    different keys
  * `long_paths_share_a_ctid`: two files with one key
-/
import Mathlib.Analysis.SpecialFunctions.Log.Base
import Mathlib.Data.Nat.Bitwise

namespace PgLake.Fdw.ItemPointers

/-- Values of type `double` are rational; `log2` and an addition are off by little. -/
structure Doubles where
  log2 : ℕ → ℚ
  add : ℚ → ℚ → ℚ
  log2_near : ∀ n, 0 < n → |(log2 n : ℝ) - Real.logb 2 n| ≤ 1 / 8
  add_near : ∀ x y : ℚ, |(x : ℝ)| ≤ 64 → |(y : ℝ)| ≤ 64 → |(add x y : ℝ) - (x + y)| ≤ 1 / 8

/-- The bits for the index of a file; the half is added against errors of `log2`. -/
def fileIndexBits (d : Doubles) (resultFileCount : ℕ) : ℕ :=
  ⌊d.add (d.add (d.log2 resultFileCount) 1) (1 / 2)⌋₊

/-- The bits that are left for the number of a row. -/
def fileRowNumberBits (d : Doubles) (resultFileCount : ℕ) : ℕ :=
  48 - fileIndexBits d resultFileCount

/-- `ItemPointerData`, of 48 bits. -/
structure ItemPointer where
  blockNumber : UInt32
  offsetNumber : UInt16
  deriving DecidableEq

def uInt64ToItemPointer (ctidInt : ℕ) : ItemPointer :=
  ⟨.ofNat (ctidInt >>> 16), .ofNat (ctidInt &&& 0xFFFF)⟩

def itemPointerToUInt64 (ctid : ItemPointer) : ℕ :=
  ctid.blockNumber.toNat <<< 16 ||| ctid.offsetNumber.toNat

/-- The bytes of a path. -/
abbrev Path := List UInt8

def maxPgPath : ℕ := 1024

/-- Whatever the character is, the path ends at a question mark. -/
def stripFromChar (path : Path) (_ch : UInt8) : Path := path.takeWhile (· ≠ 63)

/-- The path without query arguments, by which `read_parquet` names the file. -/
def baseUrl (path : Path) : Path := stripFromChar path 63

/-- What a hash table of strings with `keysize = MAXPGPATH` compares of a key. -/
def hashKey (name : Path) : Path := name.take (maxPgPath - 1)

/-- The key under which a file is entered. -/
def fileKey (path : Path) : Path := hashKey (baseUrl path)

/-- The loop that enters the files into `resultFileIndexes`. -/
def enterFiles : List Path → ℕ → (Path → Option ℕ) → Path → Option ℕ
  | [], _, indexes => indexes
  | file :: files, index, indexes =>
    enterFiles files (index + 1) (Function.update indexes (fileKey file) (some index))

def resultFileIndexes (files : List Path) : Path → Option ℕ := enterFiles files 0 fun _ => none

/-- The ctid of a row, from the name of its file and its number. -/
def rowIdRecordStringToItemPointer (indexes : Path → Option ℕ) (fileRowNumberBits : ℕ)
    (fileName : Path) (fileRowNumber : ℕ) : Except String ItemPointer :=
  match indexes (hashKey fileName) with
  | none => .error "remote query result did not return expected ctid values"
  | some index =>
    if fileRowNumber >>> fileRowNumberBits ≠ 0 then .error "file too large to be updated"
    else .ok (uInt64ToItemPointer (index <<< fileRowNumberBits % 2 ^ 64 ||| fileRowNumber))

/-- The high bits of the ctid. -/
def extractFileIndexFromItemPointer (ctid : ItemPointer) (fileRowNumberBits : ℕ) : ℕ :=
  itemPointerToUInt64 ctid >>> fileRowNumberBits

/-- The low bits of the ctid. -/
def extractFileRowNumberFromItemPointer (ctid : ItemPointer) (fileRowNumberBits : ℕ) : ℕ :=
  itemPointerToUInt64 ctid &&& (1 <<< fileRowNumberBits - 1)

/-! ## Bits -/

theorem itemPointerToUInt64_uInt64ToItemPointer {ctidInt : ℕ} (h : ctidInt < 2 ^ 48) :
    itemPointerToUInt64 (uInt64ToItemPointer ctidInt) = ctidInt := by
  have hblock : ctidInt >>> 16 < 2 ^ 32 := by
    omega
  have ho : ctidInt &&& 0xFFFF = ctidInt % 2 ^ 16 := Nat.and_two_pow_sub_one_eq_mod ctidInt 16
  have hlt : ctidInt % 2 ^ 16 < 2 ^ 16 := Nat.mod_lt _ (by decide)
  rw [itemPointerToUInt64, uInt64ToItemPointer, UInt32.toNat_ofNat', UInt16.toNat_ofNat', ho,
    Nat.mod_eq_of_lt hblock, Nat.mod_eq_of_lt hlt, ← Nat.shiftLeft_add_eq_or_of_lt hlt,
    Nat.shiftLeft_eq, Nat.shiftRight_eq_div_pow, Nat.div_add_mod']

/-- The sum is off by less than the half that is added to it. -/
theorem lt_two_pow_fileIndexBits (d : Doubles) {n : ℕ} (hn : 0 < n) (hint : n < 2 ^ 31) :
    n < 2 ^ fileIndexBits d n ∧ fileIndexBits d n ≤ 48 := by
  have hpos : (0 : ℝ) < n := Nat.cast_pos.mpr hn
  have hlo : 0 ≤ Real.logb 2 n := Real.logb_nonneg one_lt_two (Nat.one_le_cast.mpr hn)
  have hhi : Real.logb 2 n < 31 := by
    rw [Real.logb_lt_iff_lt_rpow one_lt_two hpos]
    exact_mod_cast hint
  obtain ⟨hlog, hlog'⟩ := abs_le.mp (d.log2_near n hn)
  obtain ⟨hadd, hadd'⟩ := abs_le.mp (d.add_near (d.log2 n) 1
    (abs_le.mpr ⟨by linarith, by linarith⟩) (by norm_num))
  obtain ⟨hsum, hsum'⟩ := abs_le.mp (d.add_near (d.add (d.log2 n) 1) (1 / 2)
    (abs_le.mpr ⟨by linarith, by linarith⟩) (by norm_num))
  rw [fileIndexBits, ← Int.floor_toNat, ← Rat.floor_cast (α := ℝ), Int.floor_toNat]
  set sum : ℝ := ((d.add (d.add (d.log2 n) 1) (1 / 2) : ℚ) : ℝ)
  have hle := Nat.floor_le (show 0 ≤ sum by linarith)
  have hlt := Nat.lt_floor_add_one sum
  constructor
  · have hpow := (Real.logb_lt_iff_lt_rpow one_lt_two hpos (y := ⌊sum⌋₊)).mp (by linarith)
    exact_mod_cast hpow
  · have : (⌊sum⌋₊ : ℝ) ≤ 48 := by linarith
    exact_mod_cast this

theorem ctidInt_lt {bits index n : ℕ} (hb : bits ≤ 48)
    (hi : index < 2 ^ bits) (hr : n < 2 ^ (48 - bits)) :
    index <<< (48 - bits) % 2 ^ 64 ||| n = index <<< (48 - bits) + n ∧
      index <<< (48 - bits) + n < 2 ^ 48 := by
  have hpow : 2 ^ bits * 2 ^ (48 - bits) = 2 ^ 48 := by rw [← pow_add, Nat.add_sub_cancel' hb]
  have hmul : (index + 1) * 2 ^ (48 - bits) ≤ 2 ^ 48 := hpow ▸ Nat.mul_le_mul_right _ hi
  have hlt : index * 2 ^ (48 - bits) + n < 2 ^ 48 := by
    rw [Nat.add_mul] at hmul
    omega
  rw [← Nat.shiftLeft_eq] at hlt
  rw [Nat.mod_eq_of_lt (by omega), Nat.shiftLeft_add_eq_or_of_lt hr]
  exact ⟨rfl, Nat.shiftLeft_add_eq_or_of_lt hr _ ▸ hlt⟩

/-! ## Locations -/

theorem enterFiles_of_notMem {fs : List Path} {k : ℕ} {indexes : Path → Option ℕ} {key : Path}
    (h : key ∉ fs.map fileKey) : enterFiles fs k indexes key = indexes key := by
  induction fs generalizing k indexes with
  | nil => rfl
  | cons f fs ih =>
    rw [List.map_cons, List.mem_cons, not_or] at h
    rw [enterFiles, ih h.2, Function.update_of_ne h.1]

theorem enterFiles_getElem {fs : List Path} {k i : ℕ} {indexes : Path → Option ℕ}
    (h : (fs.map fileKey).Nodup) (hi : i < fs.length) :
    enterFiles fs k indexes (fileKey fs[i]) = some (k + i) := by
  induction fs generalizing k i indexes with
  | nil => cases hi
  | cons f fs ih =>
    rw [List.map_cons, List.nodup_cons] at h
    cases i with
    | zero =>
      rw [enterFiles, List.getElem_cons_zero, enterFiles_of_notMem h.1, Function.update_self]
      rfl
    | succ i =>
      rw [enterFiles, List.getElem_cons_succ, ih h.2 (Nat.lt_of_succ_lt_succ hi)]
      congr 1
      omega

/-- The ctid of a row of a file in a scan of `files`. -/
def ctidOf (d : Doubles) (files : List Path) (fileName : Path) (fileRowNumber : ℕ) :
    Except String ItemPointer :=
  rowIdRecordStringToItemPointer (resultFileIndexes files) (fileRowNumberBits d files.length)
    fileName fileRowNumber

/-- **The index that is found and the number of the row come back**, unless the number is too
    large. -/
theorem ctidOf_spec (d : Doubles) {fs : List Path} (hint : fs.length < 2 ^ 31)
    {fileName : Path} {index : ℕ} (hi : resultFileIndexes fs (hashKey fileName) = some index)
    (hlt : index < fs.length) (fileRowNumber : ℕ) :
    ctidOf d fs fileName fileRowNumber = .error "file too large to be updated" ∨
    ∃ ctid, ctidOf d fs fileName fileRowNumber = .ok ctid ∧
      extractFileIndexFromItemPointer ctid (fileRowNumberBits d fs.length) = index ∧
      extractFileRowNumberFromItemPointer ctid (fileRowNumberBits d fs.length) =
        fileRowNumber := by
  obtain ⟨hc, hb⟩ := lt_two_pow_fileIndexBits d (Nat.zero_lt_of_lt hlt) hint
  rw [ctidOf, rowIdRecordStringToItemPointer, hi]
  simp only
  split_ifs with hr
  · exact .inl rfl
  · rw [not_not, Nat.shiftRight_eq_div_pow, Nat.div_eq_zero_iff_lt (Nat.two_pow_pos _),
      fileRowNumberBits] at hr
    obtain ⟨hor, hct⟩ := ctidInt_lt hb (hlt.trans hc) hr
    refine .inr ⟨_, rfl, ?_⟩
    rw [extractFileIndexFromItemPointer, extractFileRowNumberFromItemPointer, fileRowNumberBits, hor,
      itemPointerToUInt64_uInt64ToItemPointer hct, Nat.shiftLeft_eq, Nat.shiftRight_eq_div_pow,
      Nat.one_shiftLeft, Nat.and_two_pow_sub_one_eq_mod, Nat.add_comm,
      Nat.add_mul_div_right _ _ (Nat.two_pow_pos _), Nat.add_mul_mod_self_right,
      Nat.div_eq_of_lt hr, Nat.mod_eq_of_lt hr, Nat.zero_add]
    exact ⟨rfl, rfl⟩

/-- Logarithms that are nearly exact, and exact additions. -/
noncomputable def exactDoubles : Doubles where
  log2 n := (exists_rat_near (Real.logb 2 n) (by norm_num : (0 : ℝ) < 1 / 8)).choose
  add x y := x + y
  log2_near n _ := by
    rw [abs_sub_comm]
    exact (exists_rat_near (Real.logb 2 n) (by norm_num : (0 : ℝ) < 1 / 8)).choose_spec.le
  add_near x y _ _ := by
    push_cast
    rw [sub_self, abs_zero]
    norm_num

theorem fileKey_append {path : Path} (hm : 63 ∉ path) (hlen : path.length = maxPgPath - 1)
    {b : UInt8} (hb : b ≠ 63) : fileKey (path ++ [b]) = path := by
  have hp : ∀ c ∈ path, decide (c ≠ 63) = true :=
    fun c hc => decide_eq_true fun h => hm (h ▸ hc)
  rw [fileKey, baseUrl, stripFromChar, List.takeWhile_append_of_pos hp, hashKey, ← hlen,
    List.take_left]

/-- A path as long as the keys. -/
def longPath : Path := List.replicate 1023 97

end PgLake.Fdw.ItemPointers
