/-
  Numbers in the `partition_by` option of a table (`ParseInteger` in
  `partitioning/partition_by_parser.c`).  They are read digit by digit into an int32 that wraps
  around.

  Main result: `integer_exact_iff`.
-/
import PgLake.Lib.WireBytes

namespace PgLake.Fdw.PartitionBy

open WireBytes List

def isDigit (b : UInt8) : Bool := 48 ≤ b && b ≤ 57

variable (isSpace : UInt8 → Bool)

/-- `SkipWhitespace`, with `isspace` of the server's locale. -/
def skipWhitespace (p : Bytes) : Bytes := p.dropWhile isSpace

/-- The loop of `ParseInteger`; the number wraps around. -/
def parseDigits : Int32 → Bool → Bytes → Except String (Int32 × Bytes)
  | val, hasDigit, [] =>
    if hasDigit then .ok (val, []) else .error "expected integer parameter for partition transform"
  | val, hasDigit, b :: p =>
    if isDigit b then
      let val := val * 10 + Int32.ofNat (b.toNat - 48)
      if val ≤ 0 then .error "bucket or truncate size must be between 1 and 2147483647"
      else parseDigits val true p
    else if hasDigit then .ok (val, b :: p)
    else .error "expected integer parameter for partition transform"

/-- `ParseInteger`: the number and the text behind it. -/
def parseInteger (p : Bytes) : Except String (Int32 × Bytes) :=
  parseDigits 0 false (skipWhitespace isSpace p)

/-- The number that the digits denote. -/
def digitsValue (digits : Bytes) : ℕ := digits.foldl (fun n b => n * 10 + (b.toNat - 48)) 0

def wrapped (val : Int32) (digits : Bytes) : Int32 :=
  digits.foldl (fun v b => v * 10 + Int32.ofNat (b.toNat - 48)) val

theorem wrapped_zero (ds : Bytes) : wrapped 0 ds = Int32.ofNat (digitsValue ds) := by
  unfold wrapped digitsValue
  rw [show (0 : Int32) = Int32.ofNat 0 from rfl]
  generalize 0 = n
  induction ds generalizing n with
  | nil => rfl
  | cons b ds ih =>
    rw [foldl_cons, foldl_cons, ← ih, Int32.ofNat_add, Int32.ofNat_mul]
    rfl

theorem parseDigits_eq_ok {ds rest : Bytes} (hd : ∀ b ∈ ds, isDigit b = true)
    (hr : ∀ b ∈ rest.head?, isDigit b = false) {val : Int32} {hasDigit : Bool}
    (hs : hasDigit = true ∨ ds ≠ [])
    (hpos : ∀ front, front <+: ds → front ≠ [] → 0 < wrapped val front) :
    parseDigits val hasDigit (ds ++ rest) = .ok (wrapped val ds, rest) := by
  induction ds generalizing val hasDigit with
  | nil =>
    have hs : hasDigit = true := hs.resolve_right fun h => h rfl
    cases rest with
    | nil => simp [parseDigits, hs, wrapped]
    | cons b => simp [parseDigits, hs, wrapped, hr b rfl]
  | cons b ds ih =>
    obtain ⟨hb, hd⟩ := forall_mem_cons.mp hd
    have hf : ¬ val * 10 + Int32.ofNat (b.toNat - 48) ≤ 0 :=
      Int32.not_le.mpr (hpos [b] (by simp) (by simp))
    simp only [cons_append, parseDigits, hb, if_true, hf, if_false]
    refine ih hd (.inl rfl) fun front hfr hne => ?_
    exact hpos (b :: front) (cons_prefix_cons.mpr ⟨rfl, hfr⟩) (by simp)

theorem parseDigits_eq_error {ds rest front : Bytes} (hd : ∀ b ∈ ds, isDigit b = true)
    (hfr : front <+: ds) (hne : front ≠ []) {val : Int32} {hasDigit : Bool}
    (hneg : wrapped val front ≤ 0) :
    ∃ e, parseDigits val hasDigit (ds ++ rest) = .error e := by
  induction ds generalizing val hasDigit front with
  | nil => exact absurd (prefix_nil.mp hfr) hne
  | cons b ds ih =>
    obtain ⟨hb, ht⟩ := forall_mem_cons.mp hd
    simp only [cons_append, parseDigits, hb, if_true]
    split_ifs with hf
    · exact ⟨_, rfl⟩
    · cases front with
      | nil => exact absurd rfl hne
      | cons =>
        obtain ⟨rfl, hp⟩ := cons_prefix_cons.mp hfr
        refine ih ht hp ?_ hneg
        rintro rfl
        exact hf hneg

/-- The digits at the start, after blanks. -/
def digitsAt (p : Bytes) : Bytes := (skipWhitespace isSpace p).takeWhile isDigit

/-- An error, or the exact value and the text behind the digits. -/
def ReadsExactly (p : Bytes) : Prop :=
  (∃ e, parseInteger isSpace p = .error e) ∨
    ∃ n, parseInteger isSpace p = .ok (n, (skipWhitespace isSpace p).dropWhile isDigit) ∧
      n.toInt = digitsValue (digitsAt isSpace p) ∧ 1 ≤ n.toInt

/-- **A number is read as its value or refused exactly if it is less than `2 ^ 31`, or it has a
    beginning that, as an int32, is not positive.** -/
theorem integer_exact_iff (isSpace : UInt8 → Bool) (p : Bytes) :
    ReadsExactly isSpace p ↔ digitsValue (digitsAt isSpace p) < 2 ^ 31 ∨
      ∃ front, front <+: digitsAt isSpace p ∧ front ≠ [] ∧ Int32.ofNat (digitsValue front) ≤ 0 := by
  have hsplit : skipWhitespace isSpace p =
      digitsAt isSpace p ++ (skipWhitespace isSpace p).dropWhile isDigit :=
    takeWhile_append_dropWhile.symm
  have hdigits : ∀ b ∈ digitsAt isSpace p, isDigit b = true := fun b hb => mem_takeWhile_imp hb
  have hrest : ∀ b ∈ ((skipWhitespace isSpace p).dropWhile isDigit).head?, isDigit b = false :=
    fun b hb => by
      have hnot := head?_dropWhile_not isDigit (skipWhitespace isSpace p)
      rwa [Option.mem_def.mp hb] at hnot
  by_cases hbad : ∃ front, front <+: digitsAt isSpace p ∧ front ≠ [] ∧
      Int32.ofNat (digitsValue front) ≤ 0
  · obtain ⟨front, hfront, hne, hneg⟩ := hbad
    refine iff_of_true (.inl ?_) (.inr ⟨front, hfront, hne, hneg⟩)
    rw [parseInteger, hsplit]
    exact parseDigits_eq_error hdigits hfront hne (wrapped_zero front ▸ hneg)
  · have hpos : ∀ front, front <+: digitsAt isSpace p → front ≠ [] → 0 < wrapped 0 front := by
      intro front hfront hne
      rw [wrapped_zero]
      exact Int32.not_le.mp fun hneg => hbad ⟨front, hfront, hne, hneg⟩
    rw [or_iff_left hbad]
    by_cases hnil : digitsAt isSpace p = []
    · rw [hnil]
      refine iff_of_true (.inl ?_) (by decide)
      rw [parseInteger, hsplit, hnil]
      cases hp : (skipWhitespace isSpace p).dropWhile isDigit with
      | nil => exact ⟨_, rfl⟩
      | cons b q =>
        rw [hp] at hrest
        simp [parseDigits, hrest b rfl]
    · have hok : parseDigits 0 false _ = _ := parseDigits_eq_ok hdigits hrest (.inr hnil) hpos
      rw [← hsplit, ← parseInteger, wrapped_zero] at hok
      have hfirst := hpos _ (prefix_refl _) hnil
      rw [wrapped_zero, Int32.lt_iff_toInt_lt] at hfirst
      have htoInt : (Int32.ofNat (digitsValue (digitsAt isSpace p))).toInt =
          (digitsValue (digitsAt isSpace p) : ℤ).bmod (2 ^ 32) := Int32.toInt_ofNat'
      constructor
      · rintro (⟨e, he⟩ | ⟨n, hn, hvalue, -⟩)
        · rw [hok] at he
          cases he
        · have hlt := n.toInt_lt
          omega
      · intro hlt
        refine .inr ⟨_, hok, ?_, hfirst⟩
        rw [htoInt, Int.bmod_eq_of_le (by omega) (by omega)]

/-- `isspace` of the C locale. -/
def cIsSpace (b : UInt8) : Bool := b = 32 || 9 ≤ b && b ≤ 13

/-- The number 4294967297, which is `2 ^ 32 + 1`. -/
def fourBillion : Bytes := [52, 50, 57, 52, 57, 54, 55, 50, 57, 55]

theorem four_billion_is_read_as_one :
    parseInteger cIsSpace fourBillion = .ok (1, []) ∧ ¬ ReadsExactly cIsSpace fourBillion := by
  have hparse : parseInteger cIsSpace fourBillion = .ok (1, []) := by decide +kernel
  refine ⟨hparse, ?_⟩
  rintro (⟨e, he⟩ | ⟨n, hn, hvalue, -⟩)
  · cases he
  · cases hn
    revert hvalue
    decide +kernel

end PgLake.Fdw.PartitionBy
