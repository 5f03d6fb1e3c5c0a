/-
  The binary form of decimals (`iceberg_type_numeric_binary_serde.c`).

  A numeric is printed, its digits are brought to the scale of the column and read as
  a 128-bit number, which is stored in two's complement with as few bytes as possible.

  Main results: `numeric_exact_or_error_iff`, `numeric_shortest_iff`.
-/
import Mathlib.Data.Nat.Cast.Order.Field
import Mathlib.Tactic.FieldSimp
import PgLake.Lib.Fallible
import PgLake.Lib.SignedBytes

namespace PgLake.Iceberg.BinarySerde

open WireBytes SignedBytes List

abbrev Digits := List (Fin 10)

/-- A numeric as `numeric_out` prints it. -/
inductive Numeric where
  | nan
  | infinity (negative : Bool)
  | finite (negative : Bool) (integral fraction : Digits)
  deriving DecidableEq

/-- The digits of the number at a scale: missing ones are zeros, others are cut off. -/
def normalizeNumericStr (integral fraction : Digits) (targetScale : ℕ) : Digits :=
  integral ++ fraction.take targetScale ++ List.replicate (targetScale - fraction.length) 0

def numericOverflow : String := "numeric overflow while converting to Iceberg binary"

def addDigit (n : ℕ) (digit : Fin 10) : Except String ℕ :=
  if n * 10 ≥ 2 ^ 128 then .error numericOverflow
  else if n * 10 + digit ≥ 2 ^ 128 then .error numericOverflow
  else .ok (n * 10 + digit)

def numericStrToBigEndianBinary (numericStr : Digits) : Except String Bytes :=
  (numericStr.foldlM addDigit 0).map (bigEndian 16)

def twosComplement (numericBinary : Bytes) : Bytes :=
  bigEndian 16 ((2 ^ 128 - ofBigEndian numericBinary) % 2 ^ 128)

/-- `PGNumericIcebergBinarySerialize`; `none` is the NULL pointer. -/
def numericSerialize (icebergScale : ℕ) : Numeric → Except String (Option Bytes)
  | .nan | .infinity _ => .ok none
  | .finite isNegative integral fraction =>
    (numericStrToBigEndianBinary (normalizeNumericStr integral fraction icebergScale)).map
      fun numericBinary =>
        some (strip isNegative (if isNegative then twosComplement numericBinary else numericBinary))

/-- The digits of a number, of which the code has room for 39. -/
def decimalDigits : ℕ → ℕ → Digits
  | 0, _ => []
  | fuel + 1, n => (if n / 10 = 0 then [] else decimalDigits fuel (n / 10)) ++ [Fin.ofNat 10 n]

def bigEndianBinaryToNumericStr (numericBinary : Bytes) (scale : ℕ) (isNegative : Bool) : Numeric :=
  let digits := decimalDigits 39 (ofBigEndian numericBinary)
  if scale ≥ digits.length then
    .finite isNegative [0] (List.replicate (scale - digits.length) 0 ++ digits)
  else
    .finite isNegative (digits.take (digits.length - scale)) (digits.drop (digits.length - scale))

/-- `PGNumericIcebergBinaryDeserialize`. -/
def numericDeserialize (scale : ℕ) (numericBinary : Bytes) : Numeric :=
  let adjustedNumericBinary := extend 16 numericBinary
  bigEndianBinaryToNumericStr
    (if isNegative numericBinary then twosComplement adjustedNumericBinary
      else adjustedNumericBinary) scale (isNegative numericBinary)

/-! ## Digits -/

def digitsValue (digits : Digits) : ℕ := digits.foldl (fun n (d : Fin 10) => n * 10 + d.val) 0

theorem foldl_digits (digits : Digits) (n : ℕ) :
    digits.foldl (fun n (d : Fin 10) => n * 10 + d.val) n =
      n * 10 ^ digits.length + digitsValue digits := by
  induction digits generalizing n with
  | nil => simp [digitsValue]
  | cons d digits ih =>
    have h0 := ih (0 * 10 + d.val)
    rw [digitsValue, foldl_cons, foldl_cons, ih, h0, length_cons, pow_succ]
    ring

@[simp] theorem digitsValue_nil : digitsValue [] = 0 := rfl

theorem digitsValue_append (ds ds' : Digits) :
    digitsValue (ds ++ ds') = digitsValue ds * 10 ^ ds'.length + digitsValue ds' := by
  rw [digitsValue, foldl_append, foldl_digits]
  rfl

@[simp] theorem digitsValue_replicate_zero (k : ℕ) : digitsValue (List.replicate k 0) = 0 := by
  induction k with
  | zero => rfl
  | succ k ih =>
    rw [replicate_succ', digitsValue_append, ih]
    rfl

theorem digitsValue_decimalDigits {fuel n : ℕ} (h : n < 10 ^ fuel) :
    digitsValue (decimalDigits fuel n) = n := by
  induction fuel generalizing n with
  | zero =>
    rw [decimalDigits, digitsValue_nil]
    omega
  | succ fuel ih =>
    have hl : digitsValue [Fin.ofNat 10 n] = n % 10 := by simp [digitsValue]
    have hr : digitsValue (if n / 10 = 0 then [] else decimalDigits fuel (n / 10)) = n / 10 := by
      split_ifs with h0
      · rw [h0, digitsValue_nil]
      · refine ih ?_
        omega
    rw [decimalDigits, digitsValue_append, hl, hr, length_singleton, pow_one]
    omega

theorem shift_add_digitsValue_cons (n : ℕ) (d : Fin 10) (digits : Digits) :
    n * 10 ^ (d :: digits).length + digitsValue (d :: digits) =
      (n * 10 + d.val) * 10 ^ digits.length + digitsValue digits := by
  rw [show d :: digits = [d] ++ digits from rfl, digitsValue_append, length_append,
    length_singleton]
  simp only [digitsValue, foldl_cons, foldl_nil]
  ring

theorem addDigit_eq_ok {n : ℕ} {d : Fin 10} (h : n * 10 + d.val < 2 ^ 128) :
    addDigit n d = .ok (n * 10 + d.val) := by
  rw [addDigit, if_neg (by omega), if_neg (by omega)]

theorem foldlM_addDigit {ds : Digits} {n : ℕ}
    (h : n * 10 ^ ds.length + digitsValue ds < 2 ^ 128) :
    ds.foldlM addDigit n = .ok (n * 10 ^ ds.length + digitsValue ds) := by
  induction ds generalizing n with
  | nil => simp [digitsValue, pure, Except.pure]
  | cons d ds ih =>
    rw [shift_add_digitsValue_cons] at h ⊢
    have hle : n * 10 + d.val ≤ (n * 10 + d.val) * 10 ^ ds.length :=
      Nat.le_mul_of_pos_right _ (Nat.pow_pos (by decide))
    rw [Fallible.foldlM_cons_of_ok (addDigit_eq_ok (by omega)), ih h]

/-! ## Round trip -/

/-- The number that the digits denote. -/
def Numeric.value (negative : Bool) (integral fraction : Digits) : ℚ :=
  (if negative then -1 else 1) * (digitsValue (integral ++ fraction) / 10 ^ fraction.length)

/-- The digits as a whole number at this scale. -/
def unscaled (scale : ℕ) (integral fraction : Digits) : ℕ :=
  digitsValue (integral ++ fraction) * 10 ^ (scale - fraction.length)

variable {integral fraction : Digits} {scale : ℕ}

theorem digitsValue_normalize (h : fraction.length ≤ scale) :
    digitsValue (normalizeNumericStr integral fraction scale) = unscaled scale integral fraction := by
  rw [normalizeNumericStr, take_of_length_le h, digitsValue_append, digitsValue_replicate_zero,
    length_replicate, unscaled, add_zero]

variable {negative : Bool}

open Numeric

theorem value_eq_unscaled (h : fraction.length ≤ scale) : value negative integral fraction =
      (if negative then -1 else 1) * ((unscaled scale integral fraction : ℚ) / 10 ^ scale) := by
  have hpow : (10 : ℚ) ^ scale = 10 ^ fraction.length * 10 ^ (scale - fraction.length) := by
    rw [← pow_add, Nat.add_sub_cancel' h]
  rw [value, unscaled, hpow]
  push_cast
  field_simp

theorem bigEndianBinaryToNumericStr_value {n : ℕ} (h : n < 2 ^ 128) (scale : ℕ) (negative : Bool) :
    ∃ integral fraction, bigEndianBinaryToNumericStr (bigEndian 16 n) scale negative =
        .finite negative integral fraction ∧
      fraction.length = scale ∧ digitsValue (integral ++ fraction) = n := by
  have hbs : ofBigEndian (bigEndian 16 n) = n := ofBigEndian_bigEndian h
  have hd : digitsValue (decimalDigits 39 n) = n :=
    digitsValue_decimalDigits (lt_trans h (by decide))
  unfold bigEndianBinaryToNumericStr
  simp only [hbs]
  split_ifs with hl
  · refine ⟨_, _, rfl, ?_, ?_⟩
    · rw [length_append, length_replicate, Nat.sub_add_cancel hl]
    · have hz : ∀ k, digitsValue ([0] ++ List.replicate k 0) = 0 :=
        fun k => digitsValue_replicate_zero (k + 1)
      rw [← append_assoc, digitsValue_append, hd, hz, zero_mul, zero_add]
  · refine ⟨_, _, rfl, ?_, ?_⟩
    · rw [length_drop]
      omega
    · rw [take_append_drop, hd]

/-- A number as a decimal with a scale: no more digits behind the point, at most 127 bits, and
    no negative zero. -/
structure IsDecimal (scale : ℕ) (negative : Bool) (integral fraction : Digits) : Prop where
  digits : fraction.length ≤ scale
  fits : unscaled scale integral fraction < 2 ^ 127
  sign : negative = true → 0 < unscaled scale integral fraction

/-- What is stored of a number with a sign, before it is stripped. -/
def storedBinary (negative : Bool) (n : ℕ) : Bytes :=
  if negative then twosComplement (bigEndian 16 n) else bigEndian 16 n

theorem twosComplement_bigEndian {n : ℕ} (hpos : 0 < n) (h : n < 2 ^ 128) :
    twosComplement (bigEndian 16 n) = bigEndian 16 (2 ^ 128 - n) := by
  rw [twosComplement, ofBigEndian_bigEndian h, Nat.mod_eq_of_lt (by omega)]

section Stored
variable {n : ℕ}

theorem storedBinary_length : (storedBinary negative n).length = 16 := by
  cases negative <;> exact length_bigEndian _ _

theorem storedBinary_sign (h : n < 2 ^ 127) (hs : negative = true → 0 < n) :
    isNegative (storedBinary negative n) = negative := by
  cases negative with
  | false =>
    refine (isNegative_bigEndian (show n < 256 ^ 16 by omega)).trans (decide_eq_false ?_)
    omega
  | true =>
    have hpos := hs rfl
    rw [storedBinary, if_pos rfl, twosComplement_bigEndian hpos (by omega)]
    refine (isNegative_bigEndian (show 2 ^ 128 - n < 256 ^ 16 by omega)).trans (decide_eq_true ?_)
    omega

theorem storedBinary_read (h : n < 2 ^ 127) (hs : negative = true → 0 < n) :
    (if negative then twosComplement (storedBinary negative n) else storedBinary negative n) =
      bigEndian 16 n := by
  cases negative with
  | false => rfl
  | true =>
    have hpos := hs rfl
    rw [if_pos rfl, storedBinary, if_pos rfl, twosComplement_bigEndian hpos (by omega),
      twosComplement_bigEndian (by omega) (by omega), Nat.sub_sub_self (by omega)]

end Stored

theorem numericSerialize_eq (h : IsDecimal scale negative integral fraction) :
    numericSerialize scale (.finite negative integral fraction) =
      .ok (some (strip negative (storedBinary negative (unscaled scale integral fraction)))) := by
  have hf := h.fits
  have hd : digitsValue (normalizeNumericStr integral fraction scale) = _ :=
    digitsValue_normalize h.digits
  have hl := @foldlM_addDigit (normalizeNumericStr integral fraction scale) 0
  rw [zero_mul, zero_add, hd] at hl
  rw [numericSerialize, numericStrToBigEndianBinary, hl (by omega)]
  rfl

/-- **A decimal comes back with its value.** -/
theorem numeric_roundTrip (h : IsDecimal scale negative integral fraction) :
    ∃ bs integral' fraction',
      numericSerialize scale (.finite negative integral fraction) = .ok (some bs) ∧ bs ≠ [] ∧
      numericDeserialize scale bs = .finite negative integral' fraction' ∧
      value negative integral' fraction' = value negative integral fraction := by
  have hf := h.fits
  have hs := storedBinary_sign hf h.sign
  have hr := storedBinary_read hf h.sign
  have hser := numericSerialize_eq h
  generalize hn : unscaled scale integral fraction = n at hf hs hr hser
  obtain ⟨integral', fraction', hp, hsc, hv⟩ :=
    bigEndianBinaryToNumericStr_value (show n < 2 ^ 128 by omega) scale negative
  refine ⟨strip negative (storedBinary negative n), integral', fraction', hser, ?_, ?_, ?_⟩
  · exact strip_ne_nil negative (ne_nil_of_length_pos (by rw [storedBinary_length]; decide))
  · have he := extend_strip hs
    rw [storedBinary_length] at he
    rw [numericDeserialize, isNegative_strip hs, he]
    simp [hr, hp]
  · rw [value_eq_unscaled h.digits, value_eq_unscaled hsc.le, hn, unscaled, hv, hsc,
      Nat.sub_self, pow_zero, mul_one]

/-! ## Any number of digits -/

theorem digitsValue_lt (ds : Digits) : digitsValue ds < 10 ^ ds.length := by
  induction ds using List.reverseRecOn with
  | nil => decide
  | append_singleton ds d =>
    have hl : digitsValue [d] = d.val := by simp [digitsValue]
    rw [digitsValue_append, hl, length_append, length_singleton, pow_succ]
    omega

/-- The number at a scale with the digits that are left when the others are cut off. -/
def truncated (scale : ℕ) (integral fraction : Digits) : ℕ :=
  digitsValue (integral ++ fraction) * 10 ^ scale / 10 ^ fraction.length

theorem digitsValue_normalizeNumericStr (integral fraction : Digits) (scale : ℕ) :
    digitsValue (normalizeNumericStr integral fraction scale) =
      truncated scale integral fraction := by
  have hpos : ∀ k, 0 < 10 ^ k := fun k => Nat.pow_pos (by decide)
  rcases le_or_gt fraction.length scale with hle | hlt
  · have hpow : 10 ^ scale = 10 ^ (scale - fraction.length) * 10 ^ fraction.length := by
      rw [← pow_add, Nat.sub_add_cancel hle]
    rw [digitsValue_normalize hle, unscaled, truncated, hpow, ← mul_assoc,
      Nat.mul_div_cancel _ (hpos _)]
  · have hpow : 10 ^ fraction.length = 10 ^ (fraction.length - scale) * 10 ^ scale := by
      rw [← pow_add, Nat.sub_add_cancel hlt.le]
    have hcut := digitsValue_lt (fraction.drop scale)
    have hs : digitsValue (integral ++ fraction) = digitsValue (fraction.drop scale) +
          digitsValue (integral ++ fraction.take scale) * 10 ^ (fraction.length - scale) := by
      conv_lhs => rw [← take_append_drop scale fraction, ← append_assoc,
        digitsValue_append, length_drop]
      exact add_comm _ _
    rw [length_drop] at hcut
    rw [truncated, hpow, Nat.mul_div_mul_right _ _ (hpos _), hs,
      Nat.add_mul_div_right _ _ (hpos _), Nat.div_eq_of_lt hcut, zero_add, normalizeNumericStr,
      Nat.sub_eq_zero_of_le hlt.le, replicate_zero, append_nil]

theorem addDigit_eq_error {n : ℕ} {d : Fin 10} (h : 2 ^ 128 ≤ n * 10 + d.val) :
    addDigit n d = .error numericOverflow := by
  unfold addDigit
  split_ifs
  · rfl
  · rfl

theorem foldlM_addDigit_eq_error {ds : Digits} : ∀ {n : ℕ}, n < 2 ^ 128 →
    2 ^ 128 ≤ n * 10 ^ ds.length + digitsValue ds →
      ds.foldlM addDigit n = .error numericOverflow := by
  induction ds with
  | nil =>
    intro n hn h
    simp at h
    omega
  | cons d ds ih =>
    intro n hn h
    by_cases hs : n * 10 + d.val < 2 ^ 128
    · rw [Fallible.foldlM_cons_of_ok (addDigit_eq_ok hs)]
      exact ih hs (shift_add_digitsValue_cons n d ds ▸ h)
    · rw [foldlM_cons, addDigit_eq_error (not_lt.mp hs)]
      rfl

section Any
variable (scale) (negative) (integral fraction : Digits)

def storedNumber (negative : Bool) (m : ℕ) : ℕ := if negative then (2 ^ 128 - m) % 2 ^ 128 else m

/-- The number with its sign. -/
def signed (negative : Bool) (m : ℕ) : ℤ := if negative then -m else m

variable {m : ℕ}

theorem storedBinary_eq {negative : Bool} (h : m < 2 ^ 128) :
    storedBinary negative m = bigEndian 16 (storedNumber negative m) := by
  cases negative with
  | false => rfl
  | true => rw [storedBinary, if_pos rfl, twosComplement, ofBigEndian_bigEndian h]; rfl

theorem storedNumber_lt (h : m < 2 ^ 128) : storedNumber negative m < 2 ^ 128 := by
  cases negative with
  | false => exact h
  | true => exact Nat.mod_lt _ (by decide)

/-- **The serializer**, for every number. -/
theorem numericSerialize_finite : numericSerialize scale (.finite negative integral fraction) =
      if 2 ^ 128 ≤ truncated scale integral fraction then .error numericOverflow
      else .ok (some (strip negative
        (bigEndian 16 (storedNumber negative (truncated scale integral fraction))))) := by
  have hd := digitsValue_normalizeNumericStr integral fraction scale
  rw [numericSerialize, numericStrToBigEndianBinary]
  by_cases hl : 2 ^ 128 ≤ truncated scale integral fraction
  · rw [if_pos hl, foldlM_addDigit_eq_error (by decide)
      (by rw [zero_mul, zero_add, hd]; exact hl)]
    rfl
  · have hlo := @foldlM_addDigit (normalizeNumericStr integral fraction scale) 0
    rw [zero_mul, zero_add, hd] at hlo
    rw [if_neg hl, hlo (not_le.mp hl), ← storedBinary_eq (not_le.mp hl)]
    rfl

theorem toInt_bigEndian {k : ℕ} (h : k < 2 ^ 128) :
    toInt (bigEndian 16 k) = (if 2 ^ 127 ≤ k then k - 2 ^ 128 else k : ℤ) := by
  have hs : isNegative (bigEndian 16 k) = decide (2 ^ 127 ≤ k) :=
    isNegative_bigEndian (show k < 256 ^ 16 by omega)
  rw [toInt, hs, ofBigEndian_bigEndian (show k < 256 ^ 16 by omega), length_bigEndian]
  norm_num

/-- **The deserializer** reads the number in two's complement. -/
theorem numericDeserialize_strip {k : ℕ} (h : k < 2 ^ 128) :
    ∃ negative' integral' fraction', numericDeserialize scale (strip negative (bigEndian 16 k)) =
        .finite negative' integral' fraction' ∧
      value negative' integral' fraction' = (toInt (bigEndian 16 k) : ℚ) / 10 ^ scale := by
  have hk : k < 256 ^ 16 := by omega
  have hs : isNegative (bigEndian 16 k) = decide (2 ^ 127 ≤ k) := isNegative_bigEndian hk
  obtain ⟨hst, he⟩ := extend_strip_of_any negative (bigEndian 16 k)
  rw [length_bigEndian] at he
  have hr : (if isNegative (bigEndian 16 k) then twosComplement (bigEndian 16 k)
      else bigEndian 16 k) = bigEndian 16 (if 2 ^ 127 ≤ k then 2 ^ 128 - k else k) := by
    rw [hs]
    simp only [decide_eq_true_eq]
    split_ifs with htop
    · exact twosComplement_bigEndian (by omega) h
    · rfl
  obtain ⟨integral', fraction', hp, hsc, hv⟩ := bigEndianBinaryToNumericStr_value
    (show (if 2 ^ 127 ≤ k then 2 ^ 128 - k else k) < 2 ^ 128 by split_ifs <;> omega) scale
    (isNegative (bigEndian 16 k))
  refine ⟨isNegative (bigEndian 16 k), integral', fraction', ?_, ?_⟩
  · rw [numericDeserialize, hst, he]
    simp only [hr, hp]
  · rw [value, hv, hsc, hs, toInt_bigEndian h]
    by_cases htop : 2 ^ 127 ≤ k
    · rw [if_pos htop, if_pos htop, decide_eq_true htop, if_pos rfl, Nat.cast_sub h.le]
      push_cast
      ring
    · rw [if_neg htop, if_neg htop, decide_eq_false htop]
      simp

theorem toInt_storedNumber_iff (h : m < 2 ^ 128) :
    toInt (bigEndian 16 (storedNumber negative m)) = signed negative m ↔
      m < 2 ^ 127 ∨ negative = true ∧ m = 2 ^ 127 := by
  rw [toInt_bigEndian (storedNumber_lt negative h)]
  cases negative with
  | false =>
    simp only [storedNumber, signed, Bool.false_eq_true, if_false, false_and, or_false]
    split_ifs <;> omega
  | true =>
    simp only [storedNumber, signed, if_true, true_and]
    split_ifs <;> omega

/-- The serializer raises an error, or its bytes are read as the number cut off at the scale. -/
def ExactOrError : Prop :=
  (∃ message, numericSerialize scale (.finite negative integral fraction) = .error message) ∨
    ∃ bytes negative' integral' fraction',
      numericSerialize scale (.finite negative integral fraction) = .ok (some bytes) ∧
      numericDeserialize scale bytes = .finite negative' integral' fraction' ∧
      Numeric.value negative' integral' fraction' =
        (signed negative (truncated scale integral fraction) : ℚ) / 10 ^ scale

theorem exactOrError_iff_toInt (hm : truncated scale integral fraction = m)
    (h : m < 2 ^ 128) : ExactOrError scale negative integral fraction ↔
      toInt (bigEndian 16 (storedNumber negative m)) = signed negative m := by
  unfold ExactOrError
  rw [numericSerialize_finite, hm, if_neg (not_le.mpr h)]
  obtain ⟨negative', integral', fraction', hr, hv⟩ :=
    numericDeserialize_strip scale negative (storedNumber_lt negative h)
  have hs : (10 : ℚ) ^ scale ≠ 0 := pow_ne_zero _ (by norm_num)
  constructor
  · rintro (⟨_, he⟩ | ⟨bs, n', i', f', hbs, hr', hv'⟩)
    · cases he
    · cases hbs
      cases hr.symm.trans hr'
      rwa [hv, div_left_inj' hs, Int.cast_inj] at hv'
  · intro heq
    exact .inr ⟨_, _, _, _, rfl, hr, by rw [hv, heq]⟩

/-- **Numbers of 127 bits are exact, and so is the least one; numbers of more than 128 bits are
    errors.**  Those between them come back with the other sign. -/
theorem numeric_exact_or_error_iff : ExactOrError scale negative integral fraction ↔
      truncated scale integral fraction < 2 ^ 127 ∨ 2 ^ 128 ≤ truncated scale integral fraction ∨
        negative = true ∧ truncated scale integral fraction = 2 ^ 127 := by
  by_cases hlarge : 2 ^ 128 ≤ truncated scale integral fraction
  · refine iff_of_true (.inl ⟨numericOverflow, ?_⟩) (.inr (.inl hlarge))
    rw [numericSerialize_finite, if_pos hlarge]
  · rw [exactOrError_iff_toInt scale negative integral fraction rfl (not_le.mp hlarge),
      toInt_storedNumber_iff negative (not_le.mp hlarge)]
    tauto

/-- The digits of `2 ^ 127`. -/
def twoPow127 : Digits := decimalDigits 39 (2 ^ 127)

theorem two_pow_127_comes_back_negative :
    numericSerialize 0 (.finite false twoPow127 []) = .ok (some (128 :: List.replicate 15 0)) ∧
      numericDeserialize 0 (128 :: List.replicate 15 0) = .finite true twoPow127 [] ∧
      ¬ExactOrError 0 false twoPow127 [] := by
  refine ⟨by decide +kernel, by decide +kernel, ?_⟩
  have hm : truncated 0 twoPow127 [] = 2 ^ 127 := by decide +kernel
  rw [exactOrError_iff_toInt 0 false twoPow127 [] hm (by decide)]
  decide +kernel

/-! ## The shortest form -/

theorem isNegative_storedNumber (h : m ≤ 2 ^ 127) (hs : negative = true → 0 < m)
    (hmax : negative = false → m < 2 ^ 127) :
    isNegative (bigEndian 16 (storedNumber negative m)) = negative := by
  have hlt := storedNumber_lt negative (show m < 2 ^ 128 by omega)
  refine (isNegative_bigEndian (show storedNumber negative m < 256 ^ 16 by omega)).trans ?_
  cases negative with
  | false =>
    have hmax := hmax rfl
    rw [storedNumber, if_neg Bool.false_ne_true]
    exact decide_eq_false (by omega)
  | true =>
    have hpos := hs rfl
    rw [storedNumber, if_pos rfl]
    exact decide_eq_true (by omega)

/-- **The bytes are the shortest ones of the number** if it has 127 bits, or is the least one, and
    is not a zero that was negative before its digits were cut off. -/
theorem numeric_shortest_iff {bytes : Bytes}
    (h : numericSerialize scale (.finite negative integral fraction) = .ok (some bytes)) :
    IsShortest (signed negative (truncated scale integral fraction)) bytes ↔
      (truncated scale integral fraction < 2 ^ 127 ∧
        (negative = true → 0 < truncated scale integral fraction)) ∨
      negative = true ∧ truncated scale integral fraction = 2 ^ 127 := by
  rw [numericSerialize_finite] at h
  generalize truncated scale integral fraction = m at h ⊢
  by_cases hlarge : 2 ^ 128 ≤ m
  · rw [if_pos hlarge] at h
    cases h
  rw [if_neg hlarge] at h
  cases h
  have hexact := toInt_storedNumber_iff negative (not_le.mp hlarge)
  have hextend := (extend_strip_of_any negative (bigEndian 16 (storedNumber negative m))).2
  have hne : strip negative (bigEndian 16 (storedNumber negative m)) ≠ [] :=
    strip_ne_nil _ (cons_ne_nil _ _)
  have htoInt := toInt_extend hne 16
  rw [length_bigEndian] at hextend
  rw [hextend] at htoInt
  constructor
  · intro hshort
    have hcond := hexact.mp (htoInt.trans hshort.1.2)
    by_cases hzero : negative = true ∧ m = 0
    · -- a negative zero is stored as sixteen zeros, and one would do
      obtain ⟨rfl, rfl⟩ := hzero
      exact absurd (hshort.2 [0] (cons_ne_nil _ _) rfl) (by decide +kernel)
    · refine hcond.imp (fun hsmall => ⟨hsmall, fun hneg => ?_⟩) id
      exact Nat.pos_of_ne_zero fun h0 => hzero ⟨hneg, h0⟩
  · intro hcond
    have heq := htoInt.symm.trans (hexact.mpr (hcond.imp And.left id))
    have hsign : isNegative (bigEndian 16 (storedNumber negative m)) = negative := by
      rcases hcond with ⟨hsmall, hpos⟩ | ⟨rfl, rfl⟩
      · exact isNegative_storedNumber negative hsmall.le hpos fun _ => hsmall
      · decide +kernel
    rw [← heq]
    exact isShortest_of_trimmed hne (trimmed_strip hsign)

theorem numeric_shortest_minus_one_and_a_half :
    numericSerialize 1 (.finite true [1] [5]) = .ok (some [241]) ∧ IsShortest (-15) [241] :=
  ⟨by decide +kernel,
    (numeric_shortest_iff 1 true [1] [5] (by decide +kernel)).mpr (by decide +kernel)⟩

theorem negative_zero_is_sixteen_bytes :
    numericSerialize 2 (.finite true [0] [0, 0, 1]) = .ok (some (List.replicate 16 0)) ∧
      ¬IsShortest (signed true (truncated 2 [0] [0, 0, 1])) (List.replicate 16 0) := by
  refine ⟨by decide +kernel, ?_⟩
  intro h
  exact absurd (h.2 [0] (cons_ne_nil _ _) (by decide +kernel)) (by decide +kernel)

end Any

end PgLake.Iceberg.BinarySerde
