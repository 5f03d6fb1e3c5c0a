/-
  Two's complement numbers as bytes, most significant byte first, with as few
  bytes as possible: `strip` removes leading bytes that only repeat the sign,
  `extend` puts them back.
-/
import Mathlib.Tactic.Linarith
import Mathlib.Tactic.Positivity
import PgLake.Lib.WireBytes

namespace SignedBytes

open WireBytes List

def topBit (b : UInt8) : Bool := 128 ≤ b.toNat

def isNegative (bytes : Bytes) : Bool := (bytes.head?.map topBit).getD false

def filler (negative : Bool) : UInt8 := if negative then 255 else 0

@[simp] theorem topBit_filler (negative : Bool) : topBit (filler negative) = negative := by
  cases negative <;> rfl

/-- Drop leading bytes that are `b`, except for the last byte. -/
def skip (b : UInt8) : Bytes → Bytes
  | c :: d :: rest => if c = b then skip b (d :: rest) else c :: d :: rest
  | short => short

/-- Drop what only repeats the sign.  One such byte stays where the next byte would be read
    with the other sign. -/
def strip (negative : Bool) (bytes : Bytes) : Bytes :=
  let rest := skip (filler negative) bytes
  if rest.length < bytes.length ∧ isNegative rest ≠ negative then filler negative :: rest else rest

/-- Fill up to `n` bytes. -/
def extend (n : ℕ) (bytes : Bytes) : Bytes :=
  List.replicate (n - bytes.length) (filler (isNegative bytes)) ++ bytes

theorem exists_replicate_skip (b : UInt8) (bytes : Bytes) :
    ∃ k, bytes = List.replicate k b ++ skip b bytes := by
  fun_induction skip b bytes with
  | case1 d rest ih =>
    obtain ⟨k, hk⟩ := ih
    refine ⟨k + 1, ?_⟩
    rw [replicate_succ, cons_append, ← hk]
  | case2 | case3 => exact ⟨0, rfl⟩

variable {negative : Bool}

theorem extend_eq {bytes rest : Bytes} {k : ℕ}
    (hbs : bytes = List.replicate k (filler negative) ++ rest)
    (hs : isNegative rest = negative) : extend bytes.length rest = bytes := by
  have hlen : bytes.length - rest.length = k := by
    rw [hbs, length_append, length_replicate, Nat.add_sub_cancel]
  rw [extend, hlen, hs, hbs]

variable {bytes : Bytes}

theorem isNegative_strip (hs : isNegative bytes = negative) :
    isNegative (strip negative bytes) = negative := by
  obtain ⟨k, hk⟩ := exists_replicate_skip (filler negative) bytes
  have hlen := congrArg List.length hk
  rw [length_append, length_replicate] at hlen
  unfold strip
  simp only
  split_ifs with hke
  · exact topBit_filler negative
  · rw [not_and_not_right] at hke
    by_cases hlt : (skip (filler negative) bytes).length < bytes.length
    · exact hke hlt
    · obtain rfl : k = 0 := by omega
      rw [replicate_zero, nil_append] at hk
      rw [← hk]
      exact hs

/-- **Stripping loses nothing.** -/
theorem extend_strip (hs : isNegative bytes = negative) :
    extend bytes.length (strip negative bytes) = bytes := by
  obtain ⟨k, hk⟩ := exists_replicate_skip (filler negative) bytes
  have hlen := congrArg List.length hk
  rw [length_append, length_replicate] at hlen
  have hst := isNegative_strip hs
  unfold strip at hst ⊢
  simp only at hst ⊢
  split_ifs at hst ⊢ with hke
  · obtain ⟨k, rfl⟩ : ∃ k', k = k' + 1 := ⟨k - 1, by omega⟩
    rw [replicate_succ', append_assoc] at hk
    exact extend_eq hk hst
  · exact extend_eq hk hst

theorem strip_ne_nil (negative : Bool) (h : bytes ≠ []) : strip negative bytes ≠ [] := by
  have hs : ∀ b, skip b bytes ≠ [] := by
    intro b
    fun_induction skip b bytes with
    | case1 d rest ih => exact ih (cons_ne_nil _ _)
    | case2 => exact cons_ne_nil _ _
    | case3 => exact h
  unfold strip
  simp only
  split_ifs
  · exact cons_ne_nil _ _
  · exact hs _

theorem isNegative_bigEndian {k n : ℕ} (h : n < 256 ^ (k + 1)) :
    isNegative (bigEndian (k + 1) n) = decide (128 * 256 ^ k ≤ n) := by
  have hd : n / 256 ^ k < 256 := by
    rw [Nat.div_lt_iff_lt_mul (Nat.pow_pos (by decide)), ← pow_succ']
    exact h
  have hb : (UInt8.ofNat (n / 256 ^ k)).toNat = n / 256 ^ k := by
    rw [UInt8.toNat_ofNat', Nat.mod_eq_of_lt hd]
  have htop : topBit (UInt8.ofNat (n / 256 ^ k)) = decide (128 * 256 ^ k ≤ n) := by
    rw [topBit, hb]
    exact decide_eq_decide.mpr (Nat.le_div_iff_mul_le (Nat.pow_pos (by decide)))
  exact htop

/-! ## The number -/

theorem foldl_bytes (l : Bytes) (n : ℕ) :
    l.foldl (fun n b => n * 256 + b.toNat) n = n * 256 ^ l.length + ofBigEndian l := by
  induction l generalizing n with
  | nil => simp [ofBigEndian]
  | cons b l ih =>
    have h0 := ih (0 * 256 + b.toNat)
    rw [ofBigEndian, foldl_cons, foldl_cons, ih, h0, length_cons, pow_succ]
    ring

theorem ofBigEndian_cons (b : UInt8) (l : Bytes) :
    ofBigEndian (b :: l) = b.toNat * 256 ^ l.length + ofBigEndian l := by
  rw [ofBigEndian, foldl_cons, foldl_bytes, zero_mul, zero_add]

theorem ofBigEndian_lt (l : Bytes) : ofBigEndian l < 256 ^ l.length := by
  induction l with
  | nil => decide
  | cons b =>
    have hb := b.toNat_lt
    rw [ofBigEndian_cons, length_cons, pow_succ]
    nlinarith

def toInt (bytes : Bytes) : ℤ :=
  if isNegative bytes then ofBigEndian bytes - 256 ^ bytes.length else ofBigEndian bytes

theorem toInt_cons (b : UInt8) (l : Bytes) :
    toInt (b :: l) = (if topBit b then (b.toNat : ℤ) - 256 else b.toNat) * 256 ^ l.length +
      ofBigEndian l := by
  have hs : isNegative (b :: l) = topBit b := rfl
  rw [toInt, hs, ofBigEndian_cons, length_cons, pow_succ]
  split_ifs <;> (push_cast; ring)

theorem toInt_filler_cons (h : bytes ≠ []) :
    toInt (filler (isNegative bytes) :: bytes) = toInt bytes := by
  obtain ⟨c, rest, rfl⟩ := exists_cons_of_ne_nil h
  have hs : isNegative (c :: rest) = topBit c := rfl
  rw [toInt_cons, topBit_filler, toInt, hs]
  cases topBit c <;> (simp [filler]; try ring)

theorem toInt_extend (h : bytes ≠ []) (n : ℕ) : toInt (extend n bytes) = toInt bytes := by
  rw [extend]
  induction n - bytes.length with
  | zero => rfl
  | succ k ih =>
    have hne : List.replicate k (filler (isNegative bytes)) ++ bytes ≠ [] :=
      append_ne_nil_of_right_ne_nil _ h
    have hs : isNegative (List.replicate k (filler (isNegative bytes)) ++ bytes) =
        isNegative bytes := by
      cases k with
      | zero => rfl
      | succ k => exact topBit_filler _
    have hc := toInt_filler_cons hne
    rw [hs, ih] at hc
    rw [replicate_succ, cons_append, hc]

theorem toInt_range {b : UInt8} {l : Bytes} :
    -128 * 256 ^ l.length ≤ toInt (b :: l) ∧ toInt (b :: l) < 128 * 256 ^ l.length := by
  have hb := b.toNat_lt
  have hl : (ofBigEndian l : ℤ) < 256 ^ l.length := by exact_mod_cast ofBigEndian_lt l
  rw [toInt_cons]
  split_ifs with htop
  · have htop := of_decide_eq_true htop
    constructor <;> nlinarith
  · have htop := of_decide_eq_false (Bool.eq_false_iff.mpr htop)
    constructor <;> nlinarith

/-! ## The shortest form -/

def Trimmed (bytes : Bytes) : Prop :=
  ∀ b c rest, bytes = b :: c :: rest → b ≠ filler (topBit c)

def IsShortest (u : ℤ) (bytes : Bytes) : Prop :=
  (bytes ≠ [] ∧ toInt bytes = u) ∧
    ∀ other, other ≠ [] → toInt other = u → bytes.length ≤ other.length

theorem trimmed_range {b c : UInt8} {rest : Bytes} (h : b ≠ filler (topBit c)) :
    toInt (b :: c :: rest) < -128 * 256 ^ rest.length ∨
      128 * 256 ^ rest.length ≤ toInt (b :: c :: rest) := by
  have hc := c.toNat_lt
  have hb := b.toNat_lt
  have hr : (ofBigEndian rest : ℤ) < 256 ^ rest.length := by exact_mod_cast ofBigEndian_lt rest
  have hpos : (0 : ℤ) < 256 ^ rest.length := by positivity
  have hne : b.toNat ≠ (filler (topBit c)).toNat := fun heq => h (UInt8.toNat_inj.mp heq)
  rw [toInt_cons, ofBigEndian_cons, length_cons, pow_succ]
  push_cast
  generalize (256 : ℤ) ^ rest.length = p at hr hpos ⊢
  -- the sign of the next byte decides which first byte would be redundant
  cases hs : topBit c with
  | true =>
    have hc' : 128 ≤ c.toNat := of_decide_eq_true hs
    rw [hs] at hne
    have hb' : b.toNat ≠ 255 := hne
    split_ifs with htop
    · left
      nlinarith [show (b.toNat : ℤ) ≤ 254 by omega]
    · right
      nlinarith
  | false =>
    have hc' : ¬128 ≤ c.toNat := of_decide_eq_false hs
    rw [hs] at hne
    have hb' : b.toNat ≠ 0 := hne
    split_ifs with htop
    · left
      nlinarith
    · right
      nlinarith [show (1 : ℤ) ≤ b.toNat by omega]

theorem isShortest_of_trimmed (hne : bytes ≠ []) (h : Trimmed bytes) :
    IsShortest (toInt bytes) bytes := by
  refine ⟨⟨hne, rfl⟩, ?_⟩
  intro other ho heq
  by_contra hlt
  obtain ⟨b, l, rfl⟩ := exists_cons_of_ne_nil ho
  rcases bytes with _ | ⟨c, _ | ⟨d, rest⟩⟩
  · exact hne rfl
  · simp at hlt
  · have hlen : l.length ≤ rest.length := by
      simp only [length_cons] at hlt
      omega
    have hpow : (256 : ℤ) ^ l.length ≤ 256 ^ rest.length := pow_le_pow_right₀ (by decide) hlen
    have hr := @toInt_range b l
    rcases @trimmed_range c d rest (h c d rest rfl) with hlow | hh <;> omega

theorem skip_ne {b c d : UInt8} {bytes rest : Bytes} (h : skip b bytes = c :: d :: rest) :
    c ≠ b := by
  fun_induction skip b bytes with
  | case1 _ _ ih => exact ih h
  | case2 _ _ _ hne =>
    obtain ⟨rfl, -⟩ := List.cons.inj h
    exact hne
  | case3 short hs => exact absurd h (hs c d rest)

theorem trimmed_strip (hsi : isNegative bytes = negative) : Trimmed (strip negative bytes) := by
  intro b c rest heq hb
  have hs := isNegative_strip hsi
  rw [heq] at hs
  have htop : topBit b = negative := hs
  -- the first byte repeats the sign, so it is the one that was kept in front
  have hn : topBit c = negative := by rw [← htop, hb, topBit_filler]
  unfold strip at heq
  simp only at heq
  split_ifs at heq with hk
  · obtain ⟨-, hr⟩ := List.cons.inj heq
    rw [hr] at hk
    exact hk.2 hn
  · exact skip_ne heq (by rw [hb, hn])

theorem strip_of_ne (hne : isNegative bytes ≠ negative) : strip negative bytes = bytes := by
  have hs : skip (filler negative) bytes = bytes := by
    rcases bytes with _ | ⟨c, _ | ⟨d, rest⟩⟩
    · rfl
    · rfl
    · rw [skip, if_neg]
      rintro rfl
      exact hne (topBit_filler negative)
  unfold strip
  simp [hs]

theorem extend_strip_of_any (negative : Bool) (bytes : Bytes) :
    isNegative (strip negative bytes) = isNegative bytes ∧
      extend bytes.length (strip negative bytes) = bytes := by
  by_cases hs : isNegative bytes = negative
  · exact ⟨(isNegative_strip hs).trans hs.symm, extend_strip hs⟩
  · rw [strip_of_ne hs, extend, Nat.sub_self]
    exact ⟨rfl, rfl⟩

end SignedBytes
