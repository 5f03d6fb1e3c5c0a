/-
  Bytes of a message on a wire: big-endian numbers and zero-terminated strings.

  `cString l` is what a C function sees behind a pointer to the first byte of `l`: the
  bytes up to the next zero, whether or not they belong together.
-/
import Mathlib.Data.List.TakeWhile
import Mathlib.Tactic.Ring

namespace WireBytes

open List

abbrev Bytes := List UInt8

/-- The last `k` base-256 digits of a number, the most significant one first. -/
def bigEndian : ℕ → ℕ → Bytes
  | 0, _ => []
  | k + 1, n => UInt8.ofNat (n / 256 ^ k) :: bigEndian k n

def ofBigEndian (l : Bytes) : ℕ := l.foldl (fun n b => n * 256 + b.toNat) 0

@[simp] theorem length_bigEndian (k n : ℕ) : (bigEndian k n).length = k := by
  induction k with
  | zero => rfl
  | succ k ih => rw [bigEndian, length_cons, ih]

theorem foldl_bigEndian (k n acc : ℕ) :
    (bigEndian k n).foldl (fun n b => n * 256 + b.toNat) acc = acc * 256 ^ k + n % 256 ^ k := by
  induction k generalizing acc with
  | zero => simp [bigEndian, Nat.mod_one]
  | succ k ih =>
    have hd : n % (256 ^ k * 256) = n % 256 ^ k + 256 ^ k * (n / 256 ^ k % 256) := Nat.mod_mul
    have hb : (UInt8.ofNat (n / 256 ^ k)).toNat = n / 256 ^ k % 256 := UInt8.toNat_ofNat'
    rw [bigEndian, foldl_cons, ih, hb, pow_succ, hd]
    ring

theorem ofBigEndian_bigEndian {k n : ℕ} (h : n < 256 ^ k) : ofBigEndian (bigEndian k n) = n := by
  rw [ofBigEndian, foldl_bigEndian, Nat.mod_eq_of_lt h, zero_mul, zero_add]

theorem head_bigEndian_eq_zero_iff {k n : ℕ} (hn : n < 256 ^ (k + 1)) :
    UInt8.ofNat (n / 256 ^ k) = 0 ↔ n < 256 ^ k := by
  have hlt : n / 256 ^ k < 256 := Nat.div_lt_of_lt_mul (by rwa [pow_succ] at hn)
  rw [← UInt8.toNat_inj, UInt8.toNat_ofNat', Nat.mod_eq_of_lt hlt]
  exact Nat.div_eq_zero_iff_lt (Nat.pow_pos (by decide))

def littleEndian (k n : ℕ) : Bytes := (bigEndian k n).reverse

def ofLittleEndian (l : Bytes) : ℕ := ofBigEndian l.reverse

@[simp] theorem length_littleEndian (k n : ℕ) : (littleEndian k n).length = k := by
  rw [littleEndian, length_reverse, length_bigEndian]

theorem ofLittleEndian_littleEndian {k n : ℕ} (h : n < 256 ^ k) :
    ofLittleEndian (littleEndian k n) = n := by
  rw [ofLittleEndian, littleEndian, reverse_reverse, ofBigEndian_bigEndian h]

def cString (l : Bytes) : Bytes := l.takeWhile (· ≠ 0)

theorem zero_notMem_cString (l : Bytes) : 0 ∉ cString l := by
  intro h
  have hne := mem_takeWhile_imp h
  simp at hne

theorem cString_append {v l : Bytes} (hv : 0 ∉ v) : cString (v ++ 0 :: l) = v := by
  rw [cString, takeWhile_append_of_pos]
  · rw [takeWhile_cons_of_neg (by simp), append_nil]
  · intro b hb
    exact decide_eq_true (fun heq => hv (heq ▸ hb))

theorem cString_append_cons_iff {v l : Bytes} {b : UInt8} :
    cString (v ++ b :: l) = v ↔ 0 ∉ v ∧ b = 0 := by
  constructor
  · intro h
    have hv : 0 ∉ v := h ▸ zero_notMem_cString _
    refine ⟨hv, by_contra fun hb => ?_⟩
    have hpos : ∀ c ∈ v, decide (c ≠ 0) = true := fun c hc => decide_eq_true fun heq => hv (heq ▸ hc)
    rw [cString, takeWhile_append_of_pos hpos, takeWhile_cons_of_pos (by simpa using hb),
      append_right_eq_self] at h
    cases h
  · rintro ⟨hv, rfl⟩
    exact cString_append hv

end WireBytes
