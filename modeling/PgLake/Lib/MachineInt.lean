/-
  Fixed-width integers read as mathematical ones: what a C expression over
  `int64_t`, `int` and `uint64_t` computes, stated over `ℤ`.
-/
import Mathlib.Algebra.Order.Ring.Int

namespace MachineInt

open Int

theorem toNat_toUInt64_sub (a b : Int64) :
    ((a - b).toUInt64.toNat : ℤ) = (a.toInt - b.toInt) % 2 ^ 64 := by
  have hb : (a - b).toUInt64.toNat = (a.toBitVec - b.toBitVec).toNat := rfl
  have htoInt : ∀ x : Int64, x.toInt = x.toBitVec.toInt := fun _ => rfl
  rw [hb, htoInt, htoInt, BitVec.toInt_eq_toNat_bmod, BitVec.toInt_eq_toNat_bmod,
    BitVec.toNat_sub]
  simp only [Int.bmod]
  omega

theorem toNat_toUInt64_sub_of_le {a b : Int64} (h : b.toInt ≤ a.toInt) :
    ((a - b).toUInt64.toNat : ℤ) = a.toInt - b.toInt := by
  have ha := a.toInt_lt
  have hb := b.le_toInt
  rw [toNat_toUInt64_sub]
  omega

theorem lt_sub_iff {a b : Int64} {m : UInt64} (h : b.toInt ≤ a.toInt) :
    m < (a - b).toUInt64 ↔ (m.toNat : ℤ) < a.toInt - b.toInt := by
  rw [UInt64.lt_iff_toNat_lt, ← ofNat_lt, toNat_toUInt64_sub_of_le h]

theorem toNat_toInt64_of_nonneg {n : Int32} (h : 0 ≤ n.toInt) :
    (n.toInt64.toUInt64.toNat : ℤ) = n.toInt := by
  have hb : n.toInt64.toUInt64.toNat = (n.toBitVec.signExtend 64).toNat := rfl
  have hint : n.toInt = n.toBitVec.toInt := rfl
  rw [hint] at h ⊢
  have hmsb : n.toBitVec.msb = false := by
    by_contra hne
    have := BitVec.toInt_neg_of_msb_true (Bool.not_eq_false _ ▸ hne)
    omega
  rw [hb, BitVec.toNat_signExtend, BitVec.toInt_eq_toNat_of_msb hmsb, hmsb,
    BitVec.toNat_setWidth]
  simp only [Bool.false_eq_true, if_false]
  omega

theorem lt_add_one {n : Int64} (h : n ≠ Int64.maxValue) : n < n + 1 := by
  have hlt := Int64.toInt_lt n
  have hge := Int64.le_toInt n
  have hne : n.toInt ≠ 2 ^ 63 - 1 := by
    intro heq
    exact h (Int64.toInt_inj.mp (by rw [heq]; rfl))
  rw [Int64.lt_iff_toInt_lt, Int64.toInt_add, Int64.toInt_one, bmod_eq_of_le (by omega)
    (by omega)]
  omega

theorem ne_add_one (n : Int64) : n ≠ n + 1 := by
  intro h
  have hint := congrArg Int64.toInt h
  rw [Int64.toInt_add, Int64.toInt_one, bmod_def] at hint
  omega

theorem tmod_add_tmod {x w : ℤ} (hw : 0 < w) : (x.tmod w + w).tmod w = x % w := by
  have hlt := lt_tmod_of_pos x hw
  rw [tmod_eq_emod_of_nonneg (by omega), add_emod_right, tmod_eq_emod]
  split_ifs
  · rw [Int.natCast_zero, sub_zero, emod_emod]
  · rw [natAbs_of_nonneg hw.le, sub_emod_right, emod_emod]

theorem floor_of_nonneg {x w : ℤ} (hw : 0 < w) (h : 0 ≤ x.tmod w) :
    x.tdiv w = x / w ∧ x.tmod w = x % w := by
  have hlt := emod_lt_of_pos x hw
  rw [tmod_eq_emod] at h ⊢
  rw [tdiv_eq_ediv]
  split_ifs at h ⊢ with hc
  · omega
  · omega

theorem floor_of_neg {x w : ℤ} (hw : 0 < w) (h : x.tmod w < 0) :
    x.tdiv w - 1 = x / w ∧ x.tmod w + w = x % w := by
  have hn := emod_nonneg x hw.ne'
  rw [tmod_eq_emod] at h ⊢
  rw [tdiv_eq_ediv]
  split_ifs at h ⊢ with hc
  · omega
  · rw [sign_eq_one_of_pos hw]
    omega

end MachineInt
