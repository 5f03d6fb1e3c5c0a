/-
  Integer arithmetic in which an overflow is an error.

  A C expression is a chain of operations, each of which is checked to have a result of its
  type.
-/
import Mathlib.Algebra.Order.Ring.Int

namespace CheckedInt

/-- Errors among which there is an overflow. -/
class HasOverflow (ε : Type) where
  overflow : ε

variable {ε α : Type} [HasOverflow ε]

def int32 (x : ℤ) : Except ε ℤ :=
  if -2 ^ 31 ≤ x ∧ x < 2 ^ 31 then .ok x else .error HasOverflow.overflow

def int64 (x : ℤ) : Except ε ℤ :=
  if -2 ^ 63 ≤ x ∧ x < 2 ^ 63 then .ok x else .error HasOverflow.overflow

variable {x : ℤ} {f : ℤ → Except ε α}

theorem int32_eq_ok (h : -2 ^ 31 ≤ x ∧ x < 2 ^ 31) : (int32 x : Except ε ℤ) = .ok x :=
  if_pos h

theorem int64_eq_ok (h : -2 ^ 63 ≤ x ∧ x < 2 ^ 63) : (int64 x : Except ε ℤ) = .ok x :=
  if_pos h

theorem int32_bind (h : -2 ^ 31 ≤ x ∧ x < 2 ^ 31) : (int32 x >>= f) = f x := by
  rw [int32_eq_ok h]
  rfl

theorem int64_bind (h : -2 ^ 63 ≤ x ∧ x < 2 ^ 63) : (int64 x >>= f) = f x := by
  rw [int64_eq_ok h]
  rfl

end CheckedInt
