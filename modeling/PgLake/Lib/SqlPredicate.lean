/-
  Comparisons of nullable columns with constants, in three-valued logic.

  A row maps columns to values, `none` being NULL; a predicate is TRUE, FALSE or
  unknown (`none`).
-/
import Mathlib.Order.Lattice

namespace SqlPredicate

variable {A V : Type*}

inductive Cmp where
  | lt
  | le
  | eq
  | ge
  deriving DecidableEq

def Cmp.holds [LinearOrder V] : Cmp → V → V → Bool
  | .lt, x, y => decide (x < y)
  | .le, x, y => decide (x ≤ y)
  | .eq, x, y => decide (x = y)
  | .ge, x, y => decide (y ≤ x)

/-- Predicates over the columns `A`. -/
inductive Pred (A V : Type*) where
  | cmp (a : A) (op : Cmp) (v : V)
  | and (p q : Pred A V)
  | isNull (a : A)
  deriving DecidableEq

def and3 : Option Bool → Option Bool → Option Bool
  | some false, _ => some false
  | _, some false => some false
  | some true, some true => some true
  | _, _ => none

theorem and3_eq_true {x y : Option Bool} :
    and3 x y = some true ↔ x = some true ∧ y = some true := by
  rcases x with _ | _ | _ <;> rcases y with _ | _ | _ <;> simp [and3]

def Pred.eval [LinearOrder V] (row : A → Option V) : Pred A V → Option Bool
  | .cmp a op v => (row a).map fun x => op.holds x v
  | .and p q => and3 (p.eval row) (q.eval row)
  | .isNull a => some (row a).isNone

variable [LinearOrder V] {row : A → Option V}

theorem isTrue_cmp {a : A} {op : Cmp} {v : V} :
    (Pred.cmp a op v).eval row = some true ↔ ∃ x, row a = some x ∧ op.holds x v = true := by
  simp [Pred.eval]

theorem isTrue_and {p q : Pred A V} :
    (Pred.and p q).eval row = some true ↔ p.eval row = some true ∧ q.eval row = some true :=
  and3_eq_true

end SqlPredicate
