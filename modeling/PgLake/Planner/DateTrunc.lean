/-
  date_trunc in a query that is pushed down (`RewriteFuncExprDateTrunc` in
  `pgduck/rewrite_query.c`).

  DuckDB lets a century begin with the year 2000 and Postgres with the year 2001, so a year is
  added to what DuckDB returns.

  Main result: `eval_dateTrunc_iff`.
-/
import Mathlib.Algebra.Order.Ring.Int

namespace PgLake.Planner.DateTrunc

/-- The years of the fields that `strcasecmp` finds equal to century and millennium. -/
def unitOf (fieldText : String) : Option ℤ :=
  if fieldText.toList.map Char.toLower = "millennium".toList then some 1000
  else if fieldText.toList.map Char.toLower = "century".toList then some 100
  else none

inductive Expr where
  | timeArg
  | dateTrunc (fieldText : String) (e : Expr)
  | addInterval (e : Expr) (months : ℤ)
  | relabelType (e : Expr)

def addOneYear (node : Expr) : Expr := .addInterval node 12

/-- For a field that is a constant text. -/
def rewriteFuncExprDateTrunc (fieldText : String) : Expr :=
  let node := .dateTrunc fieldText .timeArg
  .relabelType (if (unitOf fieldText).isSome then addOneYear node else node)

/-- What DuckDB computes; `january` is 1 January of a year. -/
structure DuckDB (Time : Type) where
  year : Time → ℤ
  january : ℤ → Time
  dateTrunc : String → Time → Time
  addMonths : Time → ℤ → Time
  year_january : ∀ y, year (january y) = y
  dateTrunc_unit : ∀ {fieldText unit}, unitOf fieldText = some unit →
    ∀ t, dateTrunc fieldText t = january (unit * (year t / unit))
  addMonths_january : ∀ y, addMonths (january y) 12 = january (y + 1)

variable {Time : Type} (db : DuckDB Time) (t : Time)

/-- The time that an expression denotes. -/
def Expr.eval : Expr → Time
  | .timeArg => t
  | .dateTrunc fieldText e => db.dateTrunc fieldText e.eval
  | .addInterval e months => db.addMonths e.eval months
  | .relabelType e => e.eval

/-- **The beginning of the century of Postgres**, unless the year is a multiple of 100. -/
theorem eval_dateTrunc_iff {fieldText : String} {unit : ℤ} (h : unitOf fieldText = some unit) :
    (rewriteFuncExprDateTrunc fieldText).eval db t =
        db.january (unit * ((db.year t - 1) / unit) + 1) ↔ ¬ unit ∣ db.year t := by
  have heval : (rewriteFuncExprDateTrunc fieldText).eval db t =
      db.january (unit * (db.year t / unit) + 1) := by
    simp [rewriteFuncExprDateTrunc, h, addOneYear, Expr.eval, db.dateTrunc_unit h,
      db.addMonths_january]
  have hunit : unit = 1000 ∨ unit = 100 := by
    unfold unitOf at h
    split_ifs at h <;> simp_all
  have hjanuary : ∀ y z, db.january y = db.january z ↔ y = z := fun y z =>
    ⟨fun heq => by simpa [db.year_january] using congrArg db.year heq, congrArg _⟩
  rw [heval, hjanuary]
  rcases hunit with rfl | rfl <;> omega

/-- Times that are the first of a year. -/
def years : DuckDB ℤ where
  year t := t
  january y := y
  dateTrunc fieldText t := ((unitOf fieldText).map fun unit => unit * (t / unit)).getD t
  addMonths t months := t + months / 12
  year_january _ := rfl
  dateTrunc_unit h t := by simp [h]
  addMonths_january _ := rfl

theorem eval_century_2001 : (rewriteFuncExprDateTrunc "century").eval years 2001 = 2001 :=
  (@eval_dateTrunc_iff ℤ years 2001 _ 100 (by decide)).mpr (by decide)

theorem eval_century_2000 : (rewriteFuncExprDateTrunc "century").eval years 2000 ≠ 1901 := by
  decide

end PgLake.Planner.DateTrunc
