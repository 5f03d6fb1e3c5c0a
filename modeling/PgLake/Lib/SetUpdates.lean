/-
  A finite set changed by a list of insertions and removals.

  When no element is both inserted and removed, the result does not depend on
  the order of the updates: `mem_applyAll` gives its members.
-/
import Mathlib.Data.Finset.Basic

namespace SetUpdates

open List

variable {α : Type*} [DecidableEq α]

inductive Update (α : Type*) where
  | insert (a : α)
  | erase (a : α)
  deriving DecidableEq

variable (s : Finset α)

def Update.apply : Update α → Finset α
  | .insert a => Insert.insert a s
  | .erase a => s.erase a

def applyAll (us : List (Update α)) : Finset α :=
  us.foldl Update.apply s

@[simp] theorem applyAll_nil : applyAll s [] = s := rfl

@[simp] theorem applyAll_append (us vs : List (Update α)) :
    applyAll s (us ++ vs) = applyAll (applyAll s us) vs := foldl_append

/-- **Updates of different elements commute.** -/
theorem mem_applyAll {s : Finset α} {us : List (Update α)} {x : α}
    (h : .insert x ∈ us → .erase x ∉ us) :
    x ∈ applyAll s us ↔ x ∈ s ∧ .erase x ∉ us ∨ .insert x ∈ us := by
  induction us generalizing s with
  | nil => simp
  | cons u us ih =>
    have hus : .insert x ∈ us → .erase x ∉ us := fun hi he =>
      h (mem_cons_of_mem _ hi) (mem_cons_of_mem _ he)
    have hc : applyAll s (u :: us) = applyAll (u.apply s) us := rfl
    rw [hc, ih hus]
    cases u with
    | insert a =>
      by_cases hxa : x = a
      · subst hxa
        have : .erase x ∉ us := fun he => h mem_cons_self (mem_cons_of_mem _ he)
        simp [Update.apply, this]
      · simp [Update.apply, hxa]
    | erase a =>
      by_cases hxa : x = a
      · subst hxa
        have : .insert x ∉ us := fun hi => h (mem_cons_of_mem _ hi) mem_cons_self
        simp [Update.apply, this]
      · simp [Update.apply, hxa]

theorem foldl_eq_applyAll {β : Type*} {f : Finset α → β → Finset α} {us : β → List (Update α)}
    (hf : ∀ s b, f s b = applyAll s (us b)) (bs : List β) (s : Finset α) :
    bs.foldl f s = applyAll s (bs.flatMap us) := by
  induction bs generalizing s with
  | nil => rfl
  | cons b bs ih =>
    rw [foldl_cons, hf, ih, flatMap_cons, applyAll_append]

end SetUpdates
