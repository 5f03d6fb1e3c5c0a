/-
  A loop over the entries of a hash table that changes another hash table, one
  key at a time.

  The order of the entries is any list with distinct keys.  Each key is touched
  by its own iteration only.
-/
import Mathlib.Data.List.AList

namespace KeyedFold

open List

variable {K E V : Type*} [DecidableEq K]

/-- Every iteration `f` changes only the value at its own key, by `g`. -/
structure Pointwise (f : AList (fun _ : K => V) → (_ : K) × E → AList (fun _ : K => V))
    (g : (_ : K) × E → Option V → Option V) : Prop where
  self : ∀ m x, (f m x).lookup x.1 = g x (m.lookup x.1)
  other : ∀ m x k, k ≠ x.1 → (f m x).lookup k = m.lookup k

variable {f : AList (fun _ : K => V) → (_ : K) × E → AList (fun _ : K => V)}
  {g : (_ : K) × E → Option V → Option V}

theorem lookup_foldl_of_notMem (h : Pointwise f g) {order : List ((_ : K) × E)} {k : K}
    (hk : k ∉ order.keys) (m : AList (fun _ : K => V)) :
    (order.foldl f m).lookup k = m.lookup k := by
  induction order generalizing m with
  | nil => rfl
  | cons x order ih =>
    rw [keys_cons, mem_cons, not_or] at hk
    rw [foldl_cons, ih hk.2, h.other m x k hk.1]

theorem lookup_foldl (h : Pointwise f g) {order : List ((_ : K) × E)}
    (hn : order.NodupKeys) {x : (_ : K) × E} (hx : x ∈ order) (m : AList (fun _ : K => V)) :
    (order.foldl f m).lookup x.1 = g x (m.lookup x.1) := by
  induction order generalizing m with
  | nil => cases hx
  | cons y order ih =>
    rw [nodupKeys_cons] at hn
    rw [foldl_cons]
    rcases mem_cons.mp hx with rfl | hx
    · rw [lookup_foldl_of_notMem h hn.1, h.self]
    · have hne : x.1 ≠ y.1 := by
        intro heq
        exact hn.1 (heq ▸ mem_keys_of_mem hx)
      rw [ih hn.2 hx, h.other m y x.1 hne]

end KeyedFold
