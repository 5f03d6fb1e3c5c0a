/-
  Looking up an entry of a list by a key that is unique in it.
-/
import Mathlib.Data.List.Nodup

namespace Lookup

open List

variable {α κ : Type*} [DecidableEq κ] {key : α → κ} {l : List α}

theorem find?_of_mem (hn : (l.map key).Nodup) {a : α} (ha : a ∈ l) :
    l.find? (fun b => key b = key a) = some a := by
  induction l with
  | nil => cases ha
  | cons x rest ih =>
    rw [map_cons, nodup_cons] at hn
    rcases mem_cons.mp ha with rfl | ha
    · simp
    · have hne : key x ≠ key a := fun hx => hn.1 (hx ▸ mem_map_of_mem ha)
      rw [find?_cons_of_neg (by simpa using hne)]
      exact ih hn.2 ha

theorem filter_of_mem (hn : (l.map key).Nodup) {a : α} (ha : a ∈ l) :
    l.filter (fun b => key b = key a) = [a] := by
  induction l with
  | nil => cases ha
  | cons x rest ih =>
    rw [map_cons, nodup_cons] at hn
    rcases mem_cons.mp ha with rfl | ha
    · rw [filter_cons_of_pos (by simp), filter_eq_nil_iff.mpr]
      intro b hb
      simpa using fun h : key b = key a => hn.1 (h ▸ mem_map_of_mem hb)
    · have hne : key x ≠ key a := fun hx => hn.1 (hx ▸ mem_map_of_mem ha)
      rw [filter_cons_of_neg (by simpa using hne)]
      exact ih hn.2 ha

theorem lookup_zip {names : List κ} (hn : names.Nodup) {vs : List α} {n : κ} {v : α}
    (h : (n, v) ∈ names.zip vs) : (names.zip vs).lookup n = some v := by
  induction names generalizing vs with
  | nil => cases h
  | cons n' names ih =>
    cases vs with
    | nil => cases h
    | cons =>
      rw [nodup_cons] at hn
      rw [zip_cons_cons] at h ⊢
      rcases mem_cons.mp h with heq | h
      · cases heq
        exact lookup_cons_self
      · have hne : n ≠ n' := fun heq => hn.1 (heq ▸ (of_mem_zip h).1)
        rw [lookup_cons, beq_false_of_ne hne]
        exact ih hn.2 h

end Lookup
