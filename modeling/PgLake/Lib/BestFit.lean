/-
  Best-fit bin packing.

  Items are taken in order; each goes into the bin it leaves the least space in,
  or into a new bin when it fits into none (`pack`).
-/
import Mathlib.Algebra.Order.Ring.Int
import PgLake.Lib.Grouping

namespace BestFit

open List

variable {α : Type*}

structure Bin (α : Type*) where
  items : List α
  totalSize : ℤ
  deriving DecidableEq

def maxRemaining : ℤ := 2 ^ 63 - 1

variable {a : α}

open Bin

section

variable (size : α → ℤ) (target : ℤ)

/-- The bin to put an item into: its index, and the space it then leaves. -/
def bestFitFrom (a : α) : ℕ → Option ℕ × ℤ → List (Bin α) → Option ℕ × ℤ
  | _, best, [] => best
  | i, best, bin :: rest =>
    let candidate := bin.totalSize + size a
    if candidate ≤ target ∧ target - candidate < best.2 then
      bestFitFrom a (i + 1) (some i, target - candidate) rest
    else bestFitFrom a (i + 1) best rest

def bestFit (bins : List (Bin α)) (a : α) : Option ℕ :=
  (bestFitFrom size target a 0 (none, maxRemaining) bins).1

def Bin.add (bin : Bin α) (a : α) : Bin α := ⟨bin.items ++ [a], bin.totalSize + size a⟩

def place (bins : List (Bin α)) (a : α) : List (Bin α) :=
  match bestFit size target bins a with
  | some i => bins.modify i fun bin => bin.add size a
  | none => bins ++ [Bin.add size ⟨[], 0⟩ a]

def pack (items : List α) : List (Bin α) := items.foldl (place size target) []

/-! ## No item is lost -/

theorem bestFitFrom_lt (a : α) (bins : List (Bin α)) :
    ∀ (i : ℕ) (best : Option ℕ × ℤ) {j : ℕ}, (∀ k, best.1 = some k → k < i) →
      (bestFitFrom size target a i best bins).1 = some j → j < i + bins.length := by
  induction bins with
  | nil =>
    intro i best j hb h
    have hlt := hb j h
    simpa using hlt
  | cons bin rest ih =>
    intro i best j hb h
    have hlen : i + (bin :: rest).length = i + 1 + rest.length := by
      rw [length_cons]
      omega
    rw [hlen]
    unfold bestFitFrom at h
    simp only at h
    split_ifs at h
    · refine ih (i + 1) _ ?_ h
      intro k hk
      cases hk
      omega
    · refine ih (i + 1) best ?_ h
      intro k hk
      have hlt := hb k hk
      omega

variable {bins : List (Bin α)}

theorem bestFit_lt {i : ℕ} (h : bestFit size target bins a = some i) : i < bins.length := by
  have := bestFitFrom_lt size target a bins 0 (none, maxRemaining) (by simp) h
  simpa using this

theorem perm_flatMap_modify (a : α) {i : ℕ} (h : i < bins.length) :
    ((bins.modify i fun bin => bin.add size a).flatMap items).Perm
      (a :: bins.flatMap items) := by
  induction bins generalizing i with
  | nil => simp at h
  | cons bin rest ih =>
    cases i with
    | zero =>
      simp only [modify_zero_cons, flatMap_cons, add, append_assoc]
      exact perm_middle
    | succ i =>
      have hr := ih (Nat.lt_of_succ_lt_succ h)
      exact (hr.append_left bin.items).trans perm_middle

theorem perm_flatMap_place (bins : List (Bin α)) (a : α) :
    ((place size target bins a).flatMap items).Perm (a :: bins.flatMap items) := by
  unfold place
  split
  · next i hi => exact perm_flatMap_modify size a (bestFit_lt size target hi)
  · simp only [flatMap_append, flatMap_cons, flatMap_nil, add, nil_append, append_nil]
    exact perm_append_singleton _ _

/-- **Every item goes into one bin.** -/
theorem perm_flatMap_pack (items : List α) :
    ((pack size target items).flatMap Bin.items).Perm items :=
  Grouping.perm_foldl_of_step (perm_flatMap_place size target) items []

theorem mem_modify_or {α : Type*} {l : List α} {i : ℕ} {f : α → α} {a : α}
    (h : a ∈ l.modify i f) : a ∈ l ∨ ∃ b, l[i]? = some b ∧ a = f b := by
  rcases mem_iff_getElem?.mp h with ⟨j, hj⟩
  rw [getElem?_modify] at hj
  rcases hj' : l[j]? with _ | b
  · rw [hj'] at hj
    simp at hj
  · rw [hj'] at hj
    simp only [Option.map_eq_map, Option.map_some, Option.some.injEq] at hj
    split at hj
    · next hij => exact Or.inr ⟨b, hij ▸ hj', hj.symm⟩
    · exact Or.inl (hj ▸ mem_of_getElem? hj')

/-! ## What the bins have -/

theorem bestFitFrom_fits (a : α) (bins : List (Bin α)) :
    ∀ (i : ℕ) (best : Option ℕ × ℤ) {j : ℕ}, (bestFitFrom size target a i best bins).1 = some j →
      best.1 = some j ∨
        ∃ k bin, j = i + k ∧ bins[k]? = some bin ∧ bin.totalSize + size a ≤ target := by
  induction bins with
  | nil =>
    intro i best j h
    exact Or.inl h
  | cons bin rest ih =>
    intro i best j h
    unfold bestFitFrom at h
    simp only at h
    split_ifs at h with hf
    · rcases ih (i + 1) _ h with hb | ⟨k, bin', rfl, hk, hle⟩
      · cases hb
        exact Or.inr ⟨0, bin, rfl, rfl, hf.1⟩
      · exact Or.inr ⟨k + 1, bin', by omega, hk, hle⟩
    · rcases ih (i + 1) _ h with hb | ⟨k, bin', rfl, hk, hle⟩
      · exact Or.inl hb
      · exact Or.inr ⟨k + 1, bin', by omega, hk, hle⟩

theorem bestFit_fits {i : ℕ} (h : bestFit size target bins a = some i) :
    ∃ bin, bins[i]? = some bin ∧ bin.totalSize + size a ≤ target := by
  rcases bestFitFrom_fits size target a bins 0 _ h with hb | ⟨k, bin, rfl, hk, hle⟩
  · cases hb
  · exact ⟨bin, by simpa using hk, hle⟩

theorem forall_mem_place {Q : Bin α → Prop} (hb : ∀ bin ∈ bins, Q bin)
    (hnew : Q (add size ⟨[], 0⟩ a))
    (hadd : ∀ bin, Q bin → bin.totalSize + size a ≤ target → Q (bin.add size a)) :
    ∀ bin ∈ place size target bins a, Q bin := by
  intro bin hbin
  unfold place at hbin
  split at hbin
  · next i hi =>
    rcases bestFit_fits size target hi with ⟨fit, hfit, hle⟩
    rcases mem_modify_or hbin with hbin | ⟨old, hold, rfl⟩
    · exact hb bin hbin
    · rw [hold] at hfit
      obtain rfl := Option.some.inj hfit
      exact hadd old (hb old (mem_of_getElem? hold)) hle
  · rcases mem_append.mp hbin with hbin | hbin
    · exact hb bin hbin
    · rw [mem_singleton.mp hbin]
      exact hnew

variable {items : List α}

/-- A property of the bins holds for a new bin with one item, and is kept by an item that fits. -/
theorem forall_mem_pack {Q : Bin α → Prop} (hnew : ∀ a ∈ items, Q (add size ⟨[], 0⟩ a))
    (hadd : ∀ a ∈ items, ∀ bin, Q bin → bin.totalSize + size a ≤ target → Q (bin.add size a)) :
    ∀ bin ∈ pack size target items, Q bin := by
  have hrun : ∀ bins : List (Bin α), (∀ bin ∈ bins, Q bin) →
      ∀ bin ∈ items.foldl (place size target) bins, Q bin := by
    induction items with
    | nil => exact fun bins hb => hb
    | cons a items ih =>
      intro bins hb
      obtain ⟨hnew, hnewRest⟩ := forall_mem_cons.mp hnew
      obtain ⟨hadd, haddRest⟩ := forall_mem_cons.mp hadd
      exact ih hnewRest haddRest _ (forall_mem_place size target hb hnew hadd)
  exact hrun [] (by simp)

variable {bin : Bin α}

section

variable (h : bin ∈ pack size target items)

include h

theorem pack_items_ne_nil : bin.items ≠ [] :=
  forall_mem_pack size target (Q := fun bin => bin.items ≠ []) (fun _ _ => by simp [add])
    (fun _ _ _ _ _ => by simp [add]) bin h

theorem pack_totalSize : bin.totalSize = (bin.items.map size).sum := by
  refine forall_mem_pack size target (Q := fun bin => bin.totalSize = (bin.items.map size).sum)
    (fun a _ => ?_) (fun a _ bin hbin _ => ?_) bin h
  · simp [add]
  · simp [add, hbin]

/-- **Items that share a bin fit into it.** -/
theorem pack_fits (hs : 1 < bin.items.length) : bin.totalSize ≤ target := by
  have hbin : bin.items.length ≤ 1 ∨ bin.totalSize ≤ target :=
    forall_mem_pack size target (Q := fun bin => bin.items.length ≤ 1 ∨ bin.totalSize ≤ target)
      (fun _ _ => Or.inl (Nat.le_refl 1)) (fun _ _ _ _ hle => Or.inr hle) bin h
  exact hbin.resolve_left (by omega)

end

/-! ## Bins without room -/

def Bin.Tight (bin : Bin α) : Prop :=
  (bin.totalSize = 0 ∧ ∀ a ∈ bin.items, size a = 0) ∨
    ∃ a, bin.items = [a] ∧ bin.totalSize = size a ∧ 0 < size a

theorem Bin.tight_new (ha : 0 ≤ size a) : (add size ⟨[], 0⟩ a).Tight size := by
  rcases ha.eq_or_lt with hz | hpos
  · exact Or.inl ⟨by simp [add, ← hz], by simp [add, ← hz]⟩
  · exact Or.inr ⟨a, by simp [add], by simp [add], hpos⟩

theorem Bin.Tight.add_of_fits (h : bin.Tight size) (ha : 0 ≤ size a)
    (hf : bin.totalSize + size a ≤ 0) : (bin.add size a).Tight size := by
  rcases h with ⟨hz, hi⟩ | ⟨b, -, ht, hb⟩
  · have hs : size a = 0 := by omega
    refine Or.inl ⟨?_, ?_⟩
    · simp [add, hz, hs]
    · intro b hb
      rcases mem_append.mp hb with hb | hb
      · exact hi b hb
      · rw [mem_singleton.mp hb, hs]
  · omega

/-- **An item that takes space is alone in its bin if the bins have no room.** -/
theorem pack_zero_singleton (hi : ∀ a ∈ items, 0 ≤ size a) (hbin : bin ∈ pack size 0 items)
    (ha : a ∈ bin.items) (hpos : 0 < size a) : bin.items = [a] := by
  have htight : bin.Tight size :=
    forall_mem_pack size 0 (Q := Bin.Tight size) (fun a ha => tight_new size (hi a ha))
      (fun a ha _ hbin hle => hbin.add_of_fits size (hi a ha) hle) bin hbin
  rcases htight with ⟨-, hz⟩ | ⟨b, hb, -⟩
  · have := hz a ha
    omega
  · rw [hb, mem_singleton] at ha
    rw [hb, ha]

end

end BestFit
