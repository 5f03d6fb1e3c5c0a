/-
  Depth-first walks through a graph without cycles: the traversal takes every walk once
  if its depth suffices.
-/
import Mathlib.Data.List.Chain
import Mathlib.Data.List.Nodup

namespace Walks

open List

variable {α : Type*} {next : α → List α}

def walks (next : α → List α) : ℕ → α → List (List α)
  | 0, a => [[a]]
  | n + 1, a => [a] :: ((next a).flatMap (walks next n)).map (a :: ·)

structure IsWalk (next : α → List α) (a : α) (w : List α) : Prop where
  head : w.head? = some a
  chain : w.IsChain fun p c => c ∈ next p

theorem isWalk_singleton (a : α) : IsWalk next a [a] := ⟨rfl, .singleton a⟩

variable {w : List α}

theorem isWalk_cons_iff {a b : α} :
    IsWalk next a (b :: w) ↔ a = b ∧ (w = [] ∨ ∃ c ∈ next a, IsWalk next c w) := by
  constructor
  · rintro ⟨hh, hch⟩
    cases hh
    refine ⟨rfl, ?_⟩
    cases w with
    | nil => exact .inl rfl
    | cons c w =>
      rw [isChain_cons_cons] at hch
      exact .inr ⟨c, hch.1, rfl, hch.2⟩
  · rintro ⟨rfl, rfl | ⟨c, hc, hh, hch⟩⟩
    · exact isWalk_singleton a
    · refine ⟨rfl, ?_⟩
      cases w with
      | nil => cases hh
      | cons =>
        cases hh
        exact isChain_cons_cons.mpr ⟨hc, hch⟩

/-- A level that sinks along every edge. -/
structure Sinks (next : α → List α) (level : α → ℕ) : Prop where
  lt : ∀ {a b}, b ∈ next a → level b < level a

variable {n : ℕ}

theorem isWalk_of_mem_walks {a : α} (h : w ∈ walks next n a) : IsWalk next a w := by
  induction n generalizing a w with
  | zero =>
    rw [walks, mem_singleton] at h
    exact h ▸ isWalk_singleton a
  | succ n ih =>
    rw [walks, mem_cons, mem_map] at h
    rcases h with rfl | ⟨w, hw, rfl⟩
    · exact isWalk_singleton a
    · obtain ⟨b, hb, hw⟩ := mem_flatMap.mp hw
      exact isWalk_cons_iff.mpr ⟨rfl, .inr ⟨b, hb, ih hw⟩⟩

variable {level : α → ℕ}

theorem mem_walks_of_isWalk (hs : Sinks next level) {a : α} (hn : level a ≤ n)
    (h : IsWalk next a w) : w ∈ walks next n a := by
  induction n generalizing a w with
  | zero =>
    cases w with
    | nil => cases h.head
    | cons =>
      obtain ⟨rfl, rfl | ⟨c, hc, -⟩⟩ := isWalk_cons_iff.mp h
      · exact mem_singleton_self _
      · exact absurd (hs.lt hc) (by omega)
  | succ n ih =>
    cases w with
    | nil => cases h.head
    | cons b w =>
      rw [walks, mem_cons, mem_map]
      obtain ⟨rfl, rfl | ⟨c, hc, hw⟩⟩ := isWalk_cons_iff.mp h
      · exact .inl rfl
      · have hlevel : level c ≤ n := by
          have := hs.lt hc
          omega
        exact .inr ⟨w, mem_flatMap.mpr ⟨c, hc, ih hlevel hw⟩, rfl⟩

/-- **The traversal takes exactly the walks.** -/
theorem mem_walks_iff (hs : Sinks next level) {a : α} (hn : level a ≤ n) :
    w ∈ walks next n a ↔ IsWalk next a w:=
  ⟨isWalk_of_mem_walks, mem_walks_of_isWalk hs hn⟩

/-- **The traversal takes no walk twice**, if no node has two edges to another. -/
theorem walks_nodup (hn : ∀ a, (next a).Nodup) (n : ℕ) (a : α) : (walks next n a).Nodup := by
  induction n generalizing a with
  | zero => exact nodup_singleton _
  | succ n ih =>
    rw [walks, nodup_cons]
    constructor
    · rw [mem_map]
      rintro ⟨w, hw, heq⟩
      obtain ⟨b, -, hw⟩ := mem_flatMap.mp hw
      injection heq with _ heq
      have hh := (isWalk_of_mem_walks hw).head
      rw [heq] at hh
      cases hh
    · refine List.Nodup.map (cons_injective) (nodup_flatMap.mpr ⟨fun b _ => ih b, ?_⟩)
      refine (hn a).imp fun {b c} hne w hb hc => hne ?_
      have hh := (isWalk_of_mem_walks hb).head
      rw [(isWalk_of_mem_walks hc).head] at hh
      exact (Option.some.inj hh).symm

section

variable [DecidableEq α]

def endingAt (next : α → List α) (n : ℕ) (a b : α) : List (List α) :=
  (walks next n a).filter fun w => w.getLast? = some b

theorem mem_endingAt_iff (hs : Sinks next level) {a b : α} (hn : level a ≤ n) :
    w ∈ endingAt next n a b ↔ IsWalk next a w ∧ w.getLast? = some b := by
  rw [endingAt, mem_filter, mem_walks_iff hs hn, decide_eq_true_eq]

/-- **A node is visited once iff one walk leads to it.** -/
theorem length_endingAt_eq_one_iff (hs : Sinks next level) (hne : ∀ a, (next a).Nodup)
    {a b : α} (hn : level a ≤ n) :
    (endingAt next n a b).length = 1 ↔ ∃! w, IsWalk next a w ∧ w.getLast? = some b := by
  have hno : (endingAt next n a b).Nodup := (walks_nodup hne n a).filter _
  constructor
  · intro h
    obtain ⟨w, hw⟩ := length_eq_one_iff.mp h
    refine ⟨w, (mem_endingAt_iff hs hn).mp (hw ▸ mem_singleton_self w), ?_⟩
    intro w' hw'
    have hm := (mem_endingAt_iff hs hn).mpr hw'
    rw [hw] at hm
    exact mem_singleton.mp hm
  · rintro ⟨w, hw, hu⟩
    have hm := (mem_endingAt_iff hs hn).mpr hw
    have hp : (endingAt next n a b).Perm [w] := by
      refine (perm_ext_iff_of_nodup hno (nodup_singleton w)).mpr fun w' => ?_
      rw [mem_singleton]
      constructor
      · exact fun hw' => hu w' ((mem_endingAt_iff hs hn).mp hw')
      · rintro rfl
        exact hm
    exact hp.length_eq

end

end Walks
