/-
  Grouping a list by a key: a hash table from keys to lists, filled by appending each
  item to the list of its key, and read back in some order.
-/
import Mathlib.Data.List.Perm.Basic

namespace Grouping

open List

variable {K α : Type*}

/-- A step that adds one item to the contents of a state adds all of them in a loop. -/
theorem perm_foldl_of_step {σ : Type*} {step : σ → α → σ} {contents : σ → List α}
    (hs : ∀ s a, (contents (step s a)).Perm (a :: contents s)) (l : List α) :
    ∀ s, (contents (l.foldl step s)).Perm (contents s ++ l) := by
  induction l with
  | nil =>
    intro s
    simp
  | cons a l ih =>
    intro s
    refine (ih (step s a)).trans ?_
    refine ((hs s a).append_right l).trans ?_
    exact perm_middle.symm

section

variable [DecidableEq K]

def addToGroup (k : K) (a : α) : List (K × List α) → List (K × List α)
  | [] => [(k, [a])]
  | (k', items) :: rest =>
    if k' = k then (k', items ++ [a]) :: rest else (k', items) :: addToGroup k a rest

variable (key : α → K)

def groupBy (l : List α) : List (K × List α) :=
  l.foldl (fun groups a => addToGroup (key a) a groups) []

theorem perm_flatMap_addToGroup (k : K) (a : α) (gs : List (K × List α)) :
    ((addToGroup k a gs).flatMap Prod.snd).Perm (a :: gs.flatMap Prod.snd) := by
  induction gs with
  | nil => exact List.Perm.refl _
  | cons g rest ih =>
    unfold addToGroup
    split_ifs
    · simp only [flatMap_cons, append_assoc]
      exact perm_middle
    · exact (ih.append_left g.2).trans perm_middle

/-- **No item is lost or doubled.** -/
theorem perm_flatMap_groupBy (l : List α) : ((groupBy key l).flatMap Prod.snd).Perm l :=
  perm_foldl_of_step (fun gs a => perm_flatMap_addToGroup (key a) a gs) l []

def KeyedBy (groups : List (K × List α)) : Prop :=
  ∀ group ∈ groups, ∀ a ∈ group.2, key a = group.1

theorem KeyedBy.addToGroup {key : α → K} {gs : List (K × List α)} (h : KeyedBy key gs)
    (c : α) : KeyedBy key (addToGroup (key c) c gs) := by
  induction gs with
  | nil =>
    intro group hgr a ha
    obtain rfl := mem_singleton.mp hgr
    rw [mem_singleton.mp ha]
  | cons first rest ih =>
    intro group hgr
    rw [Grouping.addToGroup] at hgr
    split_ifs at hgr with hf
    · rcases mem_cons.mp hgr with rfl | hgr
      · intro a ha
        rcases mem_append.mp ha with ha | ha
        · exact h first mem_cons_self a ha
        · rw [mem_singleton.mp ha, hf]
      · exact h group (mem_cons_of_mem _ hgr)
    · rcases mem_cons.mp hgr with rfl | hgr
      · exact h _ mem_cons_self
      · exact ih (fun g hg => h g (mem_cons_of_mem _ hg)) group hgr

/-- **A group has the items of its key.** -/
theorem keyedBy_groupBy (l : List α) : KeyedBy key (groupBy key l) := by
  have hrun : ∀ gs, KeyedBy key gs →
      KeyedBy key (l.foldl (fun gs a => addToGroup (key a) a gs) gs) := by
    induction l with
    | nil =>
      intro gs h
      exact h
    | cons c l ih =>
      intro gs h
      exact ih _ (h.addToGroup c)
  exact hrun [] nofun

end

/-- The order in which a hash table is traversed. -/
structure HashOrder (α : Type*) where
  seq : List α → List α
  perm : ∀ l, (seq l).Perm l

end Grouping
