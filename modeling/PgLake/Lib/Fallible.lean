/-
  Computations that can fail, as `Except` values or, with a state, in `EStateM`:
  compositions, folds and loops that succeed.
-/
import Mathlib.Data.List.Forall2

namespace Fallible

open List

universe u v

variable {ε : Type u} {α β : Type v} {x : Except ε α}

theorem map_eq_ok_iff {f : α → β} {b : β} : x.map f = .ok b ↔ ∃ a, x = .ok a ∧ f a = b := by
  cases x <;> simp [Except.map]

theorem exists_map_eq_ok_iff {f : α → β} : (∃ b, x.map f = .ok b) ↔ ∃ a, x = .ok a := by
  cases x <;> simp [Except.map]

theorem mapError_eq_ok_iff {ε' : Type u} {f : ε → ε'} {a : α} :
    x.mapError f = .ok a ↔ x = .ok a := by
  cases x <;> simp [Except.mapError]

theorem ok_bind (a : α) (f : α → Except ε β) : (Except.ok a >>= f) = f a := rfl

variable {f : α → Except ε β}

theorem bind_eq_ok_iff {b : β} : (x >>= f) = .ok b ↔ ∃ a, x = .ok a ∧ f a = .ok b := by
  cases x <;> simp [bind, Except.bind]

theorem foldlM_cons_of_ok {f : β → α → Except ε β} {s s' : β} {a : α} (h : f s a = .ok s')
    (l : List α) : (a :: l).foldlM f s = l.foldlM f s' := by
  rw [foldlM_cons, h]
  rfl

variable {l : List α}

theorem foldlM_invariant {f : β → α → Except ε β} {P : β → Prop}
    (h : ∀ a ∈ l, ∀ s s', P s → f s a = .ok s' → P s') :
    ∀ {s s' : β}, P s → l.foldlM f s = .ok s' → P s' := by
  induction l with
  | nil =>
    intro s s' hs heq
    cases heq
    exact hs
  | cons a l ih =>
    intro s s' hs heq
    obtain ⟨ha, hl⟩ := forall_mem_cons.mp h
    obtain ⟨s₁, hs₁, heq⟩ := bind_eq_ok_iff.mp heq
    exact ih hl (ha s s₁ hs hs₁) heq

theorem exists_foldlM_adds {κ : Type v} {f : List κ → α → Except ε (List κ)}
    {P : List κ → Prop} {new : α → κ → Prop}
    (h : ∀ a ∈ l, ∀ s, P s → ∃ s', f s a = .ok s' ∧ P s' ∧ ∀ k, k ∈ s' ↔ k ∈ s ∨ new a k) :
    ∀ s, P s → ∃ s', l.foldlM f s = .ok s' ∧ P s' ∧ ∀ k, k ∈ s' ↔ k ∈ s ∨ ∃ a ∈ l, new a k := by
  induction l with
  | nil =>
    intro s hs
    exact ⟨s, rfl, hs, by simp⟩
  | cons a l ih =>
    intro s hs
    obtain ⟨ha, hl⟩ := forall_mem_cons.mp h
    obtain ⟨s₁, heq₁, hs₁, hm₁⟩ := ha s hs
    obtain ⟨s₂, heq₂, hs₂, hm₂⟩ := ih hl s₁ hs₁
    refine ⟨s₂, by rw [foldlM_cons_of_ok heq₁, heq₂], hs₂, fun k => ?_⟩
    rw [hm₂, hm₁, exists_mem_cons_iff, or_assoc]

theorem exists_mapM_eq_ok {R : β → α → Prop} (h : ∀ a ∈ l, ∃ b, f a = .ok b ∧ R b a) :
    ∃ bs, l.mapM f = .ok bs ∧ List.Forall₂ R bs l := by
  induction l with
  | nil => exact ⟨[], rfl, .nil⟩
  | cons a l ih =>
    obtain ⟨⟨b, hb, hR⟩, hl⟩ := forall_mem_cons.mp h
    obtain ⟨bs, hbs, hall⟩ := ih hl
    refine ⟨b :: bs, ?_, .cons hR hall⟩
    rw [mapM_cons, hb]
    rw [hbs]
    rfl

variable {γ : Type v}

theorem mapM_eq_ok_of_forall₂ {g : γ → β}
    {cs : List γ} (h : List.Forall₂ (fun a c => f a = .ok (g c)) l cs) :
    l.mapM f = .ok (cs.map g) := by
  induction h with
  | nil => rfl
  | cons ha _ ih =>
    rw [mapM_cons, ha, ok_bind, ih]
    rfl

theorem mapM_map_eq_ok_iff {h : γ → α} {g : γ → β} {l : List γ} :
    (l.map h).mapM f = .ok (l.map g) ↔ ∀ c ∈ l, f (h c) = .ok (g c) := by
  induction l with
  | nil => exact iff_of_true rfl (by simp)
  | cons c l ih =>
    rw [map_cons, map_cons, mapM_cons, forall_mem_cons, ← ih, bind_eq_ok_iff]
    constructor
    · rintro ⟨b, hb, hr⟩
      obtain ⟨bs, hbs, heq⟩ := bind_eq_ok_iff.mp hr
      cases heq
      exact ⟨hb, hbs⟩
    · rintro ⟨hb, hbs⟩
      exact ⟨g c, hb, bind_eq_ok_iff.mpr ⟨l.map g, hbs, rfl⟩⟩

theorem mapM_bind_mapM_eq_ok_iff {g : β → Except ε γ} {cs : List γ} :
    (l.mapM f >>= fun bs => bs.mapM g) = .ok cs ↔
      List.Forall₂ (fun a c => ∃ b, f a = .ok b ∧ g b = .ok c) l cs := by
  induction l generalizing cs with
  | nil => simp [pure, Except.pure, ok_bind, eq_comm]
  | cons a l ih =>
    rw [mapM_cons, bind_assoc, bind_eq_ok_iff, forall₂_cons_left_iff]
    constructor
    · rintro ⟨b, hb, h⟩
      rw [bind_assoc] at h
      obtain ⟨bs, hbs, h⟩ := bind_eq_ok_iff.mp h
      rw [pure_bind, mapM_cons] at h
      obtain ⟨c, hc, h⟩ := bind_eq_ok_iff.mp h
      obtain ⟨cs, hcs, heq⟩ := bind_eq_ok_iff.mp h
      cases heq
      exact ⟨c, cs, ⟨b, hb, hc⟩, ih.mp (bind_eq_ok_iff.mpr ⟨bs, hbs, hcs⟩), rfl⟩
    · rintro ⟨c, cs, ⟨b, hb, hc⟩, hr, rfl⟩
      obtain ⟨bs, hbs, hcs⟩ := bind_eq_ok_iff.mp (ih.mpr hr)
      refine ⟨b, hb, ?_⟩
      rw [hbs, ok_bind, pure_bind, mapM_cons, hc, ok_bind, hcs]
      rfl

theorem mem_of_mapM_eq_ok {bs : List β} (h : l.mapM f = .ok bs)
    {b : β} : b ∈ bs ↔ ∃ a ∈ l, f a = .ok b := by
  induction l generalizing bs with
  | nil =>
    cases h
    simp
  | cons a l ih =>
    rw [mapM_cons] at h
    obtain ⟨b', hb', h⟩ := bind_eq_ok_iff.mp h
    obtain ⟨bs', hbs', h⟩ := bind_eq_ok_iff.mp h
    cases h
    rw [mem_cons, ih hbs', exists_mem_cons_iff, hb', Except.ok.injEq, eq_comm]

theorem exists_of_mapM_eq_ok {bs : List β} (h : l.mapM f = .ok bs) : ∀ a ∈ l, ∃ b, f a = .ok b := by
  induction l generalizing bs with
  | nil => exact nofun
  | cons a l ih =>
    rw [mapM_cons] at h
    obtain ⟨b, hb, h⟩ := bind_eq_ok_iff.mp h
    obtain ⟨bs', hbs', -⟩ := bind_eq_ok_iff.mp h
    exact forall_mem_cons.mpr ⟨⟨b, hb⟩, ih hbs'⟩

theorem forall₂_of_mapM_eq_ok {bs : List β} (h : l.mapM f = .ok bs) :
    List.Forall₂ (fun a b => f a = .ok b) l bs := by
  induction l generalizing bs with
  | nil =>
    cases h
    exact .nil
  | cons a l ih =>
    rw [mapM_cons] at h
    obtain ⟨b, hb, h⟩ := bind_eq_ok_iff.mp h
    obtain ⟨bs', hbs', h⟩ := bind_eq_ok_iff.mp h
    cases h
    exact .cons hb (ih hbs')

theorem exists_mapM_iff {f : α → Except ε β} {l : List α} :
    (∃ bs, l.mapM f = .ok bs) ↔ ∀ a ∈ l, ∃ b, f a = .ok b := by
  refine ⟨fun ⟨bs, h⟩ => exists_of_mapM_eq_ok h, fun h => ?_⟩
  obtain ⟨bs, hbs, -⟩ := exists_mapM_eq_ok (R := fun _ _ => True)
    fun a ha => (h a ha).imp fun _ hb => ⟨hb, trivial⟩
  exact ⟨bs, hbs⟩

/-! ### Without the error -/

@[simp] theorem toOption_ok (a : α) : (Except.ok a : Except ε α).toOption = some a := rfl

@[simp] theorem toOption_pure (a : α) : (pure a : Except ε α).toOption = some a := rfl

@[simp] theorem toOption_error (e : ε) : (Except.error e : Except ε α).toOption = none := rfl

@[simp] theorem toOption_bind (x : Except ε α) (f : α → Except ε β) :
    (x >>= f).toOption = x.toOption.bind fun a => (f a).toOption := by
  cases x <;> rfl

theorem toOption_eq_some {a : α} : x.toOption = some a ↔ x = .ok a := by
  cases x <;> simp

theorem toOption_foldlM (f : β → α → Except ε β) (l : List α) :
    ∀ s, (l.foldlM f s).toOption = l.foldlM (fun s a => (f s a).toOption) s := by
  induction l with
  | nil =>
    intro s
    rfl
  | cons a l ih =>
    intro s
    rw [foldlM_cons, foldlM_cons, toOption_bind]
    exact congrArg _ (funext ih)

theorem toOption_mapM (f : α → Except ε β) (l : List α) :
    (l.mapM f).toOption = l.mapM fun a => (f a).toOption := by
  induction l with
  | nil => rfl
  | cons a l ih =>
    rw [mapM_cons, mapM_cons, toOption_bind]
    simp only [toOption_bind, ih]
    rfl

/-! ### Loops that may be interchanged, where errors are not told apart -/

theorem foldlM_flatMap {γ : Type*} {m : Type v → Type*} [Monad m] [LawfulMonad m]
    (f : β → α → m β) (k : γ → List α) (l : List γ) :
    ∀ s, (l.flatMap k).foldlM f s = l.foldlM (fun s c => (k c).foldlM f s) s := by
  induction l with
  | nil =>
    intro s
    rfl
  | cons c l ih =>
    intro s
    rw [flatMap_cons, foldlM_append, foldlM_cons]
    exact congrArg _ (funext ih)

theorem mapM_bind_foldlM_flatten {σ : Type v} {γ : Type*} (ins : σ → α → Option σ)
    (rows : γ → Option (List α)) (l : List γ) :
    ∀ s, ((l.mapM rows).bind fun rs => rs.flatten.foldlM ins s) =
      l.foldlM (fun s c => (rows c).bind fun r => r.foldlM ins s) s := by
  induction l with
  | nil =>
    intro s
    rfl
  | cons c l ih =>
    intro s
    rw [mapM_cons, foldlM_cons]
    cases hc : rows c with
    | none => rfl
    | some r =>
      simp only [Option.bind_eq_bind, Option.bind_some, Option.bind_assoc, Option.pure_def,
        flatten_cons, foldlM_append]
      cases hr : r.foldlM ins s with
      | none => simp
      | some s' => simpa using ih s'

theorem mapM_congr_of_mem {m : Type v → Type*} [Monad m] [LawfulMonad m]
    {f g : α → m γ} (h : ∀ a ∈ l, f a = g a) : l.mapM f = l.mapM g := by
  induction l with
  | nil => rfl
  | cons a l ih =>
    obtain ⟨ha, hl⟩ := forall_mem_cons.mp h
    rw [mapM_cons, mapM_cons, ha, ih hl]

theorem mapM_eq_iff_of_ok {f g : α → Except ε β} {bs : List β}
    (h : l.mapM g = .ok bs) : l.mapM f = .ok bs ↔ ∀ a ∈ l, f a = g a := by
  refine ⟨fun hf => ?_, fun hall => (mapM_congr_of_mem hall).trans h⟩
  induction l generalizing bs with
  | nil => exact nofun
  | cons a l ih =>
    rw [mapM_cons] at h hf
    obtain ⟨b, hb, h⟩ := bind_eq_ok_iff.mp h
    obtain ⟨b', hb', hf⟩ := bind_eq_ok_iff.mp hf
    obtain ⟨rest, hr, h⟩ := bind_eq_ok_iff.mp h
    obtain ⟨rest', hr', hf⟩ := bind_eq_ok_iff.mp hf
    cases h
    cases hf
    exact forall_mem_cons.mpr ⟨hb'.trans hb.symm, ih hr hr'⟩

theorem map_foldlM {σ τ : Type v} (f : σ → τ) (step : σ → α → Option σ) (step' : τ → α → Option τ)
    (h : ∀ s a, (step s a).map f = step' (f s) a) (l : List α) :
    ∀ s, (l.foldlM step s).map f = l.foldlM step' (f s) := by
  induction l with
  | nil =>
    intro s
    rfl
  | cons a l ih =>
    intro s
    rw [foldlM_cons, foldlM_cons, ← h]
    cases step s a with
    | none => rfl
    | some s' => exact ih s'

theorem foldlM_insert_of_new {κ : Type*} (k : α → κ) {insert : List α → α → Except ε (List α)}
    (hnew : ∀ {rs r}, k r ∉ rs.map k → insert rs r = .ok (rs ++ [r]))
    (new : List α) : ∀ {rs : List α}, (new.map k).Nodup →
      (∀ r ∈ new, k r ∉ rs.map k) → new.foldlM insert rs = .ok (rs ++ new) := by
  induction new with
  | nil =>
    intro rs _ _
    rw [append_nil]
    rfl
  | cons r new ih =>
    intro rs hn hf
    obtain ⟨hr, hre⟩ := forall_mem_cons.mp hf
    rw [map_cons, nodup_cons] at hn
    rw [foldlM_cons_of_ok (hnew hr), ih hn.2 fun other ho hm => ?_]
    · rw [append_assoc, singleton_append]
    · rw [map_append, mem_append, map_singleton, mem_singleton] at hm
      rcases hm with hm | heq
      · exact hre other ho hm
      · exact hn.1 (heq ▸ mem_map_of_mem ho)

/-- Insertions under a unique key succeed for new keys that differ from each other. -/
theorem isSome_foldlM_insert_iff {κ : Type*} (key : α → κ) {insert : List α → α → Option (List α)}
    (hold : ∀ {rs r}, key r ∈ rs.map key → insert rs r = none)
    (hnew : ∀ {rs r}, key r ∉ rs.map key → insert rs r = some (rs ++ [r]))
    (new : List α) : ∀ rs, (new.foldlM insert rs).isSome ↔
      (new.map key).Nodup ∧ ∀ r ∈ new, key r ∉ rs.map key := by
  induction new with
  | nil =>
    intro rs
    simp
  | cons r new ih =>
    intro rs
    rw [foldlM_cons, map_cons, nodup_cons, forall_mem_cons]
    by_cases hm : key r ∈ rs.map key
    · simp [hold hm, hm]
    · rw [hnew hm, Option.bind_eq_bind, Option.bind_some, ih]
      simp only [map_append, map_cons, map_nil, mem_append, mem_singleton, not_or]
      constructor
      · rintro ⟨hn, hnew⟩
        refine ⟨⟨fun hr => ?_, hn⟩, hm, fun other ho => (hnew other ho).1⟩
        obtain ⟨other, ho, heq⟩ := mem_map.mp hr
        exact (hnew other ho).2 heq
      · rintro ⟨⟨hr, hn⟩, -, hnew⟩
        refine ⟨hn, fun other ho => ⟨hnew other ho, fun heq => ?_⟩⟩
        exact hr (heq ▸ mem_map_of_mem ho)

section State
variable {ε σ α β : Type u} {x : EStateM ε σ α} {f : α → EStateM ε σ β} {s s' : σ}

theorem bind_of_ok {a : α} (h : x s = .ok a s') : (x >>= f) s = f a s' := by
  show EStateM.bind x f s = _
  rw [EStateM.bind, h]

theorem bind_of_error {e : ε} (h : x s = .error e s') : (x >>= f) s = .error e s' := by
  show EStateM.bind x f s = _
  rw [EStateM.bind, h]

/-- Code that keeps an invariant, whether or not it fails. -/
def Preserves (P : σ → Prop) (x : EStateM ε σ α) : Prop :=
  ∀ s, P s → match x s with
    | .ok _ s' => P s'
    | .error _ s' => P s'

theorem Preserves.bind {P : σ → Prop} (h : Preserves P x) (h' : ∀ a, Preserves P (f a)) :
    Preserves P (x >>= f) := by
  intro s hs
  have hx := h s hs
  cases hr : x s with
  | error e s' =>
    rw [hr] at hx
    rwa [bind_of_error hr]
  | ok a s' =>
    rw [hr] at hx
    rw [bind_of_ok hr]
    exact h' a s' hx

end State

end Fallible
