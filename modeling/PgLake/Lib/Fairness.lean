/-
  Infinite runs of a transition function, weak fairness, and what it leads to.
-/
import Mathlib.Order.WellFounded
import PgLake.Lib.Transition

namespace Fairness

open List Transition

variable {S E : Type*}

structure Path (step : S → E → Option S) (s : S) where
  state : ℕ → S
  event : ℕ → E
  zero : state 0 = s
  next : ∀ n, step (state n) (event n) = some (state (n + 1))

namespace Path
variable {step : S → E → Option S} {s : S}

def WeakFair (ρ : Path step s) (enabled : S → Prop) (taken : E → Prop) : Prop :=
  ∀ n, (∀ m, n ≤ m → enabled (ρ.state m)) → ∃ m, n ≤ m ∧ taken (ρ.event m)

/-- **The invariant rule** for infinite runs. -/
theorem invariant (ρ : Path step s) {P : S → E → Prop} {I : S → Prop}
    (hst : ∀ {s s' e}, I s → P s e → step s e = some s' → I s') (hs : I s)
    (hP : ∀ n, P (ρ.state n) (ρ.event n)) : ∀ n, I (ρ.state n) := by
  intro n
  induction n with
  | zero =>
    rw [ρ.zero]
    exact hs
  | succ n ih => exact hst ih (hP n) (ρ.next n)

section Rank
variable {A : Type*} {enabled : A → S → Prop} {taken : A → E → Prop}
variable {R : Type*} [LT R] [WellFoundedLT R]

/-- **The rank rule.**  While the goal `Q` is not reached, `P` holds, the party
    `helpful n` can move, and every step brings the rank down, unless it is the step of
    another party and leaves rank and helpful party as they are. -/
theorem eventually_of_rank (ρ : Path step s)
    (hf : ∀ a, ρ.WeakFair (enabled a) (taken a)) {P Q : ℕ → Prop} (rank : ℕ → R)
    (hel : ℕ → A) (he : ∀ n, P n → enabled (hel n) (ρ.state n))
    (hs : ∀ n, P n → Q (n + 1) ∨ P (n + 1) ∧ (rank (n + 1) < rank n ∨
      rank (n + 1) = rank n ∧ hel (n + 1) = hel n ∧ ¬ taken (hel n) (ρ.event n)))
    {n : ℕ} (hn : P n) : ∃ m, n ≤ m ∧ Q m := by
  induction hr : rank n using WellFoundedLT.induction generalizing n with
  | _ r ih =>
    subst hr
    by_contra hne
    have hne : ∀ m, n ≤ m → ¬ Q m := fun m hm hQ => hne ⟨m, hm, hQ⟩
    -- the rank stays where it is, so the helpful party waits forever
    have hstuck : ∀ m, n ≤ m → P m ∧ rank m = rank n ∧ hel m = hel n := by
      intro m hm
      induction m, hm using Nat.le_induction with
      | base => exact ⟨hn, rfl, rfl⟩
      | succ m hm ihm =>
        obtain ⟨hP, hr, hh⟩ := ihm
        rcases hs m hP with hQ | ⟨hP', hlt | ⟨hr', hh', -⟩⟩
        · exact absurd hQ (hne _ (by omega))
        · obtain ⟨m', hm', hQ⟩ := ih (rank (m + 1)) (hr ▸ hlt) hP' rfl
          exact absurd hQ (hne _ (by omega))
        · exact ⟨hP', hr'.trans hr, hh'.trans hh⟩
    obtain ⟨m, hm, ht⟩ := hf (hel n) n fun m hm => by
      obtain ⟨hP, -, hh⟩ := hstuck m hm
      exact hh ▸ he m hP
    obtain ⟨hP, hr, hh⟩ := hstuck m hm
    rcases hs m hP with hQ | ⟨hP', hlt | ⟨-, -, ho⟩⟩
    · exact hne _ (by omega) hQ
    · obtain ⟨m', hm', hQ⟩ := ih (rank (m + 1)) (hr ▸ hlt) hP' rfl
      exact hne _ (by omega) hQ
    · exact ho (hh ▸ ht)

end Rank

/-! ## Runs that end in a loop -/

def loop (s : S) (e : E) (f : S → S) (h : ∀ s, step s e = some (f s)) : Path step s where
  state n := f^[n] s
  event _ := e
  zero := rfl
  next n := by rw [h, Function.iterate_succ_apply']

def cons {s' : S} {e : E} (h : step s e = some s') (ρ : Path step s') : Path step s where
  state
    | 0 => s
    | n + 1 => ρ.state n
  event
    | 0 => e
    | n + 1 => ρ.event n
  zero := rfl
  next
    | 0 => h.trans (congrArg some ρ.zero.symm)
    | n + 1 => ρ.next n

/-- `ρ'` executes the events and goes on as `ρ`. -/
structure Follows {s' : S} (ρ : Path step s') (es : List E) (ρ' : Path step s) : Prop where
  state : ∀ n, ρ'.state (es.length + n) = ρ.state n
  event : ∀ n, ρ'.event (es.length + n) = ρ.event n
  first : ∀ {n e}, es[n]? = some e → ρ'.event n = e
  along : ∀ P : S → E → Prop, Transition.Along step P s es →
    (∀ n, P (ρ.state n) (ρ.event n)) → ∀ n, P (ρ'.state n) (ρ'.event n)

theorem exists_append {es : List E} : ∀ {s s' : S}, run step s es = some s' → ∀ ρ : Path step s',
      ∃ ρ' : Path step s, ρ.Follows es ρ' := by
  induction es with
  | nil =>
    intro s s' hrun ρ
    cases hrun
    exact ⟨ρ, fun n => by rw [length_nil, Nat.zero_add],
      fun n => by rw [length_nil, Nat.zero_add], nofun, fun P _ h => h⟩
  | cons e es ih =>
    intro s s'' hrun ρ
    obtain ⟨s', hs, hrun⟩ := run_cons hrun
    obtain ⟨ρ', hρ'⟩ := ih hrun ρ
    refine ⟨cons hs ρ', ?_, ?_, ?_, ?_⟩
    · intro n
      rw [length_cons, Nat.add_right_comm]
      exact hρ'.state n
    · intro n
      rw [length_cons, Nat.add_right_comm]
      exact hρ'.event n
    · rintro (_ | n) e' h
      · exact Option.some.inj h
      · exact hρ'.first h
    · rintro P ⟨hP, ha⟩ hl (_ | n)
      · exact hP
      · exact hρ'.along P (ha s' hs) hl n

theorem Follows.append {s' s'' : S} {es es' : List E} {ρ : Path step s''} {ρ' : Path step s'}
    {ρ'' : Path step s} (h : ρ'.Follows es ρ'') (h' : ρ.Follows es' ρ')
    (hrun : run step s es = some s') : ρ.Follows (es ++ es') ρ'' where
  state n := by rw [length_append, Nat.add_assoc, h.state, h'.state]
  event n := by rw [length_append, Nat.add_assoc, h.event, h'.event]
  first {n e} hn := by
    by_cases hlt : n < es.length
    · rw [getElem?_append_left hlt] at hn
      exact h.first hn
    · obtain ⟨m, rfl⟩ := Nat.exists_eq_add_of_le (Nat.not_lt.mp hlt)
      rw [getElem?_append_right (Nat.le_add_right ..), Nat.add_sub_cancel_left] at hn
      rw [h.event]
      exact h'.first hn
  along P ha hl := by
    refine h.along P ha.append_left fun n => ?_
    exact h'.along P (ha.of_append hrun) hl n

theorem exists_split {s₁ s₂ s₃ : S} {es es' : List E} {e : E}
    (hrun : run step s es = some s₁) (hs : step s₁ e = some s₂)
    (hrun' : run step s₂ es' = some s₃) (ρ : Path step s₃) :
    ∃ ρ' : Path step s, ρ.Follows (es ++ e :: es') ρ' ∧ ρ'.state es.length = s₁ ∧
      ρ'.state (es.length + 1) = s₂ := by
  obtain ⟨ρ₂, h₂⟩ := exists_append hrun' ρ
  have hc : ρ₂.Follows [e] (cons hs ρ₂) := by
    refine ⟨fun n => ?_, fun n => ?_, ?_, ?_⟩
    iterate 2
      rw [length_singleton, Nat.add_comm]
      rfl
    · rintro (_ | n) e' h
      · exact Option.some.inj h
      · exact nomatch h
    · rintro P ⟨hP, -⟩ hρ (_ | n)
      · exact hP
      · exact hρ n
  obtain ⟨ρ₁, h₁⟩ := exists_append hrun (cons hs ρ₂)
  have hrun₁ : run step s₁ [e] = some s₂ := by
    rw [run, hs]
    rfl
  refine ⟨ρ₁, h₁.append (hc.append h₂ hrun₁) hrun, h₁.state 0, ?_⟩
  exact (h₁.state 1).trans ρ₂.zero

theorem Follows.weakFair {s' : S} {es : List E} {ρ : Path step s'} {ρ' : Path step s}
    (h : ρ.Follows es ρ') {enabled : S → Prop} {taken : E → Prop}
    (hf : ρ.WeakFair enabled taken) : ρ'.WeakFair enabled taken := by
  intro n he
  obtain ⟨m, hm, ht⟩ := hf n fun m hm => h.state m ▸ he (es.length + m) (by omega)
  exact ⟨es.length + m, by omega, h.event m ▸ ht⟩

end Path

end Fairness
