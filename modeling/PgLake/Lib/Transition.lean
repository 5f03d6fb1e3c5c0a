/-
  Runs of a transition function over a list of events, and the invariant rules.

  `Along step P s es`: every event of the run is taken in a state in which `P` allows it.
-/
import Mathlib.Data.Option.Basic

namespace Transition

variable {S E : Type*} (step : S → E → Option S)

def run : S → List E → Option S
  | s, [] => some s
  | s, e :: es => (step s e).bind fun s' => run s' es

/-- Every step of the run satisfies `P` in the state it is taken in. -/
def Along (P : S → E → Prop) : S → List E → Prop
  | _, [] => True
  | s, e :: es => P s e ∧ ∀ s', step s e = some s' → Along P s' es

variable {step} {es : List E}

theorem run_cons {s s'' : S} {e : E} (h : run step s (e :: es) = some s'') :
    ∃ s', step s e = some s' ∧ run step s' es = some s'' :=
  Option.bind_eq_some_iff.mp h

theorem run_append (s : S) (es es' : List E) :
    run step s (es ++ es') = (run step s es).bind fun s' => run step s' es' := by
  induction es generalizing s with
  | nil => rfl
  | cons e es ih =>
    rw [List.cons_append, run, run, Option.bind_assoc]
    exact congrArg _ (funext fun s' => ih s')

variable {P : S → E → Prop}

theorem along_of_forall (h : ∀ s e, P s e) : ∀ {s : S} {es : List E}, Along step P s es
  | _, [] => trivial
  | s, e :: _ => ⟨h s e, fun _ _ => along_of_forall h⟩

theorem Along.of_step {s s' : S} {e : E} (hP : P s e)
    (hst : step s e = some s') (h : Along step P s' es) : Along step P s (e :: es) := by
  refine ⟨hP, ?_⟩
  intro s'' hs''
  cases hst.symm.trans hs''
  exact h

theorem Along.append_left {es es' : List E} :
    ∀ {s : S}, Along step P s (es ++ es') → Along step P s es := by
  induction es with
  | nil => exact fun _ => trivial
  | cons e es ih => exact fun h => ⟨h.1, fun s' hs' => ih (h.2 s' hs')⟩

theorem Along.of_append {es es' : List E} :
    ∀ {s s' : S}, Along step P s (es ++ es') → run step s es = some s' → Along step P s' es' := by
  induction es with
  | nil =>
    intro s s' h hrun
    cases hrun
    exact h
  | cons e es ih =>
    intro s s'' h hrun
    obtain ⟨s', hs', hr⟩ := run_cons hrun
    exact ih (h.2 s' hs') hr

/-- **The invariant rule.** -/
theorem run_invariant {I : S → Prop} (hst : ∀ {s s' e}, I s → P s e → step s e = some s' → I s') :
    ∀ {s s' : S}, I s → Along step P s es → run step s es = some s' → I s' := by
  induction es with
  | nil =>
    intro s s' hinv _ hrun
    obtain rfl : s = s' := Option.some.inj hrun
    exact hinv
  | cons e es ih =>
    intro s s'' hinv ha hrun
    obtain ⟨s', hs', hr⟩ := run_cons hrun
    exact ih (hst hinv ha.1 hs') (ha.2 s' hs') hr

/-- **The invariant rule for steps.** -/
theorem along_of_invariant {P Q : S → E → Prop} {I : S → Prop}
    (hst : ∀ {s s' e}, I s → P s e → step s e = some s' → I s')
    (himp : ∀ {s e}, I s → P s e → Q s e) :
    ∀ {s : S}, I s → Along step P s es → Along step Q s es := by
  induction es with
  | nil =>
    intro s _ _
    trivial
  | cons e es ih =>
    intro s hinv ha
    refine ⟨himp hinv ha.1, ?_⟩
    intro s' hs'
    exact ih (hst hinv ha.1 hs') (ha.2 s' hs')

/-- **The exact invariant rule for steps.**  If `P` and `Q` agree on the steps taken under the
    invariant, they agree along a run. -/
theorem along_iff_along {P Q : S → E → Prop} {I : S → Prop} (hiff : ∀ {s e}, I s → (P s e ↔ Q s e))
    (hst : ∀ {s s' e}, I s → Q s e → step s e = some s' → I s') :
    ∀ {s : S}, I s → (Along step P s es ↔ Along step Q s es) := by
  induction es with
  | nil => exact fun _ => Iff.rfl
  | cons e es ih =>
    intro s hinv
    rw [Along, Along, hiff hinv]
    refine and_congr_right fun hQ => forall₂_congr fun s' hs' => ?_
    exact ih (hst hinv hQ hs')

/-- Every state the run passes satisfies `Q`. -/
def Throughout (step : S → E → Option S) (Q : S → Prop) (s : S) (es : List E) : Prop :=
  ∀ es₁, es₁ <+: es → ∀ s₁, run step s es₁ = some s₁ → Q s₁

theorem throughout_cons {Q : S → Prop} {s : S} {e : E} :
    Throughout step Q s (e :: es) ↔ Q s ∧ ∀ s', step s e = some s' → Throughout step Q s' es := by
  constructor
  · intro h
    refine ⟨h [] List.nil_prefix s rfl, fun s' hs' es₁ hes₁ s₁ hrun => ?_⟩
    refine h (e :: es₁) (List.cons_prefix_cons.mpr ⟨rfl, hes₁⟩) s₁ ?_
    rw [run, hs']
    exact hrun
  · rintro ⟨hs, hr⟩ es₁ hes₁ s₁ hrun
    cases es₁ with
    | nil =>
      cases hrun
      exact hs
    | cons e' es₁ =>
      obtain ⟨rfl, ht⟩ := List.cons_prefix_cons.mp hes₁
      obtain ⟨s', hs', hrun⟩ := run_cons hrun
      exact hr s' hs' es₁ ht s₁ hrun

/-- **The exact invariant rule.**  Under the invariant, a step leads to a state with `Q` exactly
    when `P` allows it; then `Q` holds throughout a run exactly when `P` allows each of its
    steps. -/
theorem throughout_iff_along {Q I : S → Prop} (hQ : ∀ {s}, I s → Q s)
    (hiff : ∀ {s s' e}, I s → step s e = some s' → (Q s' ↔ P s e))
    (hst : ∀ {s s' e}, I s → P s e → step s e = some s' → I s') :
    ∀ {s : S}, I s → (Throughout step Q s es ↔
      Along step (fun s e => ∀ s', step s e = some s' → P s e) s es) := by
  induction es with
  | nil =>
    intro s hinv
    refine ⟨fun _ => trivial, fun _ es₁ hes₁ s₁ hrun => ?_⟩
    obtain rfl := List.prefix_nil.mp hes₁
    cases hrun
    exact hQ hinv
  | cons e es ih =>
    intro s hinv
    rw [throughout_cons]
    constructor
    · rintro ⟨-, hr⟩
      have hP : ∀ s', step s e = some s' → P s e := fun s' hs' =>
        (hiff hinv hs').mp (hr s' hs' [] List.nil_prefix s' rfl)
      exact ⟨hP, fun s' hs' => (ih (hst hinv (hP s' hs') hs')).mp (hr s' hs')⟩
    · rintro ⟨hP, hr⟩
      refine ⟨hQ hinv, fun s' hs' => ?_⟩
      exact (ih (hst hinv (hP s' hs') hs')).mpr (hr s' hs')

theorem update_cases {α β : Type*} [DecidableEq α] {f f' : α → β} {a : α} {b : β}
    (h : f' = Function.update f a b) (x : α) : x = a ∧ f' x = b ∨ x ≠ a ∧ f' x = f x := by
  subst h
  by_cases hx : x = a
  · exact .inl ⟨hx, hx ▸ Function.update_self ..⟩
  · exact .inr ⟨hx, Function.update_of_ne hx ..⟩

end Transition
