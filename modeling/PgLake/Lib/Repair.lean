/-
  Operations that repair values, and compose along their structure.

  Under the strict policy an operation fails on a value that is not clean, under the lenient one
  it replaces what is not clean.  Its result says whether anything changed; an operation on a
  whole value may also drop it, with the result `none`.
-/
import Mathlib.Data.List.Forall2

namespace Repair

open List

variable {ε P α β : Type*}

/-! ## Operations -/

def onMember (f : α → Except ε (Option α × Bool)) : Option α → Except ε (Option α × Bool)
  | none => .ok (none, false)
  | some a =>
    match f a with
    | .error e => .error e
    | .ok (b, changed) => .ok (if changed || b.isNone then (b, true) else (some a, false))

def onAttribute (needed : Bool) (f : α → Except ε (Option α × Bool)) (o : Option α) :
    Except ε (Option α × Bool) :=
  if needed then onMember f o else .ok (o, false)

def onBoth (f : α → Except ε (α × Bool)) (g : β → Except ε (β × Bool)) (p : α × β) :
    Except ε ((α × β) × Bool) :=
  match f p.1 with
  | .error e => .error e
  | .ok (a, changed) =>
    match g p.2 with
    | .error e => .error e
    | .ok (b, changed') => .ok ((a, b), changed || changed')

def onEach (f : α → Except ε (α × Bool)) : List α → Except ε (List α × Bool)
  | [] => .ok ([], false)
  | a :: l =>
    match f a with
    | .error e => .error e
    | .ok (a, changed) =>
      match onEach f l with
      | .error e => .error e
      | .ok (l, changed') => .ok (a :: l, changed || changed')

def onWhole (f : α → Except ε (α × Bool)) (a : α) : Except ε (Option α × Bool) :=
  match f a with
  | .error e => .error e
  | .ok (b, changed) => .ok (if changed then (some b, true) else (some a, false))

variable (f : α → Except ε (Option α × Bool))

theorem onAttribute_true : onAttribute true f = onMember f :=
  rfl

theorem onEach_onAttribute_false (l : List (Option α)) :
    onEach (onAttribute false f) l = .ok (l, false) := by
  induction l with
  | nil => rfl
  | cons o l ih => simp [onEach, onAttribute, ih]

/-! ## What they achieve -/

/-- An operation that repairs a value in place.  It is the identity on what need not be
    repaired. -/
structure Repairs (strict lenient : P) (needed : Bool) (f : P → α → Except ε (α × Bool))
    (Clean Kept : α → Prop) (Keeps : α → α → Prop) : Prop where
  of_clean : ∀ {a}, Clean a → ∀ p, f p a = .ok (a, false)
  unchanged : ∀ {p a b}, f p a = .ok (b, false) → b = a
  strict_error : ∀ {a}, Kept a → ¬Clean a → ∃ e, f strict a = .error e
  lenient_ok : ∀ a, ∃ b changed, f lenient a = .ok (b, changed) ∧ (Kept a ↔ Clean b ∧ Keeps a b)
  not_needed : needed = false → ∀ a, Kept a ↔ Clean a
  keeps_self : ∀ a, Keeps a a

/-- An operation that repairs a value or drops it. -/
structure RepairsOrDrops (strict lenient : P) (needed : Bool)
    (f : P → α → Except ε (Option α × Bool)) (Clean Kept : α → Prop) (Keeps : α → α → Prop)
    (Dropped : α → Prop) : Prop where
  of_clean : ∀ {a}, Clean a → ∀ p, f p a = .ok (some a, false)
  unchanged : ∀ {p a o}, f p a = .ok (o, false) → o = some a
  strict_error : ∀ {a}, Kept a → ¬Clean a → ∃ e, f strict a = .error e
  lenient_ok : ∀ a, ∃ o changed, f lenient a = .ok (o, changed) ∧ (o = none ↔ Dropped a) ∧
    (needed = true → (Kept a ↔ ∀ b ∈ o, Clean b ∧ Keeps a b))
  not_needed : needed = false → ∀ a, Kept a ↔ Clean a
  keeps_self : ∀ a, Keeps a a

/-- An optional value is kept, or dropped where that is allowed. -/
inductive KeepsMember (Keeps : α → α → Prop) (Dropped : α → Prop) : Option α → Option α → Prop
  | none : KeepsMember Keeps Dropped none none
  | some {a b} : Keeps a b → KeepsMember Keeps Dropped (some a) (some b)
  | dropped {a} : Dropped a → KeepsMember Keeps Dropped (some a) none

variable {strict lenient : P} {needed : Bool} {Clean Kept : α → Prop} {Keeps : α → α → Prop}

namespace RepairsOrDrops

variable {f : P → α → Except ε (Option α × Bool)} {Dropped : α → Prop}

section

variable (h : RepairsOrDrops strict lenient needed f Clean Kept Keeps Dropped)

include h

theorem not_dropped {a : α} (ha : Clean a) : ¬Dropped a := by
  obtain ⟨o, changed, hok, hd, -⟩ := h.lenient_ok a
  rw [h.of_clean ha, Except.ok.injEq, Prod.mk.injEq] at hok
  rw [← hd, ← hok.1]
  exact Option.some_ne_none a

theorem kept_of_clean {a : α} (ha : Clean a) : Kept a := by
  cases needed with
  | false => exact (h.not_needed rfl a).mpr ha
  | true =>
    obtain ⟨o, changed, hok, -, hk⟩ := h.lenient_ok a
    rw [h.of_clean ha, Except.ok.injEq, Prod.mk.injEq] at hok
    rw [hk rfl, ← hok.1]
    rintro b ⟨⟩
    exact ⟨ha, h.keeps_self a⟩

/-- Where the operation is needed, it is also one on an optional value.  The value may be dropped
    as far as `Dropped'` allows. -/
theorem optional
    {Kept' Dropped' : α → Prop} (hk' : ∀ a, Kept' a ↔ Kept a ∧ (Dropped a → Dropped' a)) :
    Repairs strict lenient needed (fun p => onAttribute needed (f p)) (fun o => ∀ a ∈ o, Clean a)
      (fun o => ∀ a ∈ o, Kept' a) (KeepsMember Keeps Dropped') := by
  have hs : ∀ o, KeepsMember Keeps Dropped' o o := by
    rintro (_ | a)
    · exact .none
    · exact .some (h.keeps_self a)
  have hiff : needed = false → ∀ o : Option α, (∀ a ∈ o, Kept' a) ↔ ∀ a ∈ o, Clean a := by
    intro hn o
    refine forall₂_congr fun a _ => ?_
    rw [hk', h.not_needed hn, and_iff_left_iff_imp]
    exact fun ha hdr => absurd hdr (h.not_dropped ha)
  cases needed with
  | false =>
    refine ⟨fun _ _ => rfl, fun heq => ?_, fun ho hcl => absurd ((hiff rfl _).mp ho) hcl,
      fun o => ⟨o, false, rfl, ?_⟩, hiff, hs⟩
    · cases heq
      rfl
    · rw [hiff rfl, and_iff_left (hs o)]
  | true =>
    refine ⟨fun {o} ho p => ?_, fun {p o o'} heq => ?_, fun {o} ho hcl => ?_, fun o => ?_,
      nofun, hs⟩
    · cases o with
      | none => rfl
      | some a => simp [onAttribute, onMember, h.of_clean (ho a rfl)]
    · cases o with
      | none =>
        cases heq
        rfl
      | some a =>
        simp only [onAttribute, onMember, if_true] at heq
        split at heq
        · cases heq
        · split at heq <;> cases heq
          rfl
    · cases o with
      | none => exact absurd (fun a ha => nomatch ha) hcl
      | some a =>
        obtain ⟨e, he⟩ := h.strict_error ((hk' a).mp (ho a rfl)).1 fun ha =>
          hcl fun b hb => Option.some.inj hb ▸ ha
        exact ⟨e, by simp [onAttribute, onMember, he]⟩
    · cases o with
      | none => exact ⟨none, false, rfl, by simp [KeepsMember.none]⟩
      | some a =>
        obtain ⟨o, changed, hok, hdr, hk⟩ := h.lenient_ok a
        have hm : ∀ o' : Option α, o' = o →
            ((∀ b ∈ some a, Kept' b) ↔ (∀ b ∈ o', Clean b) ∧ KeepsMember Keeps Dropped' (some a) o') := by
          rintro o' rfl
          simp only [Option.mem_some_iff, forall_eq', hk', hk rfl]
          cases o' with
          | none =>
            refine ⟨fun hall => ⟨by simp, .dropped (hall.2 (hdr.mp rfl))⟩, ?_⟩
            rintro ⟨-, ⟨⟩⟩
            exact ⟨by simp, fun _ => by assumption⟩
          | some b =>
            have hnot : ¬Dropped a := fun hd => nomatch hdr.mpr hd
            refine ⟨fun hall => ⟨fun c hc => (hall.1 c hc).1, .some (hall.1 b rfl).2⟩, ?_⟩
            rintro ⟨hcl, ⟨hke⟩⟩
            refine ⟨fun c hc => ⟨hcl c hc, ?_⟩, fun hd => absurd hd hnot⟩
            cases hc
            assumption
        simp only [onAttribute, onMember, if_true, hok]
        split
        · exact ⟨o, true, rfl, hm o rfl⟩
        · rename_i hch
          rw [Bool.or_eq_true, not_or, Bool.not_eq_true] at hch
          rw [hch.1] at hok
          exact ⟨some a, false, rfl, hm (some a) (h.unchanged hok).symm⟩

end

end RepairsOrDrops

namespace Repairs

variable {f : P → α → Except ε (α × Bool)}

theorem skip (Clean : α → Prop) (h : ∀ a, Clean a) :
    Repairs strict lenient false (fun _ a => (.ok (a, false) : Except ε (α × Bool))) Clean Clean
      Eq where
  of_clean _ _ := rfl
  unchanged heq := by
    cases heq
    rfl
  strict_error _ hc := absurd (h _) hc
  lenient_ok a := ⟨a, false, rfl, by simp⟩
  not_needed _ _ := Iff.rfl
  keeps_self _ := rfl

section

variable (h : Repairs strict lenient needed f Clean Kept Keeps)

include h

theorem prod {needed' : Bool}
    {g : P → β → Except ε (β × Bool)} {Clean' Kept' : β → Prop} {Keeps' : β → β → Prop}
    (h' : Repairs strict lenient needed' g Clean' Kept' Keeps') :
    Repairs strict lenient (needed || needed') (fun p => onBoth (f p) (g p))
      (fun a => Clean a.1 ∧ Clean' a.2) (fun a => Kept a.1 ∧ Kept' a.2)
      (fun a b => Keeps a.1 b.1 ∧ Keeps' a.2 b.2) where
  of_clean ha p := by simp [onBoth, h.of_clean ha.1, h'.of_clean ha.2]
  unchanged {p a b} heq := by
    unfold onBoth at heq
    cases hf : f p a.1 with
    | error e => simp [hf] at heq
    | ok r =>
      cases hg : g p a.2 with
      | error e => simp [hf, hg] at heq
      | ok r' =>
        obtain ⟨c, changed⟩ := r
        obtain ⟨c', changed'⟩ := r'
        simp only [hf, hg, Except.ok.injEq, Prod.mk.injEq, Bool.or_eq_false_iff] at heq
        obtain ⟨rfl, rfl, rfl⟩ := heq
        rw [h.unchanged hf, h'.unchanged hg]
  strict_error {a} ha hc := by
    by_cases ha₁ : Clean a.1
    · obtain ⟨e, he⟩ := h'.strict_error ha.2 fun ha₂ => hc ⟨ha₁, ha₂⟩
      exact ⟨e, by simp [onBoth, h.of_clean ha₁, he]⟩
    · obtain ⟨e, he⟩ := h.strict_error ha.1 ha₁
      exact ⟨e, by simp [onBoth, he]⟩
  lenient_ok a := by
    obtain ⟨b, changed, hok, hk⟩ := h.lenient_ok a.1
    obtain ⟨b', changed', hok', hk'⟩ := h'.lenient_ok a.2
    refine ⟨(b, b'), changed || changed', by simp [onBoth, hok, hok'], ?_⟩
    rw [hk, hk', and_and_and_comm]
  not_needed hne a := by
    obtain ⟨hn, hn'⟩ := Bool.or_eq_false_iff.mp hne
    rw [h.not_needed hn, h'.not_needed hn']
  keeps_self a := ⟨h.keeps_self a.1, h'.keeps_self a.2⟩

theorem right : Repairs strict lenient needed (fun p => onBoth (fun b : β => .ok (b, false)) (f p))
      (fun a => Clean a.2) (fun a => Kept a.2) (fun a b => a.1 = b.1 ∧ Keeps a.2 b.2) := by
  simpa using (skip (fun _ => True) fun _ => trivial).prod h

theorem list : Repairs strict lenient needed (fun p => onEach (f p)) (fun l => ∀ a ∈ l, Clean a)
      (fun l => ∀ a ∈ l, Kept a) (List.Forall₂ Keeps) where
  of_clean {l} hl p := by
    induction l with
    | nil => rfl
    | cons a l ih =>
      obtain ⟨ha, hl⟩ := forall_mem_cons.mp hl
      simp [onEach, h.of_clean ha, ih hl]
  unchanged {p l l'} heq := by
    induction l generalizing l' with
    | nil =>
      cases heq
      rfl
    | cons a l ih =>
      rw [onEach] at heq
      cases hf : f p a with
      | error e => simp [hf] at heq
      | ok r =>
        cases hl : onEach (f p) l with
        | error e => simp [hf, hl] at heq
        | ok r' =>
          obtain ⟨c, changed⟩ := r
          obtain ⟨l'', changed'⟩ := r'
          simp only [hf, hl, Except.ok.injEq, Prod.mk.injEq, Bool.or_eq_false_iff] at heq
          obtain ⟨rfl, rfl, rfl⟩ := heq
          rw [h.unchanged hf, ih hl]
  -- the elements before the first that is not clean go through
  strict_error {l} hl hc := by
    induction l with
    | nil => exact absurd (by simp) hc
    | cons a l ih =>
      obtain ⟨ha, hl⟩ := forall_mem_cons.mp hl
      by_cases hca : Clean a
      · obtain ⟨e, he⟩ := ih hl fun hcl => hc (forall_mem_cons.mpr ⟨hca, hcl⟩)
        exact ⟨e, by simp [onEach, h.of_clean hca, he]⟩
      · obtain ⟨e, he⟩ := h.strict_error ha hca
        exact ⟨e, by simp [onEach, he]⟩
  lenient_ok l := by
    induction l with
    | nil => exact ⟨[], false, rfl, by simp⟩
    | cons a l ih =>
      obtain ⟨b, changed, hok, hk⟩ := h.lenient_ok a
      obtain ⟨l', changed', hok', hk'⟩ := ih
      refine ⟨b :: l', changed || changed', by simp [onEach, hok, hok'], ?_⟩
      rw [forall_mem_cons, forall_mem_cons, forall₂_cons, hk, hk', and_and_and_comm]
  not_needed hn l := forall₂_congr fun a _ => h.not_needed hn a
  keeps_self l := forall₂_same.mpr fun a _ => h.keeps_self a

theorem whole : RepairsOrDrops strict lenient needed (fun p => onWhole (f p)) Clean Kept Keeps
      fun _ => False where
  of_clean ha p := by simp [onWhole, h.of_clean ha]
  unchanged {p a o} heq := by
    unfold onWhole at heq
    split at heq
    · cases heq
    · split at heq <;> cases heq
      rfl
  strict_error ha hc := by
    obtain ⟨e, he⟩ := h.strict_error ha hc
    exact ⟨e, by simp [onWhole, he]⟩
  lenient_ok a := by
    obtain ⟨b, changed, hok, hk⟩ := h.lenient_ok a
    refine ⟨some b, changed, ?_, by simp, fun _ => by simpa using hk⟩
    cases changed with
    | true => simp [onWhole, hok]
    | false => simp [onWhole, hok, h.unchanged hok]
  not_needed := h.not_needed
  keeps_self := h.keeps_self

end

end Repairs

end Repair
