/-
  Clamping normalises nested values, except for two uses of maps.

  Main result: `clamping_normalises_iff`.
-/
import PgLake.Validation.DatumValidation

namespace PgLake.Validation

open PgLake.Types Repair
open Fdw.TemporalPartitions (InRange TemporalType)

/-! ## Values that can be stored -/

variable (cfg : NumericSettings)

def Leaf.Clean (typmod : Typmod) : (leaf : Leaf) → leaf.Val → Prop
  | .temporal type, v => InRange type v.value
  | .numeric, v => isUnsupportedNumericForIceberg cfg typmod = false → v ≠ NumericValue.nan
  | .other, _ => True

mutual

def PgType.Clean : (type : PgType) → Typmod → PgType.Val type → Prop
  | .plain t, typmod, v => NonArrayType.Clean t typmod v
  | .array element, typmod, v =>
    v.ndim ≤ 1 ∧ ∀ o ∈ v.elems, ∀ x ∈ o, NonArrayType.Clean element typmod x

def NonArrayType.Clean : (t : NonArrayType) → Typmod → NonArrayType.Val t → Prop
  | .scalar s, typmod, v => (leafOf s).Clean cfg typmod v
  | .domain base baseTypmod, _, v => PgType.Clean base baseTypmod v
  | .composite attrs, _, v => Attrs.Clean attrs v
  | .map key keyTypmod value valueTypmod, _, v =>
    v.ndim ≤ 1 ∧ ∀ o ∈ v.elems, ∀ pair ∈ o, (∀ k ∈ pair.1, PgType.Clean key keyTypmod k) ∧
      ∀ x ∈ pair.2, PgType.Clean value valueTypmod x

def Attrs.Clean : (attrs : Attrs) → Attrs.Val attrs → Prop
  | .nil, _ => True
  | .cons _ type typmod rest, v => (∀ x ∈ v.1, PgType.Clean type typmod x) ∧ Attrs.Clean rest v.2
  | .dropped _ rest, v => Attrs.Clean rest v.2

end

/-! ## Values that are replaced by NULL -/

def Leaf.Nullified (typmod : Typmod) : (leaf : Leaf) → leaf.Val → Prop
  | .temporal _, _ => False
  | .numeric, v => isUnsupportedNumericForIceberg cfg typmod = false ∧ v = NumericValue.nan
  | .other, _ => False

mutual

def PgType.Nullified : (type : PgType) → Typmod → PgType.Val type → Prop
  | .plain t, typmod, v => NonArrayType.Nullified t typmod v
  | .array _, _, v => 1 < v.ndim

def NonArrayType.Nullified : (t : NonArrayType) → Typmod → NonArrayType.Val t → Prop
  | .scalar s, typmod, v => (leafOf s).Nullified cfg typmod v
  | .domain base baseTypmod, _, v => PgType.Nullified base baseTypmod v
  | .composite _, _, _ => False
  | .map .., _, v => 1 < v.ndim

end

/-! ## What is kept

`nullKeys` says whether the key of a map may become NULL. -/

section Keeps
variable (nullKeys : Prop)

/-- Arrays of the same shape, with elements that are related one by one. -/
def KeepsArray {α : Type} (Keeps : α → α → Prop) (Dropped : α → Prop) (v w : PgArray α) : Prop :=
  v.dims = w.dims ∧ List.Forall₂ (KeepsMember Keeps Dropped) v.elems w.elems

mutual

def PgType.Keeps : (type : PgType) → Typmod → PgType.Val type → PgType.Val type → Prop
  | .plain t, typmod, v, w => NonArrayType.Keeps t typmod v w
  | .array element, typmod, v, w =>
    KeepsArray (NonArrayType.Keeps element typmod) (NonArrayType.Nullified cfg element typmod)
      v w

def NonArrayType.Keeps :
    (t : NonArrayType) → Typmod → NonArrayType.Val t → NonArrayType.Val t → Prop
  | .scalar s, typmod, v, w => (leafOf s).Clean cfg typmod v → v = w
  | .domain base baseTypmod, _, v, w => PgType.Keeps base baseTypmod v w
  | .composite attrs, _, v, w => Attrs.Keeps attrs v w
  -- no pair becomes NULL
  | .map key keyTypmod value valueTypmod, _, v, w =>
    KeepsArray
      (fun pair pair' =>
        KeepsMember (PgType.Keeps key keyTypmod)
            (fun k => nullKeys ∧ PgType.Nullified cfg key keyTypmod k) pair.1 pair'.1 ∧
          KeepsMember (PgType.Keeps value valueTypmod)
            (PgType.Nullified cfg value valueTypmod) pair.2 pair'.2)
      (fun _ => False) v w

def Attrs.Keeps : (attrs : Attrs) → Attrs.Val attrs → Attrs.Val attrs → Prop
  | .nil, v, w => v = w
  | .cons _ type typmod rest, v, w =>
    KeepsMember (PgType.Keeps type typmod) (PgType.Nullified cfg type typmod) v.1 w.1 ∧
      Attrs.Keeps rest v.2 w.2
  | .dropped _ rest, v, w => v.1 = w.1 ∧ Attrs.Keeps rest v.2 w.2

end

mutual

/-- The values that are validated as they should be.  What is in a multidimensional array does not
    matter, since it is clamped as a whole. -/
def PgType.Kept : (type : PgType) → Typmod → PgType.Val type → Prop
  | .plain t, typmod, v => NonArrayType.Kept t typmod v
  | .array element, typmod, v =>
    v.ndim ≤ 1 → ∀ o ∈ v.elems, ∀ x ∈ o, NonArrayType.Kept element typmod x

def NonArrayType.Kept : (t : NonArrayType) → Typmod → NonArrayType.Val t → Prop
  | .scalar _, _, _ => True
  | .domain base baseTypmod, _, v => PgType.Kept base baseTypmod v
  | .composite attrs, _, v => Attrs.Kept attrs v
  | .map key keyTypmod value valueTypmod, _, v =>
    ((PgType.needsIcebergValidation cfg false key keyTypmod ||
        PgType.needsIcebergValidation cfg false value valueTypmod) = false → v.ndim ≤ 1) ∧
    (v.ndim ≤ 1 → ∀ o ∈ v.elems, ∀ pair ∈ o, (∀ k ∈ pair.1, PgType.Kept key keyTypmod k ∧
        (PgType.Nullified cfg key keyTypmod k → nullKeys)) ∧
        ∀ x ∈ pair.2, PgType.Kept value valueTypmod x)

def Attrs.Kept : (attrs : Attrs) → Attrs.Val attrs → Prop
  | .nil, _ => True
  | .cons _ type typmod rest, v => (∀ x ∈ v.1, PgType.Kept type typmod x) ∧ Attrs.Kept rest v.2
  | .dropped _ rest, v => Attrs.Kept rest v.2

end

end Keeps

/-! ## One step -/

variable (cal : PostgresCalendar) {cfg}

abbrev Validates {α : Type} (needed : Bool)
    (f : IcebergOutOfRangePolicy → α → Except Failure (Option α × Bool)) (Clean Kept : α → Prop)
    (Keeps : α → α → Prop) (Nullified : α → Prop) : Prop :=
  RepairsOrDrops IcebergOutOfRangePolicy.error .clamp needed f Clean Kept Keeps Nullified

variable {type : TemporalType}

open TemporalValue PgType

theorem TemporalValue.icebergErrorOrClamp_of_inRange {v : TemporalValue type}
    (h : InRange type v.value) (pol : IcebergOutOfRangePolicy) :
    v.icebergErrorOrClamp cal pol = .ok v := by
  have heq := icebergErrorOrClampTemporalDatum_eq cal pol v
  rw [if_pos (inRange_iff.mp h)] at heq
  unfold icebergErrorOrClamp
  split
  · rename_i he
    cases he.symm.trans heq
  · rename_i result hok
    cases hok.symm.trans heq
    rfl

theorem TemporalValue.icebergErrorOrClamp_error {v : TemporalValue type}
    (h : ¬InRange type v.value) :
    v.icebergErrorOrClamp cal .error = .error (.outOfRange type) := by
  have heq := icebergErrorOrClampTemporalDatum_eq cal .error v
  rw [if_neg (inRange_iff.not.mp h), if_pos rfl] at heq
  unfold icebergErrorOrClamp
  split
  · rename_i he
    cases he.symm.trans heq
    rfl
  · rename_i result hok
    cases hok.symm.trans heq

theorem TemporalValue.exists_icebergErrorOrClamp (v : TemporalValue type) :
    ∃ w, v.icebergErrorOrClamp cal .clamp = .ok w ∧ InRange type w.value := by
  by_cases h : InRange type v.value
  · exact ⟨v, v.icebergErrorOrClamp_of_inRange cal h _, h⟩
  · have heq := icebergErrorOrClampTemporalDatum_eq cal .clamp v
    have hr := minValue_le_maxValue type
    rw [if_neg (inRange_iff.not.mp h), if_neg (by decide)] at heq
    unfold icebergErrorOrClamp
    split
    · rename_i he
      cases he.symm.trans heq
    · rename_i result hok
      refine ⟨_, rfl, inRange_iff.mpr ?_⟩
      cases hok.symm.trans heq
      split_ifs
      · exact ⟨Int.le_refl _, hr⟩
      · exact ⟨hr, Int.le_refl _⟩

variable {typmod : Typmod} {v : NumericValue}

theorem icebergErrorOrClampNumericDatum_of_clean
    (h : Leaf.Clean cfg typmod .numeric v) (pol : IcebergOutOfRangePolicy) :
    icebergErrorOrClampNumericDatum cfg pol typmod v = .ok (some v) := by
  unfold icebergErrorOrClampNumericDatum
  split_ifs with hu hnan
  · rfl
  · rfl
  all_goals exact absurd (not_not.mp hnan) (h (Bool.eq_false_of_not_eq_true hu))

theorem isNan_of_not_clean (h : ¬Leaf.Clean cfg typmod .numeric v) :
    isUnsupportedNumericForIceberg cfg typmod = false ∧ v = .nan := by
  obtain ⟨hs, hnan⟩ := Classical.not_imp.mp h
  exact ⟨hs, not_not.mp hnan⟩

theorem icebergErrorOrClampNumericDatum_of_not_clean
    (h : ¬Leaf.Clean cfg typmod .numeric v) (pol : IcebergOutOfRangePolicy) :
    icebergErrorOrClampNumericDatum cfg pol typmod v =
      if pol = .clamp then .ok none else .error .nan := by
  obtain ⟨hs, rfl⟩ := isNan_of_not_clean h
  simp [icebergErrorOrClampNumericDatum, hs]

theorem validates_leaf (leaf : Leaf) (typmod : Typmod) :
    Validates (leaf.needsIcebergValidation cfg false typmod)
      (fun pol => leaf.icebergErrorOrClamp cal cfg pol typmod)
      (leaf.Clean cfg typmod) (fun _ => True) (fun v w => leaf.Clean cfg typmod v → v = w)
      (leaf.Nullified cfg typmod) := by
  cases leaf with
  | temporal type =>
    refine ⟨fun {v} hv pol => ?_, fun {pol v o} heq => ?_, fun {v} _ hv => ?_, fun v => ?_,
      fun hn => Bool.noConfusion hn, fun v _ => rfl⟩
    · simp only [Leaf.icebergErrorOrClamp, TemporalValue.icebergErrorOrClamp_of_inRange cal hv]
      simp [Except.map]
    · obtain ⟨w, -, hw⟩ := Fallible.map_eq_ok_iff.mp heq
      rw [Prod.mk.injEq, decide_eq_false_iff_not, not_not] at hw
      rw [← hw.1, TemporalValue.ext hw.2]
    · exact ⟨.outOfRange type, by
        simp only [Leaf.icebergErrorOrClamp, TemporalValue.icebergErrorOrClamp_error cal hv]; rfl⟩
    · obtain ⟨w, hok, hw⟩ := v.exists_icebergErrorOrClamp cal
      refine ⟨some w, _, by simp only [Leaf.icebergErrorOrClamp, hok]; rfl, by simp [Leaf.Nullified],
        fun _ => iff_of_true trivial ?_⟩
      rintro b ⟨⟩
      refine ⟨hw, fun hv => ?_⟩
      have hs := v.icebergErrorOrClamp_of_inRange cal hv .clamp
      exact Except.ok.inj (hs.symm.trans hok)
  | numeric =>
    refine ⟨fun {v} hv pol => ?_, fun {pol v o} heq => ?_, fun {v} _ hv => ?_, fun v => ?_,
      fun hn v => ?_, fun v _ => rfl⟩
    · rw [Leaf.icebergErrorOrClamp, icebergErrorOrClampNumericDatum_of_clean hv]
      rfl
    · by_cases hv : Leaf.Clean cfg typmod .numeric v
      · rw [Leaf.icebergErrorOrClamp, icebergErrorOrClampNumericDatum_of_clean hv] at heq
        cases heq
        rfl
      · rw [Leaf.icebergErrorOrClamp, icebergErrorOrClampNumericDatum_of_not_clean hv] at heq
        split at heq <;> cases heq
    · exact ⟨.nan, by rw [Leaf.icebergErrorOrClamp, icebergErrorOrClampNumericDatum_of_not_clean hv]; rfl⟩
    · by_cases hv : Leaf.Clean cfg typmod .numeric v
      · refine ⟨some v, false, by rw [Leaf.icebergErrorOrClamp, icebergErrorOrClampNumericDatum_of_clean hv]; rfl,
          iff_of_false (Option.some_ne_none v) fun hnu => hv hnu.1 hnu.2,
          fun _ => iff_of_true trivial ?_⟩
        rintro b ⟨⟩
        exact ⟨hv, fun _ => rfl⟩
      · exact ⟨none, true, by rw [Leaf.icebergErrorOrClamp, icebergErrorOrClampNumericDatum_of_not_clean hv]; rfl,
          iff_of_true rfl (isNan_of_not_clean hv), fun _ => iff_of_true trivial (by simp)⟩
    · refine iff_of_true trivial fun hsu => ?_
      rw [Leaf.needsIcebergValidation, hsu] at hn
      exact Bool.noConfusion hn
  | other =>
    refine ⟨fun _ _ => rfl, fun heq => ?_, fun _ hc => absurd trivial hc,
      fun v => ⟨some v, false, rfl, by simp [Leaf.Nullified], fun hn => Bool.noConfusion hn⟩,
      fun _ _ => Iff.rfl, fun _ _ => rfl⟩
    cases heq
    rfl

section Arrays
variable {α : Type} {needed : Bool} {f : α → Except Failure (Option α × Bool)}

theorem errorOrClampArray_of_one_lt {v : PgArray α}
    (h : 1 < v.ndim) (pol : IcebergOutOfRangePolicy) :
    errorOrClampArray pol needed f v =
      if pol = .error then .error .multidimensional else .ok (none, true) := by
  simp only [errorOrClampArray, icebergErrorOrClampMultiDimArrayDatum, h, decide_true,
    Bool.not_true, Bool.false_and, Bool.false_eq_true, if_false, if_true]
  split <;> rfl

theorem errorOrClampArray_of_le {v : PgArray α}
    (h : v.ndim ≤ 1) (pol : IcebergOutOfRangePolicy) :
    errorOrClampArray pol needed f v = match onEach (onAttribute needed f) v.elems with
      | .error failure => .error failure
      | .ok (elems, anyModified) =>
        .ok (if anyModified then (some { v with elems := elems }, true) else (some v, false)) := by
  simp only [errorOrClampArray, gt_iff_lt, not_lt.mpr h, decide_false, Bool.not_false,
    Bool.true_and, Bool.false_eq_true, if_false]
  cases needed with
  | false =>
    rw [onEach_onAttribute_false]
    rfl
  | true =>
    rw [onAttribute_true]
    cases onEach (onMember f) v.elems with
    | error e => rfl
    | ok r => cases hr : r.2 <;> simp [hr]

variable {f : IcebergOutOfRangePolicy → α → Except Failure (Option α × Bool)}
  {Clean Kept : α → Prop} {Keeps : α → α → Prop} {Nullified : α → Prop}

section

variable (h : Validates needed f Clean Kept Keeps Nullified)

include h

theorem validates_array : Validates true (fun pol => errorOrClampArray pol needed (f pol))
      (fun v => v.ndim ≤ 1 ∧ ∀ o ∈ v.elems, ∀ x ∈ o, Clean x)
      (fun v => v.ndim ≤ 1 → ∀ o ∈ v.elems, ∀ x ∈ o, Kept x) (KeepsArray Keeps Nullified)
      (fun v => 1 < v.ndim) := by
  have hm : ∀ a, Kept a ↔ Kept a ∧ (Nullified a → Nullified a) :=
    fun a => (and_iff_left id).symm
  have hel := (h.optional hm).list
  refine ⟨fun {v} hv pol => ?_, fun {pol v o} heq => ?_, fun {v} hv hc => ?_,
    fun v => ?_, nofun,
    fun v => ⟨rfl, hel.keeps_self v.elems⟩⟩
  · rw [errorOrClampArray_of_le hv.1, hel.of_clean hv.2]
    rfl
  · rcases Nat.lt_or_ge 1 v.ndim with hdim | hdim
    · rw [errorOrClampArray_of_one_lt hdim] at heq
      split at heq <;> cases heq
    · rw [errorOrClampArray_of_le hdim] at heq
      split at heq
      · cases heq
      · split at heq <;> cases heq
        rfl
  · rcases Nat.lt_or_ge 1 v.ndim with hdim | hdim
    · exact ⟨_, errorOrClampArray_of_one_lt hdim _⟩
    · obtain ⟨e, he⟩ := hel.strict_error (hv hdim) fun hall => hc ⟨hdim, hall⟩
      exact ⟨e, by rw [errorOrClampArray_of_le hdim, he]⟩
  · rcases Nat.lt_or_ge 1 v.ndim with hdim | hdim
    · refine ⟨none, true, errorOrClampArray_of_one_lt hdim _, iff_of_true rfl hdim, fun _ => ?_⟩
      exact iff_of_true (fun hle => absurd hdim (not_lt.mpr hle)) (by simp)
    · obtain ⟨elems, anyModified, hok, hk⟩ := hel.lenient_ok v.elems
      have hs : anyModified = false → { v with elems := elems } = v := by
        rintro rfl
        rw [hel.unchanged hok]
      refine ⟨some { v with elems := elems }, anyModified, ?_, by simp [hdim], fun _ => ?_⟩
      · rw [errorOrClampArray_of_le hdim, hok]
        cases anyModified with
        | true => rfl
        | false => rw [hs rfl]; rfl
      · simp only [hdim, true_imp_iff, Option.mem_some_iff, forall_eq', hk]
        exact and_congr (and_iff_right hdim).symm (and_iff_right rfl).symm

theorem repairs_pair (nullKeys : Prop) {β : Type} {needed' : Bool}
    {g : IcebergOutOfRangePolicy → β → Except Failure (Option β × Bool)} {Clean' Kept' : β → Prop}
    {Keeps' : β → β → Prop} {Nullified' : β → Prop}
    (h' : Validates needed' g Clean' Kept' Keeps' Nullified') :
    Repairs IcebergOutOfRangePolicy.error .clamp (needed || needed')
      (fun pol => onBoth (onAttribute needed (f pol)) (onAttribute needed' (g pol)))
      (fun p => (∀ k ∈ p.1, Clean k) ∧ ∀ x ∈ p.2, Clean' x)
      (fun p => (∀ k ∈ p.1, Kept k ∧ (Nullified k → nullKeys)) ∧ ∀ x ∈ p.2, Kept' x)
      (fun p q => KeepsMember Keeps (fun k => nullKeys ∧ Nullified k) p.1 q.1 ∧
        KeepsMember Keeps' Nullified' p.2 q.2) := by
  have hk : ∀ k, Kept k ∧ (Nullified k → nullKeys) ↔
      Kept k ∧ (Nullified k → nullKeys ∧ Nullified k) :=
    fun k => and_congr_right fun _ => (imp_and.trans (and_iff_left id)).symm
  have hv : ∀ x, Kept' x ↔ Kept' x ∧ (Nullified' x → Nullified' x) :=
    fun x => (and_iff_left id).symm
  exact (h.optional hk).prod (h'.optional hv)

theorem validates_map : Validates needed (fun pol => errorOrClampArray pol needed (f pol))
      (fun v => v.ndim ≤ 1 ∧ ∀ o ∈ v.elems, ∀ x ∈ o, Clean x)
      (fun v => (needed = false → v.ndim ≤ 1) ∧ (v.ndim ≤ 1 → ∀ o ∈ v.elems, ∀ x ∈ o, Kept x))
      (KeepsArray Keeps Nullified) (fun v => 1 < v.ndim) where
  of_clean := (validates_array h).of_clean
  unchanged := (validates_array h).unchanged
  strict_error hv hc := (validates_array h).strict_error hv.2 hc
  lenient_ok v := by
    obtain ⟨o, changed, hok, hd, hk⟩ := (validates_array h).lenient_ok v
    refine ⟨o, changed, hok, hd, fun hn => ?_⟩
    rw [← hk rfl, and_iff_right fun hnot => Bool.noConfusion (hn.symm.trans hnot)]
  not_needed hn v := by
    simp only [hn, true_imp_iff, h.not_needed hn]
    exact and_congr_right fun hdim => ⟨fun hall => hall hdim, fun hall _ => hall⟩
  keeps_self := (validates_array h).keeps_self

end

end Arrays

/-! ## Every type -/

section Types
variable (nullKeys : Prop)

mutual

theorem PgType.validates : (type : PgType) → (typmod : Typmod) →
    Validates (needsIcebergValidation cfg false type typmod)
      (fun pol => icebergErrorOrClamp cal cfg pol type typmod)
      (PgType.Clean cfg type typmod) (PgType.Kept cfg nullKeys type typmod)
      (PgType.Keeps cfg nullKeys type typmod) (PgType.Nullified cfg type typmod)
  | .plain t, typmod => NonArrayType.validates t typmod
  | .array element, typmod => validates_array (NonArrayType.validates element typmod)

theorem NonArrayType.validates : (t : NonArrayType) → (typmod : Typmod) →
    Validates (NonArrayType.needsIcebergValidation cfg false t typmod)
      (fun pol => NonArrayType.icebergErrorOrClamp cal cfg pol t typmod)
      (NonArrayType.Clean cfg t typmod) (NonArrayType.Kept cfg nullKeys t typmod)
      (NonArrayType.Keeps cfg nullKeys t typmod) (NonArrayType.Nullified cfg t typmod)
  | .scalar s, typmod => validates_leaf cal (leafOf s) typmod
  | .domain base baseTypmod, _ => PgType.validates base baseTypmod
  | .composite attrs, _ => (Attrs.repairs attrs).whole
  | .map key keyTypmod value valueTypmod, _ =>
    validates_map (repairs_pair (PgType.validates key keyTypmod) nullKeys
      (PgType.validates value valueTypmod)).whole

theorem Attrs.repairs : (as : Attrs) → Repairs IcebergOutOfRangePolicy.error .clamp
      (Attrs.needsIcebergValidation cfg false as)
      (fun pol => Attrs.icebergErrorOrClamp cal cfg pol as)
      (Attrs.Clean cfg as) (Attrs.Kept cfg nullKeys as) (Attrs.Keeps cfg nullKeys as)
  | .nil => Repairs.skip _ fun _ => trivial
  | .cons _ type typmod rest =>
    ((PgType.validates type typmod).optional fun _ => (and_iff_left id).symm).prod
      (Attrs.repairs rest)
  | .dropped _ rest => (Attrs.repairs rest).right

end

end Types

/-- What the validation of a value should do. -/
structure Normalises (cfg : NumericSettings) (type : PgType) (typmod : Typmod)
    (v : PgType.Val type) : Prop where
  /-- under the clamp policy the result can be stored, the rest of the value is kept, and clamping
      again changes nothing -/
  clamps : ∃ result, icebergErrorOrClampDatum cal cfg .clamp type typmod v = .ok result ∧
    (∀ w ∈ result, PgType.Clean cfg type typmod w) ∧
    KeepsMember (PgType.Keeps cfg False type typmod) (PgType.Nullified cfg type typmod)
      (some v) result ∧
    ∀ w ∈ result, icebergErrorOrClampDatum cal cfg .clamp type typmod w = .ok (some w)
  unchanged : PgType.Clean cfg type typmod v →
    PgType.icebergErrorOrClamp cal cfg .clamp type typmod v = .ok (some v, false)
  raises : (∃ failure, icebergErrorOrClampDatum cal cfg .error type typmod v = .error failure) ↔
    ¬PgType.Clean cfg type typmod v
  identity : PgType.needsIcebergValidation cfg false type typmod = false →
    ∀ policy, icebergErrorOrClampDatum cal cfg policy type typmod v = .ok (some v)

theorem icebergErrorOrClampDatum_of_clean {type : PgType} {v : PgType.Val type}
    (h : PgType.Clean cfg type typmod v) (pol : IcebergOutOfRangePolicy) :
    icebergErrorOrClampDatum cal cfg pol type typmod v = .ok (some v) := by
  rw [icebergErrorOrClampDatum, (validates cal False type typmod).of_clean h]
  rfl

theorem clamping_normalises_iff (cfg : NumericSettings) (type : PgType) (typmod : Typmod)
    (v : PgType.Val type) :
    Normalises cal cfg type typmod v ↔ PgType.Kept cfg False type typmod v := by
  have hspec := @PgType.validates cfg cal False type typmod
  obtain ⟨o, changed, hok, hdropped, hkept⟩ := hspec.lenient_ok v
  have hclamp : icebergErrorOrClampDatum cal cfg .clamp type typmod v = .ok o := by
    rw [icebergErrorOrClampDatum, hok]
    rfl
  constructor
  · intro h
    obtain ⟨result, hresult, hclean, hkeeps, -⟩ := h.clamps
    cases hclamp.symm.trans hresult
    cases hneeded : needsIcebergValidation cfg false type typmod with
    | true =>
      rw [hkept hneeded]
      rintro w ⟨⟩
      cases hkeeps with
      | some hvw => exact ⟨hclean w rfl, hvw⟩
    | false =>
      have hsame := h.identity hneeded .clamp
      cases hclamp.symm.trans hsame
      exact hspec.kept_of_clean (hclean v rfl)
  · intro h
    have hresult : ∀ w ∈ o, PgType.Clean cfg type typmod w ∧
        PgType.Keeps cfg False type typmod v w := by
      cases hneeded : needsIcebergValidation cfg false type typmod with
      | true => exact (hkept hneeded).mp h
      | false =>
        have hclean := (hspec.not_needed hneeded v).mp h
        rw [hspec.of_clean hclean, Except.ok.injEq, Prod.mk.injEq] at hok
        rintro w hw
        rw [← hok.1] at hw
        cases hw
        exact ⟨hclean, hspec.keeps_self v⟩
    refine ⟨⟨o, hclamp, fun w hw => (hresult w hw).1, ?_, fun w hw =>
      icebergErrorOrClampDatum_of_clean cal (hresult w hw).1 _⟩, fun hv => hspec.of_clean hv _,
      ⟨?_, fun hv => ?_⟩, fun hneeded policy =>
      icebergErrorOrClampDatum_of_clean cal ((hspec.not_needed hneeded v).mp h) policy⟩
    · cases o with
      | none => exact .dropped (hdropped.mp rfl)
      | some w => exact .some (hresult w rfl).2
    · rintro ⟨failure, hfailure⟩ hv
      cases (icebergErrorOrClampDatum_of_clean cal hv _).symm.trans hfailure
    · obtain ⟨failure, hfailure⟩ := hspec.strict_error h hv
      exact ⟨failure, by rw [icebergErrorOrClampDatum, hfailure]; rfl⟩

/-! ## Two maps -/

def gregorianCalendar : PostgresCalendar :=
  ⟨Fdw.TemporalPartitions.gregorian, Fdw.TemporalPartitions.gregorian_isGregorian⟩

def textMap : NonArrayType :=
  .map (.plain (.scalar .text)) none (.plain (.scalar .int4)) none

def twoDimensionalMap : NonArrayType.Val textMap :=
  PgArray.mk [(1, 1), (1, 1)] [some (some "a", some "1")] (by decide)

/-- A map whose keys are of a domain over `numeric(10, 2)`. -/
def decimalMap : NonArrayType :=
  .map (.plain (.domain (.plain (.scalar .numeric)) (some ⟨10, 2⟩))) none (.plain (.scalar .text))
    none

/-- The validation replaces a two-dimensional map by NULL, although its type needs none, and lets it
    pass in an array, under either policy.  A key that is NaN becomes NULL. -/
theorem two_dimensional_map_and_nan_key :
    needsIcebergValidation .default false (.plain textMap) none = false ∧
    icebergErrorOrClampDatum gregorianCalendar .default .clamp (.plain textMap) none
      twoDimensionalMap = .ok none ∧
    (∀ policy, icebergErrorOrClampDatum gregorianCalendar .default policy (.array textMap) none
      (PgArray.mk [(1, 1)] [some twoDimensionalMap] (by decide)) =
        .ok (some (PgArray.mk [(1, 1)] [some twoDimensionalMap] (by decide)))) ∧
    icebergErrorOrClampDatum gregorianCalendar .default .clamp (.plain decimalMap) none
      (PgArray.mk [(1, 1)] [some (some NumericValue.nan, some "x")] (by decide)) =
        .ok (some (PgArray.mk [(1, 1)] [some (none, some "x")] (by decide))) :=
  ⟨rfl, rfl, fun _ => rfl, rfl⟩

end PgLake.Validation
