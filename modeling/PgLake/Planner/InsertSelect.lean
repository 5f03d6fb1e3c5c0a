/-
  Which INSERT..SELECT queries are pushed down (`planner/insert_select.c`).

  A pushed down query is executed by DuckDB, which checks no constraint, runs no trigger and
  converts no geometry.

  Main result: `accepted_safe_iff`.
-/
import PgLake.Types.EngineType

namespace PgLake.Planner.InsertSelect

open PgLake.Types

def formatUsesParquet (format : CopyDataFormat) : Bool := format = .parquet || format = .iceberg

/-- `TupleConstr`; `hasGeneratedVirtual` is there from Postgres 18 on. -/
structure TupleConstr where
  hasNotNull : Bool := false
  hasGeneratedStored : Bool := false
  hasGeneratedVirtual : Bool := false
  /-- `missing != NULL` -/
  missing : Bool := false
  numDefval : ℕ := 0
  numCheck : ℕ := 0
  deriving DecidableEq

structure Column where
  attisdropped : Bool
  type : PgType

/-- What is read of the target relation. -/
structure Relation where
  /-- `rd_att->constr`, which may be NULL -/
  constr : Option TupleConstr
  relispartition : Bool
  /-- `trigdesc != NULL` -/
  trigdesc : Bool
  columns : List Column

/-- `RelationSuitableForPushdown`. -/
def relationSuitableForPushdown (relation : Relation) (allowDefaultConsts : Bool) : Bool :=
  match relation.constr with
  | some constr =>
    if constr.hasNotNull || constr.hasGeneratedStored || constr.missing || constr.numCheck > 0 then
      false
    -- this accepts the relation, whatever else it has
    else allowDefaultConsts && constr.numDefval > 0
  | none => !relation.relispartition && !relation.trigdesc

mutual

def typeContainsUnsuitableForPushdown : PgType → Bool
  | .plain t => nonArrayContainsUnsuitableForPushdown t
  | .array element => nonArrayContainsUnsuitableForPushdown element

def nonArrayContainsUnsuitableForPushdown : NonArrayType → Bool
  | .scalar s => s = .geometry || s = .numeric
  | .map key _ value _ =>
    typeContainsUnsuitableForPushdown key || typeContainsUnsuitableForPushdown value
  | .domain _ _ => true
  | .composite attrs => attrsContainUnsuitableForPushdown attrs

def attrsContainUnsuitableForPushdown : Attrs → Bool
  | .nil => false
  | .cons _ type _ rest =>
    typeContainsUnsuitableForPushdown type || attrsContainUnsuitableForPushdown rest
  | .dropped _ rest => attrsContainUnsuitableForPushdown rest

end

/-- `type_is_array(typeId) || get_typtype(typeId) == TYPTYPE_COMPOSITE`: a map is a domain, and is
    neither. -/
def isArrayOrComposite : PgType → Bool
  | .array _ => true
  | .plain (.composite _) => true
  | .plain _ => false

/-- One column in `RelationColumnsSuitableForPushdown`. -/
def columnSuitableForPushdown (sourceFormat : CopyDataFormat) (column : Column) : Bool :=
  column.attisdropped ||
    !(!formatUsesParquet sourceFormat && isArrayOrComposite column.type) &&
      !typeContainsUnsuitableForPushdown column.type

/-- `RelationColumnsSuitableForPushdown`. -/
def relationColumnsSuitableForPushdown (relation : Relation) (sourceFormat : CopyDataFormat) :
    Bool :=
  relation.columns.all (columnSuitableForPushdown sourceFormat)

/-- A geometry, a numeric, or a domain that is not a map type. -/
def Unsuitable : NonArrayType → Prop
  | .scalar s => s = .geometry ∨ s = .numeric
  | .domain _ _ => True
  | .composite _ | .map .. => False

mutual

/-- **The walk finds every unsuitable type.** -/
theorem typeContainsUnsuitableForPushdown_iff : (type : PgType) →
    (typeContainsUnsuitableForPushdown type = true ↔ ∃ part ∈ PgType.parts type, Unsuitable part)
  | .plain t => nonArrayContainsUnsuitableForPushdown_iff t
  | .array el => nonArrayContainsUnsuitableForPushdown_iff el

theorem nonArrayContainsUnsuitableForPushdown_iff : (t : NonArrayType) →
    (nonArrayContainsUnsuitableForPushdown t = true ↔
      ∃ part ∈ NonArrayType.parts t, Unsuitable part)
  | .scalar s => by
    simp [nonArrayContainsUnsuitableForPushdown, NonArrayType.parts, Unsuitable]
  | .domain base typmod => by
    refine iff_of_true rfl ⟨.domain base typmod, ?_, trivial⟩
    exact List.mem_cons_self
  | .composite as => by
    rw [nonArrayContainsUnsuitableForPushdown, attrsContainUnsuitableForPushdown_iff as,
      NonArrayType.parts]
    simp only [List.mem_cons, or_and_right, exists_or, exists_eq_left]
    exact (or_iff_right id).symm
  | .map k keyTypmod v valueTypmod => by
    rw [nonArrayContainsUnsuitableForPushdown, Bool.or_eq_true,
      typeContainsUnsuitableForPushdown_iff k, typeContainsUnsuitableForPushdown_iff v,
      NonArrayType.parts]
    simp only [List.mem_cons, List.mem_append, or_and_right, exists_or, exists_eq_left]
    exact (or_iff_right id).symm

theorem attrsContainUnsuitableForPushdown_iff : (as : Attrs) →
    (attrsContainUnsuitableForPushdown as = true ↔ ∃ part ∈ Attrs.parts as, Unsuitable part)
  | .nil => by simp [attrsContainUnsuitableForPushdown, Attrs.parts]
  | .cons _ type _ rest => by
    rw [attrsContainUnsuitableForPushdown, Bool.or_eq_true,
      typeContainsUnsuitableForPushdown_iff type, attrsContainUnsuitableForPushdown_iff rest,
      Attrs.parts]
    simp [or_and_right, exists_or]
  | .dropped _ rest => attrsContainUnsuitableForPushdown_iff rest

end

/-! ## Accepted relations -/

def ColumnsPlain (relation : Relation) : Prop :=
  ∀ column ∈ relation.columns, column.attisdropped = false →
    ∀ part ∈ PgType.parts column.type, ¬Unsuitable part

/-- Live columns of other formats are neither arrays nor composites. -/
def ColumnsFlat (relation : Relation) (sourceFormat : CopyDataFormat) : Prop :=
  formatUsesParquet sourceFormat = false → ∀ column ∈ relation.columns,
    column.attisdropped = false → isArrayOrComposite column.type = false

variable {relation : Relation}

theorem relationColumnsSuitableForPushdown_iff {sourceFormat : CopyDataFormat} :
    relationColumnsSuitableForPushdown relation sourceFormat = true ↔
      ColumnsPlain relation ∧ ColumnsFlat relation sourceFormat := by
  have hcol : ∀ col : Column, columnSuitableForPushdown sourceFormat col = true ↔
      (col.attisdropped = false → ∀ part ∈ PgType.parts col.type, ¬Unsuitable part) ∧
        (formatUsesParquet sourceFormat = false → col.attisdropped = false →
          isArrayOrComposite col.type = false) := by
    intro col
    have hp := (typeContainsUnsuitableForPushdown_iff col.type).not
    simp only [not_exists, not_and, Bool.not_eq_true] at hp
    rw [← hp, columnSuitableForPushdown]
    cases col.attisdropped <;> cases formatUsesParquet sourceFormat <;>
      simp [and_comm]
  rw [relationColumnsSuitableForPushdown, List.all_eq_true]
  simp only [hcol]
  constructor
  · exact fun h => ⟨fun col hm => (h col hm).1,
      fun hf col hm => (h col hm).2 hf⟩
  · exact fun h col hm => ⟨h.1 col hm, fun hf => h.2 hf col hm⟩

/-- No constraint that has to be checked, no value to compute for a row. -/
structure TupleConstr.Harmless (constr : TupleConstr) : Prop where
  notNull : constr.hasNotNull = false
  check : constr.numCheck = 0
  generatedStored : constr.hasGeneratedStored = false
  generatedVirtual : constr.hasGeneratedVirtual = false
  missing : constr.missing = false

/-- Nothing is lost if DuckDB writes the rows. -/
structure NoPerRowWork (relation : Relation) : Prop where
  trigger : relation.trigdesc = false
  partition : relation.relispartition = false
  constraints : ∀ constr ∈ relation.constr, constr.Harmless
  columns : ColumnsPlain relation

/-- The constraints that are accepted. -/
structure TupleConstr.Accepted (constr : TupleConstr) : Prop where
  defval : 0 < constr.numDefval
  notNull : constr.hasNotNull = false
  check : constr.numCheck = 0
  generatedStored : constr.hasGeneratedStored = false
  missing : constr.missing = false

theorem relationSuitableForPushdown_iff : relationSuitableForPushdown relation true = true ↔
      (∀ constr ∈ relation.constr, constr.Accepted) ∧
        (relation.constr = none → relation.relispartition = false ∧ relation.trigdesc = false) := by
  unfold relationSuitableForPushdown
  cases relation.constr with
  | none => simp
  | some =>
    simp only [Option.mem_some_iff, forall_eq', reduceCtorEq, false_imp_iff, and_true]
    split_ifs with hr
    · refine iff_of_false id fun h => ?_
      simp [h.notNull, h.check, h.generatedStored, h.missing] at hr
    · simp only [Bool.or_eq_true, decide_eq_true_eq, not_or, Bool.not_eq_true,
        Nat.not_lt, Nat.le_zero] at hr
      obtain ⟨⟨⟨hnotNull, hs⟩, hm⟩, hc⟩ := hr
      rw [Bool.true_and, decide_eq_true_eq]
      exact ⟨fun h => ⟨h, hnotNull, hc, hs, hm⟩, fun h => h.defval⟩

/-- A relation with defaults needs neither triggers nor the bounds of a partition nor virtual
    generated columns. -/
def DefaultsAreHarmless (relation : Relation) (sourceFormat : CopyDataFormat) : Prop :=
  ∀ constr ∈ relation.constr, constr.Accepted → ColumnsPlain relation →
    ColumnsFlat relation sourceFormat →
    relation.trigdesc = false ∧ relation.relispartition = false ∧ constr.hasGeneratedVirtual = false

theorem accepted_safe_iff (relation : Relation) (sourceFormat : CopyDataFormat) :
    (relationSuitableForPushdown relation true = true →
      relationColumnsSuitableForPushdown relation sourceFormat = true → NoPerRowWork relation) ↔
      DefaultsAreHarmless relation sourceFormat := by
  rw [relationSuitableForPushdown_iff, relationColumnsSuitableForPushdown_iff]
  constructor
  · intro h constr hconstr haccepted hplain hflat
    have hall : ∀ other ∈ relation.constr, other.Accepted := by
      intro other hother
      obtain rfl := Option.mem_unique hconstr hother
      exact haccepted
    have hnone : relation.constr = none →
        relation.relispartition = false ∧ relation.trigdesc = false := by
      simp [Option.mem_def.mp hconstr]
    have hsafe := h ⟨hall, hnone⟩ ⟨hplain, hflat⟩
    exact ⟨hsafe.trigger, hsafe.partition, (hsafe.constraints constr hconstr).generatedVirtual⟩
  · rintro h ⟨hall, hnone⟩ ⟨hplain, hflat⟩
    cases hconstr : relation.constr with
    | none =>
      obtain ⟨hpartition, htrigger⟩ := hnone hconstr
      exact ⟨htrigger, hpartition, by simp [hconstr], hplain⟩
    | some constr =>
      have haccepted := hall constr hconstr
      obtain ⟨htrigger, hpartition, hvirtual⟩ := h constr hconstr haccepted hplain hflat
      refine ⟨htrigger, hpartition, fun other hother => ?_, hplain⟩
      obtain rfl := Option.mem_unique hconstr hother
      exact ⟨haccepted.notNull, haccepted.check, haccepted.generatedStored, hvirtual,
        haccepted.missing⟩

/-- A table with a default on its column `a integer`, which is a partition and has a trigger. -/
def partitionWithTrigger : Relation where
  constr := some { numDefval := 1 }
  relispartition := true
  trigdesc := true
  columns := [⟨false, .plain (.scalar .int4)⟩]

def virtualColumn : Relation where
  constr := some { numDefval := 1, hasGeneratedVirtual := true }
  relispartition := false
  trigdesc := false
  columns := [⟨false, .plain (.scalar .int4)⟩, ⟨false, .plain (.scalar .int4)⟩]

/-- Both are accepted because of the default. -/
theorem default_hides_trigger_and_partition :
    relationSuitableForPushdown partitionWithTrigger true = true ∧
    relationColumnsSuitableForPushdown partitionWithTrigger .iceberg = true ∧
    ¬NoPerRowWork partitionWithTrigger ∧
    relationSuitableForPushdown virtualColumn true = true ∧
    relationColumnsSuitableForPushdown virtualColumn .iceberg = true ∧
    ¬NoPerRowWork virtualColumn :=
  ⟨rfl, rfl, fun h => Bool.noConfusion h.trigger, rfl, rfl,
    fun h => Bool.noConfusion (h.constraints _ rfl).generatedVirtual⟩

end PgLake.Planner.InsertSelect
