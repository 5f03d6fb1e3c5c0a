/-
  Scans skip a data file if the constraints of its bounds and of its partition tuple
  refute the WHERE clauses (`PruneDataFiles` with PARTIAL_MATCH).

  Main results: `nan_sound_iff`, `collation_sound_iff`.
-/
import Mathlib.Data.Prod.Lex
import Mathlib.Order.Bounds.Basic
import Mathlib.Order.WithBot
import PgLake.Fdw.Pruning

namespace PgLake.Fdw.Pruning

open SqlPredicate List

variable {V B Clause : Type}

/-! ## What is promised, and what must hold -/

def extendedClauses (env : Env V B Clause) (table : Table V) (clauses : List Clause)
    (file : DataFile V B) : List Clause :=
  let mapping := addFieldIdsUsedInQuery table (columnsUsedInRestrictions env clauses)
  env.extendClausesForBucketPartitioning file.partition
    (getPartitionTransformsUsedInQuery table mapping) mapping
    (clauses.map env.stripAllImplicitCoercions)

/-- The bounds of the column are recorded and used. -/
structure Bounded (table : Table V) (file : DataFile V B) (attrNo : AttrNumber)
    (stat : ColumnStats) (lower upper : String) : Prop where
  field : table.field attrNo = some stat.fieldId
  scalar : (table.column attrNo).kind = .scalar
  supported : (table.column attrNo).collation.supported = true
  operator : ∀ op, (table.column attrNo).operator op = true
  mem : stat ∈ file.columnStats
  lower : stat.lowerBoundText = some lower
  upper : stat.upperBoundText = some upper

/-- A column has all comparison operators or none. -/
def Table.HasOperatorClasses (table : Table V) : Prop :=
  ∀ attrNo op op', (table.column attrNo).operator op = true → (table.column attrNo).operator op' = true

section Statement
variable [LinearOrder V]

/-- Refutation is strong: where the clauses are TRUE, a constraint is FALSE.  Implicit
    coercions do not change that a clause is TRUE. -/
structure Env.Refutes (env : Env V B Clause) : Prop where
  refuted : ∀ {constraints clauses}, env.predicateRefutedBy constraints clauses = true →
    ∀ {row}, (∀ clause ∈ clauses, env.eval clause row = some true) →
      ∃ c ∈ constraints, c.eval row = some false
  strip : ∀ {clause row}, env.eval clause row = some true →
    env.eval (env.stripAllImplicitCoercions clause) row = some true
  hashOrder_perm : ∀ mapping, (env.hashOrder mapping).Perm mapping.entries

/-- The partition tuple of the file does not exclude the row. -/
structure InsidePartition (env : Env V B Clause) (table : Table V) (clauses : List Clause)
    (file : DataFile V B) (row : Row V) : Prop where
  constraints : ∀ c ∈ partitionConstraints env table clauses file, c.eval row ≠ some false
  clauses : ∀ clause ∈ extendedClauses env table clauses file, env.eval clause row = some true

/-- A file with a row that satisfies clauses about these columns is not skipped, unless its
    partition tuple excludes the row. -/
def PartialMatchSound (columns : Set AttrNumber) (table : Table V) (file : DataFile V B) : Prop :=
  ∀ (Clause : Type) (env : Env V B Clause), env.Refutes → ∀ clauses dataFiles,
    (∀ attrNo ∈ columnsUsedInRestrictions env clauses, attrNo ∈ columns) → file ∈ dataFiles →
      ∀ row ∈ file.rows, Matches env clauses row → InsidePartition env table clauses file row →
        file ∈ pruneDataFiles env table dataFiles clauses .partialMatch

/-- The bounds contain the values, in the order in which constraints are evaluated. -/
def Encloses (columns : Set AttrNumber) (table : Table V) (file : DataFile V B) : Prop :=
  ∀ attrNo ∈ columns, ∀ {stat lower upper}, Bounded table file attrNo stat lower upper →
    ∀ row ∈ file.rows, ∀ {v}, row attrNo = some v →
      table.boundDatum attrNo lower ≤ v ∧ v ≤ table.boundDatum attrNo upper

end Statement

/-! ## Files that are kept -/

variable {columns : Set AttrNumber}

open Option

section Kept
variable [LinearOrder V] {env : Env V B Clause} {table : Table V} {file : DataFile V B}
variable {clauses : List Clause}

theorem partialMatch_keeps (henv : env.Refutes) {dfs : List (DataFile V B)}
    (hm : file ∈ dfs) {r : Row V}
    (hcs : ∀ cl ∈ extendedClauses env table clauses file, env.eval cl r = some true)
    (hco :
      let mapping := addFieldIdsUsedInQuery table (columnsUsedInRestrictions env clauses)
      ∀ c ∈ getColumnBoundConstraints env table mapping
        (getPartitionTransformsUsedInQuery table mapping) file, c.eval r ≠ some false) :
    file ∈ pruneDataFiles env table dfs clauses .partialMatch := by
  unfold pruneDataFiles
  simp only
  split_ifs with hoff hfu hcols
  · exact hm
  · exact nomatch hfu.1
  · exact hm
  · refine mem_filter.mpr ⟨hm, ?_⟩
    rw [Bool.not_eq_true', Bool.eq_false_iff]
    intro hr
    obtain ⟨c, hc, hf⟩ := henv.refuted hr hcs
    exact hco c hc hf

variable {attrNo : AttrNumber} {stat : ColumnStats} {c : Constraint V}

theorem statConstraint_null {id : ℤ}
    (hc : statConstraint table (columnMapping table attrNo id) stat = some c) {r : Row V}
    (hn : r attrNo = none) : c.eval r = none := by
  obtain ⟨-, -, lo, hi, -, -, ⟨-, hc⟩ | hc⟩ := statConstraint_some hc
  · obtain ⟨t, ht, rfl⟩ := Option.map_eq_some_iff.mp hc
    obtain ⟨-, ht⟩ := ite_none_right_eq_some.mp ht
    cases ht
    simp [OpTemplate.fill, Pred.eval, hn]
  · obtain ⟨t, ht, rfl⟩ := map_eq_some_iff.mp hc
    unfold buildConstraintsWithNullConst makeOpExpression at ht
    split_ifs at ht
    cases ht
    simp [OpTemplate.fill, Pred.eval, hn, and3]

omit [LinearOrder V] in
theorem operator_of_statConstraint (hops : table.HasOperatorClasses) {id : ℤ}
    (hc : statConstraint table (columnMapping table attrNo id) stat = some c) (op : Cmp) :
    (table.column attrNo).operator op = true := by
  obtain ⟨-, -, lo, hi, -, -, ⟨-, hc⟩ | hc⟩ := statConstraint_some hc
  · obtain ⟨t, ht, -⟩ := Option.map_eq_some_iff.mp hc
    obtain ⟨hop, -⟩ := ite_none_right_eq_some.mp ht
    exact hops attrNo _ op hop
  · obtain ⟨t, ht, -⟩ := map_eq_some_iff.mp hc
    unfold buildConstraintsWithNullConst makeOpExpression at ht
    split_ifs at ht with hle hge
    exact hops attrNo _ op hle

theorem statConstraint_not_false (hops : table.HasOperatorClasses)
    (he : Encloses columns table file) (hattrNo : attrNo ∈ columns)
    (hsc : (table.column attrNo).kind = .scalar) {id : ℤ}
    (hf : table.field attrNo = some id) (hst : stat ∈ file.columnStats)
    (hc : statConstraint table (columnMapping table attrNo id) stat = some c) {r : Row V}
    (hr : r ∈ file.rows) : c.eval r ≠ some false := by
  cases hx : r attrNo with
  | none =>
    rw [statConstraint_null hc hx]
    exact nofun
  | some x =>
    obtain ⟨hid, hs, lo, upper, hl, hu, hca⟩ := statConstraint_some hc
    have hbnd : Bounded table file attrNo stat lo upper :=
      ⟨hid ▸ hf, hsc, hs, operator_of_statConstraint hops hc, hst, hl, hu⟩
    obtain ⟨hlo, hhi⟩ := he attrNo hattrNo hbnd r hr hx
    have ht : c.eval r = some true := by
      rcases hca with ⟨heq, hc⟩ | hc
      · exact createConstraintWithEquality_isTrue hc hx (le_antisymm (heq ▸ hhi) hlo)
      · exact createConstraintWithBounds_isTrue hc hx hlo hhi
    rw [ht]
    exact nofun

/-- **Enclosing bounds lose no row.** -/
theorem partialMatch_sound_of_encloses (hops : table.HasOperatorClasses)
    (he : Encloses columns table file) : PartialMatchSound columns table file := by
  intro Clause env henv clauses dfs hco hm r hr _ hi
  refine partialMatch_keeps henv hm hi.clauses fun c hc => ?_
  rcases mem_getColumnBoundConstraints henv.hashOrder_perm hc with
    hc | ⟨-, attrNo, hu, hs, id, hf, stat, hst, hc⟩
  · exact hi.constraints c hc
  · exact statConstraint_not_false hops he (hco _ hu) hs hf hst hc hr

end Kept

/-! ## Files that are skipped -/

section Skipped
variable [LinearOrder V]

def isAbout (attrNo : AttrNumber) : Constraint V → Bool
  | .cmp a _ _ => a = attrNo
  | .and p q => isAbout attrNo p && isAbout attrNo q
  | .isNull a => a = attrNo

variable {attrNo : AttrNumber}

theorem eval_of_isAbout {r r' : Row V} (hs : r attrNo = r' attrNo) :
    ∀ {c : Constraint V}, isAbout attrNo c = true → c.eval r = c.eval r'
  | .cmp a _ _, h | .isNull a, h => by
    obtain rfl : a = attrNo := of_decide_eq_true h
    simp [Pred.eval, hs]
  | .and p q, h => by
    obtain ⟨hp, hq⟩ := (Bool.and_eq_true _ _).mp h
    simp [Pred.eval, eval_of_isAbout hs hp, eval_of_isAbout hs hq]

def refutedByEquality (constraints clauses : List (Constraint V)) : Bool :=
  clauses.any fun
    | .cmp attrNo .eq v =>
      constraints.any fun c => isAbout attrNo c && c.eval (fun _ => some v) = some false
    | _ => false

/-- Clauses are predicates, and files are skipped by their bounds only. -/
def equalityEnv (v : V) : Env V B (Constraint V) where
  enableDataFilePruning := true
  enablePartitionPruning := false
  eval clause row := clause.eval row
  pullVarClause := predColumns
  stripAllImplicitCoercions := id
  predicateImpliedBy _ _ := false
  predicateRefutedBy := refutedByEquality
  extendClausesForBucketPartitioning _ _ _ clauses := clauses
  hashOrder mapping := mapping.entries
  partitionValueToDatum _ _ := v
  partitionRange _ _ := none
  bucketValueDatum _ := v

theorem equalityEnv_refutes (v : V) : (equalityEnv v : Env V B (Constraint V)).Refutes where
  refuted {cons clauses} h row hclauses := by
    obtain ⟨cl, hcl, h⟩ := any_eq_true.mp h
    have ht := hclauses cl hcl
    split at h
    next attrNo v =>
      obtain ⟨c, hc, h⟩ := any_eq_true.mp h
      obtain ⟨ha, hf⟩ := (Bool.and_eq_true _ _).mp h
      obtain ⟨x, hx, heq⟩ := isTrue_cmp.mp ht
      obtain rfl : x = v := of_decide_eq_true heq
      refine ⟨c, hc, (eval_of_isAbout ?_ ha).trans (of_decide_eq_true hf)⟩
      exact hx
    next => exact nomatch h
  strip h := h
  hashOrder_perm _ := .refl _

variable {table : Table V} {file : DataFile V B}

theorem Bounded.exists_constraint {stat : ColumnStats} {lower hi : String}
    (h : Bounded table file attrNo stat lower hi) {v : V}
    (hout : ¬ (table.boundDatum attrNo lower ≤ v ∧ v ≤ table.boundDatum attrNo hi)) :
    ∃ c, statConstraint table (columnMapping table attrNo stat.fieldId) stat = some c ∧
      isAbout attrNo c = true ∧ c.eval (fun _ => some v) = some false := by
  by_cases heq : boundText (table.column attrNo) lower = boundText (table.column attrNo) hi
  · refine ⟨.cmp attrNo .eq (table.boundDatum attrNo lower), ?_, decide_eq_true rfl, ?_⟩
    · simp [statConstraint, h.lower, h.upper, heq, columnMapping, h.supported, makeOpExpression,
        h.operator, createConstraintWithEquality, OpTemplate.fill, Table.boundDatum]
    · have hne : v ≠ table.boundDatum attrNo lower := by
        rintro rfl
        exact hout ⟨le_refl _, by rw [Table.boundDatum, Table.boundDatum, heq]⟩
      simp [Pred.eval, Cmp.holds, hne]
  · refine ⟨.and (.cmp attrNo .le (table.boundDatum attrNo hi))
      (.cmp attrNo .ge (table.boundDatum attrNo lower)), ?_, ?_, ?_⟩
    · simp [statConstraint, h.lower, h.upper, heq, columnMapping, h.supported, makeOpExpression,
        h.operator, buildConstraintsWithNullConst, createConstraintWithBounds, OpTemplate.fill,
        Table.boundDatum]
    · simp [isAbout]
    · rw [not_and_or, not_le, not_le] at hout
      rcases hout with hlo | hhi
      · simp [Pred.eval, Cmp.holds, not_le.mpr hlo]
        cases decide (v ≤ table.boundDatum attrNo hi) <;> rfl
      · simp [Pred.eval, Cmp.holds, not_le.mpr hhi, and3]

theorem Bounded.skipped (hki : table.kind ≠ .other) {stat : ColumnStats}
    {lo hi : String} (h : Bounded table file attrNo stat lo hi) {v : V}
    (hout : ¬ (table.boundDatum attrNo lo ≤ v ∧ v ≤ table.boundDatum attrNo hi))
    (dfs : List (DataFile V B)) :
    file ∉ pruneDataFiles (equalityEnv v) table dfs [.cmp attrNo .eq v] .partialMatch := by
  obtain ⟨c, hc, ha, hf⟩ := h.exists_constraint hout
  have hco : columnsUsedInRestrictions (equalityEnv v : Env V B (Constraint V))
      [.cmp attrNo .eq v] = [attrNo] := rfl
  have hes : (addFieldIdsUsedInQuery table [attrNo]).entries =
      [⟨attrNo, columnMapping table attrNo stat.fieldId⟩] := by
    simp [addFieldIdsUsedInQuery, h.field, addFieldId, h.scalar]
  intro hk
  unfold pruneDataFiles at hk
  simp only [hco] at hk
  split_ifs at hk with hoff hfu he
  · simp [equalityEnv, hki] at hoff
  · exact hfu.1.elim
  · exact he.elim
  · obtain ⟨-, hnot⟩ := mem_filter.mp hk
    have hr : refutedByEquality
        (getColumnBoundConstraints (equalityEnv v) table (addFieldIdsUsedInQuery table [attrNo])
          (getPartitionTransformsUsedInQuery table (addFieldIdsUsedInQuery table [attrNo])) file)
        [.cmp attrNo .eq v] = true := by
      refine any_eq_true.mpr ⟨_, mem_singleton_self _, any_eq_true.mpr ⟨c, ?_, ?_⟩⟩
      · refine mem_flatMap.mpr ⟨⟨attrNo, columnMapping table attrNo stat.fieldId⟩, ?_, ?_⟩
        · show _ ∈ (addFieldIdsUsedInQuery table [attrNo]).entries
          rw [hes]
          exact mem_singleton_self _
        · exact mem_append_left _ (mem_filterMap.mpr ⟨stat, h.mem, hc⟩)
      · simp [ha, hf]
    rw [Bool.not_eq_true'] at hnot
    exact nomatch hnot.symm.trans hr

/-- **The bounds of a file lose no row of a scan exactly if they enclose its values.** -/
theorem partialMatch_sound_iff (hk : table.kind ≠ .other) (hops : table.HasOperatorClasses) :
    PartialMatchSound columns table file ↔ Encloses columns table file := by
  refine ⟨fun h attrNo hattrNo stat lo hi hbnd r hr v hv => ?_,
    partialMatch_sound_of_encloses hops⟩
  by_contra hout
  refine hbnd.skipped hk hout [file] ?_
  refine h _ (equalityEnv v) (equalityEnv_refutes v) _ [file] ?_ (mem_singleton_self _) r hr
    ?_ ⟨nofun, ?_⟩
  · intro a ha
    obtain rfl := mem_singleton.mp ha
    exact hattrNo
  all_goals
    intro cl hcl
    obtain rfl := mem_singleton.mp hcl
    exact isTrue_cmp.mpr ⟨v, hv, decide_eq_true rfl⟩

end Skipped

/-! ## NaN -/

section NaN
variable [LinearOrder V] [OrderTop V] {table : Table V} {file : DataFile V B}

/-- The bounds are those of the values other than NaN, the greatest value. -/
structure NumberBounds (table : Table V) (file : DataFile V B) : Prop where
  encloses : ∀ {attrNo stat lower upper}, Bounded table file attrNo stat lower upper →
    ∀ row ∈ file.rows, ∀ {v}, row attrNo = some v → v ≠ ⊤ →
      table.boundDatum attrNo lower ≤ v ∧ v ≤ table.boundDatum attrNo upper
  number : ∀ {attrNo stat lower upper}, Bounded table file attrNo stat lower upper →
    table.boundDatum attrNo upper ≠ ⊤

/-- NaN, the greatest value, in a column with recorded bounds. -/
def NaNInBoundedColumn (table : Table V) (file : DataFile V B) (row : Row V) : Prop :=
  ∃ attrNo stat lower upper, Bounded table file attrNo stat lower upper ∧ row attrNo = some ⊤

/-- **Bounds that leave out NaN lose no row exactly if no bounded column has NaN.** -/
theorem nan_sound_iff (hkind : table.kind ≠ .other) (hops : table.HasOperatorClasses)
    (hbounds : NumberBounds table file) :
    PartialMatchSound Set.univ table file ↔ ∀ row ∈ file.rows, ¬ NaNInBoundedColumn table file row := by
  rw [partialMatch_sound_iff hkind hops]
  constructor
  · rintro h row hrow ⟨attrNo, stat, lower, upper, hbounded, hnan⟩
    obtain ⟨-, hle⟩ := h attrNo trivial hbounded row hrow hnan
    exact hbounds.number hbounded (top_le_iff.mp hle)
  · intro h attrNo _ stat lower upper hbounded row hrow v hv
    refine hbounds.encloses hbounded row hrow hv ?_
    rintro rfl
    exact h row hrow ⟨attrNo, stat, lower, upper, hbounded, hv⟩

/-- One column of integers and NaN. -/
def floatTable : Table (WithTop ℤ) where
  kind := .internalIceberg
  column _ := ⟨.scalar, false, .invalid, fun _ => true⟩
  field attrNo := if attrNo = 1 then some 1 else none
  partitionTransforms := []
  columnBoundDatum _ text := if text = "1" then (1 : ℤ) else (2 : ℤ)

/-- A file with the bounds 1 and 2. -/
def floatFile (values : List (WithTop ℤ)) : DataFile (WithTop ℤ) Unit :=
  ⟨[⟨1, some "1", some "2"⟩], none, values.map fun v _ => some v⟩

theorem floatFile_numberBounds {vs : List (WithTop ℤ)}
    (h : ∀ n : ℤ, (n : WithTop ℤ) ∈ vs → 1 ≤ n ∧ n ≤ 2) :
    NumberBounds floatTable (floatFile vs) := by
  have hb : ∀ {attrNo stat lo hi},
      Bounded floatTable (floatFile vs) attrNo stat lo hi → lo = "1" ∧ hi = "2" := by
    intro attrNo stat lo hi hbnd
    obtain rfl := mem_singleton.mp hbnd.mem
    exact ⟨(some.inj hbnd.lower).symm, (some.inj hbnd.upper).symm⟩
  refine ⟨fun hbnd r hr v hv hne => ?_, fun hbnd => ?_⟩
  · obtain ⟨rfl, rfl⟩ := hb hbnd
    obtain ⟨v', hv', rfl⟩ := mem_map.mp hr
    cases hv
    obtain ⟨n, rfl⟩ := WithTop.ne_top_iff_exists.mp hne
    obtain ⟨hlow, hh⟩ := h n hv'
    exact ⟨WithTop.coe_le_coe.mpr hlow, WithTop.coe_le_coe.mpr hh⟩
  · obtain ⟨rfl, rfl⟩ := hb hbnd
    exact WithTop.coe_ne_top

theorem nan_sound_iff_numbers :
    PartialMatchSound Set.univ floatTable (floatFile [(1 : ℤ), (2 : ℤ)]) := by
  refine (nan_sound_iff (by decide) (fun _ _ _ _ => rfl)
    (floatFile_numberBounds fun n hn => ?_)).mpr ?_
  · simp only [mem_cons, WithTop.coe_inj, not_mem_nil, or_false] at hn
    omega
  rintro row hrow ⟨attrNo, stat, lower, upper, -, hnan⟩
  obtain ⟨v, hv, rfl⟩ := mem_map.mp hrow
  have hne : ∀ v ∈ ([(1 : ℤ), (2 : ℤ)] : List (WithTop ℤ)), v ≠ ⊤ := by decide
  exact hne v hv (some.inj hnan)

/-- **The values 1, 2 and NaN**: the bounds are those of the numbers, and `c = 'NaN'` skips
    the file. -/
theorem nan_row_is_skipped : NumberBounds floatTable (floatFile [(1 : ℤ), (2 : ℤ), ⊤]) ∧
    (equalityEnv ⊤ : Env (WithTop ℤ) Unit _).Refutes ∧
    (∃ row ∈ (floatFile [(1 : ℤ), (2 : ℤ), ⊤]).rows,
      Matches (equalityEnv ⊤ : Env (WithTop ℤ) Unit _) [.cmp 1 .eq ⊤] row) ∧
    floatFile [(1 : ℤ), (2 : ℤ), ⊤] ∉ pruneDataFiles (equalityEnv ⊤) floatTable
      [floatFile [(1 : ℤ), (2 : ℤ), ⊤]] [.cmp 1 .eq ⊤] .partialMatch := by
  refine ⟨floatFile_numberBounds fun n hn => ?_, equalityEnv_refutes _, ?_, ?_⟩
  · simp only [mem_cons, WithTop.coe_inj, WithTop.coe_ne_top, not_mem_nil, or_false] at hn
    omega
  · refine ⟨_, mem_map.mpr ⟨⊤, by decide, rfl⟩, fun clause hclause => ?_⟩
    obtain rfl := mem_singleton.mp hclause
    rfl
  · have hbounded : Bounded floatTable (floatFile [(1 : ℤ), (2 : ℤ), ⊤]) 1 ⟨1, some "1", some "2"⟩
        "1" "2" := ⟨rfl, rfl, rfl, fun _ => rfl, mem_singleton_self _, rfl, rfl⟩
    exact hbounded.skipped (by decide) (fun h => (top_le_iff.mp h.2).not_lt (WithTop.coe_lt_top _)) _

end NaN

/-! ## Collations -/

/-- A string of bytes, without an order of its own. -/
structure Text where
  bytes : List UInt8
  deriving DecidableEq

def Text.codes (t : Text) : List ℕ := t.bytes.map UInt8.toNat

theorem Text.codes_injective : Function.Injective Text.codes := by
  rintro ⟨bs⟩ ⟨bs'⟩ h
  exact congrArg _ (map_injective_iff.mpr (fun _ _ => UInt8.toNat_inj.mp) h)

/-- The order of the C collation. -/
@[reducible] def Text.bytewise : LinearOrder Text := LinearOrder.lift' _ Text.codes_injective

/-- The order of a collation; that of the default collation is set per database. -/
@[reducible] def collationOrder (default : LinearOrder Text) : Collation → LinearOrder Text
  | .c => Text.bytewise
  | _ => default

def DataFile.values (file : DataFile V B) (attrNo : AttrNumber) : Set V :=
  {v | ∃ row ∈ file.rows, row attrNo = some v}

/-- The bounds are the least and the greatest value of the column. -/
def AreExtrema (order : LinearOrder V) (table : Table V) (file : DataFile V B)
    (attrNo : AttrNumber) : Prop :=
  ∀ {stat lower upper}, Bounded table file attrNo stat lower upper →
    IsLeast (file.values attrNo) (table.boundDatum attrNo lower) ∧
      IsGreatest (file.values attrNo) (table.boundDatum attrNo upper)

/-- **Bytewise bounds of a text column lose no row exactly if they are its least and its
    greatest value in the order of its collation.** -/
theorem collation_sound_iff (default : LinearOrder Text) {table : Table Text}
    {file : DataFile Text B} {attrNo : AttrNumber} (hkind : table.kind ≠ .other)
    (hops : table.HasOperatorClasses) (hbytes : AreExtrema Text.bytewise table file attrNo) :
    @PartialMatchSound Text B (collationOrder default (table.column attrNo).collation) {attrNo} table
        file ↔
      AreExtrema (collationOrder default (table.column attrNo).collation) table file attrNo := by
  let := collationOrder default (table.column attrNo).collation
  rw [partialMatch_sound_iff hkind hops]
  constructor
  · intro h stat lower upper hbounded
    -- in either order the bounds are values of the column
    obtain ⟨⟨hlower, -⟩, hupper, -⟩ := hbytes hbounded
    refine ⟨⟨hlower, ?_⟩, hupper, ?_⟩
    · rintro v ⟨row, hrow, hv⟩
      exact (h attrNo rfl hbounded row hrow hv).1
    · rintro v ⟨row, hrow, hv⟩
      exact (h attrNo rfl hbounded row hrow hv).2
  · rintro h a rfl stat lower upper hbounded row hrow v hv
    obtain ⟨⟨-, hlower⟩, -, hupper⟩ := h hbounded
    exact ⟨hlower ⟨row, hrow, hv⟩, hupper ⟨row, hrow, hv⟩⟩

def lowerCase (code : ℕ) : ℕ := if 65 ≤ code ∧ code ≤ 90 then code + 32 else code

/-- A collation that compares letters first and then their case. -/
@[reducible] def Text.caseOrder : LinearOrder Text :=
  LinearOrder.lift' (fun t => toLex (t.codes.map lowerCase, t.codes)) fun _ _ h =>
    Text.codes_injective (congrArg (fun p => (ofLex p).2) h)

def letter (c : Char) : Text := ⟨[c.toUInt8]⟩

/-- One text column under the default collation. -/
def letterTable : Table Text where
  kind := .internalIceberg
  column _ := ⟨.scalar, false, .default, fun _ => true⟩
  field attrNo := if attrNo = 1 then some 1 else none
  partitionTransforms := []
  columnBoundDatum _ text := ⟨text.toList.map Char.toUInt8⟩

theorem letterTable_boundDatum (attrNo : AttrNumber) (c : Char) :
    letterTable.boundDatum attrNo (String.ofList [c]) = letter c := by
  simp [Table.boundDatum, boundText, letterTable, letter]

/-- A file with two rows, which are its bounds. -/
def letterFile (lower upper : Char) : DataFile Text Unit :=
  ⟨[⟨1, some (String.ofList [lower]), some (String.ofList [upper])⟩], none,
    [fun _ => some (letter lower), fun _ => some (letter upper)]⟩

theorem letterFile_areExtrema {order : LinearOrder Text} {lower up : Char}
    (hle : letter lower ≤ letter up) (attrNo : AttrNumber) :
    AreExtrema order letterTable (letterFile lower up) attrNo := by
  intro stat lo hi hbnd
  obtain rfl := mem_singleton.mp hbnd.mem
  cases hbnd.lower
  cases hbnd.upper
  have hv : (letterFile lower up).values attrNo = {letter lower, letter up} := by
    ext v
    simp [DataFile.values, letterFile, eq_comm]
  rw [letterTable_boundDatum, letterTable_boundDatum, hv]
  simp [IsLeast, IsGreatest, lowerBounds, upperBounds, hle]

theorem collation_sound_iff_same_order :
    @PartialMatchSound Text Unit Text.caseOrder {1} letterTable (letterFile 'a' 'z') :=
  (collation_sound_iff Text.caseOrder (by decide) (fun _ _ _ _ => rfl)
    (letterFile_areExtrema (by decide) 1)).mpr (letterFile_areExtrema (by decide) 1)

/-- **The values `Z` and `a`**, which are the bytewise bounds: where `a` sorts before `Z`,
    `c = 'a'` skips the file. -/
theorem text_row_is_skipped : AreExtrema Text.bytewise letterTable (letterFile 'Z' 'a') 1 ∧
    (let order := Text.caseOrder
     (equalityEnv (letter 'a') : Env Text Unit _).Refutes ∧
     (∃ row ∈ (letterFile 'Z' 'a').rows,
       Matches (equalityEnv (letter 'a') : Env Text Unit _) [.cmp 1 .eq (letter 'a')] row) ∧
     letterFile 'Z' 'a' ∉ pruneDataFiles (equalityEnv (letter 'a')) letterTable [letterFile 'Z' 'a']
       [.cmp 1 .eq (letter 'a')] .partialMatch) := by
  refine ⟨letterFile_areExtrema (by decide) 1, ?_⟩
  intro order
  refine ⟨equalityEnv_refutes _, ?_, ?_⟩
  · refine ⟨_, mem_cons_of_mem _ (mem_singleton_self _), fun clause hclause => ?_⟩
    obtain rfl := mem_singleton.mp hclause
    rfl
  · have hbounded : Bounded letterTable (letterFile 'Z' 'a') 1
        ⟨1, some (String.ofList ['Z']), some (String.ofList ['a'])⟩ (String.ofList ['Z'])
        (String.ofList ['a']) := ⟨rfl, rfl, rfl, fun _ => rfl, mem_singleton_self _, rfl, rfl⟩
    have hout : ¬ letter 'Z' ≤ letter 'a' := by decide
    exact hbounded.skipped (by decide) (fun h => hout h.1) _

end PgLake.Fdw.Pruning
