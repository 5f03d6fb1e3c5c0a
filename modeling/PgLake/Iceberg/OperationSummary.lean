/-
  The operation in a snapshot's summary (`metadata_operations.c`): the loop over the operations
  of a commit computes a join.

  Main result: `snapshotOperationSummary_join`, the summary is the join of the summaries of the
  single operations, so that neither their order nor repetitions matter.
-/
import PgLake.Iceberg.SnapshotBuilder

namespace PgLake.Iceberg

open MetadataOperation

/-- `SnapshotOperation`. -/
inductive SnapshotOperation where
  | invalid
  | append
  | replace
  | overwrite
  | delete
  deriving DecidableEq

open SnapshotOperation

variable {P : Type} {op : MetadataOperation P} {ops : List (MetadataOperation P)}
  {current own : SnapshotOperation}

/-- The branches of the loop that go to `summary`. -/
def towards (summary currentSummary : SnapshotOperation) : SnapshotOperation :=
  if currentSummary = invalid ∨ currentSummary = summary then summary else overwrite

/-- `invalid` is least, `overwrite` greatest, and the others are incomparable. -/
instance : SemilatticeSup SnapshotOperation where
  le a b := a = invalid ∨ b = overwrite ∨ a = b
  le_refl _ := .inr (.inr rfl)
  le_trans := by grind
  le_antisymm := by grind
  sup a b := if b = invalid then a else towards b a
  le_sup_left := by grind [towards]
  le_sup_right := by grind [towards]
  sup_le := by grind [towards]

instance : OrderBot SnapshotOperation where
  bot := invalid
  bot_le _ := .inl rfl

/-- `SnapshotOperationSummary`, one operation. -/
def summarize (currentSummary : SnapshotOperation) :
    MetadataOperation P → Except CommitError SnapshotOperation
  | .add _ .data .. => .ok (towards append currentSummary)
  | .add _ .positionDeletes .. | removeAll | remove _ => .ok (towards delete currentSummary)
  | .add _ content .. => .error (.unsupportedContent content)
  | mergeManifests | expireOldSnapshots => .ok (towards replace currentSummary)
  | tableDdl | tablePartitionBy => .ok overwrite
  | updateDeletedRowCount | addDeleteMapping | addRowIdMapping | dropTable | tableCreate =>
    .ok currentSummary

/-- `SnapshotOperationSummary`: the loop over the operations. -/
def snapshotOperationSummary (metadataOperations : List (MetadataOperation P)) :
    Except CommitError SnapshotOperation :=
  metadataOperations.foldlM summarize invalid

/-- The summary that an operation has by itself. -/
def MetadataOperation.ownSummary : MetadataOperation P → Except CommitError SnapshotOperation
  | .add _ .data .. => .ok append
  | .add _ .positionDeletes .. | removeAll | remove _ => .ok delete
  | .add _ .equalityDeletes .. => .error (.unsupportedContent .equalityDeletes)
  | mergeManifests | expireOldSnapshots => .ok replace
  | tableDdl | tablePartitionBy => .ok overwrite
  | updateDeletedRowCount | addDeleteMapping | addRowIdMapping | dropTable | tableCreate =>
    .ok invalid

/-- The operation adds a file with rows. -/
def MetadataOperation.addsDataFile : MetadataOperation P → Bool
  | .add _ .data .. => true
  | _ => false

/-- "these do not affect the Iceberg metadata" -/
def MetadataOperation.unsummarized : MetadataOperation P → Bool
  | updateDeletedRowCount | addDeleteMapping | addRowIdMapping | dropTable | tableCreate => true
  | _ => false

theorem snapshotOperationSummary_singleton (op : MetadataOperation P) :
    snapshotOperationSummary [op] = op.ownSummary := by
  rcases op with ⟨_, ⟨⟩⟩ | _
  all_goals rfl

/-- An operation joins its own summary to the current one. -/
theorem summarize_eq_sup : summarize current op = (summarize invalid op).map (current ⊔ ·) := by
  rcases op with ⟨_, ⟨⟩⟩ | _
  all_goals cases current <;> rfl

theorem foldlM_summarize (current) : ops.foldlM summarize current =
    (ops.mapM (summarize invalid)).map fun owns => current ⊔ owns.foldr (· ⊔ ·) ⊥ := by
  induction ops generalizing current with
  | nil => simp [pure, Except.pure, Except.map]
  | cons op ops ih =>
    rw [List.foldlM_cons, summarize_eq_sup, List.mapM_cons]
    rcases summarize invalid op with _ | _
    · rfl
    · refine (ih _).trans ?_
      cases ops.mapM (summarize invalid) <;>
        simp [bind, Except.bind, pure, Except.pure, Except.map, sup_assoc]

/-- The result is the least bound of the operations' own summaries. -/
theorem foldlM_summarize_ok {summary : SnapshotOperation} :
    ops.foldlM summarize current = .ok summary ↔ ∀ bound, summary ≤ bound ↔
        current ≤ bound ∧ ∀ op ∈ ops, ∃ own ≤ bound, summarize invalid op = .ok own := by
  induction ops generalizing current with
  | nil =>
    simp only [List.foldlM_nil, List.not_mem_nil, false_imp_iff, implies_true, and_true]
    constructor
    · intro h bound
      cases h
      rfl
    · intro h
      exact congrArg _ (eq_of_forall_ge_iff h).symm
  | cons op ops ih =>
    rw [List.foldlM_cons, summarize_eq_sup]
    rcases hown : summarize invalid op with _ | _
    · -- the greatest bound sees an error
      refine ⟨nofun, fun h => ?_⟩
      obtain ⟨_, _, h⟩ := ((h overwrite).1 (.inr (.inl rfl))).2 op (by simp)
      simp [hown] at h
    · exact ih.trans (by simp [hown, and_assoc])

theorem foldlM_summarize_error {error} (h : ops.foldlM summarize current = .error error) :
    error = .unsupportedContent .equalityDeletes := by
  induction ops generalizing current with
  | nil => cases h
  | cons op _ ih =>
    rcases op with ⟨_, ⟨⟩⟩ | _
    case add.equalityDeletes =>
      cases h
      rfl
    all_goals exact ih h

theorem own_le_append (hown : summarize invalid op = .ok own) (hle : own ≤ append) :
    op.addsDataFile ∨ op.unsummarized ∧ own = invalid := by
  rcases op with ⟨_, ⟨⟩⟩ | _ <;> cases hown
  all_goals first | exact .inl rfl | exact .inr ⟨rfl, rfl⟩ | rcases hle with h | h | h <;> cases h

/-- **The summary of a commit is the join of the summaries of its operations.** -/
theorem snapshotOperationSummary_join (ops : List (MetadataOperation P)) :
    snapshotOperationSummary ops =
      (ops.mapM fun op => snapshotOperationSummary [op]).map (List.foldr (· ⊔ ·) ⊥) ∧
    (∀ ops' : List (MetadataOperation P), (∀ op, op ∈ ops ↔ op ∈ ops') →
      snapshotOperationSummary ops = snapshotOperationSummary ops') ∧
    (snapshotOperationSummary ops = .ok append →
      (∃ op ∈ ops, op.addsDataFile) ∧ ∀ op ∈ ops, op.addsDataFile ∨ op.unsummarized) ∧
    ∀ op : MetadataOperation P, snapshotOperationSummary [op] = op.ownSummary := by
  refine ⟨?_, fun ops' hsame => ?_, fun happend => ?_, snapshotOperationSummary_singleton⟩
  · exact (foldlM_summarize ⊥).trans (by simp [snapshotOperationSummary])
  · have hok s : snapshotOperationSummary ops = .ok s ↔ snapshotOperationSummary ops' = .ok s := by
      simp only [snapshotOperationSummary, foldlM_summarize_ok, hsame]
    rcases h : snapshotOperationSummary ops with _ | _
    · rcases h' : snapshotOperationSummary ops' with _ | _
      · rw [foldlM_summarize_error h, foldlM_summarize_error h']
      · exact h.symm.trans ((hok _).2 h')
    · exact ((hok _).1 h).symm
  · have hbound := foldlM_summarize_ok.1 happend
    have hown op (hmem : op ∈ ops) : op.addsDataFile ∨
        op.unsummarized ∧ ∃ own ≤ invalid, summarize invalid op = .ok own := by
      obtain ⟨own, hle, hown⟩ := ((hbound append).1 le_rfl).2 op hmem
      exact (own_le_append hown hle).imp_right (And.imp_right fun h => ⟨own, h.le, hown⟩)
    refine ⟨?_, fun op hmem => (hown op hmem).imp_right And.left⟩
    -- without a data file `invalid` is a bound as well
    by_contra! hnone
    have hle := (hbound invalid).2 ⟨le_rfl, fun op hmem =>
      ((hown op hmem).resolve_left (by simp [hnone op hmem])).2⟩
    rcases hle with h | h | h <;> cases h

theorem summary_of_append : snapshotOperationSummary [.add "f" .data () 1 0, tableCreate] =
      snapshotOperationSummary [tableCreate, .add "f" .data () 1 0, tableCreate] ∧
    ∃ op ∈ [.add "f" .data () 1 0, tableCreate], op.addsDataFile :=
  have h := snapshotOperationSummary_join [.add "f" .data () 1 0, tableCreate]
  ⟨h.2.1 _ (by simp [or_comm]), (h.2.2.1 rfl).1⟩

end PgLake.Iceberg
