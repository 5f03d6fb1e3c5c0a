/-
  The queue of files to delete (`cleanup/deletion_queue.c`) and the loop of VACUUM over it
  (`VacuumRemoveDeletionQueueRecords` in `ddl/vacuum.c`).

  An iteration reads at most `perLoopLimit` eligible records, in no particular order.  It removes
  the records of files that could be deleted and counts a retry for the others.

  Main result: `queue_drains_iff`.
-/
import Mathlib.Algebra.Order.BigOperators.Group.List
import Mathlib.Algebra.Order.Ring.Nat
import PgLake.Cleanup.InProgressLoop

namespace PgLake.Cleanup.DeletionQueue

open List Option

/-- `PER_LOOP_FILE_CLEANUP_LIMIT`. -/
def perLoopLimit : ℕ := 50

/-- `INT_MAX`, the largest retry count. -/
def int32Max : ℕ := 2 ^ 31 - 1

/-- A row of `deletion_queue`. -/
structure Entry where
  path : Path
  tableName : ℕ
  orphanedAt : Option ℤ
  retryCount : ℕ
  isPrefix : Bool
  deriving DecidableEq

/-- The settings that removal from the queue reads. -/
structure Settings where
  orphanedFileRetentionPeriod : ℤ
  vacuumFileRemoveMaxRetries : ℕ
  maxRetries_le : vacuumFileRemoveMaxRetries ≤ int32Max
  maxFileRemovalsPerVacuum : ℕ

/-- What VACUUM finds: the records of the table, or of dropped tables, and the outcome of
    `DeleteRemoteFile` and `DeleteRemotePrefix`. -/
structure Env where
  belongs : ℕ → Bool
  deletes : Path → Bool → Bool

/-- The rows, whose key is the path, and the time. -/
structure State where
  rows : List Entry
  distinct : (rows.map Entry.path).Nodup
  now : ℤ

variable (c : Settings) (env : Env)

/-- The `WHERE` clause of `GetDeletionQueueRecords`. -/
def isEligible (now : ℤ) (r : Entry) : Bool :=
  r.orphanedAt.all (fun at' => at' + c.orphanedFileRetentionPeriod ≤ now) &&
    env.belongs r.tableName && r.retryCount ≤ c.vacuumFileRemoveMaxRetries

def Entry.succeeds (r : Entry) : Bool := env.deletes r.path r.isPrefix

/-- `RemoveDeletionQueuePathsFromCatalog` and `IncrementDeletionQueueRetryCount`, for one row. -/
def updateRow (deletedFilePathList failedFilePathList : List Path) (r : Entry) : Option Entry :=
  if r.path ∈ deletedFilePathList then none
  else if r.path ∈ failedFilePathList then some { r with retryCount := r.retryCount + 1 }
  else some r

def deletedPaths (records : List Entry) : List Path :=
  (records.filter (Entry.succeeds env)).map Entry.path

def failedPaths (records : List Entry) : List Path :=
  (records.filter fun r => !r.succeeds env).map Entry.path

/-- `RemoveDeletionQueueRecords`: the rows and whether a file was removed; `none` is the error
    of a count that is out of range. -/
def removeDeletionQueueRecords (rows records : List Entry) : Option (List Entry × Bool) :=
  if ∃ r ∈ rows, r.path ∈ failedPaths env records ∧ r.retryCount = int32Max then none
  else some (rows.filterMap (updateRow (deletedPaths env records) (failedPaths env records)),
    !(deletedPaths env records).isEmpty)

/-- The body of the loop; after an error the changes are rolled back. -/
def iterate (rows records : List Entry) : List Entry × Bool :=
  (removeDeletionQueueRecords env rows records).getD (rows, false)

/-- An iteration that reads these records, at the time of the new state. -/
structure Iterates (s : State) (records : List Entry) (s' : State) : Prop where
  later : s.now ≤ s'.now
  fetches : Fetches perLoopLimit (s.rows.filter (isEligible c env s'.now)) records
  rows : s'.rows = (iterate env s.rows records).1

def GoesOn (totalFilesRemoved : ℕ) (s : State) (records : List Entry) : Prop :=
  totalFilesRemoved + records.length < c.maxFileRemovalsPerVacuum ∧
    (iterate env s.rows records).2 = true ∧ 0 < records.length

/-- One VACUUM, which has read `totalFilesRemoved` records so far. -/
inductive Run : ℕ → State → State → Prop
  | stop {total s s' records} (h : Iterates c env s records s')
    (hstop : ¬GoesOn c env total s records) : Run total s s'
  | loop {total s s₁ s' records} (h : Iterates c env s records s₁)
    (hgo : GoesOn c env total s records) (hrest : Run (total + records.length) s₁ s') :
    Run total s s'

/-- No run of the loop goes on for ever. -/
def RunsEnd (s : State) : Prop :=
  ¬∃ (states : ℕ → State) (records : ℕ → List Entry) (total : ℕ → ℕ), states 0 = s ∧
    ∀ n, Iterates c env (states n) (records n) (states (n + 1)) ∧
      GoesOn c env (total n) (states n) (records n)

def State.paths (s : State) : List Path := s.rows.map Entry.path

/-- The records that are eligible in `s` and whose files can be deleted are not in `s'`. -/
def Drained (s s' : State) : Prop :=
  ∀ r ∈ s.rows, isEligible c env s.now r = true → r.succeeds env = true → r.path ∉ s'.paths

/-- Repeated runs leave the queue drained from some run on. -/
def Drains (s : State) : Prop :=
  ∀ states : ℕ → State, states 0 = s → (∀ n, Run c env 0 (states n) (states (n + 1))) →
    ∃ n, ∀ m, n ≤ m → Drained c env s (states m)

/-! ## One iteration -/

variable {c env}

theorem State.eq_of_path (s : State) {r r' : Entry} (h : r ∈ s.rows) (h' : r' ∈ s.rows)
    (heq : r.path = r'.path) : r = r' :=
  inj_on_of_nodup_map s.distinct h h' heq

theorem path_of_updateRow {deleted failed : List Path} {r r' : Entry}
    (h : updateRow deleted failed r = some r') : r'.path = r.path := by
  unfold updateRow at h
  split_ifs at h <;> cases h <;> rfl

theorem isEligible_mono {now now' : ℤ} {r : Entry} (hle : now ≤ now')
    (h : isEligible c env now r = true) : isEligible c env now' r = true := by
  unfold isEligible at h ⊢
  simp only [Bool.and_eq_true] at h ⊢
  refine ⟨⟨?_, h.1.2⟩, h.2⟩
  cases hat : r.orphanedAt with
  | none => rfl
  | some at' =>
    have hdue : at' + c.orphanedFileRetentionPeriod ≤ now := by simpa [hat] using h.1.1
    simpa using hdue.trans hle

/-- What is kept of the records of `s` whose files can be deleted. -/
structure Later (env : Env) (s s' : State) : Prop where
  now_le : s.now ≤ s'.now
  paths : s'.paths ⊆ s.paths
  same : ∀ r ∈ s.rows, r.succeeds env = true → r.path ∈ s'.paths → r ∈ s'.rows

theorem Later.trans {s s₁ s' : State} (h : Later env s s₁) (h' : Later env s₁ s') :
    Later env s s' where
  now_le := h.now_le.trans h'.now_le
  paths := List.Subset.trans h'.paths h.paths
  same r hr hs hp := h'.same r (h.same r hr hs (h'.paths hp)) hs hp

variable {s s' : State} {records : List Entry}

section

variable (h : Iterates c env s records s')

include h

theorem Iterates.mem_rows
    {r : Entry} (hr : r ∈ records) : r ∈ s.rows ∧ isEligible c env s'.now r = true :=
  mem_filter.mp (h.fetches.1.subset hr)

theorem Iterates.rows_cases : s'.rows = s.rows ∨ s'.rows =
      s.rows.filterMap (updateRow (deletedPaths env records) (failedPaths env records)) := by
  rw [h.rows, iterate, removeDeletionQueueRecords]
  split_ifs
  · exact .inl rfl
  · exact .inr rfl

theorem Iterates.isLater : Later env s s' := by
  rcases h.rows_cases with hrs | hrs
  · have hpa : s'.paths = s.paths := congrArg (List.map Entry.path) hrs
    exact ⟨h.later, hpa ▸ List.Subset.refl _, fun r hr _ _ => hrs ▸ hr⟩
  · have hb : ∀ r' ∈ s'.rows, ∃ r ∈ s.rows, updateRow (deletedPaths env records)
        (failedPaths env records) r = some r' := by
      intro r' hr'
      rw [hrs] at hr'
      exact mem_filterMap.mp hr'
    refine ⟨h.later, ?_, ?_⟩
    · intro p hp
      obtain ⟨r', hr', rfl⟩ := mem_map.mp hp
      obtain ⟨r, hr, hu⟩ := hb r' hr'
      exact path_of_updateRow hu ▸ mem_map_of_mem hr
    · intro r hr hsu hp
      obtain ⟨r', hr', hr'path⟩ := mem_map.mp hp
      obtain ⟨r₀, hr₀, hu⟩ := hb r' hr'
      obtain rfl := s.eq_of_path hr₀ hr ((path_of_updateRow hu).symm.trans hr'path)
      -- the deletion of its file does not fail, so no retry was counted
      have hf : r₀.path ∉ failedPaths env records := by
        intro hm
        obtain ⟨r₁, hr₁, hs⟩ := mem_map.mp hm
        obtain ⟨hr₁, hfails⟩ := mem_filter.mp hr₁
        rw [s.eq_of_path (h.mem_rows hr₁).1 hr₀ hs, hsu] at hfails
        cases hfails
      unfold updateRow at hu
      split_ifs at hu
      cases hu
      exact hr'

end

theorem Iterates.drained (h : Iterates c env s [] s') : Drained c env s s' := by
  intro r hr he hs hp
  have hlen := h.fetches.2
  have hm : r ∈ s.rows.filter (isEligible c env s'.now) :=
    mem_filter.mpr ⟨hr, isEligible_mono h.later he⟩
  have hpos := length_pos_of_mem hm
  rw [length_nil, perLoopLimit] at hlen
  omega

/-! ## The weight of the queue -/

def weight (c : Settings) (s : State) : ℕ :=
  (s.rows.map fun r => c.vacuumFileRemoveMaxRetries + 1 - r.retryCount).sum

theorem sum_map_filterMap {α : Type*} (g : α → Option α) (w : α → ℕ) (l : List α) :
    ((l.filterMap g).map w).sum = (l.map fun a => ((g a).map w).getD 0).sum := by
  induction l with
  | nil => rfl
  | cons a l ih => cases hg : g a <;> simp [hg, ih]

/-- **An iteration that reads a record brings the weight down**, if the count does not overflow. -/
theorem Iterates.weight_lt (hmax : c.vacuumFileRemoveMaxRetries < int32Max)
    (h : Iterates c env s records s') (hne : records ≠ []) :
    weight c s' < weight c s := by
  have hre : ∀ r ∈ records, r.retryCount ≤ c.vacuumFileRemoveMaxRetries := by
    intro r hr
    have he := (h.mem_rows hr).2
    simp only [isEligible, Bool.and_eq_true, decide_eq_true_eq] at he
    exact he.2
  have hra : ¬∃ r ∈ s.rows, r.path ∈ failedPaths env records ∧ r.retryCount = int32Max := by
    rintro ⟨r, hr, hf, hc⟩
    obtain ⟨r', hr', hp⟩ := mem_map.mp hf
    have hr' := mem_of_mem_filter hr'
    obtain rfl := s.eq_of_path (h.mem_rows hr').1 hr hp
    exact absurd (hre r' hr') (by omega)
  have hrs : s'.rows =
      s.rows.filterMap (updateRow (deletedPaths env records) (failedPaths env records)) := by
    rw [h.rows, iterate, removeDeletionQueueRecords, if_neg hra]
    rfl
  obtain ⟨r, hr⟩ := exists_mem_of_ne_nil records hne
  rw [weight, hrs, sum_map_filterMap]
  refine sum_lt_sum _ _ ?_ ⟨r, (h.mem_rows hr).1, ?_⟩
  · intro r' _
    unfold updateRow
    split_ifs <;> simp only [map_none, map_some, getD_none, getD_some] <;>
      omega
  · have hl := hre r hr
    unfold updateRow
    cases hs : r.succeeds env with
    | true =>
      have hm : r.path ∈ deletedPaths env records :=
        mem_map_of_mem (mem_filter.mpr ⟨hr, hs⟩)
      rw [if_pos hm]
      simp only [map_none, getD_none]
      omega
    | false =>
      have hm : r.path ∈ failedPaths env records :=
        mem_map_of_mem (mem_filter.mpr ⟨hr, by rw [hs]; rfl⟩)
      split_ifs <;> simp only [map_none, map_some, getD_none, getD_some] <;> omega

/-! ## Runs -/

theorem Run.isLater {total : ℕ} (h : Run c env total s s') : Later env s s' := by
  induction h with
  | stop h _ => exact h.isLater
  | loop h _ _ ih => exact h.isLater.trans ih

theorem Drained.of_later {s s₁ s' : State} (h : Later env s s₁) (h' : Later env s₁ s')
    (hd : Drained c env s₁ s') : Drained c env s s' := by
  intro r hr he hs hp
  exact hd r (h.same r hr hs (h'.paths hp)) (isEligible_mono h.now_le he)
    hs hp

theorem Run.progress (hmax : c.vacuumFileRemoveMaxRetries < int32Max) {total : ℕ}
    (h : Run c env total s s') : weight c s' < weight c s ∨ Drained c env s s' := by
  induction h with
  | @stop _ _ _ records h _ =>
    by_cases hnil : records = []
    · subst hnil
      exact .inr h.drained
    · exact .inl (h.weight_lt hmax hnil)
  | loop h hgo hr ih =>
    have hlt := h.weight_lt hmax (ne_nil_of_length_pos hgo.2.2)
    rcases ih with hrun | hd
    · exact .inl (hrun.trans hlt)
    · exact .inr (hd.of_later h.isLater hr.isLater)

theorem drains_of_lt (hmax : c.vacuumFileRemoveMaxRetries < int32Max) (s : State) :
    Drains c env s := by
  rintro states rfl hru
  have hl : ∀ n k, Later env (states n) (states (n + k)) := by
    intro n k
    induction k with
    | zero => exact ⟨le_rfl, List.Subset.refl _, fun _ hr _ _ => hr⟩
    | succ k ih => exact ih.trans (hru (n + k)).isLater
  -- as long as nothing is drained, every run costs weight
  have hcost : ∀ n, (∃ k ≤ n, Drained c env (states 0) (states k)) ∨
      weight c (states n) + n ≤ weight c (states 0) := by
    intro n
    induction n with
    | zero => exact .inr le_rfl
    | succ n ih =>
      rcases ih with ⟨k, hk, hd⟩ | hle
      · exact .inl ⟨k, by omega, hd⟩
      · rcases (hru n).progress hmax with hlt | hd
        · exact .inr (by omega)
        · have hs := hl 0 n
          rw [zero_add] at hs
          exact .inl ⟨n + 1, le_rfl, hd.of_later hs (hru n).isLater⟩
  rcases hcost (weight c (states 0) + 1) with ⟨k, -, hd⟩ | hle
  · refine ⟨k, ?_⟩
    intro m hm r hr he hsu hp
    obtain ⟨d, rfl⟩ := Nat.exists_eq_add_of_le hm
    exact hd r hr he hsu ((hl k d).paths hp)
  · omega

theorem Iterates.length_lt {total : ℕ}
    (h : Iterates c env s records s') (hgo : GoesOn c env total s records) :
    s'.rows.length < s.rows.length := by
  have hs := hgo.2.1
  have hrs := h.rows
  unfold iterate removeDeletionQueueRecords at hs hrs
  split_ifs at hs hrs with hra
  · cases hs
  · have hne : deletedPaths env records ≠ [] := by simpa using hs
    obtain ⟨p, hp⟩ := exists_mem_of_ne_nil _ hne
    obtain ⟨r, hr, rfl⟩ := mem_map.mp hp
    have hrow := (h.mem_rows (mem_of_mem_filter hr)).1
    obtain ⟨before, after, hsp⟩ := append_of_mem hrow
    have hg : updateRow (deletedPaths env records) (failedPaths env records) r = none :=
      if_pos hp
    have hb := length_filterMap_le
      (updateRow (deletedPaths env records) (failedPaths env records)) before
    have ha := length_filterMap_le
      (updateRow (deletedPaths env records) (failedPaths env records)) after
    rw [hrs, getD_some, hsp, filterMap_append, filterMap_cons_none hg,
      length_append, length_append, length_cons]
    omega

theorem runsEnd (s : State) : RunsEnd c env s := by
  rintro ⟨states, records, total, rfl, hs⟩
  have hrs : ∀ n, (states n).rows.length + n ≤ (states 0).rows.length := by
    intro n
    induction n with
    | zero => exact le_rfl
    | succ n =>
      have hlt := (hs n).1.length_lt (hs n).2
      omega
  have hl := hrs ((states 0).rows.length + 1)
  omega

/-! ## The count of retries -/

/-- A file that can be deleted, behind one with the largest count. -/
def fullCount : State where
  rows := [⟨['a'], 1, none, int32Max, false⟩, ⟨['b'], 1, none, 0, false⟩]
  distinct := by decide
  now := 0

/-- A storage that removes only the second file. -/
def secondDeletes : Env := ⟨fun _ => true, fun path _ => path = ['b']⟩

theorem run_fullCount (hmax : c.vacuumFileRemoveMaxRetries = int32Max) :
    Run c secondDeletes 0 fullCount fullCount := by
  have hall : fullCount.rows.filter (isEligible c secondDeletes fullCount.now) = fullCount.rows := by
    refine filter_eq_self.mpr ?_
    intro r hr
    simp only [fullCount, mem_cons, not_mem_nil, or_false] at hr
    obtain rfl | rfl := hr <;> simp [isEligible, secondDeletes, hmax]
  have hrolled : iterate secondDeletes fullCount.rows fullCount.rows = (fullCount.rows, false) := by
    decide +kernel
  refine .stop ⟨le_rfl, ?_, by rw [hrolled]⟩ ?_
  · rw [hall]
    exact ⟨List.Subperm.refl _, rfl⟩
  · rintro ⟨-, hs, -⟩
    cases hs

theorem not_drains_fullCount (hmax : c.vacuumFileRemoveMaxRetries = int32Max) :
    ¬Drains c secondDeletes fullCount := by
  intro h
  obtain ⟨n, hd⟩ := h (fun _ => fullCount) rfl fun _ => run_fullCount hmax
  refine hd n le_rfl ⟨['b'], 1, none, 0, false⟩ ?_ ?_ rfl ?_
  · exact mem_cons_of_mem _ mem_cons_self
  · simp [isEligible, secondDeletes]
  · exact mem_cons_of_mem _ mem_cons_self

/-- **Every file that can be deleted is deleted after finitely many runs, each of which ends,
    exactly if the limit of retries is below the largest `int4`.** -/
theorem queue_drains_iff (c : Settings) :
    (∀ (env : Env) (s : State), RunsEnd c env s ∧ Drains c env s) ↔
      c.vacuumFileRemoveMaxRetries < int32Max := by
  constructor
  · intro h
    refine lt_of_le_of_ne c.maxRetries_le ?_
    intro hmax
    exact not_drains_fullCount hmax (h secondDeletes fullCount).2
  · intro hmax env s
    exact ⟨runsEnd s, drains_of_lt hmax s⟩

theorem full_count_blocks_the_queue :
    ∃ c : Settings, c.vacuumFileRemoveMaxRetries = int32Max ∧ c.maxFileRemovalsPerVacuum = 100000 ∧
      Run c secondDeletes 0 fullCount fullCount ∧ ¬Drains c secondDeletes fullCount :=
  ⟨⟨864000, int32Max, le_rfl, 100000⟩, rfl, rfl, run_fullCount rfl, not_drains_fullCount rfl⟩

end PgLake.Cleanup.DeletionQueue
