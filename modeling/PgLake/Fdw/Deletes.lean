/-
  Row-level deletes (`fdw/pg_lake_table.c`, `writable_table.c`).

  The scan hands the ctid of every row to delete to `postgresExecForeignDelete`. A ctid packs
  the index of a file of the scan and a row number in it.  Each file keeps a CSV file of the
  rows to delete and counts them.  At the end of the statement `ApplyDeleteFile` decides for
  every file whether it is removed, rewritten without the deleted rows, or given a position
  delete file.

  Main result: `delete_exact_iff`.
-/
import Mathlib.Data.Finset.Card
import PgLake.Lib.Fallible

namespace PgLake.Fdw

open Finset

/-- A data file of the table with the positions that are already deleted; the
    catalog records their number. -/
structure DataFile where
  rowCount : ℕ
  deleted : Finset ℕ
  deleted_subset : deleted ⊆ range rowCount

/-- `deletedRowCount` of the catalog. -/
def DataFile.deletedRowCount (f : DataFile) : ℕ := f.deleted.card

/-- The positions that are not deleted. -/
def DataFile.live (f : DataFile) : Finset ℕ := range f.rowCount \ f.deleted

/-- `PgLakeFileScan` of the result relation. -/
structure FileScan where
  file : DataFile
  allRowsMatch : Bool

/-- `PgLakeFileModifyState`; `deleteDest` holds the records of the CSV file. -/
structure FileModifyState where
  sourceRowCount : ℕ
  liveRowCount : ℕ
  modifiedRowCount : ℕ
  deleteDest : Option (List ℕ)
  deriving DecidableEq

/-- The loop body of `create_foreign_modify`: files of a simple DELETE whose
    rows all match are not scanned and deleted as a whole. -/
def createFileModifyState (skipFullMatchFiles : Bool) (scan : FileScan) : FileModifyState :=
  let liveRowCount := scan.file.rowCount - scan.file.deletedRowCount
  if scan.allRowsMatch && skipFullMatchFiles then
    ⟨scan.file.rowCount, liveRowCount, liveRowCount, none⟩
  else
    ⟨scan.file.rowCount, liveRowCount, 0, some []⟩

def writeDeleteRecord (state : FileModifyState) (fileRowNumber : ℕ) : FileModifyState :=
  match state.deleteDest with
  | none => state
  | some records =>
    let modifiedRowCount := state.modifiedRowCount + 1
    { state with
      modifiedRowCount := modifiedRowCount
      deleteDest :=
        -- all rows are deleted, the delete file is not needed
        if modifiedRowCount = state.liveRowCount then none
        else some (records ++ [fileRowNumber]) }

/-- `ExtractFileIndexFromItemPointer`. -/
def extractFileIndex (ctid fileRowNumberBits : ℕ) : ℕ := ctid >>> fileRowNumberBits

/-- `ExtractFileRowNumberFromItemPointer`. -/
def extractFileRowNumber (ctid fileRowNumberBits : ℕ) : ℕ :=
  ctid &&& (1 <<< fileRowNumberBits - 1)

def deleteSingleRow (fileRowNumberBits : ℕ) (states : List FileModifyState) (ctid : ℕ) :
    Except String (List FileModifyState) :=
  let fileIndex := extractFileIndex ctid fileRowNumberBits
  if fileIndex ≥ states.length then .error s!"invalid file index {fileIndex}"
  else .ok (states.modify fileIndex
    fun state => writeDeleteRecord state (extractFileRowNumber ctid fileRowNumberBits))

/-- The settings `ApplyDeleteFile` reads. -/
structure DeleteSettings where
  copyOnWriteThreshold : ℤ
  copyOnWriteMaxDeleteRows : ℤ
  hasRowIds : Bool

inductive DeleteOutcome where
  | untouched
  | removeDataFile
  /-- the file is replaced by one without the rows of the delete file -/
  | copyOnWrite (newRowCount : ℕ)
  /-- a position delete file is added and the deleted row count updated -/
  | positionDelete (positionDeletedRows deletedRowCount : ℕ)
  deriving DecidableEq

/-- Without rows, the division by zero gives NaN or infinity. -/
def shouldRewriteAfterDeletions (copyOnWriteThreshold : ℤ)
    (sourceRowCount totalDeletedRowCount : ℕ) : Bool :=
  if sourceRowCount = 0 then 0 < totalDeletedRowCount
  else copyOnWriteThreshold * sourceRowCount ≤ 100 * totalDeletedRowCount

variable (cfg : DeleteSettings)

/-- Whether `ApplyDeleteFile` chooses copy-on-write. -/
def choosesCopyOnWrite (sourceRowCount totalDeletedRowCount : ℕ)
    (totalPositionDeletedRows : ℤ) : Bool :=
  let exceedsRowLimit := decide (cfg.copyOnWriteMaxDeleteRows ≥ 0) &&
    decide (totalPositionDeletedRows ≥ cfg.copyOnWriteMaxDeleteRows)
  (shouldRewriteAfterDeletions cfg.copyOnWriteThreshold sourceRowCount totalDeletedRowCount ||
    exceedsRowLimit) && !cfg.hasRowIds

/-- `ApplyDeleteFile`: what it does and the new value of the counter of
    position-deleted rows.  `PerformDeleteFromParquet` anti-joins the live rows
    with the delete file, so the new file has one row for each position that is
    not in it. -/
def applyDeleteFile (file : DataFile)
    (sourceRowCount liveRowCount : ℕ) (deleteFile : Option (List ℕ)) (deletedRowCount : ℕ)
    (totalPositionDeletedRows : ℤ) : Except String (DeleteOutcome × ℤ) :=
  if deletedRowCount = 0 then .ok (.untouched, totalPositionDeletedRows)
  else if deletedRowCount = liveRowCount then .ok (.removeDataFile, totalPositionDeletedRows)
  else if deletedRowCount < liveRowCount then
    let totalDeletedRowCount := deletedRowCount + sourceRowCount - liveRowCount
    if choosesCopyOnWrite cfg sourceRowCount totalDeletedRowCount
        totalPositionDeletedRows then
      .ok (.copyOnWrite (file.live \ (deleteFile.getD []).toFinset).card,
        totalPositionDeletedRows)
    else
      .ok (.positionDelete deletedRowCount totalDeletedRowCount,
        totalPositionDeletedRows + deletedRowCount)
  else
    .error s!"deleted row count {deletedRowCount} exceeds live row count {liveRowCount}"

/-- `FinishForeignModify` and the loop of `ApplyDataFileModifications`: for every
    file, the counter its call starts from and the outcome. -/
def applyDataFileModifications (cfg : DeleteSettings) :
    ℤ → List (DataFile × FileModifyState) → Except String (List (ℤ × DeleteOutcome))
  | _, [] => .ok []
  | total, (file, state) :: rest => do
    let (outcome, total') ← applyDeleteFile cfg file state.sourceRowCount
      state.liveRowCount state.deleteDest state.modifiedRowCount total
    let outcomes ← applyDataFileModifications cfg total' rest
    .ok ((total, outcome) :: outcomes)

/-- One DELETE statement over the files of a scan.  The counter starts from the
    deleted rows of the whole table, unless the row limit is disabled. -/
def execForeignDelete (tableDeletedRows : ℕ)
    (skipFullMatchFiles : Bool) (fileRowNumberBits : ℕ) (scans : List FileScan)
    (ctids : List ℕ) : Except String (List (ℤ × DeleteOutcome)) := do
  let states ← ctids.foldlM (deleteSingleRow fileRowNumberBits)
    (scans.map (createFileModifyState skipFullMatchFiles))
  let total : ℤ := if cfg.copyOnWriteMaxDeleteRows ≥ 0 then tableDeletedRows else 0
  applyDataFileModifications cfg total ((scans.map FileScan.file).zip states)

/-! ## One file -/

/-- The row numbers of file `i` in a sequence of ctids, in order. -/
def positionsOf (fileRowNumberBits i : ℕ) (ctids : List ℕ) : List ℕ :=
  (ctids.filter fun ctid => extractFileIndex ctid fileRowNumberBits = i).map
    (extractFileRowNumber · fileRowNumberBits)

variable (f : DataFile)

theorem DataFile.card_live : f.live.card = f.rowCount - f.deletedRowCount := by
  rw [DataFile.live, card_sdiff_of_subset f.deleted_subset, card_range, DataFile.deletedRowCount]

theorem DataFile.deletedRowCount_le : f.deletedRowCount ≤ f.rowCount := by
  simpa [DataFile.deletedRowCount] using card_le_card f.deleted_subset

theorem DataFile.card_live_add : f.live.card + f.deletedRowCount = f.rowCount := by
  have := f.card_live
  have := f.deletedRowCount_le
  omega

variable {state : FileModifyState}

open List

theorem foldl_writeDeleteRecord_none (h : state.deleteDest = none)
    (rs : List ℕ) : rs.foldl writeDeleteRecord state = state := by
  induction rs with
  | nil => rfl
  | cons r rs ih =>
    have hs : writeDeleteRecord state r = state := by simp [writeDeleteRecord, h]
    rw [foldl_cons, hs, ih]

theorem foldl_writeDeleteRecord (src live : ℕ) (rs : List ℕ) : ∀ recs : List ℕ,
    recs.length < live →
    rs.foldl writeDeleteRecord ⟨src, live, recs.length, some recs⟩ =
      if recs.length + rs.length < live then
        ⟨src, live, recs.length + rs.length, some (recs ++ rs)⟩
      else ⟨src, live, live, none⟩ := by
  induction rs with
  | nil =>
    intro recs hlt
    simp [hlt]
  | cons r rs ih =>
    intro recs hlt
    rw [foldl_cons, writeDeleteRecord]
    by_cases hl : recs.length + 1 = live
    · have hd : ¬ recs.length + (r :: rs).length < live := by
        simp only [length_cons]
        omega
      simp only [hl, if_true]
      rw [foldl_writeDeleteRecord_none rfl, if_neg hd]
    · have hmore : (recs ++ [r]).length < live := by
        simp only [length_append, length_singleton]
        omega
      have hrec := ih (recs ++ [r]) hmore
      simp only [length_append, length_singleton, append_assoc,
        singleton_append, Nat.add_assoc] at hrec
      simp [hl, hrec, Nat.add_comm 1]

theorem foldl_createFileModifyState (skip : Bool) (scan : FileScan) {rs : List ℕ}
    (hrs : rs.toFinset ⊆ scan.file.live) :
    rs.foldl writeDeleteRecord (createFileModifyState skip scan) =
      if (scan.allRowsMatch && skip) = true ∨ (0 < rs.length ∧ scan.file.live.card ≤ rs.length)
      then ⟨scan.file.rowCount, scan.file.live.card, scan.file.live.card, none⟩
      else ⟨scan.file.rowCount, scan.file.live.card, rs.length, some rs⟩ := by
  unfold createFileModifyState
  rw [← scan.file.card_live]
  cases hs : scan.allRowsMatch && skip with
  | true => simp [foldl_writeDeleteRecord_none]
  | false =>
    by_cases hpos : 0 < scan.file.live.card
    · have hf := foldl_writeDeleteRecord scan.file.rowCount scan.file.live.card rs [] hpos
      simp only [length_nil, Nat.zero_add, nil_append] at hf
      simp only [Bool.false_eq_true, if_false, false_or, hf]
      by_cases hlt : rs.length < scan.file.live.card
      · rw [if_pos hlt, if_neg (by omega)]
      · rw [if_neg hlt, if_pos (by omega)]
    · have he : scan.file.live = ∅ := card_eq_zero.mp (by omega)
      have hnil : rs = [] := by
        rw [he, subset_empty, toFinset_eq_empty_iff] at hrs
        exact hrs
      simp [hnil]

/-- What the accounting of a file is for: it is removed only if every live row
    was handed in, and otherwise it loses exactly the distinct ones, by a new
    deleted row count or by a new file. -/
def ExactAccounting (file : DataFile) (positions : List ℕ) : DeleteOutcome → Prop
  | .untouched => positions.toFinset.card = 0
  | .removeDataFile => file.live ⊆ positions.toFinset
  | .copyOnWrite newRowCount => newRowCount + positions.toFinset.card = file.live.card
  | .positionDelete _ deletedRowCount =>
    deletedRowCount = file.deletedRowCount + positions.toFinset.card

/-- The files whose accounting is exact: all live rows were handed in, or the
    file is tracked row by row and no row was handed in twice, or fewer rows
    than are live were handed in and the file is rewritten. -/
def AccountedExactly (cfg : DeleteSettings) (skip : Bool) (scan : FileScan)
    (positions : List ℕ) (total : ℤ) : Prop :=
  scan.file.live ⊆ positions.toFinset ∨ (scan.allRowsMatch && skip) = false ∧
      (positions.Nodup ∨ positions.length < scan.file.live.card ∧
        choosesCopyOnWrite cfg scan.file.rowCount
          (positions.length + scan.file.deletedRowCount) total = true)

variable {positions : List ℕ}

theorem card_toFinset_eq_iff_nodup : positions.toFinset.card = positions.length ↔ positions.Nodup :=
  ⟨Multiset.toFinset_card_eq_card_iff_nodup.mp, toFinset_card_of_nodup⟩

theorem eq_live_iff {f : DataFile} (hrs : positions.toFinset ⊆ f.live) :
    f.live ⊆ positions.toFinset ↔ positions.toFinset.card = f.live.card := by
  constructor
  · intro h
    rw [Finset.Subset.antisymm hrs h]
  · intro h
    rw [eq_of_subset_of_card_le hrs h.ge]

/-- **One file**: `ApplyDeleteFile` succeeds on the state of a file and accounts
    for it exactly on the files described by `AccountedExactly`. -/
theorem applyDeleteFile_exact_iff (cfg : DeleteSettings) (skip : Bool) (scan : FileScan)
    (hrs : positions.toFinset ⊆ scan.file.live) (total : ℤ)
    (hs : state = positions.foldl writeDeleteRecord (createFileModifyState skip scan)) :
    ∃ outcome total', applyDeleteFile cfg scan.file state.sourceRowCount state.liveRowCount
        state.deleteDest state.modifiedRowCount total = .ok (outcome, total') ∧
      (ExactAccounting scan.file positions outcome ↔
        AccountedExactly cfg skip scan positions total) := by
  have hle : positions.toFinset.card ≤ positions.length := toFinset_card_le positions
  have hc := eq_live_iff hrs
  have hsum := scan.file.card_live_add
  rw [foldl_createFileModifyState skip scan hrs] at hs
  unfold AccountedExactly
  rw [hc, ← card_toFinset_eq_iff_nodup]
  split_ifs at hs with hw
  · subst hs
    by_cases hz : scan.file.live.card = 0
    · -- no live rows: nothing was handed in and nothing is done
      have hn : positions.toFinset.card = 0 := by
        have := card_le_card hrs
        omega
      exact ⟨.untouched, total, by simp [applyDeleteFile, hz], by
        simp [ExactAccounting, hn, hz]⟩
    · -- the file is removed
      refine ⟨.removeDataFile, total, by simp [applyDeleteFile, hz], ?_⟩
      rw [ExactAccounting, hc]
      constructor
      · exact Or.inl
      · rintro (h | ⟨ht, hr⟩)
        · exact h
        · have hmany : scan.file.live.card ≤ positions.length := by
            rcases hw with hsk | ⟨-, hmany⟩
            · rw [ht] at hsk
              cases hsk
            · exact hmany
          have hfew := card_le_card hrs
          rcases hr with hdistinct | ⟨hlt, -⟩
          · omega
          · omega
  · subst hs
    rw [not_or, not_and, Bool.not_eq_true] at hw
    obtain ⟨ht, hfew⟩ := hw
    by_cases hz : positions.length = 0
    · obtain rfl := length_eq_zero_iff.mp hz
      exact ⟨.untouched, total, by simp [applyDeleteFile], by
        simp [ExactAccounting, ht]⟩
    · have hlt : positions.length < scan.file.live.card := by
        omega
      have hne : ¬ positions.length = scan.file.live.card := by omega
      have hto : positions.length + scan.file.rowCount - scan.file.live.card =
          positions.length + scan.file.deletedRowCount := by omega
      cases hcow : choosesCopyOnWrite cfg scan.file.rowCount
          (positions.length + scan.file.deletedRowCount) total with
      | true =>
        -- copy-on-write reads the positions as a set
        refine ⟨.copyOnWrite (scan.file.live \ positions.toFinset).card, total, by
          simp only [applyDeleteFile, hz, hne, hlt, hto, hcow, if_true, if_false,
            Option.getD_some], ?_⟩
        simp only [ExactAccounting, card_sdiff_of_subset hrs, ht, hlt, and_self,
          or_true, iff_true]
        omega
      | false =>
        -- merge-on-read counts every record
        refine ⟨.positionDelete positions.length
          (positions.length + scan.file.deletedRowCount), total + positions.length, by
          simp only [applyDeleteFile, hz, hne, hlt, hto, hcow, if_true, if_false,
            Bool.false_eq_true], ?_⟩
        simp only [ExactAccounting, ht, Bool.false_eq_true, and_false, or_false, true_and]
        omega

/-! ## The statement -/

theorem positionsOf_cons (bits i ctid : ℕ) (ctids : List ℕ) :
    positionsOf bits i (ctid :: ctids) = if extractFileIndex ctid bits = i then
        extractFileRowNumber ctid bits :: positionsOf bits i ctids
      else positionsOf bits i ctids := by
  unfold positionsOf
  by_cases h : extractFileIndex ctid bits = i <;> simp [h]

theorem foldlM_deleteSingleRow (bits : ℕ) (ctids : List ℕ) : ∀ states : List FileModifyState,
    (∀ ctid ∈ ctids, extractFileIndex ctid bits < states.length) →
    ∃ states', ctids.foldlM (deleteSingleRow bits) states = .ok states' ∧
      states'.length = states.length ∧
      ∀ i : ℕ, states'[i]? =
        states[i]?.map fun state => (positionsOf bits i ctids).foldl writeDeleteRecord state := by
  induction ctids with
  | nil =>
    intro states _
    exact ⟨states, rfl, rfl, fun i => by simp [positionsOf]⟩
  | cons ctid ctids ih =>
    intro states hv
    have hct := hv ctid mem_cons_self
    obtain ⟨states', hrun, hlen, hget⟩ := ih
      (states.modify (extractFileIndex ctid bits)
        fun state => writeDeleteRecord state (extractFileRowNumber ctid bits))
      (fun c hc => by simpa using hv c (mem_cons_of_mem _ hc))
    refine ⟨states', ?_, by simpa using hlen, fun i => ?_⟩
    · have hs : ¬ extractFileIndex ctid bits ≥ states.length := by omega
      rw [Fallible.foldlM_cons_of_ok (if_neg hs)]
      exact hrun
    · rw [hget, getElem?_modify, positionsOf_cons]
      by_cases hi : extractFileIndex ctid bits = i
      · simp [hi, Function.comp_def]
      · simp [hi]

theorem positionsOf_subset_live {bits : ℕ} {scans : List FileScan} {ctids : List ℕ}
    (hl : ∀ ctid ∈ ctids, ∃ scan, scans[extractFileIndex ctid bits]? = some scan ∧
      extractFileRowNumber ctid bits ∈ scan.file.live) {i : ℕ} {scan : FileScan}
    (hs : scans[i]? = some scan) :
    (positionsOf bits i ctids).toFinset ⊆ scan.file.live := by
  intro r hr
  simp only [positionsOf, List.mem_toFinset, List.mem_map, List.mem_filter,
    decide_eq_true_eq] at hr
  obtain ⟨ctid, ⟨hc, rfl⟩, rfl⟩ := hr
  obtain ⟨scan', hs', hm⟩ := hl ctid hc
  cases hs.symm.trans hs'
  exact hm

theorem getElem?_zip_states {bits : ℕ} {skip : Bool} {scans : List FileScan} {ctids : List ℕ}
    {states : List FileModifyState}
    (hget : ∀ i : ℕ, states[i]? = (scans.map (createFileModifyState skip))[i]?.map fun state =>
      (positionsOf bits i ctids).foldl writeDeleteRecord state)
    {i : ℕ} {f : DataFile} :
    ((scans.map FileScan.file).zip states)[i]? = some (f, state) ↔
      ∃ scan, scans[i]? = some scan ∧ scan.file = f ∧
        state = (positionsOf bits i ctids).foldl writeDeleteRecord
          (createFileModifyState skip scan) := by
  rw [getElem?_zip_eq_some, hget]
  simp only [getElem?_map, Option.map_map, Option.map_eq_some_iff, Function.comp_apply]
  constructor
  · rintro ⟨⟨scan, hsc, hf⟩, scan', hsc', hs⟩
    cases hsc.symm.trans hsc'
    exact ⟨scan, hsc, hf, hs.symm⟩
  · rintro ⟨scan, hsc, hf, hs⟩
    exact ⟨⟨scan, hsc, hf⟩, scan, hsc, hs.symm⟩

theorem applyDataFileModifications_spec (cfg : DeleteSettings) :
    ∀ (total : ℤ) (fs : List (DataFile × FileModifyState)),
    (∀ file state, (file, state) ∈ fs → ∀ total, ∃ r,
      applyDeleteFile cfg file state.sourceRowCount state.liveRowCount state.deleteDest
        state.modifiedRowCount total = .ok r) →
    ∃ results, applyDataFileModifications cfg total fs = .ok results ∧
      results.length = fs.length ∧
      ∀ (i : ℕ) file state t outcome, fs[i]? = some (file, state) →
        results[i]? = some (t, outcome) →
        ∃ t', applyDeleteFile cfg file state.sourceRowCount state.liveRowCount
          state.deleteDest state.modifiedRowCount t = .ok (outcome, t')
  | _, [], _ => ⟨[], rfl, rfl, fun i _ _ _ _ h => by simp at h⟩
  | total, (file, state) :: rest, hok => by
    obtain ⟨⟨outcome, total'⟩, hfi⟩ := hok file state mem_cons_self total
    obtain ⟨results, hr, hlen, hget⟩ := applyDataFileModifications_spec cfg total' rest
      (fun f s h => hok f s (mem_cons_of_mem _ h))
    refine ⟨(total, outcome) :: results, ?_, by simp [hlen], ?_⟩
    · refine Fallible.bind_eq_ok_iff.mpr ⟨(outcome, total'), hfi, ?_⟩
      exact Fallible.bind_eq_ok_iff.mpr ⟨results, hr, rfl⟩
    · intro i f s t o hf hres
      cases i with
      | zero =>
        obtain ⟨rfl, rfl⟩ := hf
        obtain ⟨rfl, rfl⟩ := hres
        exact ⟨total', hfi⟩
      | succ i =>
        exact hget i f s t o (by simpa using hf) (by simpa using hres)

/-- **A DELETE statement** over live rows succeeds, and its accounting of a file
    is exact if and only if no row number of the file was handed in twice, or
    all of its live rows were, or the file is rewritten. -/
theorem delete_exact_iff (cfg : DeleteSettings) (tableDeletedRows : ℕ) (skip : Bool)
    (bits : ℕ) (scans : List FileScan) (ctids : List ℕ)
    (hlive : ∀ ctid ∈ ctids, ∃ scan, scans[extractFileIndex ctid bits]? = some scan ∧
      extractFileRowNumber ctid bits ∈ scan.file.live) :
    ∃ results, execForeignDelete cfg tableDeletedRows skip bits scans ctids = .ok results ∧
      results.length = scans.length ∧
      ∀ (i : ℕ) scan total outcome, scans[i]? = some scan → results[i]? = some (total, outcome) →
        (ExactAccounting scan.file (positionsOf bits i ctids) outcome ↔
          AccountedExactly cfg skip scan (positionsOf bits i ctids) total) := by
  obtain ⟨states, hstates, hlen, hget⟩ := foldlM_deleteSingleRow bits ctids
    (scans.map (createFileModifyState skip)) (fun ctid hc => by
      obtain ⟨scan, hscan, -⟩ := hlive ctid hc
      simpa using (List.getElem?_eq_some_iff.mp hscan).1)
  obtain ⟨results, hresults, hreslen, hcall⟩ := applyDataFileModifications_spec cfg
    (if cfg.copyOnWriteMaxDeleteRows ≥ 0 then tableDeletedRows else 0)
    ((scans.map FileScan.file).zip states) (fun file state hmem total => by
      obtain ⟨i, hi⟩ := mem_iff_getElem?.mp hmem
      obtain ⟨scan, hscan, rfl, hstate⟩ := (getElem?_zip_states hget).mp hi
      obtain ⟨outcome, total', hok, -⟩ := applyDeleteFile_exact_iff cfg skip scan
        (positionsOf_subset_live hlive hscan) total hstate
      exact ⟨(outcome, total'), hok⟩)
  refine ⟨results, ?_, ?_, ?_⟩
  · simp only [execForeignDelete, hstates]
    exact hresults
  · simpa [hlen] using hreslen
  · intro i scan total outcome hscan hres
    obtain ⟨total', happly⟩ := hcall i scan.file _ total outcome
      ((getElem?_zip_states hget).mpr ⟨scan, hscan, rfl, rfl⟩) hres
    obtain ⟨outcome', total'', hok, hiff⟩ := applyDeleteFile_exact_iff cfg skip scan
      (positionsOf_subset_live hlive hscan) total rfl
    obtain rfl : outcome = outcome' := by
      have heq := happly.symm.trans hok
      simp only [Except.ok.injEq, Prod.mk.injEq] at heq
      exact heq.1
    exact hiff

/-- A file with two rows, which need not all match the filter. -/
def twoRows : FileScan := ⟨⟨2, ∅, by simp⟩, false⟩

def mergeOnRead : DeleteSettings := ⟨20, -1, true⟩

/-- One ctid for one of the two rows: the deleted row count grows by one. -/
theorem delete_exact_iff_distinct :
    ExactAccounting twoRows.file (positionsOf 4 0 [1]) (.positionDelete 1 1) := by
  obtain ⟨results, hrun, -, hiff⟩ := delete_exact_iff mergeOnRead 0 false 4 [twoRows] [1]
    (by intro ctid hc; obtain rfl := List.mem_singleton.mp hc; exact ⟨twoRows, rfl, by decide⟩)
  obtain rfl : [(0, .positionDelete 1 1)] = results := by
    have heq : execForeignDelete mergeOnRead 0 false 4 [twoRows] [1] =
      .ok [(0, .positionDelete 1 1)] := by rfl
    exact Except.ok.inj (heq.symm.trans hrun)
  exact (hiff 0 twoRows 0 (.positionDelete 1 1) rfl rfl).mpr
    (Or.inr ⟨rfl, Or.inl (by decide)⟩)

/-- A join hands in the same row twice: the file with two live rows is removed
    although row 1 was never to be deleted. -/
theorem repeated_ctid_removes_file :
    execForeignDelete mergeOnRead 0 false 4 [twoRows] [0, 0] = .ok [(0, .removeDataFile)] ∧
      1 ∈ twoRows.file.live ∧ 1 ∉ positionsOf 4 0 [0, 0] ∧
      ¬ ExactAccounting twoRows.file (positionsOf 4 0 [0, 0]) .removeDataFile := by
  refine ⟨rfl, by decide, by decide, fun h => ?_⟩
  exact absurd (h (show 1 ∈ twoRows.file.live by decide)) (by decide)

end PgLake.Fdw
