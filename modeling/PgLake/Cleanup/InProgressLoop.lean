/-
  The loop of VACUUM over the records of unfinished transactions (`VacuumRemoveInProgressFiles`
  in `ddl/vacuum.c`, with `RemoveInProgressFiles` of `in_progress_files.c`).

  An iteration reads at most `perLoopLimit` records, in no particular order, and removes those
  whose operation id it can lock.

  Main result: `cleanup_loop_ends_iff`.
-/
import Mathlib.Data.List.Nodup
import Mathlib.Data.List.Perm.Subperm
import PgLake.Cleanup.InProgressFiles

namespace PgLake.Cleanup

open List

/-- A query with a limit returns some of the rows, and as many as it may. -/
def Fetches {α : Type*} (limit : ℕ) (rows fetched : List α) : Prop :=
  fetched.Subperm rows ∧ fetched.length = min limit rows.length

namespace InProgressLoop

/-- `PER_LOOP_IN_PROGRESS_FILE_CLEANUP_LIMIT`. -/
def perLoopLimit : ℕ := 50

/-- What does not change while the loop runs. -/
structure Config where
  /-- the path is below the location of the table: `path ILIKE $1` -/
  isBelow : Path → Bool
  /-- another transaction holds the lock on the operation id -/
  isLocked : ℕ → Bool
  maxFileRemovalsPerVacuum : ℕ

/-- The rows of `in_progress_files`, whose key is the path, and the files removed so far. -/
structure State where
  rows : List Record
  distinct : (rows.map Record.path).Nodup
  totalFilesRemoved : ℕ

variable (c : Config) (s : State)

/-- The rows that `GetInProgressFileRecords` selects from. -/
def State.selected : List Record := s.rows.filter fun r => c.isBelow r.path

/-- `RemoveInProgressFiles`: the paths it removes of the records it has read. -/
def State.deletedPaths (fetched : List Record) : List Path :=
  (fetched.filter fun r => !c.isLocked r.operationId && decide (r ∈ s.rows)).map Record.path

/-- `DeleteInProgressFileRecords`, and the count of the loop. -/
def State.remove (fetched : List Record) : State where
  rows := s.rows.filter fun r => r.path ∉ s.deletedPaths c fetched
  distinct := s.distinct.sublist (filter_sublist.map _)
  totalFilesRemoved := s.totalFilesRemoved + (s.deletedPaths c fetched).length

/-- An iteration that reads these records and is followed by another one. -/
structure ContinuesWith (s : State) (fetched : List Record) : Prop where
  fetches : Fetches perLoopLimit (s.selected c) fetched
  belowLimit : (s.remove c fetched).totalFilesRemoved < c.maxFileRemovalsPerVacuum
  hasRemainingFiles : perLoopLimit ≤ fetched.length

/-- One round of the loop after which there is another one. -/
def Continues (s s' : State) : Prop :=
  ∃ fetched, ContinuesWith c s fetched ∧ s' = s.remove c fetched

/-- The loop ends. -/
def Ends : Prop :=
  ¬∃ states : ℕ → State, states 0 = s ∧ ∀ n, Continues c (states n) (states (n + 1))

/-- A round that deletes nothing is the last one. -/
def StopsWithoutProgress : Prop :=
  ∀ s', Relation.ReflTransGen (Continues c) s s' → ∀ fetched,
    s'.deletedPaths c fetched = [] → ¬ContinuesWith c s' fetched

/-! ## Locked records -/

/-- The selected records whose operation is still open. -/
def State.locked : List Record :=
  (s.selected c).filter fun r => c.isLocked r.operationId

variable {c}

theorem State.eq_of_path (s : State) {r r' : Record} (h : r ∈ s.rows) (h' : r' ∈ s.rows)
    (heq : r.path = r'.path) : r = r' :=
  inj_on_of_nodup_map s.distinct h h' heq

open State

theorem State.locked_remove (s : State) (fetched : List Record) :
    (s.remove c fetched).locked c = s.locked c := by
  unfold locked selected remove
  simp only [filter_filter]
  refine filter_congr ?_
  intro r hr
  cases hl : c.isLocked r.operationId with
  | false => rfl
  | true =>
    have hs : r.path ∉ s.deletedPaths c fetched := by
      intro hm
      obtain ⟨r', hr', hp⟩ := mem_map.mp hm
      obtain ⟨-, hf⟩ := mem_filter.mp hr'
      rw [Bool.and_eq_true, decide_eq_true_eq] at hf
      obtain rfl := s.eq_of_path hf.2 hr hp
      simp [hl] at hf
    simp [hs]

variable {s}

theorem locked_of_reachable {s' : State} (h : Relation.ReflTransGen (Continues c) s s') :
    s'.locked c = s.locked c := by
  induction h with
  | refl => rfl
  | tail _ hs ih =>
    obtain ⟨fetched, -, rfl⟩ := hs
    rw [locked_remove, ih]

variable {fetched : List Record}

theorem mem_rows_of_fetches {r : Record}
    (h : Fetches perLoopLimit (s.selected c) fetched) (hr : r ∈ fetched) : r ∈ s.rows :=
  (mem_filter.mp (h.1.subset hr)).1

/-- **An iteration that goes on has removed a record**, if not enough of them are locked. -/
theorem ContinuesWith.exists_deleted
    (h : ContinuesWith c s fetched) (hl : (s.locked c).length < perLoopLimit) :
    ∃ r ∈ fetched, r.path ∈ s.deletedPaths c fetched := by
  by_contra hn
  have hall : ∀ r ∈ fetched, c.isLocked r.operationId = true := by
    intro r hr
    by_contra hf
    refine hn ⟨r, hr, mem_map_of_mem (mem_filter.mpr ⟨hr, ?_⟩)⟩
    simp [Bool.eq_false_iff.mpr hf, mem_rows_of_fetches h.fetches hr]
  have hsub := h.fetches.1.filter fun r => c.isLocked r.operationId
  rw [filter_eq_self.mpr hall] at hsub
  exact absurd hsub.length_le (by have := h.hasRemainingFiles; unfold locked at hl; omega)

theorem ContinuesWith.length_lt
    (h : ContinuesWith c s fetched) (hl : (s.locked c).length < perLoopLimit) :
    (s.remove c fetched).rows.length < s.rows.length := by
  obtain ⟨r, hr, hdel⟩ := h.exists_deleted hl
  refine length_filter_lt_length_iff_exists.mpr ⟨r, mem_rows_of_fetches h.fetches hr, ?_⟩
  simpa using hdel

/-! ## The loop -/

theorem ends_of_locked (hlo : (s.locked c).length < perLoopLimit) : Ends c s := by
  rintro ⟨states, rfl, hs⟩
  -- every iteration takes a row away
  have hrs : ∀ n, (states n).locked c = (states 0).locked c ∧
      (states n).rows.length + n ≤ (states 0).rows.length := by
    intro n
    induction n with
    | zero => exact ⟨rfl, le_rfl⟩
    | succ n ih =>
      obtain ⟨fetched, hc, hn⟩ := hs n
      have hlt := hc.length_lt (by rw [ih.1]; exact hlo)
      rw [hn, locked_remove]
      exact ⟨ih.1, by omega⟩
  have hl := (hrs ((states 0).rows.length + 1)).2
  omega

theorem stopsWithoutProgress_of_locked (hl : (s.locked c).length < perLoopLimit) :
    StopsWithoutProgress c s := by
  intro s' hr fetched hn hc
  obtain ⟨r, -, hdel⟩ := hc.exists_deleted (by rwa [locked_of_reachable hr])
  rw [hn] at hdel
  cases hdel

theorem continues_self (hl : perLoopLimit ≤ (s.locked c).length)
    (hmax : s.totalFilesRemoved < c.maxFileRemovalsPerVacuum) : Continues c s s := by
  have hsu : ((s.locked c).take perLoopLimit).Sublist (s.selected c) :=
    (take_sublist _ _).trans filter_sublist
  have hlen : ((s.locked c).take perLoopLimit).length = perLoopLimit := by
    rw [length_take, min_eq_left hl]
  have hn : s.deletedPaths c ((s.locked c).take perLoopLimit) = [] := by
    unfold deletedPaths
    rw [filter_eq_nil_iff.mpr, map_nil]
    intro r hr
    simp [(mem_filter.mp (mem_of_mem_take hr)).2]
  have hs : s.remove c ((s.locked c).take perLoopLimit) = s := by
    unfold remove
    simp [hn]
  refine ⟨(s.locked c).take perLoopLimit, ⟨⟨hsu.subperm, ?_⟩, by rwa [hs], hlen.ge⟩,
    hs.symm⟩
  have hse := hsu.length_le
  rw [hlen] at hse ⊢
  exact (min_eq_left hse).symm

/-- **The loop ends for every choice of the query, and with the first iteration that removes
    nothing, exactly if fewer records than the limit are locked**, or VACUUM may remove no more. -/
theorem cleanup_loop_ends_iff (c : Config) (s : State) : (Ends c s ∧ StopsWithoutProgress c s) ↔
      (s.locked c).length < perLoopLimit ∨ c.maxFileRemovalsPerVacuum ≤ s.totalFilesRemoved := by
  constructor
  · rintro ⟨hends, -⟩
    by_contra hnot
    rw [not_or, not_lt, not_le] at hnot
    exact hends ⟨fun _ => s, rfl, fun _ => continues_self hnot.1 hnot.2⟩
  · rintro (hfew | hmax)
    · exact ⟨ends_of_locked hfew, stopsWithoutProgress_of_locked hfew⟩
    · have hnever : ∀ fetched, ¬ContinuesWith c s fetched := by
        intro fetched h
        have hbelow := h.belowLimit
        unfold remove at hbelow
        simp only at hbelow
        omega
      constructor
      · rintro ⟨states, rfl, hstep⟩
        obtain ⟨fetched, h, -⟩ := hstep 0
        exact hnever fetched h
      · intro s' hreach fetched _
        obtain rfl | ⟨_, ⟨fetched', h, -⟩, -⟩ := Relation.ReflTransGen.cases_head hreach
        · exact hnever fetched
        · exact absurd h (hnever fetched')

/-- Fifty files of one open transaction, when VACUUM enters the loop. -/
def openFiles : State where
  rows := (List.range 50).map fun n => ⟨List.replicate n 'x', 1, false⟩
  distinct := by decide +kernel
  totalFilesRemoved := 0

/-- Operation 1 is still open. -/
def openConfig : Config := ⟨fun _ => true, fun operationId => operationId = 1, 100000⟩

theorem fifty_locked_records_loop :
    Continues openConfig openFiles openFiles ∧ ¬Ends openConfig openFiles := by
  have hself : Continues openConfig openFiles openFiles :=
    continues_self (by decide +kernel) (by decide)
  exact ⟨hself, fun h => h ⟨fun _ => openFiles, rfl, fun _ => hself⟩⟩

end InProgressLoop

end PgLake.Cleanup
