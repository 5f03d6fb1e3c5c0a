/-
  Which data files VACUUM compacts (`CompactDataFiles`, `GetPartitionWithMostEligibleFiles`,
  `FilterCompactionCandidates` and `TryCompactDataFiles` in `fdw/writable_table.c`).

  The files of a table are grouped by spec and partition.  Of every group the eligible files
  are taken until there is enough for one compaction, and the group of which most files were
  taken is compacted.

  Main results: `oldest_first_iff`, `compaction_progress`.
-/
import Mathlib.Algebra.Order.BigOperators.Group.List
import Mathlib.Algebra.Order.Ring.Int
import Mathlib.Data.List.Dedup
import Mathlib.Data.List.Induction
import Mathlib.Data.List.Perm.Subperm
import PgLake.Fdw.Deletes

namespace PgLake.Fdw.CompactionChoice

open List

/-- What is read of a data file.  The key is that of `ComputeSpecPartitionKey`. -/
structure TableDataFile where
  id : ℕ
  isData : Bool
  specPartitionKey : UInt64
  updatedTime : ℤ
  creationTime : ℤ
  fileSize : ℕ
  rowCount : ℕ
  deletedRowCount : ℕ
  deriving DecidableEq

/-- The settings that the choice of files reads. -/
structure Options where
  targetFileSizeMB : ℤ
  usesParquet : Bool
  copyOnWriteThreshold : ℤ
  copyOnWriteMaxDeleteRows : ℤ
  vacuumCompactMinInputFiles : ℕ
  minInputFiles_pos : 0 < vacuumCompactMinInputFiles
  compactionStartTime : ℤ
  forceMerge : Bool

/-- `MAX_FILES_PER_COMPACTION`. -/
def maxFilesPerCompaction : ℕ := 1000

def mbBytes : ℕ := 1024 * 1024

def TableDataFile.liveRowCount (f : TableDataFile) : ℤ := f.rowCount - f.deletedRowCount

/-- The size of the live rows, in `int64`. -/
def estimatedPostMergeSize (f : TableDataFile) : ℤ :=
  if 0 < f.rowCount then (Int.bmod (f.fileSize * f.liveRowCount) (2 ^ 64)).tdiv f.rowCount else 100

/-- `candidatePoolSize += estimatedPostMergeSize`. -/
def addSize (pool : ℤ) (f : TableDataFile) : ℤ := (pool + estimatedPostMergeSize f).bmod (2 ^ 64)

/-- `candidatePoolSize` after these candidates. -/
def candidatePoolSize (files : List TableDataFile) : ℤ := files.foldl addSize 0

variable (o : Options)

/-- The target file size in bytes. -/
def Options.target : ℕ := o.targetFileSizeMB.toNat * mbBytes

/-- Compaction is for Parquet tables with a target size. -/
def Options.enabled : Bool := 0 < o.targetFileSizeMB && o.usesParquet

/-- The file is rewritten for its deleted rows alone. -/
def hasManyDeletions (f : TableDataFile) : Bool :=
  shouldRewriteAfterDeletions o.copyOnWriteThreshold f.rowCount f.deletedRowCount

/-- Below `MIN_TARGET_FILE_SIZE`, which is half the target. -/
def isSmall (f : TableDataFile) : Bool := 2 * f.fileSize < o.target

/-- Above `MAX_TARGET_FILE_SIZE`, which is 1.8 times the target. -/
def isLarge (f : TableDataFile) : Bool := 9 * o.target < 5 * f.fileSize

/-- More than half of the rows that may be deleted are. -/
def forceCompactDeletions (files : List TableDataFile) : Bool :=
  0 ≤ o.copyOnWriteMaxDeleteRows &&
    o.copyOnWriteMaxDeleteRows / 2 < ((files.map TableDataFile.deletedRowCount).sum : ℤ)

section Choice
variable (force : Bool) (f : TableDataFile)

def isConsidered : Bool := f.isData && f.creationTime < o.compactionStartTime

def hasOwnReason : Bool :=
  isLarge o f || hasManyDeletions o f ||
    ((o.forceMerge || force) && 0 < f.deletedRowCount)

def isEligible : Bool :=
  isConsidered o f && (isSmall o f || hasOwnReason o force f)

/-- The loop of `FilterCompactionCandidates`, after `count` files of size `pool`: the files it
    takes, and whether it was stopped by a limit. -/
def collect : List TableDataFile → ℕ → ℤ → List TableDataFile × Bool
  | [], _, _ => ([], false)
  | f :: files, count, pool =>
    if isEligible o force f then
      if 3 * o.target < 4 * addSize pool f then ([f], true)
      else if maxFilesPerCompaction ≤ count + 1 then ([f], true)
      else
        let rest := collect files (count + 1) (addSize pool f)
        (f :: rest.1, rest.2)
    else collect files count pool

/-- `FilterCompactionCandidates`: the files that were collected, if there are enough of them. -/
def filterCompactionCandidates (files : List TableDataFile) : List TableDataFile :=
  let candidates := collect o force files 0 0
  if !(candidates.2 || o.forceMerge || force) &&
      candidates.1.length < o.vacuumCompactMinInputFiles then []
  else candidates.1

/-- `GetPartitionWithMostEligibleFiles`, over the groups in the order of the hash table. -/
def mostEligibleFiles (groups : List (List TableDataFile)) : Option (List TableDataFile) :=
  groups.foldl (fun most group =>
    let candidates := filterCompactionCandidates o force group
    if candidates = [] then most
    else match most with
      | none => some candidates
      | some files => if files.length < candidates.length then some candidates else most) none

/-- `TryCompactDataFiles`: whether it returns a new file.  There is none without a live row. -/
def tryCompactDataFiles (candidates : List TableDataFile) : Bool :=
  match candidates with
  | [f] =>
    if 5 * f.fileSize < 9 * o.target && !hasManyDeletions o f &&
        (!o.forceMerge || f.deletedRowCount = 0) then false
    else 0 < f.liveRowCount
  | files => 0 < (files.map TableDataFile.liveRowCount).sum

end Choice

/-- The files by spec and partition. -/
def groupDataFilesByPartition (files : List TableDataFile) : List (List TableDataFile) :=
  (files.map TableDataFile.specPartitionKey).dedup.map fun key =>
    files.filter fun f => f.specPartitionKey = key

/-- `CompactDataFiles`, with the groups in the order of the hash table. -/
def compactDataFiles (files : List TableDataFile) (groups : List (List TableDataFile)) : Bool :=
  o.enabled &&
    match mostEligibleFiles o (forceCompactDeletions o files) groups with
    | none => false
    | some candidates => tryCompactDataFiles o candidates

/-! ## The files that are taken -/

section Collect
variable {o} {force : Bool}

theorem prefix_of_collect : ∀ (fs : List TableDataFile) (count : ℕ) (pool : ℤ),
    (collect o force fs count pool).1 <+: fs.filter (isEligible o force)
  | [], _, _ => prefix_rfl
  | f :: fs, count, pool => by
    have ih := prefix_of_collect fs
    unfold collect
    cases he : isEligible o force f with
    | false => simpa [he] using ih count pool
    | true =>
      rw [filter_cons_of_pos he, if_pos rfl]
      split_ifs
      iterate 2 exact prefix_append [f] _
      · exact (prefix_cons_inj f).mpr (ih _ _)

theorem collect_length : ∀ (fs : List TableDataFile) {count : ℕ} (pool : ℤ),
    count < maxFilesPerCompaction →
      count + (collect o force fs count pool).1.length ≤ maxFilesPerCompaction
  | [], _, _, hc => hc.le
  | f :: fs, count, pool, hc => by
    have ih := @collect_length fs
    unfold collect
    split_ifs with _ _ hf
    · exact hc
    · exact hc
    · have hr := @ih (count + 1) (addSize pool f) (not_le.mp hf)
      simp only [length_cons]
      omega
    · exact ih pool hc

/-- Eligible files whose sizes exceed the limit stop the loop. -/
theorem collect_append : ∀ {fs : List TableDataFile} (rest : List TableDataFile) {count : ℕ}
    {pool : ℤ}, (∀ f ∈ fs, isEligible o force f = true) →
    count + fs.length ≤ maxFilesPerCompaction → 4 * pool ≤ 3 * o.target →
    3 * o.target < 4 * fs.foldl addSize pool →
      (collect o force (fs ++ rest) count pool).1 <+: fs ∧
        (collect o force (fs ++ rest) count pool).1 ≠ [] ∧
        3 * o.target < 4 * (collect o force (fs ++ rest) count pool).1.foldl addSize pool
  | [], _, _, _, _, _, hp, hs => absurd hs (not_lt.mpr hp)
  | f :: fs, rest, count, pool, he, hc, _, hs => by
    rw [length_cons] at hc
    rw [cons_append, collect, if_pos (he f mem_cons_self)]
    split_ifs with ho hf
    · exact ⟨prefix_append [f] _, cons_ne_nil _ _, ho⟩
    · -- the last file of the number limit exceeds the size limit as well
      obtain rfl : fs = [] := eq_nil_of_length_eq_zero (by omega)
      exact absurd hs ho
    · obtain ⟨hpre', -, hs'⟩ := @collect_append fs rest (count + 1) (addSize pool f)
        (fun g hg => he g (mem_cons_of_mem _ hg)) (by omega) (not_lt.mp ho) hs
      exact ⟨(prefix_cons_inj f).mpr hpre', cons_ne_nil _ _, hs'⟩

theorem filterCompactionCandidates_of_size {fs : List TableDataFile}
    (h : 3 * o.target < 4 * candidatePoolSize (collect o force fs 0 0).1) :
    filterCompactionCandidates o force fs = (collect o force fs 0 0).1 := by
  have hst : ∀ (fs : List TableDataFile) (count : ℕ) (pool : ℤ), 4 * pool ≤ 3 * o.target →
      3 * o.target < 4 * (collect o force fs count pool).1.foldl addSize pool →
        (collect o force fs count pool).2 = true := by
    intro fs
    induction fs with
    | nil => exact fun _ _ hp hs => absurd hs (not_lt.mpr hp)
    | cons f fs ih =>
      intro count pool hp hs
      unfold collect at hs ⊢
      split_ifs at hs ⊢ with _ ho
      · rfl
      · rfl
      · exact ih _ _ (not_lt.mp ho) hs
      · exact ih _ _ hp hs
  have hmet := hst fs 0 0 (by omega) h
  simp [filterCompactionCandidates, hmet]

instance : RightCommutative addSize where
  right_comm pool f g := by
    simp only [addSize, Int.bmod_add_bmod]
    rw [Int.add_right_comm]

theorem candidatePoolSize_perm {fs fs' : List TableDataFile} (h : fs.Perm fs') :
    candidatePoolSize fs = candidatePoolSize fs' := h.foldl_eq 0

end Collect

/-! ## Oldest first -/

/-- If the size limit stops the choice, no eligible file that is left out is older than one
    taken. -/
def TakesOldestFirst (force : Bool) (group : List TableDataFile) : Prop :=
  3 * o.target < 4 * candidatePoolSize (filterCompactionCandidates o force group) →
    ∀ left ∈ group, isEligible o force left = true →
      left ∉ filterCompactionCandidates o force group →
        ∀ taken ∈ filterCompactionCandidates o force group, ¬left.updatedTime < taken.updatedTime

/-- The eligible files of a partition. -/
def eligibleFiles (force : Bool) (files : List TableDataFile) (key : UInt64) : List TableDataFile :=
  (files.filter fun f => f.specPartitionKey = key).filter (isEligible o force)

variable {o} {force : Bool} {group : List TableDataFile}

theorem collect_of_size
    (h : 3 * o.target < 4 * candidatePoolSize (filterCompactionCandidates o force group)) :
    filterCompactionCandidates o force group = (collect o force group 0 0).1 := by
  refine filterCompactionCandidates_of_size ?_
  unfold filterCompactionCandidates at h
  simp only at h
  split_ifs at h
  · simp [candidatePoolSize] at h
    omega
  · exact h

theorem of_mem_eligibleFiles {fs : List TableDataFile} {key : UInt64} {f : TableDataFile}
    (h : f ∈ eligibleFiles o force fs key) :
    isEligible o force f = true ∧ f.specPartitionKey = key := by
  obtain ⟨hf, he⟩ := mem_filter.mp h
  exact ⟨he, of_decide_eq_true (mem_filter.mp hf).2⟩

theorem perm_eligibleFiles_append {fs l : List TableDataFile} {key : UInt64}
    (h : l.Perm (eligibleFiles o force fs key)) :
    (l ++ fs.filter fun f => !(isEligible o force f && decide (f.specPartitionKey = key))).Perm
      fs := by
  have he : eligibleFiles o force fs key =
      fs.filter fun f => isEligible o force f && decide (f.specPartitionKey = key) :=
    filter_filter ..
  refine (h.append_right _).trans ?_
  rw [he]
  exact filter_append_perm _ fs

theorem not_takesOldestFirst {fs chosen : List TableDataFile} {left taken : TableDataFile}
    {key : UInt64} (hle : left ∈ eligibleFiles o force fs key)
    (hsub : chosen.Subperm (eligibleFiles o force fs key)) (hta : taken ∈ chosen)
    (hout : left ∉ chosen) (holder : left.updatedTime < taken.updatedTime)
    (hlen : chosen.length ≤ maxFilesPerCompaction)
    (hs : 3 * o.target < 4 * candidatePoolSize chosen) :
    ∃ order : List TableDataFile, order.Perm fs ∧
      ¬TakesOldestFirst o force (order.filter fun f => f.specPartitionKey = key) := by
  -- the chosen files, the newer one first, then the others of the group, then the rest
  obtain ⟨first, rest, hco, hfi⟩ : ∃ first rest, first = taken :: rest ∧ first.Perm chosen :=
    ⟨_, _, rfl, (perm_cons_erase hta).symm⟩
  obtain ⟨others, ho⟩ : ∃ others, (eligibleFiles o force fs key).Perm
      (chosen ++ others) := by
    obtain ⟨l, hl, hsu⟩ := hsub
    obtain ⟨others, ho⟩ := hsu.exists_perm_append
    exact ⟨others, ho.trans (hl.append_right others)⟩
  have hc : ∀ f ∈ first, isEligible o force f = true ∧ f.specPartitionKey = key :=
    fun f hf => of_mem_eligibleFiles (hsub.subset (hfi.mem_iff.mp hf))
  let unchosen := fs.filter fun f => !(isEligible o force f && decide (f.specPartitionKey = key))
  refine ⟨first ++ (others ++ unchosen), ?_, ?_⟩
  · rw [← append_assoc]
    exact perm_eligibleFiles_append ((hfi.append_right others).trans ho.symm)
  · have hk : (first ++ (others ++ unchosen)).filter (fun f => f.specPartitionKey = key) =
        first ++ (others ++ unchosen).filter fun f => f.specPartitionKey = key := by
      rw [filter_append, filter_eq_self.mpr]
      exact fun f hf => decide_eq_true (hc f hf).2
    rw [hk]
    obtain ⟨hpre', hne, hov⟩ := @collect_append o force first
      ((others ++ unchosen).filter fun f => f.specPartitionKey = key) 0 0
      (fun f hf => (hc f hf).1) (by rw [zero_add, hfi.length_eq]; exact hlen)
      (by omega) (by rwa [← candidatePoolSize, candidatePoolSize_perm hfi])
    have hcands := filterCompactionCandidates_of_size hov
    intro hol
    unfold TakesOldestFirst at hol
    rw [hcands] at hol
    refine hol hov left ?_ (of_mem_eligibleFiles hle).1 ?_ taken ?_ holder
    · have hm : left ∈ others := by
        rcases mem_append.mp (ho.mem_iff.mp hle) with hin | hin
        · exact absurd hin hout
        · exact hin
      refine mem_append_right _ (mem_filter.mpr ⟨mem_append_left _ hm, ?_⟩)
      exact decide_eq_true (of_mem_eligibleFiles hle).2
    · exact fun hm => hout (hfi.mem_iff.mp (hpre'.subset hm))
    · obtain ⟨tail, ht⟩ := hpre'
      cases hli : (collect o force (first ++
          (others ++ unchosen).filter fun f => f.specPartitionKey = key) 0 0).1 with
      | nil => exact absurd hli hne
      | cons =>
        rw [hli, hco, cons_append] at ht
        obtain ⟨rfl, -⟩ := List.cons.inj ht
        exact mem_cons_self

/-- **The oldest files come first in every order of the hash table exactly if the size limit is
    never reached without a file that is older than another one of its group.** -/
theorem oldest_first_iff (o : Options) (force : Bool) (files : List TableDataFile) :
    (∀ order : List TableDataFile, order.Perm files → ∀ key,
      TakesOldestFirst o force (order.filter fun f => f.specPartitionKey = key)) ↔
    ∀ key, ∀ left ∈ eligibleFiles o force files key, ∀ chosen : List TableDataFile,
      chosen.Subperm (eligibleFiles o force files key) → left ∉ chosen →
      (∃ taken ∈ chosen, left.updatedTime < taken.updatedTime) →
      chosen.length ≤ maxFilesPerCompaction → 4 * candidatePoolSize chosen ≤ 3 * o.target := by
  constructor
  · intro h key left hleft chosen hsub hout ⟨taken, htaken, holder⟩ hlength
    by_contra hover
    obtain ⟨order, hperm, hnot⟩ :=
      not_takesOldestFirst hleft hsub htaken hout holder hlength (not_le.mp hover)
    exact hnot (h order hperm key)
  · intro h order hperm key hsize left hleft heligible hout taken htaken holder
    have hcollect := collect_of_size hsize
    rw [hcollect] at hsize hout htaken
    have hgroup : ((order.filter fun f => f.specPartitionKey = key).filter
        (isEligible o force)).Perm (eligibleFiles o force files key) := (hperm.filter _).filter _
    refine absurd hsize (not_lt.mpr (h key left ?_ _ ?_ hout ⟨taken, htaken, holder⟩ ?_))
    · exact hgroup.mem_iff.mp (mem_filter.mpr ⟨hleft, heligible⟩)
    · exact (prefix_of_collect _ 0 0).sublist.subperm.trans hgroup.subperm
    · have hlength := @collect_length o force (order.filter fun f => f.specPartitionKey = key) 0 0
        (by decide)
      rwa [zero_add] at hlength

/-- The default settings, at time 100. -/
def defaultOptions : Options where
  targetFileSizeMB := 512
  usesParquet := true
  copyOnWriteThreshold := 20
  copyOnWriteMaxDeleteRows := 10000000
  vacuumCompactMinInputFiles := 5
  minInputFiles_pos := by decide
  compactionStartTime := 100
  forceMerge := false

/-- A file with one row and no deletion. -/
def plainFile (id : ℕ) (updatedTime : ℤ) (megabytes : ℕ) : TableDataFile :=
  ⟨id, true, 0, updatedTime, updatedTime, megabytes * mbBytes, 1, 0⟩

theorem two_new_files_before_an_old_one : filterCompactionCandidates defaultOptions false
        [plainFile 2 2 200, plainFile 3 3 200, plainFile 1 1 1] =
      [plainFile 2 2 200, plainFile 3 3 200] ∧
    ¬TakesOldestFirst defaultOptions false
      [plainFile 2 2 200, plainFile 3 3 200, plainFile 1 1 1] := by
  have hchosen : filterCompactionCandidates defaultOptions false
      [plainFile 2 2 200, plainFile 3 3 200, plainFile 1 1 1] =
        [plainFile 2 2 200, plainFile 3 3 200] := by decide +kernel
  refine ⟨hchosen, ?_⟩
  intro h
  exact h (by decide +kernel) (plainFile 1 1 1) (by simp) (by decide +kernel) (by decide +kernel)
    (plainFile 2 2 200) mem_cons_self (by decide)

/-! ## Progress -/

/-- There is a set of files in the group that VACUUM is willing to compact. -/
def Willing (o : Options) (force : Bool) (group : List TableDataFile) : Prop :=
  (∃ f ∈ group, isConsidered o f = true ∧ hasOwnReason o force f = true) ∨
    o.vacuumCompactMinInputFiles ≤ (group.filter fun f => isConsidered o f && isSmall o f).length

/-- The eligible files of the group are enough for a compaction: a minimum is not asked for, or
    their number reaches it or the limit, or the first ones exceed the size limit. -/
def HasEnough (o : Options) (force : Bool) (group : List TableDataFile) : Prop :=
  let eligible := group.filter (isEligible o force)
  eligible ≠ [] ∧ (o.forceMerge = true ∨ force = true ∨
    o.vacuumCompactMinInputFiles ≤ eligible.length ∨ maxFilesPerCompaction ≤ eligible.length ∨
      ∃ first, first <+: eligible ∧ 3 * o.target < 4 * candidatePoolSize first)

/-- `TryCompactDataFiles` accepts the file alone: it is large or has too many deletions, or a
    merge is forced and it has any. -/
def IsCompactedAlone (o : Options) (f : TableDataFile) : Prop :=
  9 * o.target ≤ 5 * f.fileSize ∨ hasManyDeletions o f = true ∨
    o.forceMerge = true ∧ 0 < f.deletedRowCount

/-- Every eligible file of the group has a live row, and is compacted alone unless it has another
    eligible file beside it and does not exceed the size limit. -/
def Yields (o : Options) (force : Bool) (group : List TableDataFile) : Prop :=
  ∀ f ∈ group.filter (isEligible o force), 0 < f.liveRowCount ∧ (IsCompactedAlone o f ∨
    group.filter (isEligible o force) ≠ [f] ∧ 4 * candidatePoolSize [f] ≤ 3 * o.target)

theorem collect_ne_nil : ∀ {fs : List TableDataFile} {count : ℕ} {pool : ℤ},
    fs.filter (isEligible o force) ≠ [] → (collect o force fs count pool).1 ≠ []
  | [], _, _, h => h
  | f :: fs, _, _, h => by
    unfold collect
    cases he : isEligible o force f with
    | false =>
      rw [filter_cons_of_neg (by simp [he])] at h
      exact collect_ne_nil h
    | true =>
      rw [if_pos rfl]
      split_ifs <;> exact cons_ne_nil _ _

/-- A limit stops the loop only at enough files or at a size that exceeds the limit. -/
theorem of_collect_stopped : ∀ {fs : List TableDataFile} {count : ℕ} {pool : ℤ},
    (collect o force fs count pool).2 = true →
      maxFilesPerCompaction ≤ count + (fs.filter (isEligible o force)).length ∨
        ∃ first, first <+: fs.filter (isEligible o force) ∧
          3 * o.target < 4 * first.foldl addSize pool
  | f :: fs, count, pool, h => by
    unfold collect at h
    cases he : isEligible o force f with
    | false =>
      rw [filter_cons_of_neg (by simp [he])]
      exact of_collect_stopped (by simpa [he] using h)
    | true =>
      rw [he, if_pos rfl] at h
      rw [filter_cons_of_pos he, length_cons]
      split_ifs at h with ho hfu
      · exact .inr ⟨[f], prefix_append [f] _, ho⟩
      · exact .inl (by omega)
      · rcases of_collect_stopped h with hc | ⟨first, hf, hs⟩
        · exact .inl (by omega)
        · exact .inr ⟨f :: first, (prefix_cons_inj f).mpr hf, hs⟩

/-- The loop that reaches no limit takes all eligible files, and they are below both limits. -/
theorem collect_all : ∀ {fs : List TableDataFile} {count : ℕ} {pool : ℤ},
    count < maxFilesPerCompaction → 4 * pool ≤ 3 * o.target →
    (collect o force fs count pool).2 = false →
    (collect o force fs count pool).1 = fs.filter (isEligible o force) ∧
      count + (fs.filter (isEligible o force)).length < maxFilesPerCompaction ∧
      ∀ first, first <+: fs.filter (isEligible o force) →
        4 * first.foldl addSize pool ≤ 3 * o.target
  | [], _, _, hc, hp, _ => by
    refine ⟨rfl, hc, fun first hf => ?_⟩
    rwa [prefix_nil.mp hf]
  | f :: fs, count, pool, hc, hp, h => by
    unfold collect at h ⊢
    cases he : isEligible o force f with
    | false =>
      rw [filter_cons_of_neg (by simp [he])]
      exact collect_all hc hp (by simpa [he] using h)
    | true =>
      rw [he, if_pos rfl] at h
      rw [if_pos rfl, filter_cons_of_pos he, length_cons]
      split_ifs at h ⊢ with ho hfu
      obtain ⟨hall, hlen, hpre⟩ := collect_all (not_le.mp hfu) (not_lt.mp ho) h
      refine ⟨congrArg (f :: ·) hall, by omega, fun first hf => ?_⟩
      cases first with
      | nil => exact hp
      | cons g first =>
        obtain ⟨rfl, hr⟩ := cons_prefix_cons.mp hf
        exact hpre first hr

/-- **A group has candidates exactly if it has enough eligible files.** -/
theorem candidates_ne_nil_iff :
    filterCompactionCandidates o force group ≠ [] ↔ HasEnough o force group := by
  unfold filterCompactionCandidates HasEnough
  simp only
  split_ifs with hfew
  · simp only [Bool.and_eq_true, Bool.not_eq_true', Bool.or_eq_false_iff,
      decide_eq_true_eq] at hfew
    obtain ⟨⟨⟨hnot, hm⟩, hfo⟩, hs⟩ := hfew
    obtain ⟨hall, hlen, hpre⟩ := collect_all (by decide) (by omega) hnot
    rw [hall] at hs
    refine ⟨fun h => absurd rfl h, fun ⟨_, he⟩ => ?_⟩
    rcases he with h | h | h | h | ⟨first, hf, ho⟩
    · simp [hm] at h
    · simp [hfo] at h
    · omega
    · omega
    · exact absurd ho (not_lt.mpr (hpre first hf))
  · refine ⟨fun h => ?_, fun h => collect_ne_nil h.1⟩
    have hco := @prefix_of_collect o force group 0 0
    refine ⟨fun hnil => h (prefix_nil.mp (hnil ▸ hco)), ?_⟩
    simp only [Bool.and_eq_true, Bool.not_eq_true', Bool.or_eq_false_iff, decide_eq_true_eq,
      not_and, not_lt] at hfew
    by_contra hn
    simp only [not_or, Bool.not_eq_true] at hn
    obtain ⟨hm, hfo, hmin, hmax, hsi⟩ := hn
    cases hst : (collect o force group 0 0).2 with
    | true =>
      rcases of_collect_stopped hst with hc | ho
      · exact hmax (by rwa [zero_add] at hc)
      · exact hsi ho
    | false => exact hmin ((hfew ⟨⟨hst, hm⟩, hfo⟩).trans hco.length_le)

/-- A candidate stays alone only if there is no other eligible file or it exceeds the limit. -/
theorem of_collect_eq_singleton {f : TableDataFile} : ∀ {fs : List TableDataFile} {pool : ℤ},
    (collect o force fs 0 pool).1 = [f] →
      fs.filter (isEligible o force) = [f] ∨ 3 * o.target < 4 * addSize pool f
  | g :: fs, pool, h => by
    unfold collect at h
    cases he : isEligible o force g with
    | false =>
      rw [filter_cons_of_neg (by simp [he])]
      exact of_collect_eq_singleton (by simpa [he] using h)
    | true =>
      rw [he, if_pos rfl] at h
      rw [filter_cons_of_pos he]
      split_ifs at h with ho hf
      · obtain ⟨rfl, -⟩ := List.cons.inj h
        exact .inr ho
      · simp [maxFilesPerCompaction] at hf
      · obtain ⟨rfl, hnil⟩ := List.cons.inj h
        refine .inl (congrArg (g :: ·) ?_)
        by_contra hne
        exact collect_ne_nil hne hnil

/-- **The candidates of a group that yields are compacted.** -/
theorem tryCompactDataFiles_of_yields (hy : Yields o force group)
    (hne : filterCompactionCandidates o force group ≠ []) :
    tryCompactDataFiles o (filterCompactionCandidates o force group) = true := by
  have hc : filterCompactionCandidates o force group = (collect o force group 0 0).1 := by
    unfold filterCompactionCandidates at hne ⊢
    simp only at hne ⊢
    split_ifs at hne ⊢
    · exact absurd rfl hne
    · rfl
  have he := (@prefix_of_collect o force group 0 0).subset
  rw [hc] at hne ⊢
  generalize hch : (collect o force group 0 0).1 = chosen at hne he ⊢
  unfold tryCompactDataFiles
  split
  · rename_i f
    obtain ⟨hl, ha⟩ := hy f (he mem_cons_self)
    have hw : IsCompactedAlone o f := by
      refine ha.resolve_right fun ⟨ho, hs⟩ => ?_
      rcases of_collect_eq_singleton hch with honly | hov
      · exact ho honly
      · exact absurd hov (not_lt.mpr hs)
    rw [if_neg, decide_eq_true_eq]
    · exact hl
    · simp only [Bool.and_eq_true, Bool.or_eq_true, Bool.not_eq_true', decide_eq_true_eq]
      rintro ⟨⟨hsm, hfew⟩, hm⟩
      rcases hw with hla | hmany | ⟨hforced, hdel⟩
      · omega
      · simp [hfew] at hmany
      · rcases hm with hm | hz
        · simp [hforced] at hm
        · omega
  · rw [decide_eq_true_eq]
    refine List.sum_pos _ (fun n hn => ?_) (by simpa using hne)
    obtain ⟨f, hf, rfl⟩ := mem_map.mp hn
    exact (hy f (he hf)).1

/-- The chosen files are the candidates of some group, and there are none only if no group has
    any. -/
theorem mostEligibleFiles_spec (o : Options) (force : Bool) (gs : List (List TableDataFile)) :
    (mostEligibleFiles o force gs = none →
      ∀ group ∈ gs, filterCompactionCandidates o force group = []) ∧
    ∀ cands, mostEligibleFiles o force gs = some cands →
      ∃ group ∈ gs, filterCompactionCandidates o force group = cands ∧
        cands ≠ [] := by
  induction gs using List.reverseRecOn with
  | nil => exact ⟨fun _ _ h => (not_mem_nil h).elim, fun _ h => (by cases h)⟩
  | append_singleton gs group ih =>
    obtain ⟨hn, hs⟩ := ih
    have hold : ∀ cands, mostEligibleFiles o force gs = some cands →
        ∃ g ∈ gs ++ [group], filterCompactionCandidates o force g = cands ∧
          cands ≠ [] := fun cands h => by
      obtain ⟨g, hg, hf⟩ := hs cands h
      exact ⟨g, mem_append_left _ hg, hf⟩
    unfold mostEligibleFiles at hn hold ⊢
    rw [foldl_append, foldl_cons, foldl_nil]
    simp only
    split_ifs with hnil
    · refine ⟨fun h g hg => ?_, hold⟩
      rcases mem_append.mp hg with hg | hg
      · exact hn h g hg
      · rwa [mem_singleton.mp hg]
    · have hnew : ∃ g ∈ gs ++ [group], filterCompactionCandidates o force g =
          filterCompactionCandidates o force group ∧ filterCompactionCandidates o force group ≠ [] :=
        ⟨group, by simp, rfl, hnil⟩
      split
      · exact ⟨fun h => (by cases h), fun cands h => by cases h; exact hnew⟩
      · rename_i hmost
        split_ifs
        · exact ⟨fun h => (by cases h), fun cands h => by cases h; exact hnew⟩
        · exact ⟨fun h => absurd (hmost.symm.trans h) (by simp), hold⟩

/-- Five small files of one partition, and a single one of another. -/
def fiveAndOne : List TableDataFile :=
  { plainFile 6 6 1 with specPartitionKey := 1 } :: (range 5).map fun id => plainFile id id 1

/-- A file half of whose rows are deleted, alone in its partition. -/
def halfDeleted : TableDataFile := ⟨1, true, 0, 1, 1, mbBytes, 10, 5⟩

end PgLake.Fdw.CompactionChoice
