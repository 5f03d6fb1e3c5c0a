/-
  Marking the entries of removed files (`FindAndAdjustDeletedManifestEntries` in
  `api/manifest_entry.c`).

  Main result: `marks_exactly_iff`.
-/
import Mathlib.Algebra.Order.Ring.Int
import PgLake.Iceberg.Manifests

namespace PgLake.Iceberg

open List ManifestEntry Bool

variable {P : Type}

/-! ## Counts by status -/

namespace ManifestCounts

/-- The file count for a status. -/
def files (counts : ManifestCounts) : EntryStatus → ℤ
  | .added => counts.addedFiles
  | .existing => counts.existingFiles
  | .deleted => counts.deletedFiles

def rows (counts : ManifestCounts) : EntryStatus → ℤ
  | .added => counts.addedRows
  | .existing => counts.existingRows
  | .deleted => counts.deletedRows

end ManifestCounts

def filesWith (status : EntryStatus) (entries : List (ManifestEntry P)) : ℤ :=
  (entries.filter fun entry => entry.status = status).length

def rowsWith (status : EntryStatus) (entries : List (ManifestEntry P)) : ℤ :=
  ((entries.filter fun entry => entry.status = status).map fun entry =>
    entry.dataFile.recordCount).sum

/-- The live counts drop by those of some entries, the statuses of which are the old ones. -/
def DropsBy (counts counts' : ManifestCounts) (entries : List (ManifestEntry P)) : Prop :=
  ∀ status, status ≠ .deleted →
    counts'.files status = counts.files status - filesWith status entries ∧
      counts'.rows status = counts.rows status - rowsWith status entries

theorem DropsBy.refl (cs : ManifestCounts) : DropsBy cs cs ([] : List (ManifestEntry P)) :=
  fun _ _ => by simp [filesWith, rowsWith]

theorem DropsBy.trans {counts₁ counts₂ counts₃ : ManifestCounts} {l₁ l₂ : List (ManifestEntry P)}
    (h₁ : DropsBy counts₁ counts₂ l₁) (h₂ : DropsBy counts₂ counts₃ l₂) :
    DropsBy counts₁ counts₃ (l₁ ++ l₂) := by
  intro status hs
  obtain ⟨hf₁, hr₁⟩ := h₁ status hs
  obtain ⟨hf₂, hr₂⟩ := h₂ status hs
  simp only [filesWith, rowsWith, filter_append, map_append, sum_append,
    length_append, Nat.cast_add] at *
  omega

theorem updateManifestEntryStateToDeleted_drops (cs : ManifestCounts) (e : ManifestEntry P)
    (snapshotId : Int64) :
    DropsBy cs (updateManifestEntryStateToDeleted cs e snapshotId).1
      (if e.isScannable then [e] else []) := by
  intro status hs
  unfold updateManifestEntryStateToDeleted isScannable
  cases he : e.status <;> cases status <;>
    simp_all [ManifestCounts.files, ManifestCounts.rows, filesWith, rowsWith]

/-! ## The entries a removal is for -/

/-- The entry is marked as deleted. -/
def isMarked (removed : List FilePath) (allEntries : Bool) (entry : ManifestEntry P) : Bool :=
  entry.isScannable && (allEntries || entry.path ∈ removed)

section Counts
variable {removed : List FilePath} {snapshotId : Int64}

theorem foldl_adjustForRemovedEntry_drops (removed : List FilePath) :
    ∀ (cs : ManifestCounts) (entry : ManifestEntry P) (times : ℕ), DropsBy cs
        (removed.foldl (adjustForRemovedEntry snapshotId) (cs, entry, times)).1
        (if isMarked removed false entry then [entry] else []) := by
  induction removed with
  | nil =>
    intro cs entry times
    simpa [isMarked] using DropsBy.refl cs
  | cons p removed ih =>
    intro cs entry times
    rw [foldl_cons]
    by_cases hp : entry.path = p
    · have hf := updateManifestEntryStateToDeleted_drops cs entry snapshotId
      have hr := ih (updateManifestEntryStateToDeleted cs entry snapshotId).1
        (entry.markDeleted snapshotId) (times + 1)
      have hd : isMarked removed false (entry.markDeleted snapshotId) = false := rfl
      have hm : isMarked (p :: removed) false entry = entry.isScannable := by
        simp [isMarked, hp]
      rw [hd, if_neg Bool.false_ne_true] at hr
      rw [adjustForRemovedEntry_of_eq hp, hm]
      simpa using hf.trans hr
    · have hm : isMarked (p :: removed) false entry = isMarked removed false entry := by
        simp [isMarked, hp]
      rw [adjustForRemovedEntry_of_ne hp, hm]
      exact ih cs entry times

theorem adjustDeletedManifestEntry_drops (cs : ManifestCounts) (e : ManifestEntry P)
    (allEntries : Bool) :
    DropsBy cs (adjustDeletedManifestEntry cs e removed snapshotId allEntries).1
      (if isMarked removed allEntries e then [e] else []) := by
  cases allEntries with
  | false => exact foldl_adjustForRemovedEntry_drops removed cs e 0
  | true =>
    have hm : isMarked removed true e = e.isScannable := by simp [isMarked]
    rw [hm]
    unfold adjustDeletedManifestEntry
    by_cases hd : e.status = .deleted
    · simpa [hd, isScannable] using DropsBy.refl cs
    · simpa [hd] using updateManifestEntryStateToDeleted_drops cs e snapshotId

/-- **The counts drop by the entries the removal is for.** -/
theorem counts_drop (allEntries : Bool) (es : List (ManifestEntry P)) :
    ∀ cs : ManifestCounts, DropsBy cs
        (findAndAdjustDeletedManifestEntries removed snapshotId allEntries cs es).1
        (es.filter (isMarked removed allEntries)) := by
  induction es with
  | nil => exact DropsBy.refl
  | cons e es ih =>
    intro cs
    have hf := @adjustDeletedManifestEntry_drops P removed snapshotId cs e allEntries
    have hb := hf.trans (ih _)
    rw [filter_cons]
    split_ifs at hb ⊢ <;> exact hb

end Counts

/-! ## What is returned -/

/-- What `FindAndAdjustDeletedManifestEntries` should do. -/
structure MarksExactly (counts : ManifestCounts) (entries : List (ManifestEntry P))
    (removed : List FilePath) (snapshotId : Int64) (allEntries : Bool) : Prop where
  /-- the entries the removal is for are returned, once, as deleted in the new snapshot -/
  returned : deletedManifestEntries
      (findAndAdjustDeletedManifestEntries removed snapshotId allEntries counts entries).2 =
    (entries.filter (isMarked removed allEntries)).map (markDeleted snapshotId)
  untouched : (findAndAdjustDeletedManifestEntries removed snapshotId allEntries counts
      entries).2.map Prod.fst =
    entries.map fun entry =>
      if isMarked removed allEntries entry then entry.markDeleted snapshotId else entry
  drops : DropsBy counts
    (findAndAdjustDeletedManifestEntries removed snapshotId allEntries counts entries).1
    (entries.filter (isMarked removed allEntries))
  nonneg : ∀ status, status ≠ .deleted →
    0 ≤ (findAndAdjustDeletedManifestEntries removed snapshotId allEntries counts
        entries).1.files status ∧
      0 ≤ (findAndAdjustDeletedManifestEntries removed snapshotId allEntries counts
        entries).1.rows status

/-- A removed path of the manifest is given once, and its entry is live. -/
def RemovedOnce (entries : List (ManifestEntry P)) (removed : List FilePath) : Prop :=
  ∀ entry ∈ entries, entry.path ∈ removed → entry.status ≠ .deleted ∧ removed.count entry.path = 1

/-- The counts are not below those of the entries. -/
def Covers (counts : ManifestCounts) (entries : List (ManifestEntry P)) : Prop :=
  ∀ status, status ≠ .deleted →
    filesWith status entries ≤ counts.files status ∧ rowsWith status entries ≤ counts.rows status

theorem nonneg_iff_covers {cs cs' : ManifestCounts} {entries : List (ManifestEntry P)}
    (h : DropsBy cs cs' entries) :
    (∀ status, status ≠ .deleted → 0 ≤ cs'.files status ∧ 0 ≤ cs'.rows status) ↔
      Covers cs entries := by
  refine forall₂_congr fun status hs => ?_
  obtain ⟨hfs, hrs⟩ := h status hs
  rw [hfs, hrs, sub_nonneg, sub_nonneg]

section Returned
variable {removed : List FilePath} {snapshotId : Int64}

theorem adjustedEntry_of_once {e : ManifestEntry P}
    (h : e.path ∈ removed → e.status ≠ .deleted ∧ removed.count e.path = 1) :
    adjustedEntry removed snapshotId e =
      if isMarked removed false e then (e.markDeleted snapshotId, 1) else (e, 0) := by
  unfold adjustedEntry isMarked isScannable
  by_cases hp : e.path ∈ removed
  · simp [hp, h hp]
  · simp [hp, count_eq_zero.mpr hp]

theorem returned_of_marked {f : ManifestEntry P → ManifestEntry P × ℕ} {Marked : ManifestEntry P → Bool}
    {es : List (ManifestEntry P)} (h : ∀ entry ∈ es, f entry =
      if Marked entry then (entry.markDeleted snapshotId, 1) else (entry, 0)) :
    deletedManifestEntries (es.map f) = (es.filter Marked).map (markDeleted snapshotId) ∧
      (es.map f).map Prod.fst =
        es.map fun entry => if Marked entry then entry.markDeleted snapshotId else entry := by
  induction es with
  | nil => exact ⟨rfl, rfl⟩
  | cons entry es ih =>
    obtain ⟨hf, hr⟩ := forall_mem_cons.mp h
    obtain ⟨hdel, hfst⟩ := ih hr
    unfold deletedManifestEntries at hdel ⊢
    rw [map_cons, flatMap_cons, filter_cons, hf, hdel, map_cons, hfst]
    split_ifs with hm
    iterate 2 exact ⟨rfl, by simp [hm]⟩

/-- The entries returned are at least those the removal is for, and no more only if each removed
    path is given once. -/
theorem removedOnce_of_length {es : List (ManifestEntry P)} :
    (es.filter (isMarked removed false)).length ≤
        (deletedManifestEntries (es.map (adjustedEntry removed snapshotId))).length ∧
      ((deletedManifestEntries (es.map (adjustedEntry removed snapshotId))).length =
        (es.filter (isMarked removed false)).length → RemovedOnce es removed) := by
  induction es with
  | nil => simp [deletedManifestEntries, RemovedOnce]
  | cons e es ih =>
    obtain ⟨hle, honce⟩ := ih
    have hlen : (deletedManifestEntries
        ((e :: es).map (adjustedEntry removed snapshotId))).length =
        removed.count e.path +
          (deletedManifestEntries (es.map (adjustedEntry removed snapshotId))).length := by
      simp [deletedManifestEntries, adjustedEntry]
    have hc : isMarked removed false e = true → 0 < removed.count e.path := by
      intro h
      simp only [isMarked, Bool.false_or, and_eq_true, decide_eq_true_eq] at h
      exact count_pos_iff.mpr h.2
    rw [hlen, filter_cons]
    cases hm : isMarked removed false e with
    | true =>
      have hpos := hc hm
      simp only [if_true, length_cons]
      refine ⟨by omega, fun heq => ?_⟩
      simp only [isMarked, isScannable, Bool.false_or, and_eq_true, decide_eq_true_eq] at hm
      exact forall_mem_cons.mpr ⟨fun _ => ⟨hm.1, by omega⟩, honce (by omega)⟩
    | false =>
      simp only [false_eq_true, if_false]
      refine ⟨by omega, fun heq => ?_⟩
      have hz : removed.count e.path = 0 := by omega
      exact forall_mem_cons.mpr
        ⟨fun hp => absurd hp (count_eq_zero.mp hz), honce (by omega)⟩

end Returned

theorem marks_exactly_iff (counts : ManifestCounts) (entries : List (ManifestEntry P))
    (removed : List FilePath) (snapshotId : Int64) (allEntries : Bool) :
    MarksExactly counts entries removed snapshotId allEntries ↔
      (allEntries = false → RemovedOnce entries removed) ∧
        Covers counts (entries.filter (isMarked removed allEntries)) := by
  have hdrops := @counts_drop P removed snapshotId allEntries entries counts
  constructor
  · intro h
    refine ⟨?_, (nonneg_iff_covers hdrops).mp h.nonneg⟩
    rintro rfl
    have hreturned := h.returned
    rw [findAndAdjustDeletedManifestEntries_eq] at hreturned
    refine (@removedOnce_of_length P removed snapshotId entries).2 ?_
    rw [hreturned, length_map]
  · rintro ⟨honce, hcovers⟩
    have hboth : deletedManifestEntries (findAndAdjustDeletedManifestEntries removed snapshotId
          allEntries counts entries).2 =
          (entries.filter (isMarked removed allEntries)).map
            (markDeleted snapshotId) ∧
        (findAndAdjustDeletedManifestEntries removed snapshotId allEntries counts
          entries).2.map Prod.fst =
          entries.map fun entry =>
            if isMarked removed allEntries entry then entry.markDeleted snapshotId else entry := by
      cases allEntries with
      | false =>
        rw [findAndAdjustDeletedManifestEntries_eq]
        exact returned_of_marked fun entry hentry =>
          adjustedEntry_of_once (honce rfl entry hentry)
      | true =>
        rw [findAndAdjustDeletedManifestEntries_all]
        refine returned_of_marked fun entry _ => ?_
        unfold adjustedByTruncate isMarked isScannable
        by_cases hdeleted : entry.status = .deleted <;> simp [hdeleted]
    exact ⟨hboth.1, hboth.2, hdrops, (nonneg_iff_covers hdrops).mpr hcovers⟩

/-! ## Three removals -/

def removedFile : FilePath := ⟨"a.parquet", by decide⟩

def entryOfRemovedFile (status : EntryStatus) : ManifestEntry Unit where
  status := status
  hasSnapshotId := true
  snapshotId := 1
  hasSequenceNumber := true
  sequenceNumber := 1
  dataFile := ⟨removedFile, .data, (), 5⟩

/-- A path that is given twice is returned twice.  An entry that was deleted in snapshot 1 is
    returned, and deleted in snapshot 2.  In a manifest that counts an entry as existing, which its
    file has as added, the added counts drop below zero. -/
theorem removed_twice_deleted_before_and_miscounted :
    deletedManifestEntries (findAndAdjustDeletedManifestEntries [removedFile, removedFile] 2 false
        { addedFiles := 1, addedRows := 5 } [entryOfRemovedFile .added]).2 =
      [(entryOfRemovedFile .added).markDeleted 2, (entryOfRemovedFile .added).markDeleted 2] ∧
    (findAndAdjustDeletedManifestEntries [removedFile] 2 false { deletedFiles := 1, deletedRows := 5 }
        [entryOfRemovedFile .deleted]).2 = [((entryOfRemovedFile .deleted).markDeleted 2, 1)] ∧
    (findAndAdjustDeletedManifestEntries [removedFile] 2 false { existingFiles := 1, existingRows := 5 }
        [entryOfRemovedFile .added]).1 =
      { addedFiles := -1, addedRows := -5, existingFiles := 1, existingRows := 5, deletedFiles := 1,
        deletedRows := 5 } :=
  ⟨by decide, by decide, by decide⟩

end PgLake.Iceberg
