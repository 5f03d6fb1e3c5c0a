/-
  Snapshots of the table metadata and their expiration (`api/table_metadata.c`).

  Main result: `safeExpiration_iff`.
-/
import PgLake.Lib.MachineInt

namespace PgLake.Iceberg

open List

/-- The fields of `IcebergSnapshot` that expiration reads. -/
structure IcebergSnapshot where
  snapshotId : Int64
  timestampMs : Int64
  deriving DecidableEq

/-- The part of `IcebergTableMetadata` that expiration reads and updates. -/
structure IcebergTableMetadata where
  currentSnapshotId : Int64
  snapshots : List IcebergSnapshot
  deriving DecidableEq

/-- `IcebergCatalogType` (`catalog_type.h`). -/
inductive IcebergCatalogType where
  | noneCatalog
  | postgresCatalog
  | restCatalogReadOnly
  | restCatalogReadWrite
  | objectStoreReadOnly
  | objectStoreReadWrite
  deriving DecidableEq

/-- `SnapshotAgeExceeded`.  The difference is an `int64_t`; the comparison
    with the `uint64_t` bound converts it to unsigned. -/
def snapshotAgeExceeded (snapshot : IcebergSnapshot) (currentTimeMs : Int64)
    (maxAgeInSecs : Int32) : Bool :=
  let maxAgeMs : UInt64 := maxAgeInSecs.toInt64.toUInt64 * 1000
  decide (maxAgeMs < (currentTimeMs - snapshot.timestampMs).toUInt64)

/-- `GroupExpiredSnapshots`: one pass over the list, filling the expired and
    the non-expired array. -/
def groupExpiredSnapshots (metadata : IcebergTableMetadata) (currentTimeMs : Int64)
    (maxSnapshotAgeInSecs : Int32) : List IcebergSnapshot × List IcebergSnapshot :=
  metadata.snapshots.foldl
    (fun (expired, nonExpired) snapshot =>
      if snapshotAgeExceeded snapshot currentTimeMs maxSnapshotAgeInSecs then
        (expired ++ [snapshot], nonExpired)
      else
        (expired, nonExpired ++ [snapshot]))
    ([], [])

/-- What one expiration does: the new metadata, the ids it returns, and the
    two lists it hands to `DeleteUnreferencedFiles`. -/
structure ExpirationResult where
  metadata : IcebergTableMetadata
  expiredSnapshotIds : List Int64
  expired : List IcebergSnapshot
  retained : List IcebergSnapshot
  deriving DecidableEq

def ExpirationResult.nothing (metadata : IcebergTableMetadata) : ExpirationResult where
  metadata := metadata
  expiredSnapshotIds := []
  expired := []
  retained := metadata.snapshots

def ExpirationResult.expire (catalogType : IcebergCatalogType) (metadata : IcebergTableMetadata)
    (expired retained : List IcebergSnapshot) : ExpirationResult where
  metadata :=
    if catalogType = .restCatalogReadWrite then metadata
    else { metadata with snapshots := retained }
  expiredSnapshotIds := expired.map IcebergSnapshot.snapshotId
  expired := expired
  retained := retained

/-- `RemoveOldSnapshotsFromMetadata`: the last snapshot stays, old ones before it go. -/
def removeOldSnapshotsFromMetadata (catalogType : IcebergCatalogType)
    (metadata : IcebergTableMetadata) (currentTimeMs : Int64) (maxSnapshotAgeInSecs : Int32) :
    ExpirationResult :=
  match metadata.snapshots.getLast? with
  | none => .nothing metadata
  | some lastSnapshot =>
    let (expired, nonExpired) := groupExpiredSnapshots metadata currentTimeMs maxSnapshotAgeInSecs
    if expired.length = 0 then
      .nothing metadata
    else if nonExpired.length = 0 then
      -- the count is decremented, which drops the last expired element
      if expired.length - 1 = 0 then
        .nothing metadata
      else
        .expire catalogType metadata (expired.take (expired.length - 1)) [lastSnapshot]
    else
      .expire catalogType metadata expired nonExpired

/-! ## What the two lists are -/

theorem groupExpired_foldl (f : IcebergSnapshot → Bool) (l : List IcebergSnapshot) :
    ∀ e n : List IcebergSnapshot, l.foldl (fun (expired, nonExpired) s =>
        if f s then (expired ++ [s], nonExpired) else (expired, nonExpired ++ [s])) (e, n) =
      (e ++ l.filter f, n ++ l.filter (fun s => !f s)) := by
  induction l with
  | nil => simp
  | cons s l ih =>
    intro e n
    by_cases hs : f s <;> simp [hs, ih]

theorem groupExpiredSnapshots_eq (md : IcebergTableMetadata) (now : Int64) (age : Int32) :
    groupExpiredSnapshots md now age = (md.snapshots.filter (snapshotAgeExceeded · now age),
       md.snapshots.filter (fun s => !snapshotAgeExceeded s now age)) := by
  simp [groupExpiredSnapshots, groupExpired_foldl (snapshotAgeExceeded · now age)]

variable {md : IcebergTableMetadata} {now : Int64} {age : Int32} (ct : IcebergCatalogType)

open ExpirationResult

theorem removeOld_of_all (hne : md.snapshots ≠ [])
    (hall : ∀ s ∈ md.snapshots, snapshotAgeExceeded s now age) :
    (removeOldSnapshotsFromMetadata ct md now age).expired = md.snapshots.dropLast ∧
      (removeOldSnapshotsFromMetadata ct md now age).retained = [md.snapshots.getLast hne] := by
  have hexp : md.snapshots.filter (snapshotAgeExceeded · now age) = md.snapshots :=
    filter_eq_self.mpr hall
  have hnon : md.snapshots.filter (fun s => !snapshotAgeExceeded s now age) = [] := by
    simpa using hall
  have hlen : md.snapshots.length ≠ 0 := by simpa using hne
  simp only [removeOldSnapshotsFromMetadata, getLast?_eq_some_getLast hne,
    groupExpiredSnapshots_eq, hexp, hnon, hlen, length_nil, if_true, if_false]
  by_cases hone : md.snapshots.length - 1 = 0
  · obtain ⟨s, hs⟩ : ∃ s, md.snapshots = [s] := length_eq_one_iff.mp (by omega)
    simp [nothing, hs]
  · simp [hone, expire, dropLast_eq_take]

theorem removeOld_of_exists (hex : ∃ s ∈ md.snapshots, snapshotAgeExceeded s now age = false) :
    (removeOldSnapshotsFromMetadata ct md now age).expired =
        md.snapshots.filter (snapshotAgeExceeded · now age) ∧
      (removeOldSnapshotsFromMetadata ct md now age).retained =
        md.snapshots.filter (fun s => !snapshotAgeExceeded s now age) := by
  obtain ⟨s, hs, hyoung⟩ := hex
  have hne : md.snapshots ≠ [] := ne_nil_of_mem hs
  have hm : s ∈ md.snapshots.filter (fun s => !snapshotAgeExceeded s now age) :=
    mem_filter.mpr ⟨hs, by simp [hyoung]⟩
  have hlen : (md.snapshots.filter (fun s => !snapshotAgeExceeded s now age)).length ≠ 0 := by
    simpa using ne_nil_of_mem hm
  simp only [removeOldSnapshotsFromMetadata, getLast?_eq_some_getLast hne,
    groupExpiredSnapshots_eq, hlen, if_false]
  by_cases hexp : (md.snapshots.filter (snapshotAgeExceeded · now age)).length = 0
  · have hnil := length_eq_zero_iff.mp hexp
    have hk : md.snapshots.filter (fun s => !snapshotAgeExceeded s now age) = md.snapshots := by
      rw [filter_eq_self]
      intro t ht
      simpa using filter_eq_nil_iff.mp hnil t ht
    simp [hnil, nothing, hk]
  · simp [hexp, expire]

theorem removeOld_expiredSnapshotIds (md : IcebergTableMetadata) (now : Int64) (age : Int32) :
    (removeOldSnapshotsFromMetadata ct md now age).expiredSnapshotIds =
      (removeOldSnapshotsFromMetadata ct md now age).expired.map IcebergSnapshot.snapshotId := by
  unfold removeOldSnapshotsFromMetadata
  split
  · rfl
  · dsimp only
    split_ifs <;> rfl

/-! ## The age test -/

theorem toNat_maxAgeMs (hage : 0 ≤ age.toInt) :
    ((age.toInt64.toUInt64 * 1000).toNat : ℤ) = age.toInt * 1000 := by
  have hval := MachineInt.toNat_toInt64_of_nonneg hage
  have hlt := age.toInt_lt
  have hk : (1000 : UInt64).toNat = 1000 := rfl
  rw [UInt64.toNat_mul, hk]
  omega

variable {s : IcebergSnapshot}

theorem snapshotAgeExceeded_of_le (hage : 0 ≤ age.toInt) (hts : s.timestampMs.toInt ≤ now.toInt) :
    snapshotAgeExceeded s now age ↔ age.toInt * 1000 < now.toInt - s.timestampMs.toInt := by
  simp only [snapshotAgeExceeded, decide_eq_true_eq]
  rw [MachineInt.lt_sub_iff hts, toNat_maxAgeMs hage]

/-- A snapshot that fails the test is older than the limit exactly when it is
    not from the future. -/
theorem aged_iff_of_exceeded (hage : 0 ≤ age.toInt) (hexc : snapshotAgeExceeded s now age) :
    age.toInt * 1000 < now.toInt - s.timestampMs.toInt ↔ s.timestampMs.toInt ≤ now.toInt := by
  constructor
  · intro h
    omega
  · intro h
    exact (snapshotAgeExceeded_of_le hage h).mp hexc

/-! ## When expiration is safe -/

/-- What expiration is for: the current snapshot stays (in the list, and out of
    the ids removed from a REST catalog), some snapshot stays, and only
    snapshots older than the limit go. -/
structure SafeExpiration (md : IcebergTableMetadata) (now : Int64) (age : Int32)
    (res : ExpirationResult) : Prop where
  current_retained : ∃ s ∈ res.retained, s.snapshotId = md.currentSnapshotId
  current_not_expired : md.currentSnapshotId ∉ res.expiredSnapshotIds
  retained_ne_nil : res.retained ≠ []
  only_aged : ∀ s ∈ res.expired, age.toInt * 1000 < now.toInt - s.timestampMs.toInt

/-- The snapshots at stake: those the age test rejects, without the last of the
    list if it rejects all of them. -/
def expirationCandidates (md : IcebergTableMetadata) (now : Int64) (age : Int32) :
    List IcebergSnapshot :=
  if md.snapshots.all (snapshotAgeExceeded · now age) then md.snapshots.dropLast
  else md.snapshots.filter (snapshotAgeExceeded · now age)

theorem removeOld_expired (hne : md.snapshots ≠ []) (now : Int64) (age : Int32) :
    (removeOldSnapshotsFromMetadata ct md now age).expired = expirationCandidates md now age := by
  unfold expirationCandidates
  split_ifs with hall
  · exact (removeOld_of_all ct hne (by simpa using hall)).1
  · exact (removeOld_of_exists ct (by simpa using hall)).1

theorem exceeded_of_candidate (hs : s ∈ expirationCandidates md now age) :
    snapshotAgeExceeded s now age := by
  unfold expirationCandidates at hs
  split_ifs at hs with hall
  · exact all_eq_true.mp hall s (dropLast_subset _ hs)
  · exact (mem_filter.mp hs).2

theorem retained_or_candidate (now : Int64) (age : Int32) (hs : s ∈ md.snapshots) :
    s ∈ (removeOldSnapshotsFromMetadata ct md now age).retained ∨
      s ∈ expirationCandidates md now age := by
  have hne := ne_nil_of_mem hs
  unfold expirationCandidates
  split_ifs with hall
  · rw [(removeOld_of_all ct hne (by simpa using hall)).2]
    rw [← dropLast_concat_getLast hne, mem_append] at hs
    exact hs.symm
  · rw [(removeOld_of_exists ct (by simpa using hall)).2]
    cases hexc : snapshotAgeExceeded s now age with
    | true => exact Or.inr (mem_filter.mpr ⟨hs, hexc⟩)
    | false => exact Or.inl (mem_filter.mpr ⟨hs, by simp [hexc]⟩)

/-- **Expiration is safe exactly when no candidate is the current snapshot or
    lies in the future of the local clock.** -/
theorem safeExpiration_iff (ct : IcebergCatalogType) (md : IcebergTableMetadata) (now : Int64)
    (age : Int32) (hcur : ∃ s ∈ md.snapshots, s.snapshotId = md.currentSnapshotId)
    (hage : 0 ≤ age.toInt) :
    SafeExpiration md now age (removeOldSnapshotsFromMetadata ct md now age) ↔
      ∀ s ∈ expirationCandidates md now age,
        s.snapshotId ≠ md.currentSnapshotId ∧ s.timestampMs.toInt ≤ now.toInt := by
  obtain ⟨c, hc, hcid⟩ := hcur
  have hexp := removeOld_expired ct (ne_nil_of_mem hc) now age
  have hids := removeOld_expiredSnapshotIds ct md now age
  rw [hexp] at hids
  constructor
  · intro h s hs
    refine ⟨fun hid => h.current_not_expired ?_, ?_⟩
    · rw [hids, ← hid]
      exact mem_map_of_mem hs
    · exact (aged_iff_of_exceeded hage (exceeded_of_candidate hs)).mp
        (h.only_aged s (hexp ▸ hs))
  · intro h
    have hret : c ∈ (removeOldSnapshotsFromMetadata ct md now age).retained := by
      rcases retained_or_candidate ct now age hc with hret | hcand
      · exact hret
      · exact absurd hcid (h c hcand).1
    refine ⟨⟨c, hret, hcid⟩, ?_, ne_nil_of_mem hret, ?_⟩
    · rw [hids]
      rintro hmem
      obtain ⟨s, hs, hid⟩ := mem_map.mp hmem
      exact (h s hs).1 hid
    · intro s hs
      rw [hexp] at hs
      exact (aged_iff_of_exceeded hage (exceeded_of_candidate hs)).mpr (h s hs).2

/-- The newer of two snapshots is current and within the limit, the older one is not. -/
theorem safeExpiration_iff_aged : SafeExpiration ⟨2, [⟨1, 10000⟩, ⟨2, 90000⟩]⟩ 100000 50
    (removeOldSnapshotsFromMetadata .postgresCatalog ⟨2, [⟨1, 10000⟩, ⟨2, 90000⟩]⟩ 100000 50) :=
  (safeExpiration_iff .postgresCatalog ⟨2, [⟨1, 10000⟩, ⟨2, 90000⟩]⟩ 100000 50
    (by decide) (by decide)).mpr (by decide)

/-- The current snapshot, written five seconds ahead of the local clock, is
    expired although neither snapshot is older than fifty seconds. -/
theorem future_current_snapshot_expired :
    (∃ s ∈ [(⟨1, 60000⟩ : IcebergSnapshot), ⟨2, 105000⟩], s.snapshotId = 2) ∧
      (removeOldSnapshotsFromMetadata .postgresCatalog ⟨2, [⟨1, 60000⟩, ⟨2, 105000⟩]⟩ 100000 50
        ).retained = [⟨1, 60000⟩] ∧
      ¬ SafeExpiration ⟨2, [⟨1, 60000⟩, ⟨2, 105000⟩]⟩ 100000 50
        (removeOldSnapshotsFromMetadata .postgresCatalog ⟨2, [⟨1, 60000⟩, ⟨2, 105000⟩]⟩
          100000 50) := by
  refine ⟨by decide, by decide, fun h => ?_⟩
  exact absurd h.current_not_expired (by decide)

end PgLake.Iceberg
