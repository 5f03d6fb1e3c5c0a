/-
  Manifest compaction (`operations/manifest_merge.c`).

  Main result: `mergeDataManifests_preserves`.
-/
import PgLake.Iceberg.Manifests
import PgLake.Lib.BestFit

namespace PgLake.Iceberg

open BestFit Grouping List

variable {P : Type}

/-- `pg_lake_iceberg.enable_manifest_merge_on_write`, `target_manifest_size_kb` and
    `manifest_min_count_to_merge`. -/
structure MergeSettings where
  enableManifestMergeOnWrite : Bool
  targetManifestSizeKB : Int32
  manifestMinCountToMerge : Int32
  deriving DecidableEq

/-- `TargetManifestSizeKB * KB_BYTES`, a product of two `int`. -/
def MergeSettings.targetSize (cfg : MergeSettings) : ℤ :=
  (cfg.targetManifestSizeKB * 1024).toInt

/-! ## Dropping deleted entries -/

section

variable (writer : ManifestWriter P) (snapshot : SnapshotHeader) (content : ManifestContent)

/-- `RemoveDeletedManifestEntriesInternal`: the manifest left, if any, whether it is another one,
    and the next manifest index. -/
def removeDeletedManifestEntriesInternal (manifest : Manifest P) (manifestIndex : ℕ) :
    Option (Manifest P) × Bool × ℕ :=
  let newManifestEntries := manifest.entries.filter ManifestEntry.isScannable
  if newManifestEntries.isEmpty then (none, true, manifestIndex)
  else if newManifestEntries.length ≠ manifest.entries.length then
    (some (writer.write snapshot manifest.partitionSpecId content newManifestEntries
      newManifestEntries manifestIndex), true, manifestIndex + 1)
  else (some manifest, false, manifestIndex)

def removeDeletedManifestEntries : List (Manifest P) → ℕ → List (Manifest P) × Bool × ℕ
  | [], manifestIndex => ([], false, manifestIndex)
  | manifest :: rest, manifestIndex =>
    let (kept, modified, manifestIndex) :=
      removeDeletedManifestEntriesInternal writer snapshot content manifest manifestIndex
    let (keptRest, anyModified, manifestIndex) := removeDeletedManifestEntries rest manifestIndex
    (kept.toList ++ keptRest, modified || anyModified, manifestIndex)

theorem contentOf_filter_isScannable (entries : List (ManifestEntry P)) :
    contentOf (entries.filter ManifestEntry.isScannable) = contentOf entries := by
  simp [contentOf]

theorem tableContent_removeDeletedManifestEntriesInternal (m : Manifest P)
    (manifestIndex : ℕ) :
    tableContent (removeDeletedManifestEntriesInternal writer snapshot content m
      manifestIndex).1.toList = contentOf m.entries := by
  unfold removeDeletedManifestEntriesInternal
  simp only
  split_ifs with he
  · rw [List.isEmpty_iff] at he
    simp [contentOf, he]
  · simp [ManifestWriter.write, contentOf_filter_isScannable]
  · simp

/-- **Dropping deleted entries keeps the content.** -/
theorem tableContent_removeDeletedManifestEntries (manifests : List (Manifest P)) :
    ∀ manifestIndex : ℕ,
      tableContent (removeDeletedManifestEntries writer snapshot content manifests
        manifestIndex).1 = tableContent manifests := by
  induction manifests with
  | nil =>
    intro manifestIndex
    rfl
  | cons m rest ih =>
    intro manifestIndex
    simp [removeDeletedManifestEntries, tableContent_removeDeletedManifestEntriesInternal, ih]

theorem content_of_mem_removeDeletedManifestEntries {ms : List (Manifest P)}
    {manifestIndex : ℕ} (hc : ∀ m ∈ ms, m.content = content) :
    ∀ m ∈ (removeDeletedManifestEntries writer snapshot content ms
      manifestIndex).1, m.content = content := by
  induction ms generalizing manifestIndex with
  | nil =>
    intro m hm
    simp [removeDeletedManifestEntries] at hm
  | cons first rest ih =>
    intro m hm
    obtain ⟨hfirstContent, hrestContent⟩ := forall_mem_cons.mp hc
    simp only [removeDeletedManifestEntries, mem_append, Option.mem_toList] at hm
    rcases hm with hf | hr
    · unfold removeDeletedManifestEntriesInternal at hf
      simp only at hf
      split_ifs at hf
      · cases hf
        rfl
      · cases hf
        exact hfirstContent
    · exact ih hrestContent m hr

end

/-! ## Merging -/

/-- `ManifestGroup`: a bin of manifests of one partition spec. -/
structure ManifestGroup (P : Type) where
  partitionSpecId : Int32
  bin : Bin (Manifest P)

def ManifestGroup.manifests (group : ManifestGroup P) : List (Manifest P) := group.bin.items

section

variable (cfg : MergeSettings) (order : HashOrder (Int32 × List (Manifest P)))
  (writer : ManifestWriter P) (snapshot : SnapshotHeader)

/-- `GroupManifestsByPartitionSpecId` and `CreateManifestGroupsWithTargetSize` of each group. -/
def manifestGroups (dataManifests : List (Manifest P)) : List (ManifestGroup P) :=
  (order.seq (groupBy Manifest.partitionSpecId dataManifests)).flatMap fun group =>
    (pack Manifest.length cfg.targetSize group.2).map fun bin => ⟨group.1, bin⟩

/-- `MergeManifestGroup`: nothing when all manifests are empty. -/
def mergeManifestGroup (group : ManifestGroup P) (manifestIndex : ℕ) : Option (Manifest P) :=
  let entries := group.manifests.flatMap fun manifest =>
    setExistingStatusForOldSnapshotAddedEntries snapshot.snapshotId manifest.entries
  if entries.isEmpty then none
  else some (writer.write snapshot group.partitionSpecId .data entries entries manifestIndex)

variable [DecidableEq P]

def isMergeableManifestGroup (latestManifest : Manifest P) (group : ManifestGroup P) : Bool :=
  if group.manifests.length = 1 then false
  else if latestManifest ∈ group.manifests ∧
      (group.manifests.length : ℤ) < cfg.manifestMinCountToMerge.toInt then false
  else true

/-- The merged manifests, the ones left alone, and the next manifest index. -/
def mergeManifestGroups (latestManifest : Manifest P) :
    List (ManifestGroup P) → ℕ → List (Manifest P) × List (Manifest P) × ℕ
  | [], manifestIndex => ([], [], manifestIndex)
  | group :: rest, manifestIndex =>
    if isMergeableManifestGroup cfg latestManifest group then
      match mergeManifestGroup writer snapshot group manifestIndex with
      | some merged =>
        let (mergedRest, unmerged, manifestIndex) :=
          mergeManifestGroups latestManifest rest (manifestIndex + 1)
        (merged :: mergedRest, unmerged, manifestIndex)
      | none => mergeManifestGroups latestManifest rest manifestIndex
    else
      let (mergedRest, unmerged, manifestIndex) :=
        mergeManifestGroups latestManifest rest manifestIndex
      (mergedRest, group.manifests ++ unmerged, manifestIndex)

def mergeDataManifests (dataManifests : List (Manifest P)) (manifestIndex : ℕ) :
    List (Manifest P) × ℕ :=
  match dataManifests.getLast? with
  | none => ([], manifestIndex)
  | some latestManifest =>
    let (merged, unmerged, manifestIndex) :=
      mergeManifestGroups cfg writer snapshot latestManifest
        (manifestGroups cfg order dataManifests) manifestIndex
    (merged ++ unmerged, manifestIndex)

def hasMergeableManifests (dataManifests : List (Manifest P)) : Bool :=
  match dataManifests.getLast? with
  | none => false
  | some latestManifest =>
    (manifestGroups cfg order dataManifests).any
      (isMergeableManifestGroup cfg latestManifest)

end

/-! ## Content of merged manifests -/

open ManifestGroup

section

variable {cfg : MergeSettings} {order : HashOrder (Int32 × List (Manifest P))}
  {writer : ManifestWriter P} {snapshot : SnapshotHeader}

theorem perm_manifestGroups (dataManifests : List (Manifest P)) :
    ((manifestGroups cfg order dataManifests).flatMap manifests).Perm
      dataManifests := by
  unfold manifestGroups
  rw [flatMap_assoc]
  have hg : ∀ group : Int32 × List (Manifest P),
      (((pack Manifest.length cfg.targetSize group.2).map fun bin =>
        (⟨group.1, bin⟩ : ManifestGroup P)).flatMap manifests).Perm group.2 := by
    intro group
    rw [flatMap_map]
    exact perm_flatMap_pack Manifest.length cfg.targetSize group.2
  refine (List.Perm.flatMap_left _ fun group _ => hg group).trans ?_
  exact ((order.perm _).flatMap_right _).trans (perm_flatMap_groupBy _ dataManifests)

theorem contentOf_merged (snapshot : SnapshotHeader) (group : ManifestGroup P) :
    contentOf (group.manifests.flatMap fun m =>
      setExistingStatusForOldSnapshotAddedEntries snapshot.snapshotId m.entries) =
      tableContent group.manifests := by
  rw [contentOf_flatMap]
  simp [contentOf_setExistingStatus, tableContent]

variable (writer snapshot) in
theorem tableContent_mergeManifestGroup (group : ManifestGroup P) (manifestIndex : ℕ) :
    tableContent (mergeManifestGroup writer snapshot group manifestIndex).toList =
      tableContent group.manifests := by
  have hm := contentOf_merged snapshot group
  unfold mergeManifestGroup
  simp only
  split_ifs with he
  · rw [List.isEmpty_iff] at he
    rw [he] at hm
    exact hm
  · rw [← hm]
    simp [ManifestWriter.write]

variable [DecidableEq P]

theorem tableContent_mergeManifestGroups (latestManifest : Manifest P)
    (groups : List (ManifestGroup P)) :
    ∀ manifestIndex : ℕ,
      (tableContent ((mergeManifestGroups cfg writer snapshot latestManifest groups
          manifestIndex).1 ++
        (mergeManifestGroups cfg writer snapshot latestManifest groups
          manifestIndex).2.1)).Perm
        (tableContent (groups.flatMap manifests)) := by
  induction groups with
  | nil =>
    intro manifestIndex
    exact List.Perm.refl _
  | cons group rest ih =>
    intro manifestIndex
    simp only [mergeManifestGroups, flatMap_cons, tableContent_append]
    have hg := tableContent_mergeManifestGroup writer snapshot group manifestIndex
    split_ifs
    · split
      · next merged hm =>
        rw [hm] at hg
        simp only [Option.toList_some, tableContent_cons, tableContent_nil, append_nil] at hg
        have hr := ih (manifestIndex + 1)
        rw [tableContent_append] at hr
        simp only [tableContent_cons, hg, append_assoc]
        exact hr.append_left _
      · next hm =>
        rw [hm] at hg
        have hr := ih manifestIndex
        simpa [← hg] using hr
    · have hr := ih manifestIndex
      rw [tableContent_append] at hr
      simp only [tableContent_append]
      refine List.Perm.trans ?_ (hr.append_left _)
      rw [← append_assoc, ← append_assoc]
      exact perm_append_comm.append_right _

/-- **Merging keeps the content.** -/
theorem tableContent_mergeDataManifests (dataManifests : List (Manifest P)) (manifestIndex : ℕ) :
    (tableContent (mergeDataManifests cfg order writer snapshot dataManifests
      manifestIndex).1).Perm (tableContent dataManifests) := by
  unfold mergeDataManifests
  split
  · next hl =>
    rw [getLast?_eq_none_iff] at hl
    rw [hl]
  · next latestManifest _ =>
    exact (tableContent_mergeManifestGroups latestManifest _ _).trans
      (tableContent_perm (perm_manifestGroups dataManifests))

end

/-! ## The groups -/

variable {cfg : MergeSettings} {order : HashOrder (Int32 × List (Manifest P))}
variable {dataManifests : List (Manifest P)} {group : ManifestGroup P}

section

variable (h : group ∈ manifestGroups cfg order dataManifests)

include h

theorem manifests_ne_nil_of_mem_manifestGroups : group.manifests ≠ [] := by
  rcases mem_flatMap.mp h with ⟨specGroup, -, hp⟩
  rcases mem_map.mp hp with ⟨bin, hbin, rfl⟩
  exact pack_items_ne_nil _ _ hbin

theorem partitionSpecId_of_mem_manifestGroups :
    ∀ m ∈ group.manifests, m.partitionSpecId = group.partitionSpecId := by
  intro m hm
  rcases mem_flatMap.mp h with ⟨specGroup, hs, hp⟩
  rcases mem_map.mp hp with ⟨bin, hbin, rfl⟩
  have hme := (perm_flatMap_pack Manifest.length cfg.targetSize specGroup.2).mem_iff.mp
    (mem_flatMap.mpr ⟨bin, hbin, hm⟩)
  exact keyedBy_groupBy _ dataManifests specGroup ((order.perm _).mem_iff.mp hs) m hme

theorem length_le_of_mem_manifestGroups (hs : 1 < group.manifests.length) :
    (group.manifests.map Manifest.length).sum ≤ cfg.targetSize := by
  rcases mem_flatMap.mp h with ⟨specGroup, -, hp⟩
  rcases mem_map.mp hp with ⟨bin, hbin, rfl⟩
  have ht := pack_totalSize _ _ hbin
  have hf := pack_fits _ _ hbin hs
  exact ht ▸ hf

end

theorem mem_manifestGroups_iff (cfg : MergeSettings)
    (order : HashOrder (Int32 × List (Manifest P))) {m : Manifest P} :
    (∃ group ∈ manifestGroups cfg order dataManifests, m ∈ group.manifests) ↔
      m ∈ dataManifests := by
  rw [← (@perm_manifestGroups P cfg order dataManifests).mem_iff, mem_flatMap]

/-! ## Where the manifests come from -/

variable {writer : ManifestWriter P} {snapshot : SnapshotHeader} {manifestIndex : ℕ}

theorem eq_of_mergeManifestGroup {merged : Manifest P}
    (h : mergeManifestGroup writer snapshot group manifestIndex = some merged) :
    (group.manifests.flatMap fun m =>
        setExistingStatusForOldSnapshotAddedEntries snapshot.snapshotId m.entries) ≠ [] ∧
      merged = let entries := group.manifests.flatMap fun m =>
          setExistingStatusForOldSnapshotAddedEntries snapshot.snapshotId m.entries
        writer.write snapshot group.partitionSpecId .data entries entries manifestIndex := by
  unfold mergeManifestGroup at h
  simp only at h
  split_ifs at h with he
  rw [List.isEmpty_iff] at he
  exact ⟨he, (Option.some.inj h).symm⟩

theorem source_of_mem_mergeManifestGroups [DecidableEq P] {latestManifest manifest : Manifest P}
    {groups : List (ManifestGroup P)}
    (h : manifest ∈ (mergeManifestGroups cfg writer snapshot latestManifest groups
        manifestIndex).1 ++
      (mergeManifestGroups cfg writer snapshot latestManifest groups manifestIndex).2.1) :
    ∃ group ∈ groups, manifest ∈ group.manifests ∨
      ∃ i, mergeManifestGroup writer snapshot group i = some manifest := by
  induction groups generalizing manifestIndex with
  | nil => simp [mergeManifestGroups] at h
  | cons group rest ih =>
    simp only [mergeManifestGroups] at h
    split_ifs at h
    · split at h
      · next merged hm =>
        rcases mem_cons.mp h with rfl | h
        · exact ⟨group, mem_cons_self, Or.inr ⟨manifestIndex, hm⟩⟩
        · exact exists_mem_cons_of_exists (ih h)
      · exact exists_mem_cons_of_exists (ih h)
    · rcases mem_append.mp h with h | h
      · exact exists_mem_cons_of_exists (ih (mem_append_left _ h))
      · rcases mem_append.mp h with h | h
        · exact ⟨group, mem_cons_self, Or.inl h⟩
        · exact exists_mem_cons_of_exists (ih (mem_append_right _ h))

theorem forall_mem_mergeDataManifests [DecidableEq P]
    {Q : Manifest P → Prop} (hold : ∀ manifest ∈ dataManifests, Q manifest)
    (hme : ∀ group i merged, (∀ manifest ∈ group.manifests, Q manifest) →
      mergeManifestGroup writer snapshot group i = some merged → Q merged) :
    ∀ manifest ∈ (mergeDataManifests cfg order writer snapshot dataManifests
      manifestIndex).1, Q manifest := by
  intro manifest h
  unfold mergeDataManifests at h
  split at h
  · simp at h
  · rcases source_of_mem_mergeManifestGroups h with ⟨group, hg, hm⟩
    have hg : ∀ manifest ∈ group.manifests, Q manifest := fun manifest hm =>
      hold manifest ((mem_manifestGroups_iff cfg order).mp ⟨group, hg, hm⟩)
    rcases hm with hm | ⟨i, hi⟩
    · exact hg manifest hm
    · exact hme group i manifest hg hi

/-! ## How many manifests are left -/

section Length
variable [DecidableEq P] {cfg : MergeSettings}

theorem two_le_length_of_mergeable {latestManifest : Manifest P}
    {group : ManifestGroup P} (hne : group.manifests ≠ [])
    (h : isMergeableManifestGroup cfg latestManifest group = true) :
    2 ≤ group.manifests.length := by
  have hone : group.manifests.length ≠ 1 := by
    intro hone
    simp [isMergeableManifestGroup, hone] at h
  have hpos := length_pos_iff.mpr hne
  omega

def mergedLength (cfg : MergeSettings) (writer : ManifestWriter P) (snapshot : SnapshotHeader)
    (latestManifest : Manifest P) (groups : List (ManifestGroup P)) (manifestIndex : ℕ) : ℕ :=
  let result := mergeManifestGroups cfg writer snapshot latestManifest groups manifestIndex
  result.1.length + result.2.1.length

section

variable (cfg) (writer : ManifestWriter P) (snapshot : SnapshotHeader)
  (latestManifest : Manifest P)

theorem mergedLength_cons_of_mergeable {group : ManifestGroup P} (rest : List (ManifestGroup P))
    (h : isMergeableManifestGroup cfg latestManifest group = true) (manifestIndex : ℕ) :
    ∃ i, mergedLength cfg writer snapshot latestManifest (group :: rest) manifestIndex ≤
      1 + mergedLength cfg writer snapshot latestManifest rest i := by
  unfold mergedLength
  simp only [mergeManifestGroups, h, if_true]
  split
  · refine ⟨manifestIndex + 1, ?_⟩
    rcases mergeManifestGroups cfg writer snapshot latestManifest rest (manifestIndex + 1) with
      ⟨merged, unmerged, next⟩
    simp only [length_cons]
    omega
  · exact ⟨manifestIndex, by omega⟩

theorem mergedLength_cons_of_not_mergeable {group : ManifestGroup P} (rest : List (ManifestGroup P))
    (h : isMergeableManifestGroup cfg latestManifest group = false) (manifestIndex : ℕ) :
    mergedLength cfg writer snapshot latestManifest (group :: rest) manifestIndex =
      group.manifests.length +
        mergedLength cfg writer snapshot latestManifest rest manifestIndex := by
  unfold mergedLength
  simp only [mergeManifestGroups, h, Bool.false_eq_true, if_false]
  rcases mergeManifestGroups cfg writer snapshot latestManifest rest manifestIndex with
    ⟨merged, unmerged, next⟩
  simp only [length_append]
  omega

variable {groups : List (ManifestGroup P)}

theorem mergedLength_add_le (hne : ∀ group ∈ groups, group.manifests ≠ []) (manifestIndex : ℕ) :
    mergedLength cfg writer snapshot latestManifest groups manifestIndex +
        (if groups.any (isMergeableManifestGroup cfg latestManifest) then 1 else 0) ≤
      (groups.flatMap manifests).length := by
  induction groups generalizing manifestIndex with
  | nil => simp [mergedLength, mergeManifestGroups]
  | cons group rest ih =>
    rcases forall_mem_cons.mp hne with ⟨hf, hr⟩
    rw [flatMap_cons, length_append, any_cons]
    cases hg : isMergeableManifestGroup cfg latestManifest group with
    | true =>
      have htwo := two_le_length_of_mergeable hf hg
      rcases mergedLength_cons_of_mergeable cfg writer snapshot latestManifest rest hg
        manifestIndex with ⟨i, hi⟩
      have := ih hr i
      rw [Bool.true_or, if_pos rfl]
      omega
    | false =>
      rw [mergedLength_cons_of_not_mergeable cfg writer snapshot latestManifest rest hg,
        Bool.false_or]
      have := ih hr manifestIndex
      omega

theorem mergedLength_lt (hne : ∀ group ∈ groups, group.manifests ≠ [])
    (hany : groups.any (isMergeableManifestGroup cfg latestManifest) = true)
    (manifestIndex : ℕ) :
    mergedLength cfg writer snapshot latestManifest groups manifestIndex <
      (groups.flatMap manifests).length := by
  have := mergedLength_add_le cfg writer snapshot latestManifest hne manifestIndex
  rwa [if_pos hany] at this

end

theorem mergeManifestGroups_of_none {writer : ManifestWriter P}
    {snapshot : SnapshotHeader} {latestManifest : Manifest P} {groups : List (ManifestGroup P)}
    (h : ∀ group ∈ groups, isMergeableManifestGroup cfg latestManifest group = false)
    (manifestIndex : ℕ) :
    (mergeManifestGroups cfg writer snapshot latestManifest groups manifestIndex).1 = [] ∧
      (mergeManifestGroups cfg writer snapshot latestManifest groups manifestIndex).2.1 =
        groups.flatMap manifests := by
  induction groups generalizing manifestIndex with
  | nil => exact ⟨rfl, rfl⟩
  | cons group rest ih =>
    rcases forall_mem_cons.mp h with ⟨hf, hr⟩
    rcases ih hr manifestIndex with ⟨hm, hu⟩
    simp only [mergeManifestGroups, hf, Bool.false_eq_true, if_false, flatMap_cons]
    exact ⟨hm, by rw [hu]⟩

theorem hasMergeableManifests_iff
    {order : HashOrder (Int32 × List (Manifest P))} {writer : ManifestWriter P}
    {snapshot : SnapshotHeader} {dataManifests : List (Manifest P)} {manifestIndex : ℕ} :
    hasMergeableManifests cfg order dataManifests = true ↔
      (mergeDataManifests cfg order writer snapshot dataManifests manifestIndex).1.length <
        dataManifests.length := by
  unfold hasMergeableManifests mergeDataManifests
  cases hl : dataManifests.getLast? with
  | none =>
    rw [getLast?_eq_none_iff] at hl
    simp [hl]
  | some latestManifest =>
    have hne : ∀ group ∈ manifestGroups cfg order dataManifests, group.manifests ≠ [] :=
      fun group hg => manifests_ne_nil_of_mem_manifestGroups hg
    have ht : ((manifestGroups cfg order dataManifests).flatMap
        manifests).length = dataManifests.length :=
      (perm_manifestGroups dataManifests).length_eq
    rw [← ht]
    simp only [length_append]
    cases hany : (manifestGroups cfg order dataManifests).any
        (isMergeableManifestGroup cfg latestManifest) with
    | true =>
      exact iff_of_true rfl
        (mergedLength_lt cfg writer snapshot latestManifest hne hany manifestIndex)
    | false =>
      rw [any_eq_false] at hany
      have hn := fun group hg => Bool.eq_false_iff.mpr (hany group hg)
      obtain ⟨hm, hu⟩ :=
        @mergeManifestGroups_of_none P _ cfg writer snapshot latestManifest _ hn
          manifestIndex
      rw [hm, hu]
      simp

end Length

/-! ## Merging as a whole -/

/-- What merging does to a list of data manifests. -/
structure MergePreserves [DecidableEq P] (cfg : MergeSettings)
    (order : HashOrder (Int32 × List (Manifest P))) (writer : ManifestWriter P)
    (snapshot : SnapshotHeader) (dataManifests : List (Manifest P)) (manifestIndex : ℕ) : Prop where
  grouped : ((manifestGroups cfg order dataManifests).flatMap ManifestGroup.manifests).Perm
    dataManifests
  oneSpec : ∀ group ∈ manifestGroups cfg order dataManifests,
    ∀ manifest ∈ group.manifests, manifest.partitionSpecId = group.partitionSpecId
  fits : ∀ group ∈ manifestGroups cfg order dataManifests, 1 < group.manifests.length →
    (group.manifests.map Manifest.length).sum ≤ cfg.targetSize
  /-- the live entries are the same, up to whether they are new -/
  content : (tableContent (mergeDataManifests cfg order writer snapshot dataManifests
    manifestIndex).1).Perm (tableContent dataManifests)
  mergeable : hasMergeableManifests cfg order dataManifests = true ↔
    (mergeDataManifests cfg order writer snapshot dataManifests manifestIndex).1.length <
      dataManifests.length

theorem mergeDataManifests_preserves [DecidableEq P] (cfg : MergeSettings)
    (order : HashOrder (Int32 × List (Manifest P))) (writer : ManifestWriter P)
    (snapshot : SnapshotHeader) (dataManifests : List (Manifest P)) (manifestIndex : ℕ) :
    MergePreserves cfg order writer snapshot dataManifests manifestIndex where
  grouped := perm_manifestGroups dataManifests
  oneSpec _ hgroup := partitionSpecId_of_mem_manifestGroups hgroup
  fits _ hgroup := length_le_of_mem_manifestGroups hgroup
  content := tableContent_mergeDataManifests dataManifests manifestIndex
  mergeable := hasMergeableManifests_iff

end PgLake.Iceberg
