/-
  Building a snapshot (`metadata_operations.c`).

  The operations of a commit fill a snapshot builder, from which the manifests of the new
  snapshot are made: deleted entries are dropped, the new files get manifests of their own,
  manifests with removed files are rewritten, and small manifests are merged.
-/
import PgLake.Iceberg.ManifestMerge
import PgLake.Lib.Fallible

namespace PgLake.Iceberg

open Grouping List

variable {P : Type}

/-! ## Operations -/

/-- `TableMetadataOperation`. -/
inductive MetadataOperation (P : Type) where
  | add (path : String) (content : DataFileContent) (partition : P) (recordCount : ℤ)
    (partitionSpecId : Int32)
  | remove (path : String)
  | removeAll
  | dropTable
  | updateDeletedRowCount
  | mergeManifests
  | addDeleteMapping
  | expireOldSnapshots
  | tableDdl
  | addRowIdMapping
  | tablePartitionBy
  | tableCreate

/-- `IcebergSnapshotBuilder`.  Of the entry of a removed file only the path is used. -/
structure SnapshotBuilder (P : Type) where
  newSnapshot : SnapshotHeader
  dataEntries : List (Int32 × List (ManifestEntry P)) := []
  positionalDeleteEntries : List (Int32 × List (ManifestEntry P)) := []
  removedEntries : List FilePath := []
  removeAllEntries : Bool := false
  applyManifestCompaction : Bool := false
  createTable : Bool := false
  regenerateSchema : Bool := false
  regeneratePartitionSpec : Bool := false
  expireOldSnapshots : Bool := false

inductive CommitError where
  /-- `Unsupported operation content type: %d` -/
  | unsupportedContent (content : DataFileContent)
  deriving DecidableEq

/-- `CreateIcebergManifestEntryFromMetadataOperation` for `DATA_FILE_ADD`. -/
def newManifestEntry (snapshot : SnapshotHeader) (path : String) (content : DataFileContent)
    (partition : P) (recordCount : ℤ) : ManifestEntry P where
  status := .added
  hasSnapshotId := true
  snapshotId := snapshot.snapshotId
  hasSequenceNumber := true
  sequenceNumber := snapshot.sequenceNumber
  dataFile := ⟨stripFromChar path, content, partition, recordCount⟩

/-- One round of `ProcessIcebergMetadataOperations`. -/
def processOperation (builder : SnapshotBuilder P) :
    MetadataOperation P → Except CommitError (SnapshotBuilder P)
  | .add path content partition recordCount partitionSpecId =>
    let entry := newManifestEntry builder.newSnapshot path content partition recordCount
    match content with
    | .data =>
      .ok { builder with dataEntries := addToGroup partitionSpecId entry builder.dataEntries }
    | .positionDeletes =>
      .ok { builder with
        positionalDeleteEntries :=
          addToGroup partitionSpecId entry builder.positionalDeleteEntries }
    | .equalityDeletes => .error (.unsupportedContent .equalityDeletes)
  | .remove path =>
    .ok { builder with removedEntries := builder.removedEntries ++ [stripFromChar path] }
  | .removeAll => .ok { builder with removeAllEntries := true }
  | .mergeManifests => .ok { builder with applyManifestCompaction := true }
  | .expireOldSnapshots => .ok { builder with expireOldSnapshots := true }
  | .tableCreate => .ok { builder with createTable := true }
  | .tableDdl => .ok { builder with regenerateSchema := true }
  | .tablePartitionBy => .ok { builder with regeneratePartitionSpec := true }
  -- these do not affect the Iceberg metadata
  | .dropTable | .updateDeletedRowCount | .addDeleteMapping | .addRowIdMapping => .ok builder

/-- `ProcessIcebergMetadataOperations`: the operations are collected in a builder. -/
def processIcebergMetadataOperations (operations : List (MetadataOperation P))
    (newSnapshot : SnapshotHeader) : Except CommitError (SnapshotBuilder P) :=
  operations.foldlM processOperation { newSnapshot := newSnapshot }

/-! ## The new snapshot -/

/-- A snapshot with the manifests in its manifest list. -/
structure Snapshot (P : Type) where
  header : SnapshotHeader
  manifests : List (Manifest P)

/-- The variables of `FinalizeNewSnapshot`. -/
structure Draft (P : Type) where
  dataManifests : List (Manifest P)
  deleteManifests : List (Manifest P)
  manifestIndex : ℕ
  createNewSnapshot : Bool

/-- What a commit runs with: the settings, the place of its files and the orders in which hash
    tables are traversed. -/
structure CommitEnv (P : Type) where
  settings : MergeSettings
  writer : ManifestWriter P
  pathOrder : HashOrder FilePath
  entryOrder : HashOrder (Int32 × List (ManifestEntry P))
  mergeOrder : HashOrder (Int32 × List (Manifest P))

/-- The manifests of the current snapshot; a new table has none. -/
def currentManifests (snapshot : Option (Snapshot P)) : List (Manifest P) :=
  match snapshot with
  | none => []
  | some snapshot => snapshot.manifests

def fetchManifestsFromSnapshot (snapshot : Option (Snapshot P)) (content : ManifestContent) :
    List (Manifest P) :=
  (currentManifests snapshot).filter fun manifest => manifest.content = content

section

variable (env : CommitEnv P) (newSnapshot : SnapshotHeader)

/-- The manifests of the last snapshot. -/
def Draft.start (base : Option (Snapshot P)) (builder : SnapshotBuilder P) : Draft P where
  dataManifests := fetchManifestsFromSnapshot base .data
  deleteManifests := fetchManifestsFromSnapshot base .deletes
  manifestIndex := 0
  createNewSnapshot := builder.regenerateSchema || builder.regeneratePartitionSpec

def Draft.removeDeleted (base : Option (Snapshot P)) (draft : Draft P) : Draft P :=
  match base with
  | none => draft
  | some snapshot =>
    let (dataManifests, anyDataModified, manifestIndex) :=
      removeDeletedManifestEntries env.writer snapshot.header .data draft.dataManifests
        draft.manifestIndex
    let (deleteManifests, anyDeleteModified, manifestIndex) :=
      removeDeletedManifestEntries env.writer snapshot.header .deletes draft.deleteManifests
        manifestIndex
    { dataManifests := dataManifests
      deleteManifests := deleteManifests
      manifestIndex := manifestIndex
      createNewSnapshot := draft.createNewSnapshot || anyDataModified || anyDeleteModified }

def createNewManifests (content : ManifestContent) :
    List (Int32 × List (ManifestEntry P)) → ℕ → List (Manifest P) × ℕ
  | [], manifestIndex => ([], manifestIndex)
  | (partitionSpecId, entries) :: rest, manifestIndex =>
    let manifest :=
      env.writer.write newSnapshot partitionSpecId content entries entries manifestIndex
    let (manifests, manifestIndex) := createNewManifests content rest (manifestIndex + 1)
    (manifest :: manifests, manifestIndex)

/-- The manifests of the new data files and of the new position delete files. -/
def Draft.addNewEntries (builder : SnapshotBuilder P) (draft : Draft P) : Draft P :=
  let newData := env.entryOrder.seq builder.dataEntries
  let newDeletes := env.entryOrder.seq builder.positionalDeleteEntries
  let (dataManifests, manifestIndex) :=
    createNewManifests env newSnapshot .data newData draft.manifestIndex
  let (deleteManifests, manifestIndex) :=
    createNewManifests env newSnapshot .deletes newDeletes manifestIndex
  { dataManifests := draft.dataManifests ++ dataManifests
    deleteManifests := draft.deleteManifests ++ deleteManifests
    manifestIndex := manifestIndex
    createNewSnapshot := draft.createNewSnapshot || !newData.isEmpty || !newDeletes.isEmpty }

/-- `CreateNewManifestsForDeletedEntries`.  The remaining entries are written before the status
    of the old ones is set. -/
def createNewManifestsForDeletedEntries (partitionSpecId : Int32) (content : ManifestContent)
    (adjusted : List (ManifestEntry P × ℕ)) (manifestIndex : ℕ) : List (Manifest P) × ℕ :=
  let deleted := deletedManifestEntries adjusted
  let remaining := remainingManifestEntries adjusted
  let deleteManifest :=
    env.writer.write newSnapshot partitionSpecId content deleted deleted manifestIndex
  if remaining.isEmpty then ([deleteManifest], manifestIndex + 1)
  else
    let remainingManifest :=
      env.writer.write newSnapshot partitionSpecId content remaining
        (setExistingStatusForOldSnapshotAddedEntries newSnapshot.snapshotId remaining)
        (manifestIndex + 1)
    ([deleteManifest, remainingManifest], manifestIndex + 2)

variable [DecidableEq P]

def rewriteManifestForRemoval (removedEntries : List FilePath) (removeAllEntries : Bool)
    (draft : Draft P) (manifest : Manifest P) : Draft P :=
  let adjusted := (findAndAdjustDeletedManifestEntries removedEntries newSnapshot.snapshotId
    removeAllEntries manifest.counts manifest.entries).2
  if (deletedManifestEntries adjusted).isEmpty then draft
  else
    let (newManifests, manifestIndex) :=
      createNewManifestsForDeletedEntries env newSnapshot manifest.partitionSpecId
        manifest.content adjusted draft.manifestIndex
    match manifest.content with
    | .data =>
      { draft with
        dataManifests := draft.dataManifests.erase manifest ++ newManifests
        manifestIndex := manifestIndex
        createNewSnapshot := true }
    | .deletes =>
      { draft with
        deleteManifests := draft.deleteManifests.erase manifest ++ newManifests
        manifestIndex := manifestIndex
        createNewSnapshot := true }

def Draft.removeEntries (builder : SnapshotBuilder P) (draft : Draft P) : Draft P :=
  (draft.dataManifests ++ draft.deleteManifests).foldl
    (rewriteManifestForRemoval env newSnapshot builder.removedEntries builder.removeAllEntries)
    draft

def Draft.merge (draft : Draft P) : Draft P :=
  let (dataManifests, manifestIndex) :=
    mergeDataManifests env.settings env.mergeOrder env.writer newSnapshot draft.dataManifests
      draft.manifestIndex
  { draft with
    dataManifests := dataManifests
    manifestIndex := manifestIndex
    createNewSnapshot :=
      draft.createNewSnapshot || dataManifests.length < draft.dataManifests.length }

variable (base : Option (Snapshot P)) (builder : SnapshotBuilder P)

def draftWithoutDeleted : Draft P :=
  if builder.applyManifestCompaction || env.settings.enableManifestMergeOnWrite then
    (Draft.start base builder).removeDeleted env base
  else Draft.start base builder

def draftWithNewEntries : Draft P :=
  (draftWithoutDeleted env base builder).addNewEntries env builder.newSnapshot builder

def draftAfterRemoval : Draft P :=
  let draft := draftWithNewEntries env base builder
  if !builder.removedEntries.isEmpty || builder.removeAllEntries then
    draft.removeEntries env builder.newSnapshot builder
  else draft

def finalDraft : Draft P :=
  let draft := draftAfterRemoval env base builder
  if builder.applyManifestCompaction ||
      (env.settings.enableManifestMergeOnWrite &&
        hasMergeableManifests env.settings env.mergeOrder draft.dataManifests) then
    draft.merge env builder.newSnapshot
  else draft

/-- `FinalizeNewSnapshot`; `none` when nothing has changed. -/
def finalizeNewSnapshot : Option (Snapshot P) :=
  let draft := finalDraft env base builder
  if draft.createNewSnapshot then
    some ⟨builder.newSnapshot, draft.dataManifests ++ draft.deleteManifests⟩
  else none

end

/-! ## The content of a draft -/

namespace Draft

/-- All manifests of the draft. -/
def manifests (draft : Draft P) : List (Manifest P) := draft.dataManifests ++ draft.deleteManifests

/-- The two lists hold manifests of their kind. -/
structure Separated (draft : Draft P) : Prop where
  data : ∀ manifest ∈ draft.dataManifests, manifest.content = .data
  deletes : ∀ manifest ∈ draft.deleteManifests, manifest.content = .deletes

end Draft

theorem perm_fetchManifestsFromSnapshot (sn : Option (Snapshot P)) :
    (fetchManifestsFromSnapshot sn .data ++
      fetchManifestsFromSnapshot sn .deletes).Perm (currentManifests sn) := by
  have hd : ∀ manifest : Manifest P,
      decide (manifest.content = .deletes) = !decide (manifest.content = .data) := by
    intro manifest
    cases manifest.content <;> rfl
  unfold fetchManifestsFromSnapshot
  simp only [hd]
  exact filter_append_perm _ _

theorem content_of_mem_fetchManifestsFromSnapshot {sn : Option (Snapshot P)}
    {content : ManifestContent} {manifest : Manifest P}
    (h : manifest ∈ fetchManifestsFromSnapshot sn content) : manifest.content = content := by
  simpa using (mem_filter.mp h).2

open Draft

section Stages

variable {env : CommitEnv P} {newSnapshot : SnapshotHeader} {draft : Draft P}

theorem removeDeleted_content (base : Option (Snapshot P)) :
    tableContent (draft.removeDeleted env base).manifests = tableContent draft.manifests := by
  unfold removeDeleted
  split
  · rfl
  · simp [manifests, tableContent_removeDeletedManifestEntries]

theorem removeDeleted_separated (h : draft.Separated) (base : Option (Snapshot P)) :
    (draft.removeDeleted env base).Separated := by
  unfold removeDeleted
  split
  · exact h
  · exact ⟨content_of_mem_removeDeletedManifestEntries _ _ _ h.data,
      content_of_mem_removeDeletedManifestEntries _ _ _ h.deletes⟩

theorem of_removeDeleted_createNewSnapshot {base : Option (Snapshot P)}
    (h : (draft.removeDeleted env base).createNewSnapshot = false) :
    draft.createNewSnapshot = false := by
  unfold removeDeleted at h
  split at h
  · exact h
  · simp only [Bool.or_eq_false_iff] at h
    exact h.1.1

theorem tableContent_createNewManifests (content : ManifestContent)
    (gs : List (Int32 × List (ManifestEntry P))) :
    ∀ i : ℕ,
      tableContent (createNewManifests env newSnapshot content gs i).1 =
        contentOf (gs.flatMap Prod.snd) := by
  induction gs with
  | nil =>
    intro i
    rfl
  | cons g rest ih =>
    intro i
    simp [createNewManifests, contentOf_append, ih, ManifestWriter.write]

variable {manifest : Manifest P}

theorem content_of_mem_createNewManifests {content : ManifestContent}
    {gs : List (Int32 × List (ManifestEntry P))} {i : ℕ}
    (h : manifest ∈ (createNewManifests env newSnapshot content gs i).1) :
    manifest.content = content := by
  induction gs generalizing i with
  | nil => simp [createNewManifests] at h
  | cons g rest ih =>
    simp only [createNewManifests, mem_cons] at h
    rcases h with rfl | h
    · rfl
    · exact ih h

def SnapshotBuilder.newEntries (builder : SnapshotBuilder P) : List (ManifestEntry P) :=
  builder.dataEntries.flatMap Prod.snd ++ builder.positionalDeleteEntries.flatMap Prod.snd

theorem addNewEntries_content (builder : SnapshotBuilder P) :
    (tableContent (draft.addNewEntries env newSnapshot builder).manifests).Perm
      (tableContent draft.manifests ++ contentOf builder.newEntries) := by
  have hda := contentOf_perm ((env.entryOrder.perm builder.dataEntries).flatMap_right Prod.snd)
  have hd :=
    contentOf_perm ((env.entryOrder.perm builder.positionalDeleteEntries).flatMap_right Prod.snd)
  simp only [addNewEntries, manifests, tableContent_append,
    tableContent_createNewManifests, SnapshotBuilder.newEntries, contentOf_append]
  refine ((hda.append_left _).append (hd.append_left _)).trans ?_
  rw [append_assoc, append_assoc]
  exact (perm_append_comm_assoc _ _ _).append_left _

theorem addNewEntries_separated (h : draft.Separated) (builder : SnapshotBuilder P) :
    (draft.addNewEntries env newSnapshot builder).Separated := by
  constructor
  · intro manifest hm
    rcases mem_append.mp hm with hold | hnew
    · exact h.data manifest hold
    · exact content_of_mem_createNewManifests hnew
  · intro manifest hm
    rcases mem_append.mp hm with hold | hnew
    · exact h.deletes manifest hold
    · exact content_of_mem_createNewManifests hnew

variable {builder : SnapshotBuilder P}

theorem of_addNewEntries_createNewSnapshot
    (h : (draft.addNewEntries env newSnapshot builder).createNewSnapshot = false) :
    draft.createNewSnapshot = false ∧ builder.newEntries = [] := by
  simp only [addNewEntries, Bool.or_eq_false_iff, Bool.not_eq_false', List.isEmpty_iff] at h
  obtain ⟨⟨hdr, hda⟩, hd⟩ := h
  have hdataPerm := env.entryOrder.perm builder.dataEntries
  have hdeletesPerm := env.entryOrder.perm builder.positionalDeleteEntries
  rw [hda, nil_perm] at hdataPerm
  rw [hd, nil_perm] at hdeletesPerm
  refine ⟨hdr, ?_⟩
  simp [SnapshotBuilder.newEntries, hdataPerm, hdeletesPerm]

/-! ### Removal -/

variable (removed : List FilePath)

def keptContent (content : List (ManifestEntry P)) : List (ManifestEntry P) :=
  content.filter fun entry => entry.path ∉ removed

theorem keptContent_append (l₁ l₂ : List (ManifestEntry P)) :
    keptContent removed (l₁ ++ l₂) = keptContent removed l₁ ++ keptContent removed l₂ :=
  filter_append _ _

theorem contentOf_remaining (sid : Int64) (es : List (ManifestEntry P)) :
    contentOf (remainingManifestEntries (es.map (adjustedEntry removed sid))) =
      keptContent removed (contentOf es) := by
  rw [remainingManifestEntries_map]
  exact contentOf_filter_path (fun p => decide (p ∉ removed)) es

variable (env newSnapshot) in
theorem tableContent_createNewManifestsForDeletedEntries (removed : List FilePath)
    (spec : Int32) (content : ManifestContent) (es : List (ManifestEntry P))
    (i : ℕ) :
    tableContent (createNewManifestsForDeletedEntries env newSnapshot spec content
      (es.map (adjustedEntry removed newSnapshot.snapshotId)) i).1 =
      keptContent removed (contentOf es) := by
  rw [← contentOf_remaining removed newSnapshot.snapshotId]
  unfold createNewManifestsForDeletedEntries
  simp only
  split_ifs with he
  · rw [List.isEmpty_iff] at he
    simp only [tableContent_cons, tableContent_nil, ManifestWriter.write,
      contentOf_deletedManifestEntries, nil_append, he]
    rfl
  · simp [ManifestWriter.write, contentOf_deletedManifestEntries]

theorem content_of_mem_createNewManifestsForDeletedEntries {spec : Int32}
    {content : ManifestContent} {adjusted : List (ManifestEntry P × ℕ)} {i : ℕ}
    (h : manifest ∈ (createNewManifestsForDeletedEntries env newSnapshot spec content
      adjusted i).1) : manifest.content = content := by
  unfold createNewManifestsForDeletedEntries at h
  simp only at h
  split_ifs at h
  · obtain rfl := mem_singleton.mp h
    rfl
  · simp only [mem_cons, not_mem_nil, or_false] at h
    rcases h with rfl | rfl <;> rfl

theorem mem_contentOf {es : List (ManifestEntry P)} {e : ManifestEntry P}
    (h : e ∈ contentOf es) : ∃ original ∈ es, original.path = e.path := by
  simp only [contentOf, mem_map, mem_filter] at h
  obtain ⟨original, ⟨hm, _⟩, rfl⟩ := h
  exact ⟨original, hm, rfl⟩

variable {removed : List FilePath}

theorem keptContent_eq_self {entries : List (ManifestEntry P)}
    (h : ∀ e ∈ entries, e.path ∉ removed) :
    keptContent removed (contentOf entries) = contentOf entries := by
  refine filter_eq_self.mpr fun e he => ?_
  obtain ⟨original, hm, hp⟩ := mem_contentOf he
  simpa [← hp] using h original hm

theorem keptContent_nil (content : List (ManifestEntry P)) : keptContent [] content = content := by
  simp [keptContent]

variable (env newSnapshot) in
def rewrittenManifests (removed : List FilePath) (removeAll : Bool) (manifest : Manifest P)
    (manifestIndex : ℕ) : List (Manifest P) :=
  let adjusted := (findAndAdjustDeletedManifestEntries removed newSnapshot.snapshotId removeAll
    manifest.counts manifest.entries).2
  if (deletedManifestEntries adjusted).isEmpty then [manifest]
  else
    (createNewManifestsForDeletedEntries env newSnapshot manifest.partitionSpecId manifest.content
      adjusted manifestIndex).1

variable (env newSnapshot) in
theorem tableContent_rewrittenManifests (removed : List FilePath) (manifest : Manifest P)
    (i : ℕ) :
    tableContent (rewrittenManifests env newSnapshot removed false manifest i) =
      keptContent removed (contentOf manifest.entries) := by
  unfold rewrittenManifests
  simp only [findAndAdjustDeletedManifestEntries_eq]
  split_ifs with hn
  · rw [List.isEmpty_iff, deletedManifestEntries_eq_nil_iff] at hn
    rw [tableContent_cons, tableContent_nil, append_nil, keptContent_eq_self hn]
  · exact tableContent_createNewManifestsForDeletedEntries env newSnapshot removed
      manifest.partitionSpecId manifest.content manifest.entries i

variable [DecidableEq P]

variable (env newSnapshot) in
theorem rewriteManifestForRemoval_perm (removed : List FilePath) (removeAll : Bool)
    (hsep : draft.Separated) (hme : manifest ∈ draft.manifests) :
    (rewriteManifestForRemoval env newSnapshot removed removeAll draft manifest).manifests.Perm
        (draft.manifests.erase manifest ++
          rewrittenManifests env newSnapshot removed removeAll manifest draft.manifestIndex) ∧
      (rewriteManifestForRemoval env newSnapshot removed removeAll draft manifest).Separated := by
  unfold rewriteManifestForRemoval rewrittenManifests
  simp only
  split_ifs with hn
  · -- no entry of this manifest is removed
    exact ⟨(perm_cons_erase hme).trans (perm_append_singleton _ _).symm, hsep⟩
  · cases hc : manifest.content with
    | data =>
      have hd : manifest ∈ draft.dataManifests := by
        rcases mem_append.mp hme with h | h
        · exact h
        · rw [hsep.deletes manifest h] at hc
          cases hc
      refine ⟨?_, fun m hm => ?_, hsep.deletes⟩
      · simp only [manifests]
        rw [erase_append_left _ hd, append_assoc, append_assoc]
        exact perm_append_comm.append_left _
      · rcases mem_append.mp hm with h | h
        · exact hsep.data m (mem_of_mem_erase h)
        · exact content_of_mem_createNewManifestsForDeletedEntries h
    | deletes =>
      have hd : manifest ∉ draft.dataManifests := by
        intro h
        rw [hsep.data manifest h] at hc
        cases hc
      refine ⟨?_, hsep.data, fun m hm => ?_⟩
      · simp only [manifests]
        rw [erase_append_right _ hd, append_assoc]
      · rcases mem_append.mp hm with h | h
        · exact hsep.deletes m (mem_of_mem_erase h)
        · exact content_of_mem_createNewManifestsForDeletedEntries h

theorem foldl_rewriteManifestForRemoval (removed : List FilePath) (pending : List (Manifest P)) :
    ∀ (visited : List (Manifest P)) (draft : Draft P), draft.Separated →
      draft.manifests.Perm (pending ++ visited) →
      (tableContent (pending.foldl (rewriteManifestForRemoval env newSnapshot removed false)
        draft).manifests).Perm
        (keptContent removed (tableContent pending) ++ tableContent visited) := by
  induction pending with
  | nil =>
    intro visited draft _ hp
    simpa [keptContent] using tableContent_perm hp
  | cons manifest pending ih =>
    intro visited draft hsep hp
    have hme : manifest ∈ draft.manifests := hp.mem_iff.mpr (by simp)
    obtain ⟨hm, hsep'⟩ :=
      rewriteManifestForRemoval_perm env newSnapshot removed false hsep hme
    have hp' := (hp.erase manifest).append_right
      (rewrittenManifests env newSnapshot removed false manifest draft.manifestIndex)
    rw [cons_append, erase_cons_head, append_assoc] at hp'
    have hr := ih (visited ++ _) _ hsep' (hm.trans hp')
    rw [foldl_cons, tableContent_cons, keptContent_append, append_assoc]
    rw [tableContent_append, tableContent_rewrittenManifests] at hr
    exact hr.trans ((perm_append_comm.append_left _).trans
      (perm_append_comm_assoc _ _ _))

theorem removeEntries_content (hsep : draft.Separated)
    (hall : builder.removeAllEntries = false) :
    (tableContent (draft.removeEntries env newSnapshot builder).manifests).Perm
      (keptContent builder.removedEntries (tableContent draft.manifests)) := by
  unfold removeEntries
  rw [hall]
  refine (foldl_rewriteManifestForRemoval builder.removedEntries draft.manifests [] draft
    hsep (by simp)).trans ?_
  rw [tableContent_nil, append_nil]

theorem rewriteManifestForRemoval_createNewSnapshot
    (h : (rewriteManifestForRemoval env newSnapshot removed false draft
      manifest).createNewSnapshot = false) :
    draft.createNewSnapshot = false ∧ ∀ e ∈ manifest.entries, e.path ∉ removed := by
  unfold rewriteManifestForRemoval at h
  simp only [findAndAdjustDeletedManifestEntries_eq] at h
  split_ifs at h with hn
  · rw [List.isEmpty_iff, deletedManifestEntries_eq_nil_iff] at hn
    exact ⟨h, hn⟩
  · split at h <;> cases h

theorem foldl_rewriteManifestForRemoval_createNewSnapshot {ms : List (Manifest P)}
    (h : (ms.foldl (rewriteManifestForRemoval env newSnapshot removed false)
      draft).createNewSnapshot = false) :
    draft.createNewSnapshot = false ∧
      ∀ manifest ∈ ms, ∀ e ∈ manifest.entries, e.path ∉ removed := by
  induction ms generalizing draft with
  | nil => exact ⟨h, by simp⟩
  | cons manifest ms ih =>
    obtain ⟨hd', hr⟩ := ih h
    obtain ⟨hd, hm⟩ := rewriteManifestForRemoval_createNewSnapshot hd'
    exact ⟨hd, forall_mem_cons.mpr ⟨hm, hr⟩⟩

theorem of_removeEntries_createNewSnapshot (hall : builder.removeAllEntries = false)
    (h : (draft.removeEntries env newSnapshot builder).createNewSnapshot = false) :
    draft.createNewSnapshot = false ∧
      ∀ e ∈ tableContent draft.manifests, e.path ∉ builder.removedEntries := by
  unfold removeEntries at h
  rw [hall] at h
  obtain ⟨hd, hes⟩ := foldl_rewriteManifestForRemoval_createNewSnapshot h
  refine ⟨hd, fun e he => ?_⟩
  obtain ⟨manifest, hm, hme⟩ := mem_flatMap.mp he
  obtain ⟨original, ho, hp⟩ := mem_contentOf hme
  rw [← hp]
  exact hes manifest hm original ho

/-! ### Merging -/

theorem merge_content : (tableContent (draft.merge env newSnapshot).manifests).Perm
      (tableContent draft.manifests) := by
  simp only [Draft.merge, Draft.manifests, tableContent_append]
  exact (tableContent_mergeDataManifests draft.dataManifests draft.manifestIndex).append_right _

theorem of_merge_createNewSnapshot (h : (draft.merge env newSnapshot).createNewSnapshot = false) :
    draft.createNewSnapshot = false := by
  simp only [Draft.merge, Bool.or_eq_false_iff] at h
  exact h.1

end Stages

/-! ## What the operations collect -/

namespace MetadataOperation

def newEntries (snapshot : SnapshotHeader) : MetadataOperation P → List (ManifestEntry P)
  | .add path content partition recordCount _ =>
    [newManifestEntry snapshot path content partition recordCount]
  | _ => []

def removedPaths : MetadataOperation P → List FilePath
  | .remove path => [stripFromChar path]
  | _ => []

/-- An operation that can be processed and does not remove files it does not name. -/
def NamesFiles : MetadataOperation P → Prop
  | .add _ content _ _ _ => content ≠ .equalityDeletes
  | .removeAll => False
  | _ => True

end MetadataOperation

/-- `builder'` has collected these entries and paths on top of `builder`. -/
structure SnapshotBuilder.Collects (builder builder' : SnapshotBuilder P)
    (entries : List (ManifestEntry P)) (paths : List FilePath) : Prop where
  newEntries : builder'.newEntries.Perm (builder.newEntries ++ entries)
  removedEntries : builder'.removedEntries = builder.removedEntries ++ paths
  newSnapshot : builder'.newSnapshot = builder.newSnapshot
  removeAllEntries : builder'.removeAllEntries = builder.removeAllEntries

theorem SnapshotBuilder.Collects.trans {builder₁ builder₂ builder₃ : SnapshotBuilder P}
    {entries₁ entries₂ : List (ManifestEntry P)} {paths₁ paths₂ : List FilePath}
    (h₁ : builder₁.Collects builder₂ entries₁ paths₁)
    (h₂ : builder₂.Collects builder₃ entries₂ paths₂) :
    builder₁.Collects builder₃ (entries₁ ++ entries₂) (paths₁ ++ paths₂) where
  newEntries := by
    rw [← append_assoc]
    exact h₂.newEntries.trans (h₁.newEntries.append_right _)
  removedEntries := by rw [h₂.removedEntries, h₁.removedEntries, append_assoc]
  newSnapshot := h₂.newSnapshot.trans h₁.newSnapshot
  removeAllEntries := h₂.removeAllEntries.trans h₁.removeAllEntries

theorem SnapshotBuilder.Collects.of_eq {builder builder' : SnapshotBuilder P}
    (hes : builder'.newEntries = builder.newEntries)
    (hrem : builder'.removedEntries = builder.removedEntries)
    (hsn : builder'.newSnapshot = builder.newSnapshot)
    (hall : builder'.removeAllEntries = builder.removeAllEntries) :
    builder.Collects builder' [] [] where
  newEntries := by rw [hes, append_nil]
  removedEntries := by rw [hrem, append_nil]
  newSnapshot := hsn
  removeAllEntries := hall

theorem processOperation_collects (builder : SnapshotBuilder P) {op : MetadataOperation P}
    (h : op.NamesFiles) :
    ∃ builder', processOperation builder op = .ok builder' ∧
      builder.Collects builder' (op.newEntries builder.newSnapshot)
        op.removedPaths := by
  cases op with
  | add p content part recordCount spec =>
    have hg := perm_flatMap_addToGroup spec
      (newManifestEntry builder.newSnapshot p content part recordCount)
    cases content with
    | data =>
      refine ⟨_, rfl, ?_, (append_nil _).symm, rfl, rfl⟩
      refine List.Perm.trans ?_ (perm_append_singleton _ _).symm
      exact (hg builder.dataEntries).append_right _
    | positionDeletes =>
      refine ⟨_, rfl, ?_, (append_nil _).symm, rfl, rfl⟩
      refine List.Perm.trans ?_ (perm_append_singleton _ _).symm
      exact ((hg builder.positionalDeleteEntries).append_left _).trans perm_middle
    | equalityDeletes => exact absurd rfl h
  | remove => exact ⟨_, rfl, .of_eq (append_nil _).symm, rfl, rfl, rfl⟩
  | removeAll => exact h.elim
  | _ => exact ⟨_, rfl, .of_eq rfl rfl rfl rfl⟩

theorem foldlM_processOperation (ops : List (MetadataOperation P)) :
    ∀ builder : SnapshotBuilder P, (∀ op ∈ ops, op.NamesFiles) →
      ∃ builder', ops.foldlM processOperation builder = .ok builder' ∧
        builder.Collects builder'
          (ops.flatMap (MetadataOperation.newEntries builder.newSnapshot))
          (ops.flatMap MetadataOperation.removedPaths) := by
  induction ops with
  | nil =>
    intro builder _
    exact ⟨builder, rfl, .of_eq rfl rfl rfl rfl⟩
  | cons op ops ih =>
    intro builder h
    obtain ⟨hop, hops⟩ := forall_mem_cons.mp h
    obtain ⟨next, hn, hc⟩ := processOperation_collects builder hop
    obtain ⟨last, hl, hr⟩ := ih next hops
    refine ⟨last, ?_, ?_⟩
    · rw [Fallible.foldlM_cons_of_ok hn]
      exact hl
    · rw [hc.newSnapshot] at hr
      exact hc.trans hr

/-! ## The content of the new snapshot -/

section Pipeline

variable (env : CommitEnv P) (base : Option (Snapshot P)) (builder : SnapshotBuilder P)

theorem start_separated : (start base builder).Separated :=
  ⟨fun _ h => content_of_mem_fetchManifestsFromSnapshot h,
    fun _ h => content_of_mem_fetchManifestsFromSnapshot h⟩

theorem draftWithNewEntries_content :
    (tableContent (draftWithNewEntries env base builder).manifests).Perm
      (tableContent (currentManifests base) ++ contentOf builder.newEntries) := by
  refine (addNewEntries_content builder).trans (List.Perm.append_right _ ?_)
  have hs := tableContent_perm (perm_fetchManifestsFromSnapshot base)
  unfold draftWithoutDeleted
  split_ifs
  · rw [removeDeleted_content]
    exact hs
  · exact hs

theorem draftWithNewEntries_separated : (draftWithNewEntries env base builder).Separated := by
  refine addNewEntries_separated ?_ builder
  unfold draftWithoutDeleted
  split_ifs
  · exact removeDeleted_separated (start_separated base builder) base
  · exact start_separated base builder

variable [DecidableEq P] {builder : SnapshotBuilder P}

theorem draftAfterRemoval_content (base : Option (Snapshot P))
    (hall : builder.removeAllEntries = false) :
    (tableContent (draftAfterRemoval env base builder).manifests).Perm
      (keptContent builder.removedEntries
        (tableContent (currentManifests base) ++ contentOf builder.newEntries)) := by
  have hc := draftWithNewEntries_content env base builder
  unfold draftAfterRemoval
  simp only [hall, Bool.or_false]
  split_ifs with hrem
  · exact (removeEntries_content (draftWithNewEntries_separated env base builder) hall).trans
      (hc.filter _)
  · have hnil : builder.removedEntries = [] := by simpa using hrem
    rw [hnil, keptContent_nil]
    exact hc

theorem finalDraft_content (base : Option (Snapshot P)) (hall : builder.removeAllEntries = false) :
    (tableContent (finalDraft env base builder).manifests).Perm
      (keptContent builder.removedEntries
        (tableContent (currentManifests base) ++ contentOf builder.newEntries)) := by
  have hc := draftAfterRemoval_content env base hall
  unfold finalDraft
  simp only
  split_ifs
  · exact merge_content.trans hc
  · exact hc

variable {env} in
theorem removal_of_finalDraft {base : Option (Snapshot P)}
    (h : (finalDraft env base builder).createNewSnapshot = false) :
    (draftAfterRemoval env base builder).createNewSnapshot = false := by
  unfold finalDraft at h
  simp only at h
  split_ifs at h
  · exact of_merge_createNewSnapshot h
  · exact h

variable {env} in
theorem of_finalDraft_createNewSnapshot {base : Option (Snapshot P)}
    (hall : builder.removeAllEntries = false)
    (h : (finalDraft env base builder).createNewSnapshot = false) :
    builder.newEntries = [] ∧
      ∀ e ∈ tableContent (currentManifests base), e.path ∉ builder.removedEntries := by
  have hr := removal_of_finalDraft h
  have hnew : (draftWithNewEntries env base builder).createNewSnapshot = false ∧
      ∀ e ∈ tableContent (draftWithNewEntries env base builder).manifests,
        e.path ∉ builder.removedEntries := by
    unfold draftAfterRemoval at hr
    simp only [hall, Bool.or_false] at hr
    split_ifs at hr with hrem
    · exact of_removeEntries_createNewSnapshot hall hr
    · have hnil : builder.removedEntries = [] := by simpa using hrem
      exact ⟨hr, by simp [hnil]⟩
  obtain ⟨hc, hes⟩ := hnew
  refine ⟨(of_addNewEntries_createNewSnapshot hc).2, fun e he => ?_⟩
  refine hes e ((draftWithNewEntries_content env base builder).mem_iff.mpr ?_)
  exact mem_append_left _ he

/-- **The current snapshot after `FinalizeNewSnapshot`** contains what it contained and the new
    files, without the removed ones. -/
theorem finalizeNewSnapshot_content (base : Option (Snapshot P))
    (hall : builder.removeAllEntries = false) :
    (tableContent (currentManifests ((finalizeNewSnapshot env base builder).or base))).Perm
      (keptContent builder.removedEntries
        (tableContent (currentManifests base) ++ contentOf builder.newEntries)) := by
  unfold finalizeNewSnapshot
  simp only
  split_ifs with hc
  · exact finalDraft_content env base hall
  · rw [Bool.not_eq_true] at hc
    obtain ⟨hnew, hes⟩ := of_finalDraft_createNewSnapshot hall hc
    have hk : keptContent builder.removedEntries (tableContent (currentManifests base)) =
        tableContent (currentManifests base) :=
      filter_eq_self.mpr fun e he => by simpa using hes e he
    rw [hnew, keptContent_append, hk]
    simp [contentOf, keptContent]

end Pipeline

end PgLake.Iceberg
