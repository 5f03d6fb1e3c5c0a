/-
  Sequence numbers (`metadata_operations.c`, `api/snapshot.c`).

  For a table of the internal catalog the number is raised before manifests are written, for a
  table of a REST catalog after they were written.

  Main result: `sequenceNumbersAgree_iff`.
-/
import PgLake.Iceberg.ManifestAgreement
import PgLake.Iceberg.Snapshots

namespace PgLake.Iceberg

open BestFit Grouping List

variable {P : Type}

/-- What the metadata of a table says about snapshots. -/
structure TableState (P : Type) where
  lastSequenceNumber : Int64
  current : Option (Snapshot P)

namespace MetadataOperation

def isTableCreate : MetadataOperation P → Bool
  | .tableCreate => true
  | _ => false

def isRemoveAll : MetadataOperation P → Bool
  | .removeAll => true
  | _ => false

def isMergeManifests : MetadataOperation P → Bool
  | .mergeManifests => true
  | _ => false

def adds : MetadataOperation P → Bool
  | .add .. => true
  | _ => false

end MetadataOperation

def hasCreateTableOperation (operations : List (MetadataOperation P)) : Bool :=
  operations.any MetadataOperation.isTableCreate

/-- The table before the commit, if it is not created by it. -/
def tableBefore (metadata : TableState P) (operations : List (MetadataOperation P)) :
    Option (TableState P) :=
  if hasCreateTableOperation operations then none else some metadata

/-- The metadata a new snapshot is built on.  A table in a REST catalog keeps its number, a new one
    starts at 1. -/
def startingMetadata (catalogType : IcebergCatalogType) (metadata : TableState P)
    (operations : List (MetadataOperation P)) : TableState P :=
  let writableRestCatalogTable := catalogType = .restCatalogReadWrite
  match tableBefore metadata operations with
  | none => ⟨if writableRestCatalogTable then 1 else 0, none⟩
  | some table =>
    if writableRestCatalogTable then table
    else { table with lastSequenceNumber := table.lastSequenceNumber + 1 }

def publishSnapshot (catalogType : IcebergCatalogType) (metadata : TableState P)
    (newSnapshot : Snapshot P) : Snapshot P :=
  if catalogType = .restCatalogReadWrite then
    { newSnapshot with
      header := { newSnapshot.header with sequenceNumber := metadata.lastSequenceNumber + 1 } }
  else newSnapshot

section

variable [DecidableEq P]

/-- `ApplyIcebergMetadataChanges`: the snapshot published, if there is one. -/
def applyIcebergMetadataChanges (env : CommitEnv P) (catalogType : IcebergCatalogType)
    (metadata : TableState P) (snapshotId : Int64) (operations : List (MetadataOperation P)) :
    Except CommitError (Option (Snapshot P)) := do
  let metadata := startingMetadata catalogType metadata operations
  let builder ← processIcebergMetadataOperations operations
    ⟨snapshotId, metadata.lastSequenceNumber⟩
  return (finalizeNewSnapshot env metadata.current builder).map
    (publishSnapshot catalogType metadata)

end

/-- One sequence number for a snapshot and for what it adds, larger than all before. -/
structure SequenceNumbersAgree (before : Option (TableState P)) (published : Snapshot P) :
    Prop where
  manifests : ∀ manifest ∈ published.manifests,
    manifest ∉ currentManifests (before.bind TableState.current) →
    manifest.sequenceNumber = published.header.sequenceNumber
  entries : ∀ manifest ∈ published.manifests,
    manifest ∉ currentManifests (before.bind TableState.current) →
    ∀ entry ∈ manifest.entries, entry.status = .added →
      entry.hasSequenceNumber = true ∧ entry.sequenceNumber = published.header.sequenceNumber
  greater : ∀ table, before = some table →
    table.lastSequenceNumber < published.header.sequenceNumber

/-! ## What the operations ask for -/

/-- What the operations ask to do with the manifests of the base snapshot. -/
def requested (operations : List (MetadataOperation P)) : SnapshotBuilder P where
  newSnapshot := ⟨0, 0⟩
  removedEntries := operations.flatMap MetadataOperation.removedPaths
  removeAllEntries := operations.any MetadataOperation.isRemoveAll
  applyManifestCompaction := operations.any MetadataOperation.isMergeManifests

def SnapshotBuilder.addsFiles (builder : SnapshotBuilder P) : Bool :=
  !(builder.dataEntries.isEmpty && builder.positionalDeleteEntries.isEmpty)

/-- `builder'` was told these operations on top of `builder`. -/
structure SnapshotBuilder.Told (builder builder' : SnapshotBuilder P)
    (operations : List (MetadataOperation P)) : Prop where
  removedEntries : builder'.removedEntries =
    builder.removedEntries ++ operations.flatMap MetadataOperation.removedPaths
  removeAllEntries : builder'.removeAllEntries =
    (builder.removeAllEntries || operations.any MetadataOperation.isRemoveAll)
  applyManifestCompaction : builder'.applyManifestCompaction =
    (builder.applyManifestCompaction || operations.any MetadataOperation.isMergeManifests)
  addsFiles : builder'.addsFiles = (builder.addsFiles || operations.any MetadataOperation.adds)

theorem addToGroup_ne_nil {K α : Type*} [DecidableEq K] (k : K) (a : α)
    (gs : List (K × List α)) : addToGroup k a gs ≠ [] := by
  cases gs with
  | nil => simp [addToGroup]
  | cons =>
    unfold addToGroup
    split_ifs
    · simp
    · simp

open MetadataOperation SnapshotBuilder TableState

theorem processOperation_told {builder builder' : SnapshotBuilder P}
    {op : MetadataOperation P} (h : processOperation builder op = .ok builder') :
    builder.Told builder' [op] := by
  cases op with
  | add p content =>
    cases content with
    | data | positionDeletes =>
      cases h
      refine ⟨by simp [removedPaths], by simp [isRemoveAll], by simp [isMergeManifests], ?_⟩
      simp [addsFiles, adds, addToGroup_ne_nil]
    | equalityDeletes => cases h
  | _ =>
    cases h
    constructor <;>
      simp [removedPaths, isRemoveAll, isMergeManifests, adds, addsFiles]

theorem SnapshotBuilder.Told.trans {builder₁ builder₂ builder₃ : SnapshotBuilder P}
    {operations₁ operations₂ : List (MetadataOperation P)}
    (h₁ : builder₁.Told builder₂ operations₁) (h₂ : builder₂.Told builder₃ operations₂) :
    builder₁.Told builder₃ (operations₁ ++ operations₂) := by
  constructor
  · rw [h₂.removedEntries, h₁.removedEntries, flatMap_append, append_assoc]
  · rw [h₂.removeAllEntries, h₁.removeAllEntries, any_append, Bool.or_assoc]
  · rw [h₂.applyManifestCompaction, h₁.applyManifestCompaction, any_append, Bool.or_assoc]
  · rw [h₂.addsFiles, h₁.addsFiles, any_append, Bool.or_assoc]

theorem foldlM_processOperation_told (operations : List (MetadataOperation P)) :
    ∀ {builder builder' : SnapshotBuilder P},
      operations.foldlM processOperation builder = .ok builder' →
      builder.Told builder' operations := by
  induction operations with
  | nil =>
    intro builder builder' h
    cases h
    constructor <;> simp
  | cons op operations ih =>
    intro builder builder' h
    rcases Fallible.bind_eq_ok_iff.mp h with ⟨next, hn, hr⟩
    exact (processOperation_told hn).trans (ih hr)

theorem told_of_operations {operations : List (MetadataOperation P)} {snapshot : SnapshotHeader}
    {builder : SnapshotBuilder P}
    (h : processIcebergMetadataOperations operations snapshot = .ok builder) :
    SnapshotBuilder.Told { newSnapshot := snapshot } builder operations :=
  foldlM_processOperation_told operations h

section

variable {operations : List (MetadataOperation P)} {snapshot : SnapshotHeader}
  {builder : SnapshotBuilder P}

section

variable (h : processIcebergMetadataOperations operations snapshot = .ok builder)

include h

theorem keptEntries_eq_requested : builder.keptEntries = (requested operations).keptEntries := by
  have hc := (told_of_operations h).applyManifestCompaction
  funext mergeOnWrite manifest
  unfold keptEntries dropsDeleted
  rw [hc]
  rfl

theorem removes_eq_requested : builder.removes = (requested operations).removes := by
  have hrem := (told_of_operations h).removedEntries
  have hall := (told_of_operations h).removeAllEntries
  funext e
  unfold removes
  rw [hrem, hall]
  rfl

theorem remaining_eq_requested : builder.remaining = (requested operations).remaining := by
  funext es
  simp [remaining, removes_eq_requested h]

theorem addsFiles_eq_any : builder.addsFiles = operations.any adds :=
  (told_of_operations h).addsFiles

end

end

/-! ## When the numbers agree -/

/-- Metadata as it is stored: no number is larger than the last one, and the new id is new. -/
structure ValidState (metadata : TableState P) (snapshotId : Int64) : Prop where
  stored : StoredBase metadata.current ⟨snapshotId, 0⟩
  header : ∀ snapshot, metadata.current = some snapshot →
    snapshot.header.sequenceNumber ≤ metadata.lastSequenceNumber
  entries : ∀ manifest ∈ currentManifests metadata.current, ∀ entry ∈ manifest.entries,
    entry.sequenceNumber ≤ metadata.lastSequenceNumber

section

variable (mergeOnWrite : Bool) (before : Option (TableState P))
  (operations : List (MetadataOperation P))

def manifestsBefore : List (Manifest P) := currentManifests (before.bind TableState.current)

/-- The data manifests that are left when deleted entries are dropped. -/
def keptDataManifests (base : Option (Snapshot P)) (builder : SnapshotBuilder P) :
    List (Manifest P) :=
  (fetchManifestsFromSnapshot base .data).filter fun manifest =>
    !(builder.keptEntries mergeOnWrite manifest).isEmpty

/-- For a table of the internal catalog: no manifest is written again only to drop deleted entries,
    and none that is written again keeps an entry marked as added. -/
structure InternalSequenced : Prop where
  room : ∀ table, before = some table → table.lastSequenceNumber ≠ Int64.maxValue
  cleaned : ∀ manifest ∈ manifestsBefore before,
    (∀ entry ∈ (requested operations).keptEntries mergeOnWrite manifest,
      (requested operations).removes entry = false) →
    (requested operations).keptEntries mergeOnWrite manifest ≠ [] →
    ((requested operations).keptEntries mergeOnWrite manifest).length = manifest.entries.length
  remaining : ∀ manifest ∈ manifestsBefore before,
    (∃ entry ∈ (requested operations).keptEntries mergeOnWrite manifest,
      (requested operations).removes entry = true) →
    ∀ entry ∈ (requested operations).remaining
      ((requested operations).keptEntries mergeOnWrite manifest), entry.status ≠ .added

/-- For a table of a REST catalog: no manifest is written at all. -/
structure RestSequenced [DecidableEq P] : Prop where
  room : ∀ table, before = some table → table.lastSequenceNumber ≠ Int64.maxValue
  adds : operations.any MetadataOperation.adds = false
  removed : ∀ manifest ∈ manifestsBefore before,
    ∀ entry ∈ (requested operations).keptEntries mergeOnWrite manifest,
      (requested operations).removes entry = false
  cleaned : ∀ manifest ∈ manifestsBefore before,
    (requested operations).keptEntries mergeOnWrite manifest ≠ [] →
    ((requested operations).keptEntries mergeOnWrite manifest).length = manifest.entries.length
  merged : (requested operations).dropsDeleted mergeOnWrite = true →
    ∀ env : CommitEnv P, env.mergeOnWrite = mergeOnWrite →
      hasMergeableManifests env.settings env.mergeOrder
        (keptDataManifests mergeOnWrite (before.bind TableState.current) (requested operations)) =
        false

end

/-- A manifest with the number of its snapshot, also in the entries it adds. -/
structure Manifest.Sequenced (number : Int64) (manifest : Manifest P) : Prop where
  sequenceNumber : manifest.sequenceNumber = number
  entries : ∀ entry ∈ manifest.entries, entry.status = .added →
    entry.hasSequenceNumber = true ∧ entry.sequenceNumber = number

/-! ### The published snapshot -/

theorem startingMetadata_current (catalogType : IcebergCatalogType) (metadata : TableState P)
    (operations : List (MetadataOperation P)) :
    (startingMetadata catalogType metadata operations).current =
      (tableBefore metadata operations).bind current := by
  unfold startingMetadata
  rcases tableBefore metadata operations with _ | table
  · rfl
  · simp only
    split_ifs <;> rfl

variable {table : TableState P}

section

variable [DecidableEq P] {env : CommitEnv P} {catalogType : IcebergCatalogType}
  {metadata : TableState P} {snapshotId : Int64} {operations : List (MetadataOperation P)}

def writtenHeader (catalogType : IcebergCatalogType) (metadata : TableState P) (snapshotId : Int64)
    (operations : List (MetadataOperation P)) : SnapshotHeader :=
  ⟨snapshotId, (startingMetadata catalogType metadata operations).lastSequenceNumber⟩

theorem apply_eq_some_iff {published : Snapshot P} :
    applyIcebergMetadataChanges env catalogType metadata snapshotId operations =
        .ok (some published) ↔
      ∃ builder, processIcebergMetadataOperations operations
          (writtenHeader catalogType metadata snapshotId operations) = .ok builder ∧
        ∃ snapshot, finalizeNewSnapshot env ((tableBefore metadata operations).bind
            current) builder = some snapshot ∧
          published = publishSnapshot catalogType
            (startingMetadata catalogType metadata operations) snapshot := by
  unfold applyIcebergMetadataChanges
  rw [Fallible.bind_eq_ok_iff]
  refine exists_congr fun builder => and_congr_right fun _ => ?_
  rw [startingMetadata_current]
  constructor
  · intro h
    have h := Except.ok.inj h
    rcases Option.map_eq_some_iff.mp h with ⟨snapshot, hsn, rfl⟩
    exact ⟨snapshot, hsn, rfl⟩
  · rintro ⟨snapshot, hsn, rfl⟩
    exact congrArg Except.ok (Option.map_eq_some_iff.mpr ⟨snapshot, hsn, rfl⟩)

theorem finalizeNewSnapshot_eq_some {base : Option (Snapshot P)} {builder : SnapshotBuilder P}
    {snapshot : Snapshot P} (h : finalizeNewSnapshot env base builder = some snapshot) :
    snapshot.header = builder.newSnapshot ∧
      snapshot.manifests = (finalDraft env base builder).manifests := by
  unfold finalizeNewSnapshot at h
  simp only at h
  split_ifs at h
  cases h
  exact ⟨rfl, rfl⟩

def publishedNumber (catalogType : IcebergCatalogType) (metadata : TableState P)
    (operations : List (MetadataOperation P)) : Int64 :=
  if catalogType = .restCatalogReadWrite then
    (startingMetadata catalogType metadata operations).lastSequenceNumber + 1
  else (startingMetadata catalogType metadata operations).lastSequenceNumber

omit [DecidableEq P] in
theorem publishSnapshot_manifests (snapshot : Snapshot P) :
    (publishSnapshot catalogType metadata snapshot).manifests = snapshot.manifests := by
  unfold publishSnapshot
  split_ifs <;> rfl

omit [DecidableEq P] in
theorem publishSnapshot_sequenceNumber {snapshot : Snapshot P}
    (hh : snapshot.header = writtenHeader catalogType metadata snapshotId operations) :
    (publishSnapshot catalogType (startingMetadata catalogType metadata operations)
      snapshot).header.sequenceNumber = publishedNumber catalogType metadata operations := by
  unfold publishSnapshot publishedNumber
  split_ifs
  · rfl
  · rw [hh]
    rfl

omit [DecidableEq P] in
theorem lt_publishedNumber_iff (hb : tableBefore metadata operations = some table) :
    table.lastSequenceNumber < publishedNumber catalogType metadata operations ↔
      table.lastSequenceNumber ≠ Int64.maxValue := by
  have hnum : publishedNumber catalogType metadata operations =
      table.lastSequenceNumber + 1 := by
    unfold publishedNumber startingMetadata
    simp only [hb]
    split_ifs <;> rfl
  rw [hnum]
  constructor
  · intro hlt hmax
    rw [hmax] at hlt
    exact absurd hlt (by decide)
  · exact MachineInt.lt_add_one

end

/-! ### Tables of the internal catalog -/

variable {manifest : Manifest P}

section

variable {env : CommitEnv P} {before : Option (TableState P)}
  {operations : List (MetadataOperation P)} {builder : SnapshotBuilder P}
  {header : SnapshotHeader}

/-- **Before merging**, a manifest is an old one or has the number of the snapshot. -/
theorem sequenced_of_origin
    (hbuilder : processIcebergMetadataOperations operations header = .ok builder)
    (hc : InternalSequenced env.mergeOnWrite before operations)
    (h : Origin env (before.bind current) builder manifest) :
    manifest ∈ manifestsBefore before ∨ manifest.Sequenced header.sequenceNumber := by
  have hb := builds_of_operations hbuilder
  have hkeptEq := keptEntries_eq_requested hbuilder
  have hremovesEq := removes_eq_requested hbuilder
  have hremainingEq := remaining_eq_requested hbuilder
  have hnum : builder.newSnapshot.sequenceNumber = header.sequenceNumber := by
    rw [hb.newSnapshot]
  cases h with
  | base hm => exact Or.inl hm
  | @cleaned snapshot manifest hba hm hd hne hk i =>
    rw [hkeptEq] at hd hne hk
    rw [hremovesEq] at hk
    have hold : manifest ∈ manifestsBefore before := by
      rw [manifestsBefore, hba]
      exact hm
    exact absurd (hc.cleaned manifest hold hk hne) hd
  | @remaining manifest src hm hrem i =>
    rw [hkeptEq, hremovesEq] at hrem
    have hn := hc.remaining manifest hm hrem
    rw [← hkeptEq, ← hremainingEq] at hn
    exact Or.inr ⟨hnum, fun e he ha => absurd ha (hn e he)⟩
  | deleted hdel =>
    refine Or.inr ⟨hnum, ?_⟩
    intro e he ha
    rw [hdel e he] at ha
    cases ha
  | added hnew =>
    refine Or.inr ⟨hnum, ?_⟩
    intro e he _
    have hisNew := hb.isNew e (hnew e he)
    exact ⟨hisNew.hasSequenceNumber, hisNew.sequenceNumber⟩

theorem sequenced_mergedManifest (hb : builder.Builds header)
    (hs : StoredBase (before.bind current) header) {sources : List (Manifest P)}
    (hso : ∀ src ∈ sources,
      src ∈ manifestsBefore before ∨ src.Sequenced header.sequenceNumber)
    (spec : Int32) (i : ℕ) :
    (mergedManifest env builder sources spec i).Sequenced
      header.sequenceNumber := by
  refine ⟨congrArg SnapshotHeader.sequenceNumber hb.newSnapshot, ?_⟩
  intro e he ha
  rcases mem_flatMap.mp he with ⟨src, hsrc, he⟩
  rw [hb.newSnapshot] at he
  rcases mem_setExistingStatus he ha with ⟨he, hid⟩
  rcases hso src hsrc with hold | hseq
  · exact absurd hid (hs.snapshotId_fresh src hold e he)
  · exact hseq.entries e he ha

variable [DecidableEq P]

theorem sequenced_of_mem_finalDraft
    (hbuilder : processIcebergMetadataOperations operations header = .ok builder)
    (hs : StoredBase (before.bind current) header)
    (hc : InternalSequenced env.mergeOnWrite before operations)
    (hm : manifest ∈ (finalDraft env (before.bind current) builder).manifests)
    (hnew : manifest ∉ manifestsBefore before) : manifest.Sequenced header.sequenceNumber := by
  have hd : ∀ src ∈ (draftAfterRemoval env (before.bind current)
      builder).manifests,
      src ∈ manifestsBefore before ∨ src.Sequenced header.sequenceNumber :=
    fun src hsrc => sequenced_of_origin hbuilder hc (origin_of_mem hsrc)
  rcases mem_finalDraft hm with hm | ⟨sources, hso, spec, i, rfl⟩
  · exact (hd manifest hm).resolve_left hnew
  · exact sequenced_mergedManifest (builds_of_operations hbuilder) hs
      (fun src h => hd src (hso src h)) spec i

end

/-! ### Commits that write nothing -/

section

variable {env : CommitEnv P} {base : Option (Snapshot P)} {builder : SnapshotBuilder P}

/-- Nothing is added or removed, and no deleted entry is dropped from a manifest that stays. -/
structure Idle (mergeOnWrite : Bool) (base : Option (Snapshot P)) (builder : SnapshotBuilder P) :
    Prop where
  adds : builder.addsFiles = false
  removed : ∀ manifest ∈ currentManifests base,
    ∀ entry ∈ builder.keptEntries mergeOnWrite manifest, builder.removes entry = false
  cleaned : ∀ manifest ∈ currentManifests base, builder.keptEntries mergeOnWrite manifest ≠ [] →
    (builder.keptEntries mergeOnWrite manifest).length = manifest.entries.length

theorem Idle.entries_nil {mergeOnWrite : Bool} (h : Idle mergeOnWrite base builder) :
    builder.dataEntries = [] ∧ builder.positionalDeleteEntries = [] := by
  have ha := h.adds
  simp only [addsFiles, Bool.not_eq_false', Bool.and_eq_true, List.isEmpty_iff] at ha
  exact ha

theorem Idle.mem_base_of_origin (h : Idle env.mergeOnWrite base builder)
    (horigin : Origin env base builder manifest) : manifest ∈ currentManifests base := by
  rcases h.entries_nil with ⟨hda, hd⟩
  cases horigin with
  | base hm => exact hm
  | cleaned hb hm hdr hne =>
    subst hb
    exact absurd (h.cleaned _ hm hne) hdr
  | remaining hm hrem i =>
    rcases hrem with ⟨e, he, hg⟩
    rw [h.removed _ hm e he] at hg
    cases hg
  | deleted hdel hrem =>
    rcases hrem with ⟨manifest, hm, e, he, hg⟩ | ⟨e, he, -⟩
    · rw [h.removed manifest hm e he] at hg
      cases hg
    · simp [SnapshotBuilder.newEntries, hda, hd] at he
  | added hnew hgs =>
    rcases hgs with hgs | hgs
    · exact absurd hda hgs
    · exact absurd hd hgs

variable (env) in
theorem removeDeletedManifestEntries_idle {snapshot : SnapshotHeader} {content : ManifestContent}
    (hd : builder.dropsDeleted env.mergeOnWrite = true) (ms : List (Manifest P))
    (hc : ∀ manifest ∈ ms, builder.keptEntries env.mergeOnWrite manifest ≠ [] →
      (builder.keptEntries env.mergeOnWrite manifest).length = manifest.entries.length) :
    ∀ i : ℕ,
      (removeDeletedManifestEntries env.writer snapshot content ms i).1 =
        ms.filter fun manifest =>
          !(builder.keptEntries env.mergeOnWrite manifest).isEmpty := by
  induction ms with
  | nil =>
    intro i
    rfl
  | cons manifest rest ih =>
    intro i
    rcases forall_mem_cons.mp hc with ⟨hf, hr⟩
    have hk : builder.keptEntries env.mergeOnWrite manifest =
        manifest.entries.filter ManifestEntry.isScannable := if_pos hd
    simp only [removeDeletedManifestEntries, ih hr, filter_cons]
    unfold removeDeletedManifestEntriesInternal
    simp only [← hk]
    by_cases he : (builder.keptEntries env.mergeOnWrite manifest).isEmpty = true
    · simp [he]
    · have hne : builder.keptEntries env.mergeOnWrite manifest ≠ [] := by simpa using he
      simp [he, hf hne]

theorem seq_nil {α : Type} (order : HashOrder α) : order.seq [] = [] :=
  (order.perm []).eq_nil

theorem Idle.removes_eq_false (h : Idle env.mergeOnWrite base builder)
    (hm : manifest ∈ (draftWithNewEntries env base builder).manifests) :
    ∀ e ∈ manifest.entries, builder.removes e = false := by
  rcases h.entries_nil with ⟨hda, hd⟩
  rcases mem_draftWithNewEntries env base builder hm with hm | ⟨hgs, -⟩
  · rcases (draftWithoutDeleted_pass env base builder).source manifest hm with ⟨src, hsrc, i, hi⟩
    rcases mem_cleanedManifests hi with
      (⟨rfl, hall⟩ | ⟨rfl, -⟩) | ⟨snapshot, rfl, hlen, hne, -⟩
    · rw [← hall]
      exact h.removed _ hsrc
    · simp [currentManifests] at hsrc
    · exact absurd (h.cleaned src hsrc hne) hlen
  · rcases hgs with hgs | hgs
    · exact absurd hda hgs
    · exact absurd hd hgs

variable [DecidableEq P]

theorem foldl_rewriteManifestForRemoval_of_none {ms : List (Manifest P)}
    (h : ∀ manifest ∈ ms, ∀ e ∈ manifest.entries, builder.removes e = false)
    (draft : Draft P) :
    ms.foldl (rewriteManifestForRemoval env builder.newSnapshot builder.removedEntries
      builder.removeAllEntries) draft = draft := by
  induction ms with
  | nil => rfl
  | cons manifest rest ih =>
    rcases forall_mem_cons.mp h with ⟨hf, hr⟩
    have hs : rewriteManifestForRemoval env builder.newSnapshot builder.removedEntries
        builder.removeAllEntries draft manifest = draft :=
      if_pos ((builder.deleted_adjusted_isEmpty manifest).mpr hf)
    rw [foldl_cons, hs]
    exact ih hr

theorem Idle.draftAfterRemoval_dataManifests (h : Idle env.mergeOnWrite base builder)
    (hd : builder.dropsDeleted env.mergeOnWrite = true) :
    (draftAfterRemoval env base builder).dataManifests =
      keptDataManifests env.mergeOnWrite base builder := by
  rcases h.entries_nil with ⟨hda, hde⟩
  have hb : ∀ manifest ∈ fetchManifestsFromSnapshot base .data,
      manifest ∈ currentManifests base := fun manifest hm => mem_of_mem_filter hm
  have hs : (draftWithNewEntries env base builder).dataManifests =
      keptDataManifests env.mergeOnWrite base builder := by
    have hnew : (draftWithNewEntries env base builder).dataManifests =
        (draftWithoutDeleted env base builder).dataManifests := by
      simp [draftWithNewEntries, Draft.addNewEntries, hda, seq_nil, createNewManifests]
    have hdr : draftWithoutDeleted env base builder =
        (Draft.start base builder).removeDeleted env base := if_pos hd
    rw [hnew, hdr]
    rcases base with _ | snapshot
    · rfl
    · exact removeDeletedManifestEntries_idle env hd _
        (fun manifest hm => h.cleaned manifest (hb manifest hm)) _
  rw [← hs]
  unfold draftAfterRemoval
  split_ifs with hact
  · -- the loop finds nothing to remove
    exact congrArg Draft.dataManifests
      (foldl_rewriteManifestForRemoval_of_none (fun manifest hm => h.removes_eq_false hm) _)
  · rfl

/-! ### Commits that only merge -/

variable (env builder) in
theorem exists_merged {latest : Manifest P} {gs : List (ManifestGroup P)}
    {g : ManifestGroup P} (hg : g ∈ gs)
    (hmrg : isMergeableManifestGroup env.settings latest g = true)
    (hes : ∃ manifest ∈ g.manifests, manifest.entries ≠ []) (index : ℕ) :
    ∃ i, mergedManifest env builder g.manifests g.partitionSpecId i ∈
      (mergeManifestGroups env.settings env.writer builder.newSnapshot latest gs
        index).1 := by
  induction gs generalizing index with
  | nil => simp at hg
  | cons first rest ih =>
    simp only [mergeManifestGroups]
    rcases mem_cons.mp hg with rfl | hg
    · have hme : mergeManifestGroup env.writer builder.newSnapshot g index =
          some (mergedManifest env builder g.manifests g.partitionSpecId
            index) := by
        refine if_neg ?_
        rcases hes with ⟨manifest, hm, hne⟩
        intro he
        rw [List.isEmpty_iff, flatMap_eq_nil_iff] at he
        exact hne (map_eq_nil_iff.mp (he manifest hm))
      rw [if_pos hmrg, hme]
      exact ⟨index, mem_cons_self⟩
    · split_ifs
      · split
        · rcases ih hg (index + 1) with ⟨i, hi⟩
          exact ⟨i, mem_cons_of_mem _ hi⟩
        · exact ih hg index
      · exact ih hg index

theorem mem_of_mem_finalDraft_of_none (hn : builder.dropsDeleted env.mergeOnWrite = true →
      hasMergeableManifests env.settings env.mergeOrder
        (draftAfterRemoval env base builder).dataManifests = false)
    (hm : manifest ∈ (finalDraft env base builder).manifests) :
    manifest ∈ (draftAfterRemoval env base builder).manifests := by
  unfold finalDraft at hm
  simp only at hm
  split_ifs at hm with hmerges
  · have hd : builder.dropsDeleted env.mergeOnWrite = true := by
      rw [Bool.or_eq_true, Bool.and_eq_true] at hmerges
      rcases hmerges with hc | ⟨he, -⟩
      · simp [dropsDeleted, hc]
      · simp [dropsDeleted, CommitEnv.mergeOnWrite, he]
    have hn := hn hd
    rcases mem_append.mp hm with hm | hm
    · refine mem_append_left _ ?_
      simp only [Draft.merge, mergeDataManifests] at hm
      unfold hasMergeableManifests at hn
      split at hm
      · simp at hm
      · next latest hl =>
        rw [hl] at hn
        simp only [any_eq_false, Bool.not_eq_true] at hn
        rcases mergeManifestGroups_of_none hn (draftAfterRemoval env base builder).manifestIndex
          with ⟨hme, hu⟩
        rw [hme, hu, nil_append, mem_flatMap] at hm
        exact (mem_manifestGroups_iff env.settings env.mergeOrder).mp hm
    · exact mem_append_right _ hm
  · exact hm

variable (env) in
theorem Idle.published_merged (h : Idle env.mergeOnWrite base builder)
    (hdr : builder.dropsDeleted env.mergeOnWrite = true)
    (hmrg : hasMergeableManifests env.settings env.mergeOrder
      (keptDataManifests env.mergeOnWrite base builder) = true) :
    ∃ snapshot, finalizeNewSnapshot env base builder = some snapshot ∧ ∃ sources spec i,
        mergedManifest env builder sources spec i ∈ snapshot.manifests := by
  have hd := h.draftAfterRemoval_dataManifests hdr
  have hme : (builder.applyManifestCompaction ||
      (env.settings.enableManifestMergeOnWrite &&
        hasMergeableManifests env.settings env.mergeOrder
          (draftAfterRemoval env base builder).dataManifests)) = true := by
    rw [hd, hmrg, Bool.and_true]
    exact hdr
  have hf : finalDraft env base builder =
      (draftAfterRemoval env base builder).merge env builder.newSnapshot := if_pos hme
  rw [← hd] at hmrg
  unfold hasMergeableManifests at hmrg
  split at hmrg
  · cases hmrg
  · next latest hl =>
    have hlen := mergedLength_lt env.settings env.writer builder.newSnapshot latest
      (fun g hg => manifests_ne_nil_of_mem_manifestGroups hg) hmrg
      (draftAfterRemoval env base builder).manifestIndex
    rw [(perm_manifestGroups _).length_eq] at hlen
    rcases any_eq_true.mp hmrg with ⟨g, hg, hworth⟩
    have hes : ∃ manifest ∈ g.manifests, manifest.entries ≠ [] := by
      rcases exists_mem_of_ne_nil _ (manifests_ne_nil_of_mem_manifestGroups hg) with
        ⟨manifest, hm⟩
      refine ⟨manifest, hm, ?_⟩
      have hk := (mem_manifestGroups_iff env.settings env.mergeOrder).mp ⟨g, hg, hm⟩
      rw [hd] at hk
      intro hnil
      have he := (mem_filter.mp hk).2
      unfold keptEntries at he
      simp [hnil] at he
    rcases exists_merged env builder hg hworth hes
      (draftAfterRemoval env base builder).manifestIndex with ⟨i, hi⟩
    have hfl : (finalDraft env base builder).createNewSnapshot = true := by
      rw [hf]
      simp only [Draft.merge, mergeDataManifests, hl, Bool.or_eq_true, decide_eq_true_eq,
        length_append]
      exact Or.inr hlen
    refine ⟨_, if_pos hfl, g.manifests, g.partitionSpecId, i, ?_⟩
    refine mem_append_left _ ?_
    rw [hf]
    simp only [Draft.merge, mergeDataManifests, hl]
    exact mem_append_left _ hi

end

/-! ### Commits that write something -/

section

variable {mergeOnWrite : Bool} {size : ℤ} {base : Option (Snapshot P)}
  {builder : SnapshotBuilder P}

theorem exists_written_of_some {src : Manifest P}
    (hs : ∃ e ∈ src.entries, builder.removes e = true) (i : ℕ) :
    ∃ w ∈ removalManifests (unmergingEnv P mergeOnWrite size) builder src i,
      w.length = size := by
  rw [removalManifests_of_some _ hs]
  unfold createNewManifestsForDeletedEntries
  simp only
  split_ifs
  · exact ⟨_, mem_singleton.mpr rfl, rfl⟩
  · exact ⟨_, mem_cons_self, rfl⟩

theorem exists_written_of_new {src : Manifest P} (hsrc : src.length = size)
    (i : ℕ) :
    ∃ w ∈ removalManifests (unmergingEnv P mergeOnWrite size) builder src i,
      w.length = size := by
  by_cases hs : ∃ e ∈ src.entries, builder.removes e = true
  · exact exists_written_of_some hs i
  · have hn : ∀ e ∈ src.entries, builder.removes e = false := by
      intro e he
      by_contra hrem
      exact hs ⟨e, he, by simpa using hrem⟩
    rw [removalManifests_of_none _ hn]
    exact ⟨src, mem_singleton.mpr rfl, hsrc⟩

variable (builder) in
theorem exists_new_of_ne_nil {gs : List (Int32 × List (ManifestEntry P))} (hne : gs ≠ [])
    (content : ManifestContent) (i : ℕ) :
    ∃ manifest ∈ (createNewManifests (unmergingEnv P mergeOnWrite size) builder.newSnapshot content
      ((unmergingEnv P mergeOnWrite size).entryOrder.seq gs) i).1,
      manifest.length = size := by
  rcases gs with _ | ⟨g, rest⟩
  · exact absurd rfl hne
  · exact ⟨_, mem_cons_self, rfl⟩

variable (mergeOnWrite size base) in
theorem exists_new_of_addsFiles (h : builder.addsFiles = true) :
    ∃ manifest ∈ (draftWithNewEntries (unmergingEnv P mergeOnWrite size) base builder).manifests,
      manifest.length = size := by
  have hne : builder.dataEntries ≠ [] ∨ builder.positionalDeleteEntries ≠ [] := by
    by_contra hnil
    rw [not_or, not_not, not_not] at hnil
    simp [addsFiles, hnil.1, hnil.2] at h
  rcases hne with hne | hne
  · rcases exists_new_of_ne_nil builder hne .data
      (draftWithoutDeleted (unmergingEnv P mergeOnWrite size) base builder).manifestIndex with
      ⟨manifest, hm, hlen⟩
    exact ⟨manifest, mem_append_left _ (mem_append_right _ hm), hlen⟩
  · rcases exists_new_of_ne_nil builder hne .deletes
      (createNewManifests (unmergingEnv P mergeOnWrite size) builder.newSnapshot .data
        ((unmergingEnv P mergeOnWrite size).entryOrder.seq builder.dataEntries)
        (draftWithoutDeleted (unmergingEnv P mergeOnWrite size) base builder).manifestIndex).2 with
      ⟨manifest, hm, hlen⟩
    exact ⟨manifest, mem_append_right _ (mem_append_right _ hm), hlen⟩

variable [DecidableEq P]

theorem idle_of_no_written (size : ℤ)
    (h : ∀ w ∈ (draftAfterRemoval (unmergingEnv P mergeOnWrite size) base builder).manifests,
      w.length ≠ size) : Idle mergeOnWrite base builder := by
  have hp := draftAfterRemoval_pass (unmergingEnv P mergeOnWrite size) base builder
  have hrem : ∀ manifest ∈ currentManifests base,
      ∀ e ∈ builder.keptEntries mergeOnWrite manifest, builder.removes e = false := by
    intro manifest hm e he
    by_contra hg
    rcases exists_source_of_kept (unmergingEnv P mergeOnWrite size) hm
      (ne_nil_of_mem he) with ⟨src, hsrc, hes⟩
    rcases hp.result src hsrc with ⟨i, hi⟩
    have hs : ∃ e ∈ src.entries, builder.removes e = true :=
      ⟨e, hes ▸ he, by simpa using hg⟩
    rcases exists_written_of_some hs i with ⟨w, hw, hlen⟩
    exact h w (hi w hw) hlen
  refine ⟨?_, hrem, ?_⟩
  · by_contra ha
    rw [Bool.not_eq_false] at ha
    rcases exists_new_of_addsFiles mergeOnWrite size base ha with ⟨src, hsrc, hlen⟩
    rcases hp.result src hsrc with ⟨i, hi⟩
    rcases exists_written_of_new hlen i with ⟨w, hw, hlen⟩
    exact h w (hi w hw) hlen
  · intro manifest hm hne
    by_contra hlen
    rcases base with _ | snapshot
    · simp [currentManifests] at hm
    · rcases cleaned_mem (unmergingEnv P mergeOnWrite size) hm hlen hne
        (hrem manifest hm) with ⟨i, hi⟩
      exact h _ hi rfl

end

/-! ### The two kinds of tables -/

section

variable {catalogType : IcebergCatalogType} {metadata : TableState P} {snapshotId : Int64}
  {operations : List (MetadataOperation P)} {builder : SnapshotBuilder P} {mergeOnWrite : Bool}

theorem tableBefore_eq_some (h : tableBefore metadata operations = some table) : table = metadata := by
  unfold tableBefore at h
  split_ifs at h
  exact (Option.some.inj h).symm

theorem ValidState.storedBefore (h : ValidState metadata snapshotId) (num : Int64) :
    StoredBase ((tableBefore metadata operations).bind current)
      ⟨snapshotId, num⟩ := by
  rcases hb : tableBefore metadata operations with _ | table
  · exact ⟨by simp [currentManifests], by simp [currentManifests]⟩
  · rw [tableBefore_eq_some hb]
    exact ⟨h.stored.length_nonneg, h.stored.snapshotId_fresh⟩

variable (catalogType) in
theorem ne_publishedNumber {num : Int64} (hle : num ≤ metadata.lastSequenceNumber)
    (hb : tableBefore metadata operations = some table)
    (hroom : table.lastSequenceNumber ≠ Int64.maxValue) :
    num ≠ publishedNumber catalogType metadata operations := by
  have hlt : _ < publishedNumber catalogType metadata operations :=
    (lt_publishedNumber_iff hb).mpr hroom
  rw [tableBefore_eq_some hb] at hlt
  rintro rfl
  exact absurd hlt (Int64.not_lt.mpr hle)

section

variable (hvalid : ValidState metadata snapshotId)
  (hroom : ∀ table, tableBefore metadata operations = some table →
    table.lastSequenceNumber ≠ Int64.maxValue)
include hvalid hroom

variable (catalogType) in
theorem ValidState.entry_ne_publishedNumber
    (hm : manifest ∈ manifestsBefore (tableBefore metadata operations)) {e : ManifestEntry P}
    (he : e ∈ manifest.entries) :
    e.sequenceNumber ≠ publishedNumber catalogType metadata operations := by
  rcases hb : tableBefore metadata operations with _ | table
  · simp [hb, manifestsBefore, currentManifests] at hm
  · rw [hb, tableBefore_eq_some hb] at hm
    exact ne_publishedNumber catalogType (hvalid.entries manifest hm e he) hb
      (hroom table hb)

variable (catalogType) in
theorem ValidState.header_ne_publishedNumber {snapshot : Snapshot P}
    (hba : (tableBefore metadata operations).bind current = some snapshot) :
    snapshot.header.sequenceNumber ≠ publishedNumber catalogType metadata operations := by
  rcases hb : tableBefore metadata operations with _ | table
  · simp [hb] at hba
  · rw [hb, tableBefore_eq_some hb] at hba
    exact ne_publishedNumber catalogType (hvalid.header snapshot hba) hb
      (hroom table hb)

end

theorem sequenceNumbersAgree_publish_iff {snapshot : Snapshot P}
    (hh : snapshot.header = writtenHeader catalogType metadata snapshotId operations) :
    SequenceNumbersAgree (tableBefore metadata operations) (publishSnapshot catalogType
        (startingMetadata catalogType metadata operations) snapshot) ↔
      (∀ manifest ∈ snapshot.manifests,
        manifest ∉ manifestsBefore (tableBefore metadata operations) →
        manifest.Sequenced (publishedNumber catalogType metadata operations)) ∧
      ∀ table, tableBefore metadata operations = some table →
        table.lastSequenceNumber ≠ Int64.maxValue := by
  have hnum := publishSnapshot_sequenceNumber hh
  constructor
  · rintro ⟨hma, hes, hg⟩
    rw [publishSnapshot_manifests, hnum] at hma hes
    refine ⟨fun manifest hm hnew => ⟨hma manifest hm hnew, hes manifest hm hnew⟩, ?_⟩
    intro table hb
    have hlt := hg table hb
    rw [hnum] at hlt
    exact (lt_publishedNumber_iff hb).mp hlt
  · rintro ⟨hseq, hroom⟩
    constructor
    · rw [publishSnapshot_manifests, hnum]
      exact fun manifest hm hnew => (hseq manifest hm hnew).sequenceNumber
    · rw [publishSnapshot_manifests, hnum]
      exact fun manifest hm hnew => (hseq manifest hm hnew).entries
    · intro table hb
      rw [hnum]
      exact (lt_publishedNumber_iff hb).mpr (hroom table hb)

variable [DecidableEq P]

/-- In every environment, the manifests added have the number of the published snapshot. -/
def AllSequenced (catalogType : IcebergCatalogType) (mergeOnWrite : Bool) (metadata : TableState P)
    (operations : List (MetadataOperation P)) (builder : SnapshotBuilder P) : Prop :=
  ∀ env : CommitEnv P, env.mergeOnWrite = mergeOnWrite → ∀ snapshot,
    finalizeNewSnapshot env ((tableBefore metadata operations).bind TableState.current) builder =
      some snapshot →
    ∀ manifest ∈ snapshot.manifests, manifest ∉ manifestsBefore (tableBefore metadata operations) →
      manifest.Sequenced (publishedNumber catalogType metadata operations)

theorem AllSequenced.written (h : AllSequenced catalogType mergeOnWrite metadata operations builder)
    (hvalid : ValidState metadata snapshotId) {size : ℤ} (hpos : 0 < size)
    (hs : ∀ manifest ∈ manifestsBefore (tableBefore metadata operations),
      manifest.length < size) (hlen : manifest.length = size)
    (hm : manifest ∈ (draftAfterRemoval (unmergingEnv P mergeOnWrite size)
      ((tableBefore metadata operations).bind current) builder).manifests) :
    manifest.Sequenced (publishedNumber catalogType metadata operations) := by
  rcases published_of_written hpos (hvalid.storedBefore 0).length_nonneg hs hlen hm with
    ⟨hnew, snapshot, hsn, -, hpub⟩
  exact h _ rfl snapshot hsn manifest hpub hnew

section Sequenced
variable (hvalid : ValidState metadata snapshotId)
  (hbuilder : processIcebergMetadataOperations operations
    (writtenHeader catalogType metadata snapshotId operations) = .ok builder)
  (hroom : ∀ table, tableBefore metadata operations = some table →
    table.lastSequenceNumber ≠ Int64.maxValue)

include hvalid hbuilder hroom in
theorem internalSequenced_iff (hin : catalogType ≠ .restCatalogReadWrite) :
    AllSequenced catalogType mergeOnWrite metadata operations builder ↔
      InternalSequenced mergeOnWrite (tableBefore metadata operations) operations := by
  have hnum : (writtenHeader catalogType metadata snapshotId operations).sequenceNumber =
      publishedNumber catalogType metadata operations := (if_neg hin).symm
  constructor
  · intro hall
    rcases exists_length_bound (manifestsBefore (tableBefore metadata operations)) with
      ⟨size, hpos, hs⟩
    refine ⟨hroom, ?_, ?_⟩
    · intro manifest hm hk hne
      rw [← keptEntries_eq_requested hbuilder] at hk hne ⊢
      rw [← removes_eq_requested hbuilder] at hk
      by_contra hlen
      rcases hb : (tableBefore metadata operations).bind current with _ | snapshot
      · simp [manifestsBefore, hb, currentManifests] at hm
      · rw [manifestsBefore, hb] at hm
        rcases cleaned_mem (unmergingEnv P mergeOnWrite size) hm hlen hne hk with ⟨i, hi⟩
        rw [← hb] at hi
        have hseq := hall.written hvalid hpos hs rfl hi
        exact hvalid.header_ne_publishedNumber catalogType hroom hb hseq.sequenceNumber
    · intro manifest hm hrem e he ha
      rw [← keptEntries_eq_requested hbuilder] at hrem he
      rw [← removes_eq_requested hbuilder] at hrem
      rw [← remaining_eq_requested hbuilder] at he
      rcases exists_written_of_rewrites size hm (Or.inr hrem) (ne_nil_of_mem he) with
        ⟨w, hw, hlen, hes⟩
      have hseq := hall.written hvalid hpos hs hlen hw
      have hold : e ∈ manifest.entries :=
        mem_entries_of_mem_keptEntries (mem_of_mem_filter he)
      exact hvalid.entry_ne_publishedNumber catalogType hroom hm hold
        (hseq.entries e (hes ▸ he) ha).2
  · intro hc env henv snapshot hsn manifest hm hnew
    subst henv
    rw [(finalizeNewSnapshot_eq_some hsn).2] at hm
    rw [← hnum]
    exact sequenced_of_mem_finalDraft hbuilder (hvalid.storedBefore _) hc hm hnew

include hbuilder hroom in
theorem restSequenced_iff_idle :
    RestSequenced mergeOnWrite (tableBefore metadata operations) operations ↔
      Idle mergeOnWrite ((tableBefore metadata operations).bind current) builder ∧
      (builder.dropsDeleted mergeOnWrite = true → ∀ env : CommitEnv P,
        env.mergeOnWrite = mergeOnWrite →
        hasMergeableManifests env.settings env.mergeOrder (keptDataManifests mergeOnWrite
          ((tableBefore metadata operations).bind current) builder) = false) := by
  have hkeptEq := keptEntries_eq_requested hbuilder
  have hremovesEq := removes_eq_requested hbuilder
  have haddsEq := addsFiles_eq_any hbuilder
  have hdropsEq : builder.dropsDeleted = (requested operations).dropsDeleted := by
    have hco := (told_of_operations hbuilder).applyManifestCompaction
    funext mergeOnWrite
    unfold dropsDeleted
    rw [hco]
    rfl
  have hdataEq : keptDataManifests mergeOnWrite
      ((tableBefore metadata operations).bind current) builder =
      keptDataManifests mergeOnWrite
        ((tableBefore metadata operations).bind current) (requested operations) := by
    unfold keptDataManifests
    rw [hkeptEq]
  constructor
  · rintro ⟨-, ha, hrem, hc, hm⟩
    rw [hdropsEq, hdataEq]
    refine ⟨⟨haddsEq.trans ha, ?_, ?_⟩, hm⟩
    · rw [hkeptEq, hremovesEq]
      exact hrem
    · rw [hkeptEq]
      exact hc
  · rintro ⟨⟨ha, hrem, hc⟩, hm⟩
    rw [hdropsEq, hdataEq] at hm
    rw [hkeptEq] at hrem hc
    rw [hremovesEq] at hrem
    exact ⟨hroom, haddsEq.symm.trans ha, hrem, hc, hm⟩

def CommitEnv.withFileSize (env : CommitEnv P) (size : ℤ) : CommitEnv P :=
  { env with writer := ⟨"", "", fun _ => size⟩ }

omit [DecidableEq P] in
theorem rest_number_ne (hr : catalogType = .restCatalogReadWrite) :
    (writtenHeader catalogType metadata snapshotId operations).sequenceNumber ≠
      publishedNumber catalogType metadata operations := by
  have hnum : publishedNumber catalogType metadata operations =
      (writtenHeader catalogType metadata snapshotId operations).sequenceNumber + 1 := if_pos hr
  rw [hnum]
  exact MachineInt.ne_add_one _

include hvalid hbuilder hroom in
theorem restSequenced_iff (hr : catalogType = .restCatalogReadWrite) :
    AllSequenced catalogType mergeOnWrite metadata operations builder ↔
      RestSequenced mergeOnWrite (tableBefore metadata operations) operations := by
  have hnum : builder.newSnapshot.sequenceNumber ≠
      publishedNumber catalogType metadata operations := by
    rw [(builds_of_operations hbuilder).newSnapshot]
    exact rest_number_ne hr
  rw [restSequenced_iff_idle hbuilder hroom]
  constructor
  · intro hall
    rcases exists_length_bound (manifestsBefore (tableBefore metadata operations)) with
      ⟨size, hpos, hs⟩
    -- a manifest written before merging would have a smaller number
    have hi : Idle mergeOnWrite ((tableBefore metadata operations).bind current)
        builder := by
      refine idle_of_no_written size ?_
      intro w hw hlen
      have hseq := hall.written hvalid hpos hs hlen hw
      cases origin_of_mem hw with
      | base hm =>
        have := hs w hm
        omega
      | cleaned hb =>
        exact hvalid.header_ne_publishedNumber catalogType hroom hb hseq.sequenceNumber
      | remaining => exact hnum hseq.sequenceNumber
      | deleted hdel hrem spec content i
      | added =>
        exact hnum hseq.sequenceNumber
    refine ⟨hi, ?_⟩
    -- and so would a merged one
    intro hd env henv
    by_contra hmergeable
    rw [Bool.not_eq_false] at hmergeable
    subst henv
    rcases hi.published_merged (env.withFileSize size) hd hmergeable with
      ⟨snapshot, hsn, sources, spec, i, hm⟩
    have hseq := hall (env.withFileSize size) rfl snapshot hsn _ hm (by
      intro hold
      have := hs _ hold
      exact absurd this (lt_irrefl size))
    exact hnum hseq.sequenceNumber
  · rintro ⟨hi, hme⟩ env henv snapshot hsn manifest hm hnew
    subst henv
    rw [(finalizeNewSnapshot_eq_some hsn).2] at hm
    have hdr := mem_of_mem_finalDraft_of_none (fun hd => by
      rw [hi.draftAfterRemoval_dataManifests hd]
      exact hme hd env rfl) hm
    exact absurd (hi.mem_base_of_origin (origin_of_mem hdr)) hnew

end Sequenced

/-- **Sequence numbers.**  Operations that create a snapshot are published with one sequence number
    in every environment exactly if, for a table of a REST catalog, they write no manifest, and for
    any other table they write no manifest again that had an older number or keeps an older
    entry. -/
theorem sequenceNumbersAgree_iff (catalogType : IcebergCatalogType) (mergeOnWrite : Bool)
    (metadata : TableState P) (snapshotId : Int64) (operations : List (MetadataOperation P))
    (hvalid : ValidState metadata snapshotId)
    (hcreates : ∃ (env : CommitEnv P) (published : Snapshot P), env.mergeOnWrite = mergeOnWrite ∧
      applyIcebergMetadataChanges env catalogType metadata snapshotId operations =
        .ok (some published)) :
    (∀ env : CommitEnv P, env.mergeOnWrite = mergeOnWrite → ∀ published,
      applyIcebergMetadataChanges env catalogType metadata snapshotId operations =
        .ok (some published) →
      SequenceNumbersAgree (tableBefore metadata operations) published) ↔
      if catalogType = .restCatalogReadWrite then
        RestSequenced mergeOnWrite (tableBefore metadata operations) operations
      else InternalSequenced mergeOnWrite (tableBefore metadata operations) operations := by
  rcases hcreates with ⟨env₀, published₀, henv₀, happly₀⟩
  rcases apply_eq_some_iff.mp happly₀ with ⟨builder, hbuilder, snapshot₀, hsnapshot₀, rfl⟩
  have hheader : ∀ {env : CommitEnv P} {snapshot : Snapshot P},
      finalizeNewSnapshot env ((tableBefore metadata operations).bind current) builder =
        some snapshot →
      snapshot.header = writtenHeader catalogType metadata snapshotId operations := by
    intro env snapshot hsnapshot
    rw [(finalizeNewSnapshot_eq_some hsnapshot).1, (builds_of_operations hbuilder).newSnapshot]
  refine Iff.trans (b := AllSequenced catalogType mergeOnWrite metadata operations builder ∧
    ∀ table, tableBefore metadata operations = some table →
      table.lastSequenceNumber ≠ Int64.maxValue) ⟨fun h => ⟨?_, ?_⟩, ?_⟩ ?_
  · intro env henv snapshot hsnapshot
    have hagree := h env henv _ (apply_eq_some_iff.mpr ⟨builder, hbuilder, _, hsnapshot, rfl⟩)
    exact ((sequenceNumbersAgree_publish_iff (hheader hsnapshot)).mp hagree).1
  · exact ((sequenceNumbersAgree_publish_iff (hheader hsnapshot₀)).mp (h env₀ henv₀ _ happly₀)).2
  · rintro ⟨hall, hroom⟩ env henv published happly
    rcases apply_eq_some_iff.mp happly with ⟨builder', hbuilder', snapshot, hsnapshot, rfl⟩
    rw [hbuilder] at hbuilder'
    cases hbuilder'
    exact (sequenceNumbersAgree_publish_iff (hheader hsnapshot)).mpr
      ⟨hall env henv snapshot hsnapshot, hroom⟩
  split_ifs with hrest
  · constructor
    · rintro ⟨hall, hroom⟩
      exact (restSequenced_iff hvalid hbuilder hroom hrest).mp hall
    · intro hcond
      exact ⟨(restSequenced_iff hvalid hbuilder hcond.room hrest).mpr hcond, hcond.room⟩
  · constructor
    · rintro ⟨hall, hroom⟩
      exact (internalSequenced_iff hvalid hbuilder hroom hrest).mp hall
    · intro hcond
      exact ⟨(internalSequenced_iff hvalid hbuilder hcond.room hrest).mpr hcond, hcond.room⟩

end

def exampleState : TableState Unit := ⟨2, some exampleBase⟩

theorem validState_exampleState : ValidState exampleState 7 where
  stored := ⟨by decide, by decide⟩
  header := by
    rintro snapshot ⟨⟩
    decide
  entries := by decide

/-- One more file for a table of the internal catalog. -/
theorem sequenceNumbersAgree_iff_add : ValidState exampleState 7 ∧
    (∃ (env : CommitEnv Unit) (published : Snapshot Unit), env.mergeOnWrite = true ∧
      applyIcebergMetadataChanges env .postgresCatalog exampleState 7
        [.add "f4" .data () 9 0] = .ok (some published)) ∧
    ((∀ env : CommitEnv Unit, env.mergeOnWrite = true → ∀ published,
      applyIcebergMetadataChanges env .postgresCatalog exampleState 7 [.add "f4" .data () 9 0] =
        .ok (some published) →
      SequenceNumbersAgree (tableBefore exampleState [.add "f4" .data () 9 0]) published) ↔
      if IcebergCatalogType.postgresCatalog = .restCatalogReadWrite then
        RestSequenced true (tableBefore exampleState [.add "f4" .data () 9 0])
          [.add "f4" .data () 9 0]
      else InternalSequenced true (tableBefore exampleState [.add "f4" .data () 9 0])
        [.add "f4" .data () 9 0]) :=
  ⟨validState_exampleState, ⟨exampleEnv, _, rfl, rfl⟩, sequenceNumbersAgree_iff .postgresCatalog
    true exampleState 7 _ validState_exampleState ⟨exampleEnv, _, rfl, rfl⟩⟩

/-- A file is added to a table of a REST catalog: its snapshot has number 3, its manifest and its
    entry have number 2.  In the internal catalog they agree, but the manifest that had a deleted
    entry is written again with number 2. -/
theorem added_manifest_has_old_number :
    (∃ published, applyIcebergMetadataChanges exampleEnv .restCatalogReadWrite exampleState 7
        [.add "f4" .data () 9 0] = .ok (some published) ∧
      published.header.sequenceNumber = 3 ∧
      ∃ manifest ∈ published.manifests, manifest ∉ exampleBase.manifests ∧
        manifest.sequenceNumber = 2 ∧
        ∃ entry ∈ manifest.entries, entry.status = .added ∧ entry.snapshotId = 7 ∧
          entry.sequenceNumber = 2) ∧
    ∃ published, applyIcebergMetadataChanges exampleEnv .postgresCatalog exampleState 7
        [.add "f4" .data () 9 0] = .ok (some published) ∧
      published.header.sequenceNumber = 3 ∧
      ∃ manifest ∈ published.manifests, manifest ∉ exampleBase.manifests ∧
        manifest.sequenceNumber = 2 := by
  refine ⟨⟨_, rfl, rfl, ?_⟩, _, rfl, rfl, ?_⟩
  · exact ⟨_, mem_cons_of_mem _ mem_cons_self, by decide, rfl, _, mem_cons_self, rfl, rfl, rfl⟩
  · exact ⟨_, mem_cons_self, by decide, rfl⟩

end PgLake.Iceberg
