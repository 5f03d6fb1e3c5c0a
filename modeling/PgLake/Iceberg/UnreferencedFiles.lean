/-
  The files that snapshot expiration queues for deletion (`operations/find_referenced_files.c`, and
  `DeleteUnreferencedFiles` of `api/table_metadata.c`).

  A path that is in the table already ends the walk below it, since manifests and manifest lists
  are immutable.

  Main result: `expiration_exact_iff`.
-/
import PgLake.Lib.Fallible
import PgLake.Lib.Grouping
import PgLake.Iceberg.Manifests

namespace PgLake.Iceberg.Unreferenced

open Fallible Grouping List

/-- The bytes of a path. -/
abbrev Path := List UInt8

scoped instance instLawfulBEqPath : LawfulBEq Path := inferInstance

def maxS3PathLength : ℕ := 5 + 63 + 1 + 1024 + 2

/-- What a hash table with `HASH_STRINGS` keeps and compares of a key: it copies with `strlcpy`
    and compares with `strncmp`, both up to the last byte but one of the key size. -/
def hashKey (path : Path) : Path := path.take (maxS3PathLength - 1)

abbrev FilesHash := List Path

/-- `AppendFileToHash`; the flag says whether the file was there already. -/
def appendFileToHash (path : Path) (hash : FilesHash) : Bool × FilesHash :=
  if hashKey path ∈ hash then (true, hash) else (false, hash ++ [hashKey path])

/-- The fields of `IcebergManifestEntry` that the walk reads. -/
structure FileEntry where
  status : EntryStatus
  filePath : Path
  deriving DecidableEq

/-- `IsManifestEntryStatusScannable`. -/
def FileEntry.isScannable (entry : FileEntry) : Bool := entry.status ≠ .deleted

/-- What a file of the table holds.  The walk does not read data and delete files. -/
inductive FileContents where
  | manifestList (manifests : List Path)
  | manifest (entries : List FileEntry)
  | dataFile
  deriving DecidableEq

abbrev Storage := Path → FileContents

/-- The field of `IcebergSnapshot` that the walk reads. -/
structure SnapshotFile where
  manifestList : Path
  deriving DecidableEq

inductive ReadError where
  | notAManifestList (path : Path)
  | notAManifest (path : Path)
  deriving DecidableEq

section Code
variable (storage : Storage)

/-- `FetchManifestsFromSnapshot` without a predicate, by `ReadIcebergManifests`. -/
def fetchManifestsFromSnapshot (snapshot : SnapshotFile) : Except ReadError (List Path) :=
  match storage snapshot.manifestList with
  | .manifestList manifests => .ok manifests
  | _ => .error (.notAManifestList snapshot.manifestList)

/-- `FetchManifestEntriesFromManifest` with the predicate `IsManifestEntryStatusScannable`. -/
def fetchManifestEntriesFromManifest (manifest : Path) : Except ReadError (List FileEntry) :=
  match storage manifest with
  | .manifest entries => .ok (entries.filter FileEntry.isScannable)
  | _ => .error (.notAManifest manifest)

def addManifest (hash : FilesHash) (manifest : Path) : Except ReadError FilesHash :=
  match appendFileToHash manifest hash with
  | (true, hash) => .ok hash
  | (false, hash) => do
    let dataFiles ← fetchManifestEntriesFromManifest storage manifest
    return dataFiles.foldl (fun hash dataFile => (appendFileToHash dataFile.filePath hash).2) hash

def icebergSnapshotAddAllReferencedFiles (hash : FilesHash) (snapshot : SnapshotFile) :
    Except ReadError FilesHash :=
  match appendFileToHash snapshot.manifestList hash with
  | (true, hash) => .ok hash
  | (false, hash) => do
    let manifests ← fetchManifestsFromSnapshot storage snapshot
    manifests.foldlM (addManifest storage) hash

variable (order : HashOrder Path)

def findUnreferencedFilesAmongHTABs (prev current : FilesHash) : List Path :=
  (order.seq prev).filter fun path => hashKey path ∉ current

/-- `FindUnreferencedFilesForSnapshots`: what only the first snapshots reach. -/
def findUnreferencedFilesForSnapshots
    (prevSnapshots currentSnapshots : List SnapshotFile) : Except ReadError (List Path) := do
  let prev ← prevSnapshots.foldlM (icebergSnapshotAddAllReferencedFiles storage) []
  let current ← currentSnapshots.foldlM (icebergSnapshotAddAllReferencedFiles storage) []
  return findUnreferencedFilesAmongHTABs order prev current

/-- `DeleteUnreferencedFiles`: each file is a new row of the deletion queue. -/
def deleteUnreferencedFiles (deletionQueue : List Path)
    (expiredSnapshots nonExpiredSnapshots : List SnapshotFile) :
    Except ReadError (List Path) := do
  let unreferencedFiles ←
    findUnreferencedFilesForSnapshots storage order expiredSnapshots nonExpiredSnapshots
  return deletionQueue ++ unreferencedFiles

end Code

/-! ## What the files of a snapshot are -/

/-- The files of a snapshot: its manifest list, the manifests on it, and the files with an entry
    there that is not deleted. -/
inductive References (storage : Storage) (snapshot : SnapshotFile) : Path → Prop where
  | manifestList : References storage snapshot snapshot.manifestList
  | manifest {manifests manifest}
      (hlist : storage snapshot.manifestList = .manifestList manifests)
      (hmem : manifest ∈ manifests) : References storage snapshot manifest
  | file {manifests manifest entries entry}
      (hlist : storage snapshot.manifestList = .manifestList manifests)
      (hmem : manifest ∈ manifests) (hmanifest : storage manifest = .manifest entries)
      (hentry : entry ∈ entries) (hlive : entry.status ≠ .deleted) :
      References storage snapshot entry.filePath

/-- A table: its snapshots, and storage in which each of their manifest lists and manifests can be
    read.  A live entry is about a file that is neither. -/
structure Table where
  storage : Storage
  snapshots : List SnapshotFile
  listReadable : ∀ snapshot ∈ snapshots, ∃ manifests,
    storage snapshot.manifestList = .manifestList manifests
  manifestReadable : ∀ snapshot ∈ snapshots, ∀ manifests,
    storage snapshot.manifestList = .manifestList manifests →
      ∀ manifest ∈ manifests, ∃ entries, storage manifest = .manifest entries ∧
        ∀ entry ∈ entries, entry.status ≠ .deleted → storage entry.filePath = .dataFile

/-- Some of the snapshots reach the file. -/
def ReferencedFrom (table : Table) (snapshots : List SnapshotFile) (path : Path) : Prop :=
  ∃ snapshot ∈ snapshots, References table.storage snapshot path

/-- What expiration is to do: return, each once, the files that some expired snapshot reaches and
    no retained one does, and queue these and no others. -/
structure Exact (table : Table) (order : HashOrder Path) (expired retained : List SnapshotFile)
    (files : List Path) : Prop where
  returned : findUnreferencedFilesForSnapshots table.storage order expired retained = .ok files
  nodup : files.Nodup
  mem : ∀ path, path ∈ files ↔
    ReferencedFrom table expired path ∧ ¬ ReferencedFrom table retained path
  queued : ∀ queue,
    deleteUnreferencedFiles table.storage order queue expired retained = .ok (queue ++ files)

/-! ## The hash table -/

theorem length_hashKey_lt (path : Path) : (hashKey path).length < maxS3PathLength := by
  rw [hashKey, length_take]
  simp only [maxS3PathLength]
  omega

variable {path : Path}

theorem hashKey_of_short (h : path.length < maxS3PathLength) : hashKey path = path :=
  take_of_length_le (by omega)

variable {hash : FilesHash}

theorem appendFileToHash_of_mem (h : hashKey path ∈ hash) :
    appendFileToHash path hash = (true, hash) :=
  if_pos h

theorem appendFileToHash_of_notMem (h : hashKey path ∉ hash) :
    appendFileToHash path hash = (false, hash ++ [hashKey path]) :=
  if_neg h

theorem mem_appendFileToHash {path k : Path} :
    k ∈ (appendFileToHash path hash).2 ↔ k ∈ hash ∨ k = hashKey path := by
  by_cases h : hashKey path ∈ hash
  · rw [appendFileToHash_of_mem h]
    constructor
    · exact Or.inl
    · rintro (hk | rfl)
      exacts [hk, h]
  · rw [appendFileToHash_of_notMem h]
    simp

/-- What every table of the code satisfies: each key is there once, cut to the key size. -/
structure IsHash (hash : FilesHash) : Prop where
  nodup : hash.Nodup
  short : ∀ key ∈ hash, key.length < maxS3PathLength

theorem IsHash.append (h : IsHash hash) (path : Path) : IsHash (appendFileToHash path hash).2 where
  nodup := by
    by_cases hm : hashKey path ∈ hash
    · rw [appendFileToHash_of_mem hm]
      exact h.nodup
    · rw [appendFileToHash_of_notMem hm]
      exact nodup_append.mpr ⟨h.nodup, pairwise_singleton _ _, by
        rintro k hk _ hp rfl
        exact hm (mem_singleton.mp hp ▸ hk)⟩
  short := by
    intro k hk
    rcases mem_appendFileToHash.mp hk with hk | rfl
    · exact h.short k hk
    · exact length_hashKey_lt path

theorem mem_foldl_appendFileToHash (dfs : List FileEntry) (k : Path) :
    ∀ hash : FilesHash, k ∈ dfs.foldl
        (fun hash dataFile => (appendFileToHash dataFile.filePath hash).2) hash ↔
      k ∈ hash ∨ ∃ dataFile ∈ dfs, k = hashKey dataFile.filePath := by
  induction dfs with
  | nil => simp
  | cons dataFile dfs ih =>
    intro hash
    rw [foldl_cons, ih, mem_appendFileToHash, exists_mem_cons_iff, or_assoc]

theorem IsHash.foldl (h : IsHash hash) (dfs : List FileEntry) : IsHash (dfs.foldl
      (fun hash dataFile => (appendFileToHash dataFile.filePath hash).2) hash) := by
  induction dfs generalizing hash with
  | nil => exact h
  | cons dataFile dfs ih => exact ih (h.append _)

/-! ## The walk

No path of the table is cut from here on. -/

section Walk
variable {table : Table}

/-- Every path fits into the key of the hash table. -/
def ShortPaths (table : Table) : Prop :=
  ∀ snapshot ∈ table.snapshots, ∀ path, References table.storage snapshot path →
    path.length < maxS3PathLength

variable (storage : Storage)

/-- The files a manifest stands for: itself and those of its live entries. -/
def InManifest (manifest path : Path) : Prop :=
  path = manifest ∨ ∃ entries, storage manifest = .manifest entries ∧
    ∃ entry ∈ entries, entry.status ≠ .deleted ∧ path = entry.filePath

theorem references_iff {storage : Storage} {snapshot : SnapshotFile} {manifests : List Path}
    (hli : storage snapshot.manifestList = .manifestList manifests) (path : Path) :
    References storage snapshot path ↔
      path = snapshot.manifestList ∨ ∃ manifest ∈ manifests, InManifest storage manifest path := by
  constructor
  · intro h
    cases h with
    | manifestList => exact .inl rfl
    | manifest hli' hme =>
      cases hli.symm.trans hli'
      exact .inr ⟨path, hme, .inl rfl⟩
    | file hli' hme hm he hl =>
      cases hli.symm.trans hli'
      exact .inr ⟨_, hme, .inr ⟨_, hm, _, he, hl, rfl⟩⟩
  · rintro (rfl | ⟨manifest, hme, rfl | ⟨entries, hm, entry, he, hl, rfl⟩⟩)
    · exact .manifestList
    · exact .manifest hli hme
    · exact .file hli hme hm he hl

def ManifestsWalked (hash : FilesHash) : Prop :=
  ∀ manifest ∈ hash, ∀ path, InManifest storage manifest path → path ∈ hash

def ListsWalked (hash : FilesHash) : Prop :=
  ∀ list ∈ hash, ∀ manifests, storage list = .manifestList manifests →
    ∀ manifest ∈ manifests, manifest ∈ hash

/-- **A manifest is walked or was walked before.** -/
theorem addManifest_adds {storage : Storage} {manifest : Path} {es : List FileEntry}
    (hm : storage manifest = .manifest es)
    (hfs : ∀ e ∈ es, e.status ≠ .deleted → storage e.filePath = .dataFile)
    (hs : ∀ path, InManifest storage manifest path → path.length < maxS3PathLength)
    (hash : FilesHash) (hw : ManifestsWalked storage hash) :
    ∃ hash', addManifest storage hash manifest = .ok hash' ∧ ManifestsWalked storage hash' ∧
      ∀ path, path ∈ hash' ↔ path ∈ hash ∨ InManifest storage manifest path := by
  have hk : hashKey manifest = manifest := hashKey_of_short (hs _ (.inl rfl))
  by_cases hme : manifest ∈ hash
  · refine ⟨hash, ?_, hw, fun path => ⟨.inl, ?_⟩⟩
    · rw [addManifest, appendFileToHash_of_mem (hk.symm ▸ hme)]
    · rintro (hp | hp)
      exacts [hp, hw manifest hme path hp]
  · set dataFiles := es.filter FileEntry.isScannable with hdataFiles
    set hash' := dataFiles.foldl
      (fun hash dataFile => (appendFileToHash dataFile.filePath hash).2) (hash ++ [manifest])
      with hhash'
    have hme' : ∀ path, path ∈ hash' ↔ path ∈ hash ∨ InManifest storage manifest path := by
      intro path
      rw [hhash', mem_foldl_appendFileToHash, mem_append, mem_singleton, or_assoc]
      refine or_congr_right (or_congr_right ?_)
      constructor
      · rintro ⟨e, he, rfl⟩
        obtain ⟨he, hl⟩ := mem_filter.mp he
        have hl : e.status ≠ .deleted := of_decide_eq_true hl
        exact ⟨es, hm, e, he, hl,
          hashKey_of_short (hs _ (.inr ⟨es, hm, e, he, hl, rfl⟩))⟩
      · rintro ⟨es', hm', e, he, hl, rfl⟩
        cases hm.symm.trans hm'
        refine ⟨e, mem_filter.mpr ⟨he, decide_eq_true hl⟩, ?_⟩
        exact (hashKey_of_short (hs _ (.inr ⟨_, hm, e, he, hl, rfl⟩))).symm
    refine ⟨hash', ?_, ?_, hme'⟩
    · have hke : hashKey manifest ∉ hash := hk.symm ▸ hme
      rw [addManifest, appendFileToHash_of_notMem hke, hk]
      rw [fetchManifestEntriesFromManifest, hm]
      rfl
    · intro other ho path hp
      rcases (hme' other).mp ho with hold | hnew
      · exact (hme' path).mpr (.inl (hw other hold path hp))
      · rcases hnew with rfl | ⟨_, hm', e, he, hl, rfl⟩
        · exact (hme' path).mpr (.inr hp)
        · -- the file of an entry is no manifest: nothing is below it
          cases hm.symm.trans hm'
          rcases hp with rfl | ⟨_, hc, -⟩
          · exact ho
          · cases (hfs e he hl).symm.trans hc

def Walked (hash : FilesHash) : Prop :=
  ManifestsWalked storage hash ∧ ListsWalked storage hash

/-- **A snapshot is walked or was walked before.** -/
theorem icebergSnapshotAddAllReferencedFiles_adds (hs : ShortPaths table)
    {sn : SnapshotFile} (hsn : sn ∈ table.snapshots) (hash : FilesHash)
    (hw : Walked table.storage hash) :
    ∃ hash', icebergSnapshotAddAllReferencedFiles table.storage hash sn = .ok hash' ∧
      Walked table.storage hash' ∧
      ∀ path, path ∈ hash' ↔ path ∈ hash ∨ References table.storage sn path := by
  obtain ⟨ms, hli⟩ := table.listReadable sn hsn
  have hk : hashKey sn.manifestList = sn.manifestList :=
    hashKey_of_short (hs sn hsn _ .manifestList)
  simp only [references_iff hli]
  by_cases hme : sn.manifestList ∈ hash
  · refine ⟨hash, ?_, hw, fun path => ⟨.inl, ?_⟩⟩
    · rw [icebergSnapshotAddAllReferencedFiles, appendFileToHash_of_mem (hk.symm ▸ hme)]
    · rintro (hp | rfl | ⟨mf, hma, hp⟩)
      · exact hp
      · exact hme
      · exact hw.1 mf (hw.2 _ hme ms hli mf hma) path hp
  · have hst : ManifestsWalked table.storage (hash ++ [sn.manifestList]) := by
      intro other ho path hp
      rcases mem_append.mp ho with ho | ho
      · exact mem_append_left _ (hw.1 other ho path hp)
      · obtain rfl := mem_singleton.mp ho
        rcases hp with rfl | ⟨_, hc, -⟩
        · exact mem_append_right _ (mem_singleton.mpr rfl)
        · cases hli.symm.trans hc
    obtain ⟨hash', hrun, hmanifests, hme'⟩ := exists_foldlM_adds
      (fun mf hma hash hw =>
        have ⟨es, hes, hfs⟩ :=
          table.manifestReadable sn hsn ms hli mf hma
        addManifest_adds hes hfs
          (fun path hp => hs sn hsn path
            ((references_iff hli path).mpr (.inr ⟨mf, hma, hp⟩)))
          hash hw) _ hst
    have hme' : ∀ path, path ∈ hash' ↔ path ∈ hash ∨ path = sn.manifestList ∨
        ∃ mf ∈ ms, InManifest table.storage mf path := by
      intro path
      rw [hme', mem_append, mem_singleton, or_assoc]
    refine ⟨hash', ?_, ⟨hmanifests, ?_⟩, hme'⟩
    · have hke : hashKey sn.manifestList ∉ hash := hk.symm ▸ hme
      rw [icebergSnapshotAddAllReferencedFiles, appendFileToHash_of_notMem hke, hk]
      rw [fetchManifestsFromSnapshot, hli]
      exact hrun
    · intro other ho os hot mf hma
      rcases (hme' other).mp ho with hold | rfl | ⟨m, hm, hnew⟩
      · exact (hme' mf).mpr (.inl (hw.2 other hold os hot mf hma))
      · cases hli.symm.trans hot
        exact (hme' mf).mpr (.inr (.inr ⟨mf, hma, .inl rfl⟩))
      · -- what a manifest stands for is no manifest list
        obtain ⟨es, hes, hfs⟩ :=
          table.manifestReadable sn hsn ms hli m hm
        rcases hnew with rfl | ⟨_, hes', e, he, hl, rfl⟩
        · cases hes.symm.trans hot
        · cases hes.symm.trans hes'
          cases (hfs e he hl).symm.trans hot

/-- **A table of files holds what its snapshots reach.** -/
theorem mem_addAllReferencedFiles (hs : ShortPaths table) {snapshots : List SnapshotFile}
    (hsub : snapshots ⊆ table.snapshots) :
    ∃ hash, snapshots.foldlM (icebergSnapshotAddAllReferencedFiles table.storage) [] = .ok hash ∧
      ∀ path, path ∈ hash ↔ ReferencedFrom table snapshots path := by
  obtain ⟨hash, hrun, -, hm⟩ := exists_foldlM_adds
    (fun sn hsn => icebergSnapshotAddAllReferencedFiles_adds hs (hsub hsn))
    [] ⟨by simp [ManifestsWalked], by simp [ListsWalked]⟩
  refine ⟨hash, hrun, fun path => ?_⟩
  rw [hm]
  simp [ReferencedFrom]

end Walk

/-! ## Keys of any path -/

variable {storage : Storage}

theorem addManifest_isHash (m : Path) (hash hash' : FilesHash)
    (h : IsHash hash) (heq : addManifest storage hash m = .ok hash') : IsHash hash' := by
  have ha := h.append m
  unfold addManifest at heq
  split at heq
  case h_1 hash₁ hap =>
    rw [hap] at ha
    cases heq
    exact ha
  case h_2 hash₁ hap =>
    rw [hap] at ha
    obtain ⟨dfs, -, heq⟩ := bind_eq_ok_iff.mp heq
    cases heq
    exact ha.foldl dfs

theorem icebergSnapshotAddAllReferencedFiles_isHash (sn : SnapshotFile)
    (hash hash' : FilesHash) (h : IsHash hash)
    (heq : icebergSnapshotAddAllReferencedFiles storage hash sn = .ok hash') :
    IsHash hash' := by
  have ha := h.append sn.manifestList
  unfold icebergSnapshotAddAllReferencedFiles at heq
  split at heq
  case h_1 hash₁ hap =>
    rw [hap] at ha
    cases heq
    exact ha
  case h_2 hash₁ hap =>
    rw [hap] at ha
    obtain ⟨ms, -, heq⟩ := bind_eq_ok_iff.mp heq
    exact foldlM_invariant (fun m _ => addManifest_isHash m) ha heq

theorem addAllReferencedFiles_isHash {snapshots : List SnapshotFile}
    (heq : snapshots.foldlM (icebergSnapshotAddAllReferencedFiles storage) [] = .ok hash) :
    IsHash hash :=
  foldlM_invariant
    (fun sn _ => icebergSnapshotAddAllReferencedFiles_isHash sn)
    ⟨nodup_nil, by simp⟩ heq

variable {expired retained : List SnapshotFile}

theorem findUnreferencedFilesForSnapshots_eq_ok {order : HashOrder Path} {fs : List Path}
    (heq : findUnreferencedFilesForSnapshots storage order expired retained = .ok fs) :
    ∃ prev current, expired.foldlM (icebergSnapshotAddAllReferencedFiles storage) [] = .ok prev ∧
      retained.foldlM (icebergSnapshotAddAllReferencedFiles storage) [] = .ok current ∧
      fs = findUnreferencedFilesAmongHTABs order prev current := by
  obtain ⟨prev, hp, heq⟩ := bind_eq_ok_iff.mp heq
  obtain ⟨current, hc, heq⟩ := bind_eq_ok_iff.mp heq
  cases heq
  exact ⟨prev, current, hp, hc, rfl⟩

theorem length_lt_of_returned {order : HashOrder Path} {fs : List Path}
    (heq : findUnreferencedFilesForSnapshots storage order expired retained = .ok fs)
    (hp : path ∈ fs) : path.length < maxS3PathLength := by
  obtain ⟨prev, current, hpr, -, rfl⟩ := findUnreferencedFilesForSnapshots_eq_ok heq
  have hm : path ∈ prev := (order.perm prev).mem_iff.mp (mem_filter.mp hp).1
  exact (addAllReferencedFiles_isHash hpr).short path hm

/-! ## The result -/

theorem exact_of_shortPaths {table : Table} (hs : ShortPaths table) (order : HashOrder Path)
    (he : expired ⊆ table.snapshots) (hre : retained ⊆ table.snapshots) :
    ∃ files, Exact table order expired retained files := by
  obtain ⟨prev, hpr, hmemPrev⟩ := mem_addAllReferencedFiles hs he
  obtain ⟨current, hc, hmemCurrent⟩ := mem_addAllReferencedFiles hs hre
  have hhash := addAllReferencedFiles_isHash hpr
  have hr : findUnreferencedFilesForSnapshots table.storage order expired retained =
      .ok (findUnreferencedFilesAmongHTABs order prev current) := by
    rw [findUnreferencedFilesForSnapshots, hpr, hc]
    rfl
  refine ⟨_, hr, ?_, fun path => ?_, fun queue => ?_⟩
  · exact ((order.perm prev).nodup_iff.mpr hhash.nodup).filter _
  · rw [findUnreferencedFilesAmongHTABs, mem_filter, (order.perm prev).mem_iff,
      decide_eq_true_iff, ← hmemPrev, ← hmemCurrent]
    refine and_congr_right fun hp => ?_
    rw [hashKey_of_short (hhash.short path hp)]
  · rw [deleteUnreferencedFiles, hr]
    rfl

/-- **Expiration queues the unreachable files of a table and no others, for all lists of expired
    and retained snapshots, exactly when no path of the table is longer than a key.** -/
theorem expiration_exact_iff (table : Table) (order : HashOrder Path) :
    (∀ expired retained : List SnapshotFile, expired ⊆ table.snapshots →
      retained ⊆ table.snapshots → ∃ files, Exact table order expired retained files) ↔
    ShortPaths table := by
  constructor
  · intro h snapshot hsnapshot path hpath
    obtain ⟨files, hexact⟩ := h [snapshot] [] (by simpa using hsnapshot) (by simp)
    have hmem : path ∈ files := (hexact.mem path).mpr
      ⟨⟨snapshot, mem_singleton.mpr rfl, hpath⟩, by simp [ReferencedFrom]⟩
    exact length_lt_of_returned hexact.returned hmem
  · intro hshort expired retained hexpired hretained
    exact exact_of_shortPaths hshort order hexpired hretained

/-! ## Two manifests with one key -/

def longPath (last : UInt8) : Path := List.replicate (maxS3PathLength - 1) 97 ++ [last]

/-- The older snapshot has the second manifest, the newer one both. -/
def longStorage (path : Path) : FileContents :=
  if path = [1] then .manifestList [longPath 50]
  else if path = [2] then .manifestList [longPath 49, longPath 50]
  else if path = longPath 49 then .manifest []
  else if path = longPath 50 then .manifest [⟨.added, [3]⟩]
  else .dataFile

theorem longStorage_older : longStorage [1] = .manifestList [longPath 50] := if_pos rfl

theorem longStorage_newer : longStorage [2] = .manifestList [longPath 49, longPath 50] := by
  decide +kernel

theorem longStorage_first : longStorage (longPath 49) = .manifest [] := by
  decide +kernel

theorem longStorage_second : longStorage (longPath 50) = .manifest [⟨.added, [3]⟩] := by
  decide +kernel

theorem longStorage_file : longStorage [3] = .dataFile := by
  decide +kernel

def longTable : Table where
  storage := longStorage
  snapshots := [⟨[1]⟩, ⟨[2]⟩]
  listReadable := by
    simp [longStorage_older, longStorage_newer]
  manifestReadable := by
    simp [longStorage_older, longStorage_newer, longStorage_first, longStorage_second,
      longStorage_file]

/-- **A file of a retained snapshot is queued.**  The two manifests of the retained snapshot have
    one key, so the second is skipped, and its file is not found when the expired snapshot's files
    are looked up. -/
theorem retained_file_is_queued :
    findUnreferencedFilesForSnapshots longTable.storage ⟨id, fun _ => .refl _⟩ [⟨[1]⟩] [⟨[2]⟩] =
      .ok [[1], [3]] ∧
    ReferencedFrom longTable [⟨[2]⟩] [3] := by
  refine ⟨by decide +kernel, ⟨[2]⟩, mem_singleton.mpr rfl, ?_⟩
  refine (references_iff longStorage_newer [3]).mpr (.inr ⟨longPath 50, ?_, .inr ⟨_,
    longStorage_second, ?_⟩⟩) <;> simp

end PgLake.Iceberg.Unreferenced
