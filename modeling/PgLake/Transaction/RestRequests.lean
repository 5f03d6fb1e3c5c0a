/-
  The requests a transaction posts to its REST catalog
  (`transaction/track_iceberg_metadata_changes.c`, `transaction_hooks.c`,
  `ddl/create_table.c`, `ddl/drop_table.c`).

  CREATE TABLE and DROP TABLE record a request at statement time, writes and
  ALTER set flags in a tracker; both tables are keyed by relation id and live
  until the end of the transaction.  At pre-commit the trackers of the relations
  that still exist are turned into requests, after the commit all of them are posted
  in hash order.
-/
import Mathlib.Data.Finset.Basic
import Mathlib.Data.List.AList
import PgLake.Lib.Transition

namespace PgLake.Transaction

open Transition List

/-- `TableMetadataOperationType`, the operations that are tracked. -/
inductive TableMetadataOperationType where
  | tableCreate
  | tableDdl
  | tablePartitionBy
  | dataFileAdd
  | dataFileRemove
  | dataFileRemoveAll
  | dataFileMergeManifests
  | expireOldSnapshots
  deriving DecidableEq

/-- The flags of `TableMetadataOperationTracker`. -/
structure OpTracker where
  relationCreated : Bool := false
  relationAltered : Bool := false
  relationPartitionByChanged : Bool := false
  relationDataFileChanged : Bool := false
  relationManifestMergeRequested : Bool := false
  relationSnapshotExpirationRequested : Bool := false
  deriving DecidableEq

inductive RestCatalogOperationType where
  | createTable
  | addSnapshot
  | addSchema
  | setCurrentSchema
  | addPartition
  | removeSnapshot
  | dropTable
  | setDefaultPartitionId
  deriving DecidableEq

structure RestCatalogRequest where
  operationType : RestCatalogOperationType
  body : String
  deriving DecidableEq

/-- The requests of one relation.  The table name is what `tableRestUrl` and
    `tableIdentifier` are made of. -/
structure RestCatalogRequestPerTable (Name : Type) where
  catalogTableName : Name
  createTableRequest : Option RestCatalogRequest := none
  dropTableRequest : Option RestCatalogRequest := none
  tableModifyRequests : List RestCatalogRequest := []
  deriving DecidableEq

/-- The writable REST tables Postgres knows, by relation id. -/
abbrev Catalog (Name : Type) := AList (fun _ : ℕ => Name)

abbrev Trackers := AList (fun _ : ℕ => OpTracker)

abbrev Requests (Name : Type) := AList (fun _ : ℕ => RestCatalogRequestPerTable Name)

variable {Name : Type}

def OpTracker.record (opTracker : OpTracker) : TableMetadataOperationType → OpTracker
  | .tableCreate => { opTracker with relationCreated := true }
  | .tableDdl => { opTracker with relationAltered := true }
  | .tablePartitionBy => { opTracker with relationPartitionByChanged := true }
  | .dataFileAdd | .dataFileRemove | .dataFileRemoveAll =>
    { opTracker with relationDataFileChanged := true }
  | .dataFileMergeManifests => { opTracker with relationManifestMergeRequested := true }
  | .expireOldSnapshots => { opTracker with relationSnapshotExpirationRequested := true }

def recordIcebergMetadataOperation (trackers : Trackers) (relationId : ℕ)
    (operationType : TableMetadataOperationType) : Trackers :=
  trackers.insert relationId (((trackers.lookup relationId).getD {}).record operationType)

def RestCatalogRequestPerTable.add (requestPerTable : RestCatalogRequestPerTable Name)
    (request : RestCatalogRequest) : RestCatalogRequestPerTable Name :=
  match request.operationType with
  | .createTable => { requestPerTable with createTableRequest := some request }
  | .dropTable => { requestPerTable with dropTableRequest := some request }
  | _ =>
    { requestPerTable with
      tableModifyRequests := requestPerTable.tableModifyRequests ++ [request] }

def recordRestCatalogRequestInTx (requests : Requests Name) (relationId : ℕ)
    (catalogTableName : Name) (request : RestCatalogRequest) : Requests Name :=
  requests.insert relationId
    (((requests.lookup relationId).getD { catalogTableName := catalogTableName }).add request)

/-- The transaction as Postgres and the two hash tables see it.  The catalogs of
    the open savepoints are kept for ROLLBACK TO, the innermost first. -/
structure TxState (Name : Type) where
  pg : Catalog Name
  savepoints : List (Catalog Name)
  trackers : Trackers
  requests : Requests Name
  nextOid : ℕ

/-- The commands of a transaction.  A savepoint is named by the number of
    savepoints opened after it. -/
inductive Command (Name : Type) where
  | createTable (name : Name)
  | dropTable (relationId : ℕ)
  | modify (relationId : ℕ) (operationType : TableMetadataOperationType)
  | savepoint
  | release (k : ℕ)
  | rollbackTo (k : ℕ)
  deriving DecidableEq

/-- What is assumed of the REST service: `StartStageRestCatalogIcebergTableCreate` fails exactly on
    the tables the catalog already has. -/
abbrev RefusesStagedCreate (rest : Finset Name) (name : Name) : Prop := name ∈ rest

/-- `none` when the command fails.  A command that fails inside a savepoint leaves
    behind what it recorded before, as the command followed by ROLLBACK TO does. -/
def step [DecidableEq Name] (rest : Finset Name) (s : TxState Name) :
    Command Name → Option (TxState Name)
  | .createTable name =>
    -- Postgres refuses a second relation of the name
    if (∃ entry ∈ s.pg.entries, entry.2 = name) ∨ RefusesStagedCreate rest name then none
    else
      some { s with
        pg := s.pg.insert s.nextOid name
        trackers := recordIcebergMetadataOperation s.trackers s.nextOid .tableCreate
        requests := recordRestCatalogRequestInTx s.requests s.nextOid name ⟨.createTable, ""⟩
        nextOid := s.nextOid + 1 }
  | .dropTable relationId =>
    (s.pg.lookup relationId).map fun name =>
      { s with
        pg := s.pg.erase relationId
        requests := recordRestCatalogRequestInTx s.requests relationId name ⟨.dropTable, ""⟩ }
  | .modify relationId operationType =>
    -- TABLE_CREATE is tracked by CREATE TABLE only
    if relationId ∈ s.pg ∧ operationType ≠ .tableCreate then
      some { s with
        trackers := recordIcebergMetadataOperation s.trackers relationId operationType }
    else none
  | .savepoint => some { s with savepoints := s.pg :: s.savepoints }
  | .release k =>
    if k < s.savepoints.length then some { s with savepoints := s.savepoints.drop (k + 1) }
    else none
  | .rollbackTo k =>
    (s.savepoints[k]?).map fun saved =>
      { s with pg := saved, savepoints := s.savepoints.drop k }

/-- What the hooks call: the operations read off the catalogs at pre-commit, the
    requests `ApplyIcebergMetadataChanges` makes of them, and the REST service, which
    turns away the empty body recorded by CREATE TABLE and accepts the finished one. -/
structure Services where
  getDataFileMetadataOperations : ℕ → OpTracker → List TableMetadataOperationType
  effectiveMaxSnapshotAge : ℕ → ℤ
  applyIcebergMetadataChanges :
    ℕ → List TableMetadataOperationType → List RestCatalogRequest
  finishStageCreate : ℕ → String
  validCreate : String → Bool
  applyIcebergMetadataChanges_modifies : ∀ relationId ops,
    ∀ request ∈ applyIcebergMetadataChanges relationId ops,
      request.operationType ≠ .createTable ∧ request.operationType ≠ .dropTable
  validCreate_empty : validCreate "" = false
  validCreate_finish : ∀ relationId, validCreate (finishStageCreate relationId) = true

variable (env : Services)

def getDDLMetadataOperations (opTracker : OpTracker) : List TableMetadataOperationType :=
  if opTracker.relationCreated then [.tableCreate]
  else
    (if opTracker.relationAltered then [.tableDdl] else []) ++
    (if opTracker.relationPartitionByChanged then [.tablePartitionBy] else [])

/-- The operations of one tracker, in the order they are applied. -/
def metadataOperations (relationId : ℕ) (opTracker : OpTracker) : List TableMetadataOperationType :=
  let expire := opTracker.relationSnapshotExpirationRequested ||
    opTracker.relationDataFileChanged && decide (env.effectiveMaxSnapshotAge relationId = 0)
  getDDLMetadataOperations opTracker ++
  (if opTracker.relationDataFileChanged then
    env.getDataFileMetadataOperations relationId opTracker else []) ++
  (if opTracker.relationManifestMergeRequested then [.dataFileMergeManifests] else []) ++
  (if expire then [.expireOldSnapshots] else [])

/-- The body of the loop of `ApplyTrackedIcebergMetadataChanges`. -/
def applyTracked (pg : Catalog Name) (requests : Requests Name)
    (tracked : (_ : ℕ) × OpTracker) : Requests Name :=
  match pg.lookup tracked.1 with
  -- relation is dropped
  | none => requests
  | some name =>
    let requests :=
      if tracked.2.relationCreated then
        recordRestCatalogRequestInTx requests tracked.1 name
          ⟨.createTable, env.finishStageCreate tracked.1⟩
      else requests
    let ops := metadataOperations env tracked.1 tracked.2
    if ops = [] then requests
    else
      (env.applyIcebergMetadataChanges tracked.1 ops).foldl
        (fun requests request =>
          recordRestCatalogRequestInTx requests tracked.1 name request) requests

/-- XACT_EVENT_PRE_COMMIT; `trackerOrder` is the order of the hash table. -/
def applyTrackedIcebergMetadataChanges (s : TxState Name)
    (trackerOrder : List ((_ : ℕ) × OpTracker)) : Requests Name :=
  trackerOrder.foldl (applyTracked env s.pg) s.requests

/-- Created and dropped in the transaction: nothing is posted. -/
def RestCatalogRequestPerTable.noop (requestPerTable : RestCatalogRequestPerTable Name) : Bool :=
  requestPerTable.createTableRequest.isSome && requestPerTable.dropTableRequest.isSome

/-- The body of the first loop of `PostAllRestCatalogRequests`, on the tables of the
    REST catalog. -/
def postCreateOrDrop [DecidableEq Name] (rest : Finset Name)
    (requestPerTable : RestCatalogRequestPerTable Name) : Finset Name :=
  match requestPerTable.createTableRequest, requestPerTable.dropTableRequest with
  | some _, some _ => rest
  | some create, none =>
    if env.validCreate create.body then insert requestPerTable.catalogTableName rest else rest
  | none, some _ => rest.erase requestPerTable.catalogTableName
  | none, none => rest

def tableChanges (order : List (RestCatalogRequestPerTable Name)) :
    List (Name × List RestCatalogRequest) :=
  (order.filter fun requestPerTable =>
      !requestPerTable.noop && requestPerTable.tableModifyRequests ≠ []).map
    fun requestPerTable =>
      (requestPerTable.catalogTableName, requestPerTable.tableModifyRequests)

/-- The REST catalog before the batch is posted, and the batch. -/
structure Posted (Name : Type) where
  rest : Finset Name
  batch : List (Name × List RestCatalogRequest)

/-- XACT_EVENT_COMMIT; `order` is the order of the hash table. -/
def postAllRestCatalogRequests [DecidableEq Name] (rest : Finset Name)
    (order : List ((_ : ℕ) × RestCatalogRequestPerTable Name)) : Posted Name where
  rest := (order.map Sigma.snd).foldl (postCreateOrDrop env) rest
  batch := tableChanges (order.map Sigma.snd)

/-! ## The committed state -/

/-- Postgres and the REST catalog when the transaction begins.  The REST catalog has
    every table of Postgres, and possibly tables Postgres does not know. -/
structure Start (Name : Type) where
  pg : Catalog Name
  rest : Finset Name
  nextOid : ℕ
  oid_lt : ∀ {o}, o ∈ pg → o < nextOid
  name_inj : ∀ {o o' n}, pg.lookup o = some n → pg.lookup o' = some n → o = o'
  name_mem : ∀ {o n}, pg.lookup o = some n → n ∈ rest

/-- The start of a transaction. -/
def Start.state (S : Start Name) : TxState Name where
  pg := S.pg
  savepoints := []
  trackers := ∅
  requests := ∅
  nextOid := S.nextOid

/-- The previous tables without those whose DROP was committed, with those whose CREATE
    was committed. -/
def RestMatches (S : Start Name) (pg : Catalog Name) (rest : Finset Name) : Prop :=
  ∀ n, n ∈ rest ↔ (n ∈ S.rest ∧ ¬ ∃ o, S.pg.lookup o = some n ∧ o ∉ pg) ∨
    ∃ o, o ∉ S.pg ∧ pg.lookup o = some n

/-- What the requests of a committed transaction are for. -/
structure CommitCorrect (S : Start Name) (pg : Catalog Name) (posted : Posted Name) : Prop where
  tables : RestMatches S pg posted.rest
  batch : ∀ change ∈ posted.batch, change.1 ∈ posted.rest

theorem mem_of_lookup {c : Catalog Name} {o : ℕ} {n : Name} (h : c.lookup o = some n) : o ∈ c :=
  AList.lookup_isSome.mp (Option.isSome_of_mem h)

/-! ## Recording -/

variable (requests : Requests Name)

theorem lookup_record_self (o : ℕ) (n : Name) (request : RestCatalogRequest) :
    (recordRestCatalogRequestInTx requests o n request).lookup o =
      some (((requests.lookup o).getD { catalogTableName := n }).add request) :=
  AList.lookup_insert _

theorem lookup_record_ne {o o' : ℕ} (n : Name) (request : RestCatalogRequest) (h : o' ≠ o) :
    (recordRestCatalogRequestInTx requests o n request).lookup o' = requests.lookup o' :=
  AList.lookup_insert_ne h

variable (e : RestCatalogRequestPerTable Name) (request : RestCatalogRequest)

theorem add_catalogTableName : (e.add request).catalogTableName = e.catalogTableName := by
  unfold RestCatalogRequestPerTable.add
  split <;> rfl

theorem dropTableRequest_add : (e.add request).dropTableRequest.isSome ↔
      e.dropTableRequest.isSome ∨ request.operationType = .dropTable := by
  unfold RestCatalogRequestPerTable.add
  split <;> simp_all

/-- The name of a relation never changes, and neither table is ever undone. -/
def Grows (s s' : TxState Name) : Prop :=
  s.nextOid ≤ s'.nextOid ∧
  ∀ {o e}, s.requests.lookup o = some e →
    ∃ e', s'.requests.lookup o = some e' ∧ e'.catalogTableName = e.catalogTableName ∧
      (e.dropTableRequest.isSome → e'.dropTableRequest.isSome)

theorem Grows.of_requests_eq {s s' : TxState Name} (hoid : s.nextOid ≤ s'.nextOid)
    (hreq : s'.requests = s.requests) : Grows s s' :=
  ⟨hoid, fun {_ e} he => ⟨e, hreq ▸ he, rfl, id⟩⟩

theorem Grows.of_record {s s' : TxState Name} (hoid : s.nextOid ≤ s'.nextOid) {o : ℕ} {n : Name}
    {request : RestCatalogRequest}
    (hreq : s'.requests = recordRestCatalogRequestInTx s.requests o n request) : Grows s s' := by
  refine ⟨hoid, fun {o' e} he => ?_⟩
  rw [hreq]
  by_cases ho : o' = o
  · subst ho
    rw [lookup_record_self, he]
    exact ⟨_, rfl, add_catalogTableName e request,
      fun h => (dropTableRequest_add e request).mpr (Or.inl h)⟩
  · rw [lookup_record_ne _ _ _ ho]
    exact ⟨e, he, rfl, id⟩

def DropRecorded (requests : Requests Name) (o : ℕ) : Prop :=
  ∃ e, requests.lookup o = some e ∧ e.dropTableRequest.isSome

theorem dropRecorded_record (o o' : ℕ) (n : Name) (request : RestCatalogRequest) :
    DropRecorded (recordRestCatalogRequestInTx requests o n request) o' ↔
      DropRecorded requests o' ∨ o' = o ∧ request.operationType = .dropTable := by
  unfold DropRecorded
  by_cases ho : o' = o
  · subst ho
    rw [lookup_record_self]
    cases hl : requests.lookup o' with
    | none | some e => simp [dropTableRequest_add]
  · rw [lookup_record_ne _ _ _ ho]
    simp [ho]

/-! ## What holds during the transaction -/

section Invariant

variable {S : Start Name} {s s' : TxState Name}

/-- What a request entry says before pre-commit. -/
structure EntryInv (S : Start Name) (o : ℕ) (e : RestCatalogRequestPerTable Name) : Prop where
  modify : e.tableModifyRequests = []
  old : o < S.nextOid → e.createTableRequest = none ∧ S.pg.lookup o = some e.catalogTableName
  new : S.nextOid ≤ o →
    e.createTableRequest = some ⟨.createTable, ""⟩ ∧ e.catalogTableName ∉ S.rest

/-- What holds of the current catalog and of every catalog a rollback can restore. -/
structure CatalogInv (S : Start Name) (s : TxState Name) (c : Catalog Name) : Prop where
  oid_lt : ∀ {o}, o ∈ c → o < s.nextOid
  name_inj : ∀ {o o' n}, c.lookup o = some n → c.lookup o' = some n → o = o'
  old : ∀ {o n}, o < S.nextOid → c.lookup o = some n → S.pg.lookup o = some n
  new : ∀ {o n}, S.nextOid ≤ o → c.lookup o = some n →
    ∃ e, s.requests.lookup o = some e ∧ e.catalogTableName = n
  dropped : ∀ {o}, o ∈ S.pg → o ∉ c → DropRecorded s.requests o

structure TxInv (S : Start Name) (s : TxState Name) : Prop where
  nextOid_le : S.nextOid ≤ s.nextOid
  entry : ∀ {o e}, s.requests.lookup o = some e → EntryInv S o e ∧ o < s.nextOid
  tracker : ∀ {o t}, s.trackers.lookup o = some t →
    (t.relationCreated = true ↔ S.nextOid ≤ o) ∧ o < s.nextOid
  created : ∀ {o}, S.nextOid ≤ o → o < s.nextOid → o ∈ s.trackers
  catalogs : ∀ c ∈ s.pg :: s.savepoints, CatalogInv S s c

variable {c : Catalog Name}

theorem CatalogInv.grows (h : CatalogInv S s c) (hg : Grows s s') : CatalogInv S s' c where
  oid_lt ho := lt_of_lt_of_le (h.oid_lt ho) hg.1
  name_inj := h.name_inj
  old := h.old
  new ho hn := by
    obtain ⟨e, he, hnm⟩ := h.new ho hn
    obtain ⟨e', he', hnm', -⟩ := hg.2 he
    exact ⟨e', he', hnm'.trans hnm⟩
  dropped ho hc := by
    obtain ⟨e, he, hd⟩ := h.dropped ho hc
    obtain ⟨e', he', -, hd'⟩ := hg.2 he
    exact ⟨e', he', hd' hd⟩

variable {o : ℕ}

theorem CatalogInv.insert (h : CatalogInv S s c) {n : Name}
    (hn : ∀ o', c.lookup o' ≠ some n) (ho : S.nextOid ≤ o) (hlt : o < s.nextOid)
    (he : ∃ e, s.requests.lookup o = some e ∧ e.catalogTableName = n) :
    CatalogInv S s (c.insert o n) := by
  have hlo : ∀ {o' n'}, (c.insert o n).lookup o' = some n' ↔
      o' = o ∧ n = n' ∨ o' ≠ o ∧ c.lookup o' = some n' := by
    intro o' n'
    by_cases heq : o' = o
    · subst heq
      simp
    · simp [AList.lookup_insert_ne heq, heq]
  refine ⟨fun {o'} hm => ?_, fun {o₁ o₂ n'} h₁ h₂ => ?_, fun {o' n'} hlt' hl => ?_,
    fun {o' n'} hle hl => ?_, fun {o'} hm hc => ?_⟩
  · rcases AList.mem_insert _ |>.mp hm with rfl | hm
    · exact hlt
    · exact h.oid_lt hm
  · rcases hlo.mp h₁ with ⟨rfl, rfl⟩ | ⟨-, hl₁⟩ <;>
      rcases hlo.mp h₂ with ⟨rfl, hn'⟩ | ⟨-, hl₂⟩
    · rfl
    · exact absurd hl₂ (hn _)
    · exact absurd (hn' ▸ hl₁) (hn _)
    · exact h.name_inj hl₁ hl₂
  · rcases hlo.mp hl with ⟨rfl, -⟩ | ⟨-, hl⟩
    · omega
    · exact h.old hlt' hl
  · rcases hlo.mp hl with ⟨rfl, rfl⟩ | ⟨-, hl⟩
    · exact he
    · exact h.new hle hl
  · exact h.dropped hm fun hc' => hc ((AList.mem_insert _).mpr (Or.inr hc'))

theorem CatalogInv.erase (h : CatalogInv S s c)
    (hd : DropRecorded s.requests o) : CatalogInv S s (c.erase o) := by
  have hlo : ∀ {o' n'}, (c.erase o).lookup o' = some n' → c.lookup o' = some n' := by
    intro o' n' hl
    by_cases heq : o' = o
    · subst heq
      simp at hl
    · rwa [AList.lookup_erase_ne heq] at hl
  refine ⟨fun {o'} hm => h.oid_lt (AList.mem_erase.mp hm).2,
    fun h₁ h₂ => h.name_inj (hlo h₁) (hlo h₂), fun hlt hl => h.old hlt (hlo hl),
    fun hle hl => h.new hle (hlo hl), fun {o'} hm hc => ?_⟩
  by_cases heq : o' = o
  · exact heq ▸ hd
  · exact h.dropped hm fun hc' => hc (AList.mem_erase.mpr ⟨heq, hc'⟩)

theorem TxInv.start (S : Start Name) : TxInv S S.state where
  nextOid_le := le_refl _
  entry h := by simp [Start.state] at h
  tracker h := by simp [Start.state] at h
  created h h' := absurd h (not_le.mpr h')
  catalogs := by
    intro c hc
    obtain rfl : c = S.pg := by simpa [Start.state] using hc
    refine ⟨S.oid_lt, S.name_inj, fun _ h => h, fun ho h => ?_, fun ho h => absurd ho h⟩
    have := S.oid_lt (mem_of_lookup h)
    omega

theorem TxInv.of_catalogs_subset (h : TxInv S s) (hreq : s'.requests = s.requests)
    (htr : s'.trackers = s.trackers) (hoid : s'.nextOid = s.nextOid)
    (hsub : ∀ c ∈ s'.pg :: s'.savepoints, c ∈ s.pg :: s.savepoints) : TxInv S s' where
  nextOid_le := hoid ▸ h.nextOid_le
  entry := hreq ▸ hoid ▸ h.entry
  tracker := htr ▸ hoid ▸ h.tracker
  created := htr ▸ hoid ▸ h.created
  catalogs c hc :=
    (h.catalogs c (hsub c hc)).grows (Grows.of_requests_eq (le_of_eq hoid.symm) hreq)

theorem TxInv.pg (h : TxInv S s) : CatalogInv S s s.pg :=
  h.catalogs s.pg mem_cons_self

theorem CatalogInv.notMem_start_iff (h : CatalogInv S s c) {n : Name}
    (hn : c.lookup o = some n) : o ∉ S.pg ↔ S.nextOid ≤ o := by
  constructor
  · intro ho
    by_contra hlt
    have := h.old (not_le.mp hlt) hn
    exact ho (mem_of_lookup this)
  · intro hle ho
    exact absurd (S.oid_lt ho) (not_lt.mpr hle)

variable {rest : Finset Name}

theorem TxInv.mem_of_restMatches (h : TxInv S s)
    (hr : RestMatches S s.pg rest) {n : Name} (hn : s.pg.lookup o = some n) :
    n ∈ rest := by
  refine (hr n).mpr ?_
  by_cases ho : o ∈ S.pg
  · have hn' : S.pg.lookup o = some n := h.pg.old (S.oid_lt ho) hn
    refine Or.inl ⟨S.name_mem hn', ?_⟩
    rintro ⟨o', hn'', ho'⟩
    obtain rfl := S.name_inj hn' hn''
    exact ho' (mem_of_lookup hn)
  · exact Or.inr ⟨o, ho, hn⟩

theorem lookup_isNone_of_le (h : TxInv S s) (ho : s.nextOid ≤ o) :
    s.requests.lookup o = none ∧ s.trackers.lookup o = none := by
  refine ⟨Option.eq_none_iff_forall_ne_some.mpr fun e he => ?_,
    Option.eq_none_iff_forall_ne_some.mpr fun t ht => ?_⟩
  · exact absurd (h.entry he).2 (not_lt.mpr ho)
  · exact absurd (h.tracker ht).2 (not_lt.mpr ho)

theorem relationCreated_record (t : OpTracker) (op : TableMetadataOperationType) :
    (t.record op).relationCreated = true ↔ t.relationCreated = true ∨ op = .tableCreate := by
  cases op <;> simp [OpTracker.record]

def TxState.afterCreate (s : TxState Name) (name : Name) : TxState Name where
  pg := s.pg.insert s.nextOid name
  trackers := recordIcebergMetadataOperation s.trackers s.nextOid .tableCreate
  requests := recordRestCatalogRequestInTx s.requests s.nextOid name ⟨.createTable, ""⟩
  nextOid := s.nextOid + 1
  savepoints := s.savepoints

theorem TxInv.createTable (h : TxInv S s) {n : Name}
    (hpg : ∀ o, s.pg.lookup o ≠ some n) (hr : n ∉ S.rest) :
    TxInv S (s.afterCreate n) := by
  unfold TxState.afterCreate
  have hno := lookup_isNone_of_le h (le_refl s.nextOid)
  have hs := lookup_record_self s.requests s.nextOid n ⟨.createTable, ""⟩
  rw [hno.1] at hs
  have hle := h.nextOid_le
  refine ⟨by simp only; omega, fun {o e} he => ?_, fun {o t} ht => ?_, fun {o} ho ho' => ?_, ?_⟩
  · by_cases ho : o = s.nextOid
    · subst ho
      cases hs.symm.trans he
      exact ⟨⟨rfl, fun hlt => by omega, fun _ => ⟨rfl, hr⟩⟩, by simp⟩
    · simp only [lookup_record_ne _ _ _ ho] at he
      exact ⟨(h.entry he).1, lt_trans (h.entry he).2 (by simp)⟩
  · by_cases ho : o = s.nextOid
    · subst ho
      simp only [recordIcebergMetadataOperation, AList.lookup_insert, Option.some.injEq] at ht
      subst ht
      exact ⟨by simp [relationCreated_record, hle], by simp⟩
    · simp only [recordIcebergMetadataOperation, AList.lookup_insert_ne ho] at ht
      exact ⟨(h.tracker ht).1, lt_trans (h.tracker ht).2 (by simp)⟩
  · simp only [recordIcebergMetadataOperation, AList.mem_insert]
    by_cases hn : o = s.nextOid
    · exact Or.inl hn
    · exact Or.inr (h.created ho (by simp only at ho'; omega))
  · have hg : Grows s (s.afterCreate n) := Grows.of_record (Nat.le_succ _) rfl
    intro c hc
    rcases mem_cons.mp hc with rfl | hc
    · exact (h.pg.grows hg).insert hpg hle (Nat.lt_succ_self _) ⟨_, hs, rfl⟩
    · exact (h.catalogs c (mem_cons_of_mem _ hc)).grows hg

theorem TxInv.dropTable (h : TxInv S s) {n : Name} (hpg : s.pg.lookup o = some n) :
    TxInv S { s with
      pg := s.pg.erase o
      requests := recordRestCatalogRequestInTx s.requests o n ⟨.dropTable, ""⟩ } := by
  have hm : o ∈ s.pg := mem_of_lookup hpg
  have hg : Grows s { s with
      pg := s.pg.erase o
      requests := recordRestCatalogRequestInTx s.requests o n ⟨.dropTable, ""⟩ } :=
    Grows.of_record (le_refl _) rfl
  refine ⟨h.nextOid_le, fun {o' e} he => ?_, h.tracker, h.created, ?_⟩
  · by_cases heq : o' = o
    · subst heq
      rw [lookup_record_self] at he
      cases he
      refine ⟨?_, h.pg.oid_lt hm⟩
      cases hl : s.requests.lookup o' with
      | some e =>
        obtain ⟨hinv, -⟩ := h.entry hl
        exact ⟨hinv.modify, hinv.old, hinv.new⟩
      | none =>
        -- no CREATE was recorded, so the relation is one of the start
        have hlt : o' < S.nextOid := by
          by_contra hle
          obtain ⟨e, he, -⟩ := h.pg.new (not_lt.mp hle) hpg
          rw [hl] at he
          cases he
        exact ⟨rfl, fun _ => ⟨rfl, h.pg.old hlt hpg⟩, fun hle => absurd hlt (not_lt.mpr hle)⟩
    · rw [lookup_record_ne _ _ _ heq] at he
      exact h.entry he
  · intro c hc
    rcases mem_cons.mp hc with rfl | hc
    · exact (h.pg.grows hg).erase ((dropRecorded_record _ _ _ _ _).mpr (Or.inr ⟨rfl, rfl⟩))
    · exact (h.catalogs c (mem_cons_of_mem _ hc)).grows hg

theorem TxInv.modify (h : TxInv S s) {op : TableMetadataOperationType}
    (hpg : o ∈ s.pg) (hop : op ≠ .tableCreate) :
    TxInv S { s with trackers := recordIcebergMetadataOperation s.trackers o op } := by
  refine ⟨h.nextOid_le, h.entry, fun {o' t} ht => ?_, fun ho ho' => ?_, ?_⟩
  · by_cases heq : o' = o
    · subst heq
      simp only [recordIcebergMetadataOperation, AList.lookup_insert, Option.some.injEq] at ht
      subst ht
      refine ⟨?_, h.pg.oid_lt hpg⟩
      rw [relationCreated_record, or_iff_left hop]
      cases hl : s.trackers.lookup o' with
      | some t => exact (h.tracker hl).1
      | none =>
        have : ¬ S.nextOid ≤ o' := by
          intro hle
          have := AList.lookup_isSome.mpr (h.created hle (h.pg.oid_lt hpg))
          simp [hl] at this
        simpa using this
    · simp only [recordIcebergMetadataOperation, AList.lookup_insert_ne heq] at ht
      exact h.tracker ht
  · exact (AList.mem_insert _).mpr (Or.inr (h.created ho ho'))
  · intro c hc
    exact (h.catalogs c hc).grows (Grows.of_requests_eq (le_refl _) rfl)

variable [DecidableEq Name]

theorem step_createTable {name : Name} (h : step rest s (.createTable name) = some s') :
    (∀ o, s.pg.lookup o ≠ some name) ∧ name ∉ rest ∧ s' = s.afterCreate name := by
  simp only [step] at h
  split_ifs at h with hc
  rw [not_or] at hc
  refine ⟨fun o ho => hc.1 ⟨⟨o, name⟩, AList.mem_lookup_iff.mp ho, rfl⟩, hc.2, ?_⟩
  exact (Option.some.inj h).symm

theorem TxInv.step (h : TxInv S s) {cmd : Command Name}
    (hs : Transaction.step S.rest s cmd = some s') : TxInv S s' := by
  cases cmd with
  | createTable =>
    obtain ⟨hpg, hr, rfl⟩ := step_createTable hs
    exact h.createTable hpg hr
  | dropTable o =>
    obtain ⟨n, hpg, rfl⟩ := Option.map_eq_some_iff.mp hs
    exact h.dropTable hpg
  | modify =>
    simp only [Transaction.step] at hs
    split_ifs at hs with hc
    cases hs
    exact h.modify hc.1 hc.2
  | savepoint =>
    cases hs
    exact h.of_catalogs_subset rfl rfl rfl (by simp)
  | release k =>
    simp only [Transaction.step] at hs
    split_ifs at hs
    cases hs
    refine h.of_catalogs_subset rfl rfl rfl fun c hc => ?_
    rcases mem_cons.mp hc with rfl | hc
    · exact mem_cons_self
    · exact mem_cons_of_mem _ (mem_of_mem_drop hc)
  | rollbackTo k =>
    obtain ⟨saved, hk, rfl⟩ := Option.map_eq_some_iff.mp hs
    refine h.of_catalogs_subset rfl rfl rfl fun c hc => mem_cons_of_mem _ ?_
    rcases mem_cons.mp hc with rfl | hc
    · exact mem_of_getElem? hk
    · exact mem_of_mem_drop hc

theorem TxInv.run (h : TxInv S s) {cmds : List (Command Name)}
    (hrun : Transition.run (Transaction.step S.rest) s cmds = some s') : TxInv S s' :=
  run_invariant (P := fun _ _ => True) (fun h _ => h.step) h (along_of_forall fun _ _ => trivial)
    hrun

theorem dropRecorded_step {cmd : Command Name} (hs : step rest s cmd = some s') (o : ℕ) :
    DropRecorded s'.requests o ↔ DropRecorded s.requests o ∨ cmd = .dropTable o := by
  cases cmd with
  | createTable =>
    obtain ⟨-, -, rfl⟩ := step_createTable hs
    simp [TxState.afterCreate, dropRecorded_record]
  | dropTable =>
    obtain ⟨n, -, rfl⟩ := Option.map_eq_some_iff.mp hs
    simp [dropRecorded_record, eq_comm]
  | modify o' op | release k =>
    simp only [step] at hs
    split_ifs at hs
    cases hs
    simp
  | savepoint =>
    cases hs
    simp
  | rollbackTo k =>
    obtain ⟨saved, -, rfl⟩ := Option.map_eq_some_iff.mp hs
    simp

/-- **The drops recorded are the drops executed, rolled back or not.** -/
theorem dropRecorded_run {cmds : List (Command Name)} (o : ℕ) :
    ∀ {s}, run (step rest) s cmds = some s' →
      (DropRecorded s'.requests o ↔ DropRecorded s.requests o ∨ .dropTable o ∈ cmds) := by
  induction cmds with
  | nil =>
    intro s hrun
    obtain rfl : s = s' := Option.some.inj hrun
    simp
  | cons cmd cmds ih =>
    intro s hrun
    obtain ⟨s₁, hs, hr⟩ := run_cons hrun
    rw [ih hr, dropRecorded_step hs, mem_cons, or_assoc, eq_comm (a := cmd)]

end Invariant

end PgLake.Transaction
