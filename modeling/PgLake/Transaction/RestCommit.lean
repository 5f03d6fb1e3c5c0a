/-
  What the commit of a transaction leaves in the REST catalog.

  Main result: `commitCorrect_iff`.
-/
import PgLake.Lib.KeyedFold
import PgLake.Lib.SetUpdates
import PgLake.Transaction.RestRequests

namespace PgLake.Transaction

open SetUpdates Transition List

variable {Name : Type} {env : Services}

/-! ## Pre-commit -/

variable {o : ℕ} {e : RestCatalogRequestPerTable Name} {n : Name}

open RestCatalogRequestPerTable AList Option

section PreCommit

theorem foldl_add_modify {reqs : List RestCatalogRequest} (h : ∀ req ∈ reqs,
      req.operationType ≠ .createTable ∧ req.operationType ≠ .dropTable)
    (e : RestCatalogRequestPerTable Name) :
    reqs.foldl add e = { e with tableModifyRequests := e.tableModifyRequests ++ reqs } := by
  induction reqs generalizing e with
  | nil => simp
  | cons req reqs ih =>
    obtain ⟨hreq, hr⟩ := forall_mem_cons.mp h
    have hadd : e.add req =
        { e with tableModifyRequests := e.tableModifyRequests ++ [req] } := by
      unfold add
      split <;> simp_all
    rw [foldl_cons, ih hr, hadd]
    simp

def modifyRequests (env : Services) (tracked : (_ : ℕ) × OpTracker) : List RestCatalogRequest :=
  let ops := metadataOperations env tracked.1 tracked.2
  if ops = [] then [] else env.applyIcebergMetadataChanges tracked.1 ops

variable (tracked : (_ : ℕ) × OpTracker)

theorem modifyRequests_modify : ∀ req ∈ modifyRequests env tracked,
      req.operationType ≠ .createTable ∧ req.operationType ≠ .dropTable := by
  intro req hreq
  simp only [modifyRequests] at hreq
  split_ifs at hreq
  · cases hreq
  · exact env.applyIcebergMetadataChanges_modifies _ _ req hreq

/-- All requests of an existing relation, in the order they are recorded. -/
def trackedRequests (env : Services) (tracked : (_ : ℕ) × OpTracker) : List RestCatalogRequest :=
  (if tracked.2.relationCreated then [⟨.createTable, env.finishStageCreate tracked.1⟩] else []) ++
    modifyRequests env tracked

theorem trackedRequests_ne_dropTable :
    ∀ req ∈ trackedRequests env tracked, req.operationType ≠ .dropTable := by
  intro req hreq
  rcases mem_append.mp hreq with h | h
  · split_ifs at h
    · obtain rfl := mem_singleton.mp h
      simp
    · cases h
  · exact (modifyRequests_modify tracked req h).2

theorem applyTracked_eq (pg : Catalog Name) (requests : Requests Name)
    (tracked : (_ : ℕ) × OpTracker) :
    applyTracked env pg requests tracked = match pg.lookup tracked.1 with
      | none => requests
      | some n => (trackedRequests env tracked).foldl
          (fun requests req =>
            recordRestCatalogRequestInTx requests tracked.1 n req) requests := by
  unfold applyTracked
  cases pg.lookup tracked.1 with
  | none => rfl
  | some =>
    simp only [trackedRequests, modifyRequests, foldl_append]
    split_ifs <;> rfl

theorem lookup_foldl_record_self (o : ℕ) (n : Name) (rs : List RestCatalogRequest)
    (reqs : Requests Name) :
    (rs.foldl (fun reqs req => recordRestCatalogRequestInTx reqs o n req)
        reqs).lookup o =
      if rs = [] then reqs.lookup o
      else some (rs.foldl add
        ((reqs.lookup o).getD { catalogTableName := n })) := by
  induction rs generalizing reqs with
  | nil => rfl
  | cons r rs ih =>
    rw [foldl_cons, ih, lookup_record_self]
    by_cases hrs : rs = [] <;> simp [hrs]

theorem lookup_foldl_record_ne {o o' : ℕ} (h : o' ≠ o) (n : Name) (rs : List RestCatalogRequest)
    (reqs : Requests Name) :
    (rs.foldl (fun reqs req => recordRestCatalogRequestInTx reqs o n req)
        reqs).lookup o' = reqs.lookup o' := by
  induction rs generalizing reqs with
  | nil => rfl
  | cons r rs ih => rw [foldl_cons, ih, lookup_record_ne _ _ _ h]

def entryAfter (env : Services) (pg : Catalog Name) (tracked : (_ : ℕ) × OpTracker)
    (before : Option (RestCatalogRequestPerTable Name)) :
    Option (RestCatalogRequestPerTable Name) :=
  match pg.lookup tracked.1 with
  | none => before
  | some name =>
    if trackedRequests env tracked = [] then before
    else some ((trackedRequests env tracked).foldl RestCatalogRequestPerTable.add
      (before.getD { catalogTableName := name }))

theorem applyTracked_pointwise (env : Services) (pg : Catalog Name) :
    KeyedFold.Pointwise (applyTracked env pg) (entryAfter env pg) where
  self requests tracked := by
    rw [applyTracked_eq]
    unfold entryAfter
    cases pg.lookup tracked.1 with
    | none => rfl
    | some => exact lookup_foldl_record_self _ _ _ _
  other requests tracked o ho := by
    rw [applyTracked_eq]
    cases pg.lookup tracked.1 with
    | none => rfl
    | some => exact lookup_foldl_record_ne ho _ _ _

variable {S : Start Name} {s : TxState Name} {trackerOrder : List ((_ : ℕ) × OpTracker)}

theorem lookup_preCommit (ho : trackerOrder.Perm s.trackers.entries) (o : ℕ) :
    (applyTrackedIcebergMetadataChanges env s trackerOrder).lookup o =
      match s.trackers.lookup o with
      | none => s.requests.lookup o
      | some t => entryAfter env s.pg ⟨o, t⟩ (s.requests.lookup o) := by
  have hpw := applyTracked_pointwise env s.pg
  cases ht : s.trackers.lookup o with
  | none =>
    have hnot : o ∉ trackerOrder.keys := fun hm =>
      lookup_eq_none.mp ht ((ho.map Sigma.fst).mem_iff.mp hm)
    exact KeyedFold.lookup_foldl_of_notMem hpw hnot _
  | some t =>
    have hme : (⟨o, t⟩ : (_ : ℕ) × OpTracker) ∈ trackerOrder :=
      ho.mem_iff.mpr (mem_lookup_iff.mp ht)
    exact KeyedFold.lookup_foldl hpw ((perm_nodupKeys ho).mpr s.trackers.nodupKeys)
      hme _

theorem lookup_preCommit_dropped (hor : trackerOrder.Perm s.trackers.entries) (ho : o ∉ s.pg) :
    (applyTrackedIcebergMetadataChanges env s trackerOrder).lookup o = s.requests.lookup o := by
  rw [lookup_preCommit hor]
  cases s.trackers.lookup o with
  | none => rfl
  | some t => simp [entryAfter, lookup_eq_none.mpr ho]

theorem lookup_preCommit_old (h : TxInv S s) (hor : trackerOrder.Perm s.trackers.entries)
    (ho : o < S.nextOid)
    (he : (applyTrackedIcebergMetadataChanges env s trackerOrder).lookup o = some e) :
    e.createTableRequest = none ∧ S.pg.lookup o = some e.catalogTableName := by
  rw [lookup_preCommit hor] at he
  cases ht : s.trackers.lookup o with
  | none =>
    rw [ht] at he
    exact (h.entry he).1.old ho
  | some t =>
    have hc : t.relationCreated = false := by
      rw [← Bool.not_eq_true, (h.tracker ht).1]
      exact not_le.mpr ho
    rw [ht] at he
    simp only [entryAfter, trackedRequests, hc, Bool.false_eq_true, if_false,
      nil_append] at he
    cases hpg : s.pg.lookup o with
    | none =>
      rw [hpg] at he
      exact (h.entry he).1.old ho
    | some n =>
      simp only [hpg] at he
      split_ifs at he
      · exact (h.entry he).1.old ho
      · cases he
        rw [foldl_add_modify (modifyRequests_modify _)]
        cases hreq : s.requests.lookup o with
        | none => exact ⟨rfl, h.pg.old ho hpg⟩
        | some e => exact (h.entry hreq).1.old ho

theorem lookup_preCommit_new (env : Services) (h : TxInv S s)
    (hor : trackerOrder.Perm s.trackers.entries) (ho : S.nextOid ≤ o)
    (hn : s.pg.lookup o = some n) :
    n ∉ S.rest ∧
    ∃ e, (applyTrackedIcebergMetadataChanges env s trackerOrder).lookup o = some e ∧
      e.catalogTableName = n ∧
      e.createTableRequest = some ⟨.createTable, env.finishStageCreate o⟩ := by
  obtain ⟨e, he, rfl⟩ := h.pg.new ho hn
  have hm : o ∈ s.pg := mem_of_lookup hn
  obtain ⟨t, ht⟩ := isSome_iff_exists.mp
    (lookup_isSome.mpr (h.created ho (h.pg.oid_lt hm)))
  have hc : t.relationCreated = true := (h.tracker ht).1.mpr ho
  have ha : (applyTrackedIcebergMetadataChanges env s trackerOrder).lookup o =
      some ((modifyRequests env ⟨o, t⟩).foldl add
        (e.add ⟨.createTable, env.finishStageCreate o⟩)) := by
    rw [lookup_preCommit hor, ht]
    simp [entryAfter, trackedRequests, hn, hc, he]
  rw [foldl_add_modify (modifyRequests_modify _)] at ha
  exact ⟨((h.entry he).1.new ho).2, _, ha, rfl, rfl⟩

theorem createTableRequest_eq_none_iff (h : TxInv S s)
    (hor : trackerOrder.Perm s.trackers.entries)
    (he : (applyTrackedIcebergMetadataChanges env s trackerOrder).lookup o = some e) :
    e.createTableRequest = none ↔ o < S.nextOid := by
  refine ⟨fun hn => ?_, fun ho => (lookup_preCommit_old h hor ho he).1⟩
  by_contra hle
  rw [not_lt] at hle
  cases hpg : s.pg.lookup o with
  | none =>
    rw [lookup_preCommit_dropped hor (lookup_eq_none.mp hpg)] at he
    rw [((h.entry he).1.new hle).1] at hn
    cases hn
  | some n =>
    obtain ⟨-, e', he', -, hc⟩ := lookup_preCommit_new env h hor hle hpg
    rw [he] at he'
    rw [some.inj he', hc] at hn
    cases hn

theorem dropRecorded_foldl_record {rs : List RestCatalogRequest}
    (h : ∀ r ∈ rs, r.operationType ≠ .dropTable) (reqs : Requests Name) (o' : ℕ) :
    DropRecorded (rs.foldl
      (fun reqs req => recordRestCatalogRequestInTx reqs o n req) reqs) o' ↔
      DropRecorded reqs o' := by
  induction rs generalizing reqs with
  | nil => rfl
  | cons r rs ih =>
    obtain ⟨hr, hrs⟩ := forall_mem_cons.mp h
    rw [foldl_cons, ih hrs, dropRecorded_record, or_iff_left fun h' => hr h'.2]

theorem dropRecorded_preCommit (env : Services) (s : TxState Name)
    (trackerOrder : List ((_ : ℕ) × OpTracker)) (o : ℕ) :
    DropRecorded (applyTrackedIcebergMetadataChanges env s trackerOrder) o ↔
      DropRecorded s.requests o := by
  unfold applyTrackedIcebergMetadataChanges
  generalize s.requests = reqs
  induction trackerOrder generalizing reqs with
  | nil => rfl
  | cons tracked order ih =>
    rw [foldl_cons, ih, applyTracked_eq]
    cases s.pg.lookup tracked.1 with
    | none => rfl
    | some => exact dropRecorded_foldl_record (trackedRequests_ne_dropTable tracked) _ _

end PreCommit

/-! ## Posting -/

section Posting

/-- What posting the entry of one relation does to the REST catalog. -/
def entryUpdates (env : Services) (e : RestCatalogRequestPerTable Name) : List (Update Name) :=
  match e.createTableRequest, e.dropTableRequest with
  | some create, none =>
    if env.validCreate create.body then [.insert e.catalogTableName] else []
  | none, some _ => [.erase e.catalogTableName]
  | _, _ => []

theorem postCreateOrDrop_eq [DecidableEq Name] (rest : Finset Name)
    (e : RestCatalogRequestPerTable Name) :
    postCreateOrDrop env rest e = applyAll rest (entryUpdates env e) := by
  unfold postCreateOrDrop entryUpdates
  cases e.createTableRequest with
  | none => cases e.dropTableRequest <;> rfl
  | some =>
    cases e.dropTableRequest with
    | some _ => rfl
    | none =>
      simp only
      split_ifs <;> rfl

variable {S : Start Name} {s : TxState Name} {trackerOrder : List ((_ : ℕ) × OpTracker)}
  {order : List ((_ : ℕ) × RestCatalogRequestPerTable Name)}

theorem insert_mem_entryUpdates :
    .insert n ∈ entryUpdates env e ↔ e.catalogTableName = n ∧ ¬ e.dropTableRequest.isSome ∧
        ∃ create, e.createTableRequest = some create ∧ env.validCreate create.body = true := by
  cases hc : e.createTableRequest with
  | none => cases hd : e.dropTableRequest <;> simp [entryUpdates, hc, hd]
  | some =>
    cases hd : e.dropTableRequest with
    | some _ => simp [entryUpdates, hc, hd]
    | none =>
      simp only [entryUpdates, hc, hd]
      split_ifs with hv
      · simp [hv, eq_comm (a := n)]
      · simp [hv]

theorem erase_mem_entryUpdates : .erase n ∈ entryUpdates env e ↔
      e.catalogTableName = n ∧ e.dropTableRequest.isSome ∧ e.createTableRequest = none := by
  cases hc : e.createTableRequest with
  | none => cases hd : e.dropTableRequest <;> simp [entryUpdates, hc, hd, eq_comm]
  | some =>
    cases hd : e.dropTableRequest with
    | some _ => simp [entryUpdates, hc, hd]
    | none =>
      simp only [entryUpdates, hc, hd]
      split_ifs <;> simp

theorem mem_flatMap_entryUpdates (env : Services) {reqs : Requests Name}
    (ho : order.Perm reqs.entries) {u : Update Name} :
    u ∈ (order.map Sigma.snd).flatMap (entryUpdates env) ↔
      ∃ o e, reqs.lookup o = some e ∧ u ∈ entryUpdates env e := by
  constructor
  · intro h
    obtain ⟨e, he, hu⟩ := mem_flatMap.mp h
    obtain ⟨⟨o, e⟩, hm, rfl⟩ := mem_map.mp he
    exact ⟨o, e, mem_lookup_iff.mpr (ho.mem_iff.mp hm), hu⟩
  · rintro ⟨o, e, he, hu⟩
    have hm := ho.mem_iff.mpr (mem_lookup_iff.mp he)
    exact mem_flatMap.mpr ⟨e, mem_map.mpr ⟨⟨o, e⟩, hm, rfl⟩, hu⟩

theorem exists_insert_iff (h : TxInv S s) (ht : trackerOrder.Perm s.trackers.entries) :
    (∃ o e, (applyTrackedIcebergMetadataChanges env s trackerOrder).lookup o = some e ∧
      .insert n ∈ entryUpdates env e) ↔
    ∃ o, S.nextOid ≤ o ∧ s.pg.lookup o = some n ∧ ¬ DropRecorded s.requests o := by
  constructor
  · rintro ⟨o, e, he, hins⟩
    obtain ⟨rfl, hd, create, hc, hv⟩ := insert_mem_entryUpdates.mp hins
    have hle : S.nextOid ≤ o := by
      rw [← not_lt, ← createTableRequest_eq_none_iff h ht he, hc]
      exact some_ne_none _
    have hnd : ¬ DropRecorded s.requests o := by
      rw [← dropRecorded_preCommit env s trackerOrder]
      rintro ⟨e', he', hd'⟩
      rw [he] at he'
      exact hd (some.inj he' ▸ hd')
    cases hpg : s.pg.lookup o with
    | none =>
      -- rolled back: the body is still the empty one of CREATE TABLE
      rw [lookup_preCommit_dropped ht (lookup_eq_none.mp hpg)] at he
      have := ((h.entry he).1.new hle).1
      rw [hc] at this
      rw [some.inj this, env.validCreate_empty] at hv
      cases hv
    | some n =>
      obtain ⟨-, e', he', rfl, -⟩ := lookup_preCommit_new env h ht hle hpg
      rw [he] at he'
      cases he'
      exact ⟨o, hle, hpg, hnd⟩
  · rintro ⟨o, hle, hpg, hnd⟩
    obtain ⟨-, e, he, rfl, hc⟩ := lookup_preCommit_new env h ht hle hpg
    refine ⟨o, e, he, insert_mem_entryUpdates.mpr ⟨rfl, fun hd => hnd ?_, _, hc,
      env.validCreate_finish o⟩⟩
    exact (dropRecorded_preCommit env s trackerOrder o).mp ⟨e, he, hd⟩

theorem exists_erase_iff (h : TxInv S s) (ht : trackerOrder.Perm s.trackers.entries) :
    (∃ o e, (applyTrackedIcebergMetadataChanges env s trackerOrder).lookup o = some e ∧
      .erase n ∈ entryUpdates env e) ↔
    ∃ o, S.pg.lookup o = some n ∧ DropRecorded s.requests o := by
  constructor
  · rintro ⟨o, e, he, her⟩
    obtain ⟨rfl, hdr, hc⟩ := erase_mem_entryUpdates.mp her
    have hlt : o < S.nextOid := (createTableRequest_eq_none_iff h ht he).mp hc
    exact ⟨o, (lookup_preCommit_old h ht hlt he).2,
      (dropRecorded_preCommit env s trackerOrder o).mp ⟨e, he, hdr⟩⟩
  · rintro ⟨o, hpg, hd⟩
    have hlt : o < S.nextOid := S.oid_lt (mem_of_lookup hpg)
    obtain ⟨e, he, hdr⟩ := (dropRecorded_preCommit env s trackerOrder o).mpr hd
    obtain ⟨hc, hn⟩ := lookup_preCommit_old h ht hlt he
    rw [hpg] at hn
    exact ⟨o, e, he, erase_mem_entryUpdates.mpr ⟨(some.inj hn).symm, hdr, hc⟩⟩

variable [DecidableEq Name]

/-- **The REST catalog after the commit**, whatever the order of the two hash tables. -/
theorem mem_posted (env : Services) (h : TxInv S s)
    (ht : trackerOrder.Perm s.trackers.entries)
    (ho : order.Perm (applyTrackedIcebergMetadataChanges env s trackerOrder).entries)
    (n : Name) :
    n ∈ (postAllRestCatalogRequests env S.rest order).rest ↔
      (n ∈ S.rest ∧ ¬ ∃ o, S.pg.lookup o = some n ∧ DropRecorded s.requests o) ∨
      ∃ o, S.nextOid ≤ o ∧ s.pg.lookup o = some n ∧ ¬ DropRecorded s.requests o := by
  have hins := mem_flatMap_entryUpdates env ho (u := .insert n)
  have hera := mem_flatMap_entryUpdates env ho (u := .erase n)
  rw [exists_insert_iff h ht] at hins
  rw [exists_erase_iff h ht] at hera
  simp only [postAllRestCatalogRequests, foldl_eq_applyAll postCreateOrDrop_eq]
  rw [mem_applyAll, hins, hera]
  -- a table created in the transaction was not in the REST catalog, a table of the start was
  intro hi he
  obtain ⟨o, hle, hpg, -⟩ := hins.mp hi
  obtain ⟨o', hpg', -⟩ := hera.mp he
  exact (lookup_preCommit_new env h ht hle hpg).1 (S.name_mem hpg')

theorem exists_of_mem_batch (h : TxInv S s) (ht : trackerOrder.Perm s.trackers.entries)
    (ho : order.Perm (applyTrackedIcebergMetadataChanges env s trackerOrder).entries)
    {change : Name × List RestCatalogRequest}
    (hc : change ∈ (postAllRestCatalogRequests env S.rest order).batch) :
    ∃ o, s.pg.lookup o = some change.1 := by
  obtain ⟨e, he, rfl⟩ := mem_map.mp hc
  obtain ⟨he, hmod⟩ := mem_filter.mp he
  obtain ⟨⟨o, e⟩, hm, rfl⟩ := mem_map.mp he
  have hl := mem_lookup_iff.mpr (ho.mem_iff.mp hm)
  refine ⟨o, ?_⟩
  cases hpg : s.pg.lookup o with
  | none =>
    rw [lookup_preCommit_dropped ht (lookup_eq_none.mp hpg)] at hl
    simp [(h.entry hl).1.modify] at hmod
  | some n =>
    by_cases hlt : o < S.nextOid
    · have := (lookup_preCommit_old h ht hlt hl).2
      rw [h.pg.old hlt hpg] at this
      exact this
    · obtain ⟨-, e', he', rfl, -⟩ :=
        lookup_preCommit_new env h ht (not_lt.mp hlt) hpg
      rw [mem_def, he'] at hl
      rw [some.inj hl]

/-- **The requests bring the REST catalog to the committed state exactly if no DROP TABLE of a
    relation that exists at commit was executed.** -/
theorem commitCorrect_iff (S : Start Name) (cmds : List (Command Name)) {s : TxState Name}
    (hrun : run (step S.rest) S.state cmds = some s)
    (htracked : trackerOrder.Perm s.trackers.entries)
    (horder : order.Perm (applyTrackedIcebergMetadataChanges env s trackerOrder).entries) :
    CommitCorrect S s.pg (postAllRestCatalogRequests env S.rest order) ↔
      ∀ o ∈ s.pg, .dropTable o ∉ cmds := by
  have h : TxInv S s := (TxInv.start S).run hrun
  have hdrop : ∀ o, DropRecorded s.requests o ↔ .dropTable o ∈ cmds := by
    intro o
    rw [dropRecorded_run o hrun]
    simp [DropRecorded, Start.state]
  have hrest := mem_posted env h htracked horder
  simp only [hdrop] at hrest
  constructor
  · intro hcorrect o ho hcmd
    obtain ⟨n, hn⟩ := isSome_iff_exists.mp (lookup_isSome.mpr ho)
    rcases (hrest n).mp (h.mem_of_restMatches hcorrect.tables hn) with ⟨hmem, hnot⟩ | hcreated
    · by_cases hlt : o < S.nextOid
      · exact hnot ⟨o, h.pg.old hlt hn, hcmd⟩
      · exact (lookup_preCommit_new env h htracked (not_lt.mp hlt) hn).1 hmem
    · obtain ⟨o', -, hn', hcmd'⟩ := hcreated
      exact hcmd' (h.pg.name_inj hn hn' ▸ hcmd)
  · intro hcond
    have htables : RestMatches S s.pg (postAllRestCatalogRequests env S.rest order).rest := by
      intro n
      have hdropped : (∃ o, S.pg.lookup o = some n ∧ .dropTable o ∈ cmds) ↔
          ∃ o, S.pg.lookup o = some n ∧ o ∉ s.pg := by
        refine exists_congr fun o => and_congr_right fun hn => ?_
        refine ⟨fun hcmd ho => hcond o ho hcmd, fun ho => ?_⟩
        exact (hdrop o).mp (h.pg.dropped (mem_of_lookup hn) ho)
      have hcreated : (∃ o, S.nextOid ≤ o ∧ s.pg.lookup o = some n ∧ .dropTable o ∉ cmds) ↔
          ∃ o, o ∉ S.pg ∧ s.pg.lookup o = some n := by
        refine exists_congr fun o => ?_
        constructor
        · rintro ⟨hle, hn, -⟩
          exact ⟨(h.pg.notMem_start_iff hn).mpr hle, hn⟩
        · rintro ⟨ho, hn⟩
          exact ⟨(h.pg.notMem_start_iff hn).mp ho, hn, hcond o (mem_of_lookup hn)⟩
      rw [hrest n, hdropped, hcreated]
    refine ⟨htables, fun change hchange => ?_⟩
    obtain ⟨o, hn⟩ := exists_of_mem_batch h htracked horder hchange
    exact h.mem_of_restMatches htables hn

end Posting

/-! ## A rolled back DROP -/

/-- A service that takes every body but the empty one, and a write that adds one snapshot. -/
def snapshotServices : Services where
  getDataFileMetadataOperations := fun _ _ => [.dataFileAdd]
  effectiveMaxSnapshotAge := fun _ => 604800
  applyIcebergMetadataChanges := fun _ _ => [⟨.addSnapshot, "add-snapshot"⟩]
  finishStageCreate := fun _ => "assert-create"
  validCreate := fun body => body != ""
  applyIcebergMetadataChanges_modifies := by simp
  validCreate_empty := by simp
  validCreate_finish := by simp

theorem lookup_singleton_one {n : String}
    (h : (singleton 1 "t" : Catalog String).lookup o = some n) : o = 1 ∧ n = "t" := by
  have := mem_lookup_iff.mp h
  simpa using this

/-- Postgres and the REST catalog have the table `t`. -/
def oneTable : Start String where
  pg := AList.singleton 1 "t"
  rest := {"t"}
  nextOid := 2
  oid_lt {o} h := by
    obtain ⟨n, hn⟩ := Option.isSome_iff_exists.mp (AList.lookup_isSome.mpr h)
    obtain ⟨rfl, -⟩ := lookup_singleton_one hn
    omega
  name_inj h h' := (lookup_singleton_one h).1.trans (lookup_singleton_one h').1.symm
  name_mem h := by simp [(lookup_singleton_one h).2]

/-- A table created, written to and kept: it is created in the REST catalog and the batch
    names it. -/
theorem commitCorrect_iff_created : ∃ s, run (step oneTable.rest) oneTable.state
        [.savepoint, .createTable "u", .modify 2 .dataFileAdd, .release 0] = some s ∧
      (∀ o ∈ s.pg, .dropTable o ∉
        ([.savepoint, .createTable "u", .modify 2 .dataFileAdd, .release 0] : List (Command String))) ∧
      CommitCorrect oneTable s.pg (postAllRestCatalogRequests snapshotServices oneTable.rest
        (applyTrackedIcebergMetadataChanges snapshotServices s s.trackers.entries).entries) :=
  have hcond : ∀ o, .dropTable o ∉
      ([.savepoint, .createTable "u", .modify 2 .dataFileAdd, .release 0] :
        List (Command String)) := by simp
  ⟨_, rfl, fun o _ => hcond o,
    (commitCorrect_iff oneTable _ rfl (List.Perm.refl _) (List.Perm.refl _)).mpr
      fun o _ => hcond o⟩

/-- `SAVEPOINT; DROP TABLE t; ROLLBACK TO; COMMIT`: Postgres still has the table, the REST catalog
    has lost it. -/
theorem rolled_back_drop_is_posted : ∃ s, run (step oneTable.rest) oneTable.state
        [.savepoint, .dropTable 1, .rollbackTo 0] = some s ∧
      s.pg = oneTable.pg ∧
      ¬ CommitCorrect oneTable s.pg (postAllRestCatalogRequests snapshotServices oneTable.rest
        (applyTrackedIcebergMetadataChanges snapshotServices s s.trackers.entries).entries) := by
  refine ⟨_, rfl, rfl, fun hcorrect => ?_⟩
  have ht : "t" ∈ (∅ : Finset String) := by
    refine (hcorrect.tables "t").mpr (Or.inl ⟨by simp [oneTable], ?_⟩)
    rintro ⟨o, hn, ho⟩
    exact ho (mem_of_lookup hn)
  simp at ht

end PgLake.Transaction
