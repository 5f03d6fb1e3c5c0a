/-
  Batched and single catalog updates.

  `ApplyDataFileCatalogChanges` inserts a run of adjacent additions at once and
  applies every other operation alone.

  Main result: `catalogChanges_same_iff`.
-/
import PgLake.Fdw.CatalogIds

namespace PgLake.Fdw.DataFiles

open List

open Iceberg.Unreferenced (Path hashKey longPath maxS3PathLength)
open Fallible

variable {Id : Type} [DecidableEq Id] {env : CatalogEnv Id}

/-! ## Runs that are not keyed -/

section Runs
variable {c c' : Catalog Id}

theorem isSome_insertValues_iff (rs vs : List (PartitionValueRow Id)) :
    (rs.foldlM (fun vs row => (insertPartitionValue vs row).toOption) vs).isSome ↔
      (rs.map fun r => (r.id, r.partitionFieldId)).Nodup ∧
        ∀ row ∈ rs, (row.id, row.partitionFieldId) ∉
          vs.map (fun r => (r.id, r.partitionFieldId)) :=
  isSome_foldlM_insert_iff (fun r : PartitionValueRow Id => (r.id, r.partitionFieldId))
    (fun hm => by rw [insertPartitionValue, if_pos hm]; rfl)
    (fun hm => by rw [insertPartitionValue, if_neg hm]; rfl) rs vs

variable {entries : List (DataFileAdd × Id)}

omit [DecidableEq Id] in
theorem foldlM_stepFiles : ∀ {fs fs' : List (FileRow Id)},
    entries.foldlM stepFiles fs = some fs' →
      fs' = fs ++ entries.map (fun e => e.1.fileRow e.2) ∧
      (entries.map fun e => e.1.path).Nodup ∧
      ∀ e ∈ entries, e.1.path ∉ fs.map FileRow.path := by
  induction entries with
  | nil =>
    intro fs fs' heq
    cases heq
    simp
  | cons e entries ih =>
    intro fs fs' heq
    obtain ⟨fs₁, hf₁, heq⟩ := Option.bind_eq_some_iff.mp heq
    obtain ⟨hp, -, rfl⟩ := insertDataFile_eq_ok (toOption_eq_some.mp hf₁)
    obtain ⟨rfl, hn, hnew⟩ := ih heq
    refine ⟨by simp, ?_, ?_⟩
    · rw [map_cons, nodup_cons]
      refine ⟨fun hm => ?_, hn⟩
      obtain ⟨other, ho, hs⟩ := mem_map.mp hm
      refine hnew other ho ?_
      rw [hs, map_append]
      exact mem_append_right _ (mem_singleton.mpr rfl)
    · refine forall_mem_cons.mpr ⟨hp, fun other ho hm => hnew other ho ?_⟩
      rw [map_append]
      exact mem_append_left _ hm

omit [DecidableEq Id] in
theorem numbered_draws (drawn : ℕ) (ops : List DataFileAdd) :
    ∀ e ∈ numbered env drawn ops, ∃ n, drawn ≤ n ∧ e.2 = env.nextval n e.1.path := by
  induction ops generalizing drawn with
  | nil => simp [numbered]
  | cons op ops ih =>
    refine forall_mem_cons.mpr ⟨⟨drawn, le_rfl, rfl⟩, fun e he => ?_⟩
    obtain ⟨n, hn, heq⟩ := ih (drawn + 1) e he
    exact ⟨n, by omega, heq⟩

variable {ops : List DataFileAdd}

omit [DecidableEq Id] in
theorem nodup_numbered_ids {drawn : ℕ}
    (hp : ((numbered env drawn ops).map fun e => e.1.path).Nodup) :
    ((numbered env drawn ops).map Prod.snd).Nodup := by
  induction ops generalizing drawn with
  | nil => simp [numbered]
  | cons op ops ih =>
    rw [numbered, map_cons, nodup_cons] at hp ⊢
    refine ⟨fun hm => ?_, ih hp.2⟩
    obtain ⟨e, he, heq⟩ := mem_map.mp hm
    obtain ⟨n, hn, hid⟩ := numbered_draws (drawn + 1) ops e he
    refine env.nextval_ne (show n ≠ drawn by omega) ?_ (hid.symm.trans heq)
    intro hs
    exact hp.1 (hs ▸ mem_map_of_mem he)

omit [DecidableEq Id] in
theorem Catalog.Valid.numbered_id_notMem (h : c.Valid env)
    {e : DataFileAdd × Id} (he : e ∈ numbered env c.drawn ops)
    (hp : e.1.path ∉ c.files.map FileRow.path) :
    e.2 ∉ c.files.map FileRow.id := by
  intro hm
  obtain ⟨n, hn, hid⟩ := numbered_draws c.drawn ops e he
  obtain ⟨f, hf, heq⟩ := mem_map.mp hm
  refine h.fresh f hf n e.1.path hn ?_ (hid.symm.trans heq.symm)
  intro hs
  exact hp (hs ▸ mem_map_of_mem hf)

theorem flushDataFileAddBatch_eq_ok (heq : flushDataFileAddBatch env c ops = .ok c') :
    (numbered env c.drawn ops).foldlM stepFiles c.files = some c'.files ∧
      (numbered env c.drawn ops).foldlM stepStats c.columnStats = some c'.columnStats ∧
      ∃ valueRows, ops.mapM (partitionValuesOf env (pathToFileIdOf (fileRows env c.drawn ops))) =
          .ok valueRows ∧
        valueRows.flatten.foldlM insertPartitionValue c.partitionValues = .ok c'.partitionValues ∧
        c' = c.withRows ops.length c'.files c'.columnStats c'.partitionValues := by
  obtain ⟨fs, hfs, heq⟩ := bind_eq_ok_iff.mp heq
  obtain ⟨stats, hs, heq⟩ := bind_eq_ok_iff.mp heq
  obtain ⟨valueRows, hv, heq⟩ := bind_eq_ok_iff.mp heq
  obtain ⟨vs, hva, heq⟩ := bind_eq_ok_iff.mp heq
  cases heq
  refine ⟨?_, ?_, valueRows, hv, hva, rfl⟩
  · have := toOption_eq_some.mpr hfs
    rw [toOption_foldlM, fileRows_eq, foldlM_map] at this
    exact this
  · exact (foldlM_stepStats _ _ _ _).symm.trans (toOption_eq_some.mpr hs)

theorem isSome_foldlM_stepValues (hids : (entries.map Prod.snd).Nodup)
    (hrs : ∀ e ∈ entries, ∃ rows, appendPartitionValuesForFile env e.1 e.2 = .ok rows ∧
      (rows.map PartitionValueRow.partitionFieldId).Nodup) :
    ∀ vs : List (PartitionValueRow Id), (∀ e ∈ entries, ∀ r ∈ vs, r.id ≠ e.2) →
      (entries.foldlM (stepValues env) vs).isSome := by
  induction entries with
  | nil =>
    intro vs _
    rfl
  | cons e entries ih =>
    intro vs hv
    obtain ⟨⟨rows, ha, hfs⟩, hre⟩ := forall_mem_cons.mp hrs
    obtain ⟨he, hot⟩ := forall_mem_cons.mp hv
    rw [map_cons, nodup_cons] at hids
    have hown := (appendPartitionValuesForFile_eq_ok ha).1
    have hso : (rows.foldlM (fun vs r => (insertPartitionValue vs r).toOption)
        vs).isSome := by
      refine (isSome_insertValues_iff rows vs).mpr ⟨?_, fun r hr hm => ?_⟩
      · refine List.Nodup.of_map Prod.snd ?_
        rw [map_map]
        exact hfs
      · obtain ⟨other, ho, heq⟩ := mem_map.mp hm
        exact he other ho ((congrArg Prod.fst heq).trans (hown r hr))
    obtain ⟨vs', hv'⟩ := Option.isSome_iff_exists.mp hso
    have hst : stepValues env vs e = some vs' := by
      rw [stepValues, ha]
      exact hv'
    have heq : vs' = vs ++ rows := by
      rw [← toOption_foldlM] at hv'
      exact foldlM_eq_append insertPartitionValue_eq_ok rows (toOption_eq_some.mp hv')
    rw [foldlM_cons, hst]
    refine ih hids.2 hre vs' fun other ho r hr => ?_
    rw [heq, mem_append] at hr
    rcases hr with hr | hr
    · exact hot other ho r hr
    · rw [hown r hr]
      rintro hs
      exact hids.1 (hs ▸ mem_map_of_mem ho)

theorem exists_flushDataFileAddBatch_single (h : c.Valid env) {op : DataFileAdd}
    (hp : op.path ∉ c.files.map FileRow.path) (hsi : 0 ≤ op.dataFileStats.fileSize)
    (hs : (op.dataFileStats.columnStats.map DataFileColumnStats.fieldId).Nodup)
    (hfs : (op.partitionFields.map PartitionField.fieldId).Nodup)
    (hva : ∀ field ∈ op.partitionFields,
      ∃ v, env.serializePartitionValue field = .ok v) :
    ∃ rs, (∀ row ∈ rs, row.id = env.nextval c.drawn op.path) ∧
      flushDataFileAddBatch env c [op] = .ok (c.addFile op (env.nextval c.drawn op.path) rs) := by
  set id := env.nextval c.drawn op.path
  have he : ∀ e ∈ numbered env c.drawn [op], e = (op, id) := by
    intro e he
    exact mem_singleton.mp he
  have hfi : (numbered env c.drawn [op]).foldlM stepFiles c.files =
      some (c.files ++ [op.fileRow id]) := by
    have hi : insertDataFile c.files (op.fileRow id) = .ok (c.files ++ [op.fileRow id]) := by
      exact (if_neg hp).trans (if_neg (not_lt.mpr hsi))
    rw [numbered, numbered, foldlM_cons, stepFiles, hi]
    rfl
  have hs : ((numbered env c.drawn [op]).foldlM stepStats c.columnStats).isSome := by
    have hso : (stepStats c.columnStats (op, id)).isSome := by
      refine (isSome_foldlM_insert_iff (fun r : ColumnStatsRow => (r.fieldId, r.path))
        (fun hm => by rw [insertColumnStats, if_pos hm]; rfl)
        (fun hm => by rw [insertColumnStats, if_neg hm]; rfl) _ _).mpr ⟨?_, ?_⟩
      · unfold DataFileAdd.columnStatsRows
        split_ifs
        · rw [List.Nodup, pairwise_map, pairwise_filterMap]
          refine (pairwise_map.mp hs).imp fun hne row hr row' hr' heq => hne ?_
          obtain ⟨lo, -, rfl⟩ := Option.map_eq_some_iff.mp hr
          obtain ⟨lo', -, rfl⟩ := Option.map_eq_some_iff.mp hr'
          exact (Prod.mk.inj heq).1
        · exact nodup_nil
      · intro row hr hm
        obtain ⟨old, hold, heq⟩ := mem_map.mp hm
        refine hp ?_
        rw [← columnStatsRows_path hr, ← (Prod.mk.inj heq).2]
        exact h.columnStats old hold
    obtain ⟨stats, hso⟩ := Option.isSome_iff_exists.mp hso
    rw [numbered, numbered, foldlM_cons, hso]
    rfl
  have hva : ((numbered env c.drawn [op]).foldlM (stepValues env) c.partitionValues).isSome := by
    have hids : ((numbered env c.drawn [op]).map Prod.snd).Nodup := nodup_singleton _
    refine isSome_foldlM_stepValues hids (fun e hm => ?_)
      c.partitionValues fun e hm row hr heq => ?_
    · obtain rfl := he e hm
      obtain ⟨rs, hrs, hforall⟩ := exists_mapM_eq_ok (l := op.partitionFields)
        (R := fun (row : PartitionValueRow Id) field => row.partitionFieldId = field.fieldId)
        (f := fun field => do
          let v ← env.serializePartitionValue field
          return ⟨id, field.fieldId, v⟩) fun field hf => by
            obtain ⟨v, hv⟩ := hva field hf
            exact ⟨_, by rw [hv]; rfl, rfl⟩
      have hmap : List.Forall₂ Eq (rs.map PartitionValueRow.partitionFieldId)
          (op.partitionFields.map PartitionField.fieldId) :=
        forall₂_map_left_iff.mpr (forall₂_map_right_iff.mpr hforall)
      rw [forall₂_eq_eq_eq] at hmap
      exact ⟨rs, hrs, hmap ▸ hfs⟩
    · refine h.numbered_id_notMem hm ?_ (heq ▸ h.partitionValues row hr)
      rw [he e hm]
      exact hp
  obtain ⟨stats, hs⟩ := Option.isSome_iff_exists.mp hs
  obtain ⟨vs, hva⟩ := Option.isSome_iff_exists.mp hva
  have hrun : insertRun env c [op] =
      some (c.withRows 1 (c.files ++ [op.fileRow id]) stats vs) := by
    rw [insertRun, hfi, hs, hva]
    rfl
  have heq := toOption_eq_some.mp ((flushDataFileAddBatch_single c op).trans hrun)
  obtain ⟨-, rs, hrs, ha⟩ := flushDataFileAddBatch_single_eq_ok heq
  exact ⟨rs, (appendPartitionValuesForFile_eq_ok hrs).1, heq.trans (congrArg _ ha)⟩

/-- **A batch that succeeds would succeed one by one**, keyed or not. -/
theorem isSome_insertRun_of_flush (h : c.Valid env)
    (heq : flushDataFileAddBatch env c ops = .ok c') : (insertRun env c ops).isSome := by
  obtain ⟨hf, hs, valueRows, hv, hva, -⟩ := flushDataFileAddBatch_eq_ok heq
  obtain ⟨-, hn, hnew⟩ := foldlM_stepFiles hf
  have hk : (valueRows.flatten.map fun r => (r.id, r.partitionFieldId)).Nodup := by
    have := toOption_eq_some.mpr hva
    rw [toOption_foldlM] at this
    exact ((isSome_insertValues_iff _ _).mp (Option.isSome_of_eq_some this)).1
  have hso : ((numbered env c.drawn ops).foldlM (stepValues env) c.partitionValues).isSome := by
    refine isSome_foldlM_stepValues (nodup_numbered_ids hn) (fun e he => ?_)
      c.partitionValues fun e he row hr heq => ?_
    · -- the rows of the batch, with the id of the entry in place of the one found
      have hop : e.1 ∈ ops := by
        rw [← numbered_map_fst env c.drawn ops]
        exact mem_map_of_mem he
      obtain ⟨rs, hrs⟩ := exists_of_mapM_eq_ok hv e.1 hop
      have hm : rs ∈ valueRows := (mem_of_mapM_eq_ok hv).mpr ⟨e.1, hop, hrs⟩
      unfold partitionValuesOf at hrs
      split_ifs at hrs with hfs
      · exact ⟨[], by rw [appendPartitionValuesForFile, hfs]; rfl, nodup_nil⟩
      · obtain ⟨id, -, hrs⟩ := bind_eq_ok_iff.mp hrs
        have hmap := map_appendPartitionValuesForFile env env rfl (fun _ => e.2) e.1
          id
        rw [hrs] at hmap
        refine ⟨_, toOption_eq_some.mp hmap.symm, ?_⟩
        have hsub : rs.Sublist valueRows.flatten := sublist_flatten_of_mem hm
        have hrowKeys := hk.sublist (hsub.map _)
        have hown := (appendPartitionValuesForFile_eq_ok hrs).1
        rw [map_map]
        refine List.Nodup.of_map (fun f => (id, f)) ?_
        rw [map_map]
        convert hrowKeys using 1
        exact map_congr_left fun row hr => by
          simp [PartitionValueRow.mapId, hown row hr]
    · refine h.numbered_id_notMem he (hnew e he) ?_
      rw [← heq]
      exact h.partitionValues row hr
  obtain ⟨vs, hva⟩ := Option.isSome_iff_exists.mp hso
  rw [insertRun, hf, hs, hva]
  rfl

omit [DecidableEq Id] in
theorem findFileId_eq_ok {drawn : ℕ} {path : Path} {id : Id}
    (heq : findFileId (pathToFileIdOf (fileRows env drawn ops)) path = .ok id) :
    ∃ before en after, numbered env drawn ops = before ++ en :: after ∧ en.2 = id ∧
      hashKey en.1.path = hashKey path ∧
      ∀ later ∈ after, hashKey later.1.path ≠ hashKey path := by
  have htbl : pathToFileIdOf (fileRows env drawn ops) =
      (numbered env drawn ops).reverse.map fun en => (hashKey en.1.path, en.2) := by
    rw [pathToFileIdOf_eq, fileRows_eq, map_map, map_reverse]
    rfl
  rw [findFileId, htbl, find?_map] at heq
  cases hf : (numbered env drawn ops).reverse.find? ((fun e : Path × Id => e.1 = hashKey path) ∘
      fun en => (hashKey en.1.path, en.2)) with
  | none =>
    rw [hf] at heq
    cases heq
  | some en =>
    rw [hf] at heq
    obtain ⟨hk, after, before, hs, ha⟩ := find?_eq_some_iff_append.mp hf
    refine ⟨before.reverse, en, after.reverse, ?_, by simpa using heq, by simpa using hk, ?_⟩
    · rw [← reverse_reverse (numbered env drawn ops), hs]
      simp
    · intro later hl
      simpa using ha later (mem_reverse.mp hl)

omit [DecidableEq Id] in
theorem findFileId_of_mem_partitionValuesOf {pathToFileId : List (Path × Id)} {op : DataFileAdd}
    {rs : List (PartitionValueRow Id)} {r : PartitionValueRow Id}
    (heq : partitionValuesOf env pathToFileId op = .ok rs) (hr : r ∈ rs) :
    findFileId pathToFileId op.path = .ok r.id := by
  unfold partitionValuesOf at heq
  split_ifs at heq with hfs
  · cases heq
    cases hr
  · obtain ⟨id, hid, heq⟩ := bind_eq_ok_iff.mp heq
    rw [hid, (appendPartitionValuesForFile_eq_ok heq).1 r hr]

theorem mem_foldlM_stepValues : ∀ {vs vs' : List (PartitionValueRow Id)},
      entries.foldlM (stepValues env) vs = some vs' →
      vs ⊆ vs' ∧ ∀ e ∈ entries, e.1.partitionFields ≠ [] →
        ∃ r ∈ vs', r.id = e.2 := by
  induction entries with
  | nil =>
    intro vs vs' heq
    cases heq
    simp
  | cons e entries ih =>
    intro vs vs' heq
    obtain ⟨vs₁, hv₁, heq⟩ := Option.bind_eq_some_iff.mp heq
    obtain ⟨hsub, hes⟩ := ih heq
    obtain ⟨rs, hrs, hi⟩ := Option.bind_eq_some_iff.mp hv₁
    rw [← toOption_foldlM] at hi
    obtain rfl := foldlM_eq_append insertPartitionValue_eq_ok rs (toOption_eq_some.mp hi)
    obtain ⟨hown, he⟩ := appendPartitionValuesForFile_eq_ok (toOption_eq_some.mp hrs)
    refine ⟨fun r hr => hsub (mem_append_left _ hr),
      forall_mem_cons.mpr ⟨fun hfs => ?_, hes⟩⟩
    obtain ⟨r, hr⟩ := exists_mem_of_ne_nil rs fun hnil => hfs (he hnil)
    exact ⟨r, hsub (mem_append_right _ hr), hown r hr⟩

theorem pairwise_of_splits {α : Type} {R : α → α → Prop} {l : List α}
    (h : ∀ before a after, l = before ++ a :: after → ∀ b ∈ after, R a b) : l.Pairwise R := by
  induction l with
  | nil => exact .nil
  | cons a l ih =>
    refine pairwise_cons.mpr ⟨h [] a l rfl, ih fun before b after hs => ?_⟩
    exact h (a :: before) b after (by rw [hs, cons_append])

theorem forall_prefix_cons {α : Type} {P : List α → Prop} {a : α} {l : List α} :
    (∀ pre, pre <+: a :: l → P pre) ↔ P [] ∧ ∀ pre, pre <+: l → P (a :: pre) := by
  simp only [prefix_cons_iff]
  constructor
  · intro h
    exact ⟨h [] (.inl rfl), fun pre hpre => h _ (.inr ⟨pre, rfl, hpre⟩)⟩
  · rintro ⟨hnil, hc⟩ pre (rfl | ⟨pre, rfl, hpre⟩)
    · exact hnil
    · exact hc pre hpre

theorem insertRun_valid : ∀ {c c' : Catalog Id}, c.Valid env →
    insertRun env c ops = some c' → c'.Valid env := by
  induction ops with
  | nil =>
    intro c c' h heq
    cases heq
    exact h
  | cons op ops ih =>
    intro c c' h heq
    rw [insertRun_cons, ← flushDataFileAddBatch_single] at heq
    obtain ⟨c₁, hc₁, heq⟩ := Option.bind_eq_some_iff.mp heq
    have hadd : applySingleOp env c (.dataFileAdd op) = .ok c₁ := toOption_eq_some.mp hc₁
    exact ih (applySingleOp_valid h hadd) heq

/-- **A batch with the outcome of single additions is keyed.**  If an addition had a later one
    with its key, the batch would have given its partition values to that one. -/
theorem keyed_of_byPath_eq (h : c.Valid env) {single batch : Catalog Id}
    (hs : insertRun env c ops = some single)
    (hba : flushDataFileAddBatch env c ops = .ok batch) (hsa : batch.byPath = single.byPath) :
    Keyed ops := by
  have hva := insertRun_valid h hs
  obtain ⟨files, hfi, hs⟩ := Option.bind_eq_some_iff.mp hs
  obtain ⟨stats, -, hs⟩ := Option.bind_eq_some_iff.mp hs
  obtain ⟨vs, hvalues, hs⟩ := Option.bind_eq_some_iff.mp hs
  cases hs
  obtain ⟨hfi', -, valueRows, hv, hbatchValues, -⟩ := flushDataFileAddBatch_eq_ok hba
  obtain rfl : files = batch.files := Option.some.inj (hfi.symm.trans hfi')
  obtain ⟨hfilesEq, hn, hnew⟩ := foldlM_stepFiles hfi
  have hpathOf : ∀ entry ∈ numbered env c.drawn ops, pathOf batch.files entry.2 = entry.1.path := by
    intro entry he
    have hm : entry.1.fileRow entry.2 ∈ batch.files := by
      rw [hfilesEq]
      exact mem_append_right _ (mem_map_of_mem he)
    exact hva.pathOf hm
  suffices hen : (numbered env c.drawn ops).Pairwise fun entry later =>
      entry.1.partitionFields ≠ [] → hashKey entry.1.path ≠ hashKey later.1.path by
    rw [Keyed, ← numbered_map_fst env c.drawn ops, pairwise_map]
    exact hen
  refine pairwise_of_splits fun before entry after hsp later hla hfs hk => ?_
  have he : entry ∈ numbered env c.drawn ops := by
    rw [hsp]
    exact mem_append_right _ mem_cons_self
  -- its partition values are there by path, so they are there in the batch
  obtain ⟨r, hr, hid⟩ := (mem_foldlM_stepValues hvalues).2 entry he hfs
  have hvaluesSame : batch.partitionValues.map (PartitionValueRow.mapId (pathOf batch.files)) =
      vs.map (PartitionValueRow.mapId (pathOf batch.files)) :=
    congrArg Catalog.partitionValues hsa
  obtain ⟨r', hr', hvi⟩ := mem_map.mp
    (hvaluesSame ▸ mem_map_of_mem (f := PartitionValueRow.mapId (pathOf batch.files)) hr)
  have hp : pathOf batch.files r'.id = entry.1.path := by
    have := congrArg PartitionValueRow.id hvi
    simpa only [PartitionValueRow.mapId, hid, hpathOf entry he] using this
  rw [foldlM_eq_append insertPartitionValue_eq_ok _ hbatchValues] at hr'
  rcases mem_append.mp hr' with hold | ha
  · -- an older row belongs to an older file, whose path is another
    obtain ⟨file, hf, hfileId⟩ := mem_map.mp (h.partitionValues r' hold)
    have hf' : file ∈ batch.files := by
      rw [hfilesEq]
      exact mem_append_left _ hf
    have hfilePath : pathOf batch.files file.id = file.path := hva.pathOf hf'
    refine hnew entry he (mem_map.mpr ⟨file, hf, ?_⟩)
    rw [← hfilePath, hfileId, hp]
  · -- a row of the batch belongs to the last file with its key, which is not this one
    obtain ⟨rs, hrs, hm⟩ := mem_flatten.mp ha
    obtain ⟨op, -, hop⟩ := (mem_of_mapM_eq_ok hv).mp hrs
    obtain ⟨before', found, after', hsp', hfo, hfoundKey, hl⟩ :=
      findFileId_eq_ok (findFileId_of_mem_partitionValuesOf hop hm)
    have hnodupEntries := hn.of_map
    have hfoundMem : found ∈ numbered env c.drawn ops := by
      rw [hsp']
      exact mem_append_right _ mem_cons_self
    obtain rfl : found = entry := by
      refine inj_on_of_nodup_map hn hfoundMem he ?_
      rw [← hpathOf found hfoundMem, hfo, hp]
    rw [hsp] at hsp' hnodupEntries
    obtain ⟨hb, haf⟩ : found ∉ before ∧ found ∉ after := by
      simp only [nodup_append, nodup_cons, mem_cons] at hnodupEntries
      exact ⟨fun hm => hnodupEntries.2.2 _ hm _ (.inl rfl) rfl, hnodupEntries.2.1.1⟩
    obtain ⟨-, -, rfl⟩ := (append_cons_inj_of_notMem hb haf).mp hsp'
    exact hl later hla (hk.symm.trans hfoundKey)

theorem flushDataFileAddBatch_valid (h : c.Valid env)
    (heq : flushDataFileAddBatch env c ops = .ok c') : c'.Valid env := by
  obtain ⟨single, hs⟩ := Option.isSome_iff_exists.mp (isSome_insertRun_of_flush h heq)
  have hv := insertRun_valid h hs
  obtain ⟨hfs, hst, valueRows, hva, hvalues, hc'⟩ := flushDataFileAddBatch_eq_ok heq
  obtain ⟨files, hfs', hs⟩ := Option.bind_eq_some_iff.mp hs
  obtain ⟨stats, hst', hs⟩ := Option.bind_eq_some_iff.mp hs
  obtain ⟨vs, -, hs⟩ := Option.bind_eq_some_iff.mp hs
  obtain rfl : files = c'.files := Option.some.inj (hfs'.symm.trans hfs)
  obtain rfl : stats = c'.columnStats := Option.some.inj (hst'.symm.trans hst)
  cases hs
  rw [hc']
  refine ⟨hv.paths, hv.ids, hv.columnStats, ?_, hv.deletionFileMap,
    hv.rowIdMappings, hv.fresh⟩
  intro r hr
  show r.id ∈ c'.files.map FileRow.id
  rw [foldlM_eq_append insertPartitionValue_eq_ok _ hvalues] at hr
  rw [(foldlM_stepFiles hfs).1, map_append]
  rcases mem_append.mp hr with hold | ha
  · exact mem_append_left _ (h.partitionValues r hold)
  · obtain ⟨rs, hrs, hm⟩ := mem_flatten.mp ha
    obtain ⟨op, -, hop⟩ := (mem_of_mapM_eq_ok hva).mp hrs
    obtain ⟨before, found, after, hsp, hf, -⟩ :=
      findFileId_eq_ok (findFileId_of_mem_partitionValuesOf hop hm)
    refine mem_append_right _ (mem_map.mpr ⟨found.1.fileRow found.2, ?_, hf⟩)
    rw [hsp]
    exact mem_map_of_mem (mem_append_right _ mem_cons_self)

end Runs

/-! ## All operations -/

/-- The operations applied one at a time, each in a call of its own. -/
def applyOneByOne (env : CatalogEnv Id) (c : Catalog Id) (operations : List TableMetadataOperation) :
    Except CatalogError (Catalog Id) :=
  operations.foldlM (fun c operation => applyDataFileCatalogChanges env c [operation]) c

/-- Every run of adjacent additions is keyed; `adjacentOps` is the part of the first one that has
    been read. -/
def KeyedRuns (adjacentOps : List DataFileAdd) : List TableMetadataOperation → Prop
  | [] => Keyed adjacentOps
  | .dataFileAdd add :: operations => KeyedRuns (adjacentOps ++ [add]) operations
  | _ :: operations => Keyed adjacentOps ∧ KeyedRuns [] operations

/-- Both fail, or both catalogs are the same up to the choice of file ids. -/
def SameUpToIds (r r' : Except CatalogError (Catalog Id)) : Prop :=
  r.toOption.map Catalog.byPath = r'.toOption.map Catalog.byPath

variable (operations : List TableMetadataOperation)

section Operations
variable {c c' : Catalog Id} {operation : TableMetadataOperation}

theorem applyOperations_cons
    (ho : ∀ add, operation ≠ .dataFileAdd add) (adj : List DataFileAdd)
    (operations : List TableMetadataOperation) :
    applyOperations env c adj (operation :: operations) =
      applyDataFileBatch env c adj >>= fun c =>
        applySingleOp env c operation >>= fun c => applyOperations env c [] operations := by
  cases operation with
  | dataFileAdd add => exact absurd rfl (ho add)
  | _ => rfl

theorem applyDataFileCatalogChanges_single (c : Catalog Id) (operation : TableMetadataOperation) :
    applyDataFileCatalogChanges env c [operation] = applySingleOp env c operation := by
  by_cases hadd : ∃ add, operation = .dataFileAdd add
  · obtain ⟨add, rfl⟩ := hadd
    rfl
  · rw [applyDataFileCatalogChanges, applyOperations_cons fun add heq => hadd ⟨add, heq⟩]
    exact bind_pure (applySingleOp env c operation)

theorem toOption_applyOneByOne (c : Catalog Id) (operations : List TableMetadataOperation) :
    (applyOneByOne env c operations).toOption =
      operations.foldlM (fun c operation => (applySingleOp env c operation).toOption) c := by
  rw [applyOneByOne, toOption_foldlM]
  simp [applyDataFileCatalogChanges_single]

theorem keyedRuns_cons
    (ho : ∀ add, operation ≠ .dataFileAdd add) (adj : List DataFileAdd)
    (operations : List TableMetadataOperation) :
    KeyedRuns adj (operation :: operations) ↔
      Keyed adj ∧ KeyedRuns [] operations := by
  cases operation with
  | dataFileAdd add => exact absurd rfl (ho add)
  | _ => rfl

theorem toOption_applyDataFileBatch {adjacentOps : List DataFileAdd} (hk : Keyed adjacentOps) :
    (applyDataFileBatch env c adjacentOps).toOption = insertRun env c adjacentOps := by
  rw [applyDataFileBatch]
  split_ifs with hnil
  · subst hnil
    rfl
  · exact flushDataFileAddBatch_of_keyed hk

theorem insertRun_concat (adj : List DataFileAdd) (add : DataFileAdd) :
    insertRun env c (adj ++ [add]) = (insertRun env c adj).bind fun c =>
      (applySingleOp env c (.dataFileAdd add)).toOption := by
  simp only [insertRun_eq_foldlM, foldlM_append, foldlM_cons, foldlM_nil]
  simp

theorem applyOperations_eq_none (h : c.Valid env) (operations : List TableMetadataOperation) :
    ∀ {adj}, insertRun env c adj = none →
      (applyOperations env c adj operations).toOption = none := by
  have hb : ∀ {adj}, insertRun env c adj = none →
      (applyDataFileBatch env c adj).toOption = none := by
    intro adj hn
    rw [applyDataFileBatch]
    split_ifs with hnil
    · subst hnil
      cases hn
    · cases hf : flushDataFileAddBatch env c adj with
      | error e => rfl
      | ok =>
        have := isSome_insertRun_of_flush h hf
        rw [hn] at this
        cases this
  induction operations with
  | nil => exact hb
  | cons operation operations ih =>
    intro adj hn
    by_cases hadd : ∃ add, operation = .dataFileAdd add
    · obtain ⟨add, rfl⟩ := hadd
      refine ih ?_
      rw [insertRun_concat, hn]
      rfl
    · rw [applyOperations_cons (fun add heq => hadd ⟨add, heq⟩), toOption_bind, hb hn]
      rfl

theorem toOption_applyOneByOne_cons (operation : TableMetadataOperation)
    (operations : List TableMetadataOperation) :
    (applyOneByOne env c (operation :: operations)).toOption =
      (applySingleOp env c operation).toOption.bind fun c =>
        (applyOneByOne env c operations).toOption := by
  simp only [toOption_applyOneByOne, foldlM_cons]
  rfl

/-- **Batches agree with single operations, as long as their runs are keyed.**  The induction
    follows the loop: `c₁` is `c` after the additions read so far. -/
theorem sameUpToIds_iff :
    ∀ {c c₁ : Catalog Id} {adj : List DataFileAdd}, c.Valid env → Keyed adj →
      insertRun env c adj = some c₁ →
      ((∀ pre, pre <+: operations →
          SameUpToIds (applyOperations env c adj pre) (applyOneByOne env c₁ pre)) ↔
        ∀ pre, pre <+: operations → (applyOneByOne env c₁ pre).toOption.isSome →
          KeyedRuns adj pre) := by
  have hst : ∀ {c c₁ : Catalog Id} {adj : List DataFileAdd}, Keyed adj →
      insertRun env c adj = some c₁ →
      SameUpToIds (applyOperations env c adj []) (applyOneByOne env c₁ []) := by
    intro c c₁ adj hk hrun
    rw [SameUpToIds, applyOperations, toOption_applyDataFileBatch hk, hrun]
    rfl
  induction operations with
  | nil =>
    intro c c₁ adj h hk hrun
    simp only [prefix_nil, forall_eq]
    exact iff_of_true (hst hk hrun) fun _ => hk
  | cons operation operations ih =>
    intro c c₁ adj h hk hrun
    have hke : (applyOneByOne env c₁ []).toOption.isSome → KeyedRuns adj [] :=
      fun _ => hk
    rw [forall_prefix_cons, forall_prefix_cons, and_iff_right (hst hk hrun),
      and_iff_right hke]
    by_cases hadd : ∃ add, operation = .dataFileAdd add
    · obtain ⟨add, rfl⟩ := hadd
      have hrun' : insertRun env c (adj ++ [add]) =
          (applySingleOp env c₁ (.dataFileAdd add)).toOption := by
        rw [insertRun_concat, hrun]
        rfl
      cases hs : (applySingleOp env c₁ (.dataFileAdd add)).toOption with
      | none =>
        -- the addition fails, and so does every batch with it
        refine iff_of_true (fun pre _ => ?_) fun pre _ hso => ?_
        · rw [SameUpToIds, toOption_applyOneByOne_cons, hs, applyOperations,
            applyOperations_eq_none h pre (hrun'.trans hs)]
          rfl
        · rw [toOption_applyOneByOne_cons, hs] at hso
          cases hso
      | some c₂ =>
        have hone : ∀ pre, (applyOneByOne env c₁ (.dataFileAdd add :: pre)).toOption =
            (applyOneByOne env c₂ pre).toOption := by
          intro pre
          rw [toOption_applyOneByOne_cons, hs]
          rfl
        by_cases hk' : Keyed (adj ++ [add])
        · simp only [SameUpToIds, hone]
          exact ih h hk' (hrun'.trans hs)
        · -- the batch with the addition differs from single additions at once
          refine iff_of_false (fun hsa => hk' ?_) fun hke => hk' ?_
          · have := hsa [] nil_prefix
            rw [SameUpToIds, hone, applyOperations, applyOperations, applyDataFileBatch,
              if_neg (by simp)] at this
            obtain ⟨batch, hb, hvi⟩ := Option.map_eq_some_iff.mp this
            exact keyed_of_byPath_eq h (hrun'.trans hs) (toOption_eq_some.mp hb) hvi
          · refine hke [] nil_prefix ?_
            rw [hone]
            rfl
    · have ho : ∀ add, operation ≠ .dataFileAdd add := fun add heq => hadd ⟨add, heq⟩
      simp only [SameUpToIds, applyOperations_cons ho, keyedRuns_cons ho, toOption_bind,
        toOption_applyDataFileBatch hk, hrun, toOption_applyOneByOne_cons, Option.bind_some]
      cases hs : applySingleOp env c₁ operation with
      | error e => simp
      | ok c₂ =>
        have hv := applySingleOp_valid (insertRun_valid h hrun) hs
        simpa [SameUpToIds, hk] using ih hv List.Pairwise.nil (insertRun_nil c₂)

theorem map_byPath_applyOneByOne {env' : CatalogEnv Id} (h : c.Valid env) (h' : c.Valid env')
    (hv : env'.serializePartitionValue = env.serializePartitionValue)
    (operations : List TableMetadataOperation) :
    (applyOneByOne env' c operations).toOption.map Catalog.byPath =
      (applyOneByOne env c operations).toOption.map Catalog.byPath := by
  have henv : env'.byPath = env.byPath := by
    simp [CatalogEnv.byPath, hv]
  rw [toOption_applyOneByOne, toOption_applyOneByOne, byPath_foldlM _ h, byPath_foldlM _ h', henv]

/-! ## Deletion files -/

theorem applyOperations_concat
    (ho : ∀ add, operation ≠ .dataFileAdd add) (operations : List TableMetadataOperation) :
    ∀ (c : Catalog Id) (adj : List DataFileAdd),
      applyOperations env c adj (operations ++ [operation]) =
        applyOperations env c adj operations >>= fun c => applySingleOp env c operation := by
  induction operations with
  | nil =>
    intro c adj
    rw [nil_append, applyOperations_cons ho]
    exact congrArg _ (funext fun c => bind_pure (applySingleOp env c operation))
  | cons first operations ih =>
    intro c adj
    by_cases hadd : ∃ add, first = .dataFileAdd add
    · obtain ⟨add, rfl⟩ := hadd
      exact ih c _
    · have hf : ∀ add, first ≠ .dataFileAdd add := fun add heq => hadd ⟨add, heq⟩
      simp [applyOperations_cons hf, ih, bind_assoc]

/-- **Applying operations keeps the keys.** -/
theorem applyOperations_valid :
    ∀ {c c' : Catalog Id} {adj : List DataFileAdd}, c.Valid env →
      applyOperations env c adj operations = .ok c' → c'.Valid env := by
  have hb : ∀ {c c' : Catalog Id} {adj : List DataFileAdd}, c.Valid env →
      applyDataFileBatch env c adj = .ok c' → c'.Valid env := by
    intro c c' adj h heq
    unfold applyDataFileBatch at heq
    split_ifs at heq
    · cases heq
      exact h
    · exact flushDataFileAddBatch_valid h heq
  induction operations with
  | nil => exact hb
  | cons operation operations ih =>
    intro c c' adj h heq
    by_cases hadd : ∃ add, operation = .dataFileAdd add
    · obtain ⟨add, rfl⟩ := hadd
      exact ih h heq
    · rw [applyOperations_cons fun add heq => hadd ⟨add, heq⟩] at heq
      obtain ⟨c₁, hc₁, heq⟩ := bind_eq_ok_iff.mp heq
      obtain ⟨c₂, hc₂, heq⟩ := bind_eq_ok_iff.mp heq
      exact ih (applySingleOp_valid (hb h hc₁) hc₂) heq

/-- What the removal of the file at `path` may do to others, from the catalog `c` to `c'`. -/
structure RemovesUnmapped (c c' : Catalog Id) (path : Path) : Prop where
  /-- a file that goes with it is a deletion file, and has no mapping to a file that stays -/
  removed : ∀ other ∈ c.files.map FileRow.path, other ≠ path → other ∉ c'.files.map FileRow.path →
    ⟨other, path⟩ ∈ c.deletionFileMap ∧
      ∀ row ∈ c.deletionFileMap, row.path = other → row.deletedFrom ∉ c'.files.map FileRow.path
  /-- a deletion file with a mapping to a file that stays, stays with the mapping -/
  kept : ∀ row ∈ c.deletionFileMap, row.path ≠ path → row.deletedFrom ∈ c'.files.map FileRow.path →
      row.path ∈ c'.files.map FileRow.path ∧ row ∈ c'.deletionFileMap

theorem mem_paths_deleteFiles {paths : List Path} {p : Path} :
    p ∈ (c.deleteFiles paths).files.map FileRow.path ↔
      p ∈ c.files.map FileRow.path ∧ p ∉ paths := by
  simp only [Catalog.deleteFiles, mem_map, mem_filter, decide_eq_true_eq]
  constructor
  · rintro ⟨f, ⟨hf, hp⟩, rfl⟩
    exact ⟨⟨f, hf, rfl⟩, hp⟩
  · rintro ⟨⟨f, hf, rfl⟩, hp⟩
    exact ⟨f, ⟨hf, hp⟩, rfl⟩

omit [DecidableEq Id] in
theorem mem_deletionFilesOf {path other : Path} :
    other ∈ c.deletionFilesOf path ↔ ⟨other, path⟩ ∈ c.deletionFileMap ∧
      ∀ r ∈ c.deletionFileMap, r.path = other → r.deletedFrom = path := by
  simp only [Catalog.deletionFilesOf, mem_filter, mem_map, decide_eq_true_eq]
  constructor
  · rintro ⟨⟨r, ⟨hr, rfl⟩, rfl⟩, hn⟩
    refine ⟨hr, fun r' hr' hp => ?_⟩
    by_contra hf
    exact hn ⟨r', hr', hf, hp⟩
  · rintro ⟨hr, hall⟩
    exact ⟨⟨_, ⟨hr, rfl⟩, rfl⟩, fun ⟨r', hr', hf, hp⟩ => hf (hall r' hr' hp)⟩

theorem removeDataFileFromTable_removesUnmapped (h : c.Valid env) (path : Path) :
    RemovesUnmapped c (removeDataFileFromTable c path) path where
  removed := by
    intro other ho hne hg
    rw [removeDataFileFromTable, mem_paths_deleteFiles] at hg
    have hm : other ∈ c.deletionFilesOf path := by
      by_contra hnot
      exact hg ⟨ho, by simp [hne, hnot]⟩
    obtain ⟨hr, hall⟩ := mem_deletionFilesOf.mp hm
    refine ⟨hr, fun r hr hp hs => ?_⟩
    rw [removeDataFileFromTable, mem_paths_deleteFiles] at hs
    exact hs.2 (hall r hr hp ▸ mem_cons_self)
  kept := by
    intro r hr hne hs
    rw [removeDataFileFromTable, mem_paths_deleteFiles] at hs
    obtain ⟨hf, hs⟩ := hs
    have hp : r.path ∉ path :: c.deletionFilesOf path := by
      rintro hm
      rcases mem_cons.mp hm with heq | hm
      · exact hne heq
      · have := (mem_deletionFilesOf.mp hm).2 r hr rfl
        exact hs (this ▸ mem_cons_self)
    rw [removeDataFileFromTable, mem_paths_deleteFiles]
    exact ⟨⟨(h.deletionFileMap r hr).1, hp⟩,
      mem_filter.mpr ⟨hr, decide_eq_true ⟨hp, hs⟩⟩⟩

/-- **Batched catalog changes and changes one by one.**  They agree along the operations as long
    as no addition with partition values is followed, in its run, by one with the same key.
    Removals take only deletion files without another mapping along, and every mapping has both
    its files. -/
theorem catalogChanges_same_iff {env' : CatalogEnv Id}
    (hvalues : env'.serializePartitionValue = env.serializePartitionValue)
    (h : c.Valid env) (h' : c.Valid env') (operations : List TableMetadataOperation) :
    ((∀ pre, pre <+: operations →
        SameUpToIds (applyDataFileCatalogChanges env c pre) (applyOneByOne env' c pre)) ↔
      ∀ pre, pre <+: operations → (applyOneByOne env' c pre).toOption.isSome → KeyedRuns [] pre) ∧
    (∀ path c₁ c₂, applyDataFileCatalogChanges env c operations = .ok c₁ →
      applyDataFileCatalogChanges env c (operations ++ [.dataFileRemove path]) = .ok c₂ →
      RemovesUnmapped c₁ c₂ path) ∧
    ∀ c₁, applyDataFileCatalogChanges env c operations = .ok c₁ → ∀ row ∈ c₁.deletionFileMap,
        row.path ∈ c₁.files.map FileRow.path ∧ row.deletedFrom ∈ c₁.files.map FileRow.path := by
  refine ⟨?_, ?_, ?_⟩
  · have hids := map_byPath_applyOneByOne h h' hvalues
    have hsome : ∀ pre, (applyOneByOne env' c pre).toOption.isSome =
        (applyOneByOne env c pre).toOption.isSome := by
      intro pre
      rw [← Option.isSome_map (f := Catalog.byPath), hids, Option.isSome_map]
    simp only [SameUpToIds, hids, hsome]
    exact sameUpToIds_iff operations h List.Pairwise.nil (insertRun_nil c)
  · intro path c₁ c₂ hc₁ hc₂
    rw [applyDataFileCatalogChanges, applyOperations_concat (by simp)] at hc₂
    obtain ⟨c₃, hc₃, hc₂⟩ := bind_eq_ok_iff.mp hc₂
    obtain rfl : c₁ = c₃ := Except.ok.inj (hc₁.symm.trans hc₃)
    cases hc₂
    exact removeDataFileFromTable_removesUnmapped (applyOperations_valid operations h hc₁) path
  · intro c₁ hc₁
    exact (applyOperations_valid operations h hc₁).deletionFileMap

end Operations

/-! ## Two files with one key -/

/-- Ids from a sequence that starts at `first`, and partition values as they are. -/
def sequenceEnv (first : ℕ) : CatalogEnv ℕ where
  nextval n _ := first + n
  nextval_ne hne _ := by omega
  serializePartitionValue field := .ok (field.value.map fun _ => "a")

/-- The catalog of a new table. -/
def noFiles : Catalog ℕ := ⟨[], [], [], [], [], 0⟩

theorem noFiles_valid (env : CatalogEnv ℕ) : noFiles.Valid env := by
  constructor <;> simp [noFiles]

/-- The addition of a data file with one row. -/
def addOf (path : Path) (partition : Option (List PartitionField)) : TableMetadataOperation :=
  .dataFileAdd ⟨path, .data, ⟨1, 1, 0, []⟩, partition⟩

theorem catalogChanges_same_short :
    (sequenceEnv 7).serializePartitionValue = (sequenceEnv 0).serializePartitionValue ∧
      noFiles.Valid (sequenceEnv 0) ∧ noFiles.Valid (sequenceEnv 7) ∧
      SameUpToIds
        (applyDataFileCatalogChanges (sequenceEnv 0) noFiles
          [addOf [1] (some [⟨1000, none⟩]), addOf [2] none, .dataFileRemove [1]])
        (applyOneByOne (sequenceEnv 7) noFiles
          [addOf [1] (some [⟨1000, none⟩]), addOf [2] none, .dataFileRemove [1]]) := by
  have hvalues : (sequenceEnv 7).serializePartitionValue =
      (sequenceEnv 0).serializePartitionValue := rfl
  refine ⟨hvalues, noFiles_valid _, noFiles_valid _, ?_⟩
  refine (catalogChanges_same_iff hvalues (noFiles_valid _) (noFiles_valid _) _).1.mpr ?_ _
    (prefix_refl _)
  simp only [forall_prefix_cons, prefix_nil, forall_eq]
  simp [KeyedRuns, addOf, Keyed, hashKey, maxS3PathLength]

/-- **A partition value moves to another file.**  Both paths have one key, so in a batch the
    partition value of the first file gets the id of the second. -/
theorem partition_value_moves :
    let operations := [addOf (longPath 49) (some [⟨1000, some [1]⟩]), addOf (longPath 50) none]
    noFiles.Valid (sequenceEnv 0) ∧
      (applyDataFileCatalogChanges (sequenceEnv 0) noFiles operations).toOption.map
        Catalog.partitionValues = some [⟨1, 1000, some "a"⟩] ∧
      (applyOneByOne (sequenceEnv 0) noFiles operations).toOption.map
        Catalog.partitionValues = some [⟨0, 1000, some "a"⟩] ∧
      ¬ SameUpToIds (applyDataFileCatalogChanges (sequenceEnv 0) noFiles operations)
        (applyOneByOne (sequenceEnv 0) noFiles operations) := by
  refine ⟨noFiles_valid _, ?_, ?_, ?_⟩
  · decide +kernel
  · decide +kernel
  · unfold SameUpToIds
    decide +kernel

end PgLake.Fdw.DataFiles
