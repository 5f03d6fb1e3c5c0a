/-
  Routing rows to the data files of their partitions
  (`fdw/partitioning/partitioned_dest_receiver.c`).

  A child receiver is opened for each partition that a row belongs to.  When too many are
  open, the one with the most rows is shut down and its data files are put aside.

  Main result: `partitioned_write_correct`.
-/
import Mathlib.Data.List.AList
import PgLake.Iceberg.PartitionTuples
import PgLake.Lib.Transition

namespace PgLake.Fdw.PartitionedWrites

open Iceberg.Partitioning Grouping Transition List

/-- An entry of the hash table of open receivers.  A child receiver is given by the rows it has
    received; in a new entry it is not set. -/
structure Entry (Row : Type) where
  receiver : Option (List Row)
  rowCount : Int32
  partition : Partition
  deriving DecidableEq

/-- `DataFileModification` of type ADD_DATA_FILE. -/
structure Modification (Row : Type) where
  rows : List Row
  partitionSpecId : Int32
  partition : Partition
  deriving DecidableEq

/-- What the receiver is made for, and what it calls.  A child receiver writes each row that it
    receives to one of its data files. -/
structure Config (Row : Type) where
  computePartitionTuple : Row → Partition
  computePartitionKey : Partition → UInt64
  currentPartitionSpecId : Int32
  maxOpenFilesForPartitionedWrite : ℕ
  hashOrder : HashOrder ((_ : UInt64) × Entry Row)
  dataFiles : List Row → List (List Row)
  dataFiles_perm : ∀ rows, (dataFiles rows).flatten.Perm rows

/-- `PartitioningDestReceiverData`, as far as it changes. -/
structure State (Row : Type) where
  partitionsHash : AList (fun _ : UInt64 => Entry Row)
  alreadyFlushedPartitionModifications : List (Modification Row)

/-- No open file and no finished one. -/
def State.init (Row : Type) : State Row := ⟨∅, []⟩

variable {Row : Type}

def State.set (s : State Row) (hashKey : UInt64) (entry : Entry Row) : State Row :=
  { s with partitionsHash := s.partitionsHash.insert hashKey entry }

def Entry.received (entry : Entry Row) : List Row := entry.receiver.getD []

def Entry.add (entry : Entry Row) (row : Row) : Entry Row :=
  { entry with receiver := some (entry.received ++ [row]), rowCount := entry.rowCount + 1 }

section Code
variable (cfg : Config Row)

/-- The key of the partition of a row. -/
def Config.keyOf (row : Row) : UInt64 := cfg.computePartitionKey (cfg.computePartitionTuple row)

/-- The data files of a child receiver, with `AssignPartitionForModificationList`. -/
def entryModifications (entry : Entry Row) : List (Modification Row) :=
  (cfg.dataFiles entry.received).map (⟨·, cfg.currentPartitionSpecId, entry.partition⟩)

def findLargest (entries : List ((_ : UInt64) × Entry Row)) : Option ((_ : UInt64) × Entry Row) :=
  entries.foldl (fun largest ent =>
    match largest with
    | none => some ent
    | some l => if l.2.rowCount < ent.2.rowCount then some ent else some l) none

variable (s : State Row)

/-- Put the data files of a receiver aside and remove it from the hash table. -/
def evict (ent : (_ : UInt64) × Entry Row) : State Row :=
  ⟨s.partitionsHash.erase ent.1,
    s.alreadyFlushedPartitionModifications ++ entryModifications cfg ent.2⟩

def flushLargestPartitionedDestReceiver : Option (State Row) :=
  match findLargest (cfg.hashOrder.seq s.partitionsHash.entries) with
  | none => some s
  | some largest =>
    match largest.2.receiver with
    | none => none
    | some _ => some (evict cfg s largest)

variable (row : Row)

def enter : State Row :=
  s.set (cfg.keyOf row) ⟨none, 0, copyPartition (cfg.computePartitionTuple row)⟩

def makeRoom : Option (State Row) :=
  if s.partitionsHash.entries.length > cfg.maxOpenFilesForPartitionedWrite then
    flushLargestPartitionedDestReceiver cfg s
  else some s

def createReceiver : State Row :=
  s.set (cfg.keyOf row) ⟨some [], 0, copyPartition (cfg.computePartitionTuple row)⟩

def forward : State Row :=
  match s.partitionsHash.lookup (cfg.keyOf row) with
  | none => s
  | some entry =>
    s.set (cfg.keyOf row) (entry.add row)

/-- `PartitionedDestReceiveSlot`. -/
def receiveSlot : Option (State Row) :=
  match s.partitionsHash.lookup (cfg.keyOf row) with
  | some _ => some (forward cfg s row)
  | none => (makeRoom cfg (enter cfg s row)).map fun s => forward cfg (createReceiver cfg s row) row

/-- `GetPartitionedDestReceiverModifications`. -/
def modifications : List (Modification Row) :=
  s.alreadyFlushedPartitionModifications ++
    (cfg.hashOrder.seq s.partitionsHash.entries).flatMap fun ent => entryModifications cfg ent.2

/-- The states that `receiveSlot` goes through. -/
def moments : List (State Row) :=
  match s.partitionsHash.lookup (cfg.keyOf row) with
  | some _ => [forward cfg s row]
  | none =>
    enter cfg s row ::
      match makeRoom cfg (enter cfg s row) with
      | none => []
      | some s => [s, createReceiver cfg s row, forward cfg (createReceiver cfg s row) row]

end Code

def State.openReceivers (s : State Row) : ℕ :=
  (s.partitionsHash.entries.filter fun ent => ent.2.receiver.isSome).length

/-! ## The largest receiver -/

theorem findLargest_some {es : List ((_ : UInt64) × Entry Row)} (hne : es ≠ []) :
    ∃ largest, findLargest es = some largest ∧ largest ∈ es ∧
      ∀ ent ∈ es, ent.2.rowCount ≤ largest.2.rowCount := by
  -- the loop has found the largest of the entries before it
  have hl : ∀ (rest : List ((_ : UInt64) × Entry Row)) (l : (_ : UInt64) × Entry Row),
      ∃ largest, rest.foldl (fun largest ent =>
          match largest with
          | none => some ent
          | some l => if l.2.rowCount < ent.2.rowCount then some ent else some l) (some l) =
            some largest ∧ largest ∈ l :: rest ∧
          ∀ ent ∈ l :: rest, ent.2.rowCount ≤ largest.2.rowCount := by
    intro rest
    induction rest with
    | nil => exact fun l => ⟨l, rfl, mem_singleton_self _, by simp⟩
    | cons e rest ih =>
      intro l
      simp only [foldl_cons]
      split_ifs with hlt
      · obtain ⟨largest, hf, hm, hmax⟩ := ih e
        refine ⟨largest, hf, mem_cons_of_mem _ hm, ?_⟩
        rintro ent (_ | ⟨_, hent⟩)
        · exact Int32.le_trans (Int32.le_of_lt hlt) (hmax e mem_cons_self)
        · exact hmax ent hent
      · obtain ⟨largest, hf, hm, hmax⟩ := ih l
        refine ⟨largest, hf, ?_, ?_⟩
        · rcases mem_cons.mp hm with rfl | hm
          · exact mem_cons_self
          · exact mem_cons_of_mem _ (mem_cons_of_mem _ hm)
        · intro ent hent
          rcases mem_cons.mp hent with rfl | hent
          · exact hmax _ mem_cons_self
          · rcases mem_cons.mp hent with rfl | hent
            · exact Int32.le_trans (Int32.not_lt.mp hlt) (hmax l mem_cons_self)
            · exact hmax ent (mem_cons_of_mem _ hent)
  cases es with
  | nil => exact absurd rfl hne
  | cons l rest => exact hl rest l

/-! ## One row -/

variable {m : AList (fun _ : UInt64 => Entry Row)}

open AList State

section Proof
variable (cfg : Config Row)

/-- The rows in the data files put aside and in the open receivers. -/
def State.contents (s : State Row) : List Row :=
  s.alreadyFlushedPartitionModifications.flatMap Modification.rows ++
    s.partitionsHash.entries.flatMap fun ent => ent.2.received

def Config.Describes (m : Modification Row) : Prop :=
  m.partitionSpecId = cfg.currentPartitionSpecId ∧
    ∀ row ∈ m.rows, m.partition = copyPartition (cfg.computePartitionTuple row)

def Config.Collects (ent : (_ : UInt64) × Entry Row) : Prop :=
  ∃ received, ent.2.receiver = some received ∧ received ≠ [] ∧
    ∀ row ∈ received, cfg.keyOf row = ent.1 ∧
      ent.2.partition = copyPartition (cfg.computePartitionTuple row)

/-- The receiver after `rows`. -/
structure Routed (rows : List Row) (s : State Row) : Prop where
  opened : ∀ ent ∈ s.partitionsHash.entries, cfg.Collects ent
  flushed : ∀ m ∈ s.alreadyFlushedPartitionModifications, cfg.Describes m
  contents : s.contents.Perm rows
  room : s.partitionsHash.entries.length ≤ cfg.maxOpenFilesForPartitionedWrite

/-- When a receiver has to be shut down for a new partition, one of them has a positive count. -/
def Config.Evictable (s : State Row) (row : Row) : Prop :=
  s.partitionsHash.lookup (cfg.keyOf row) = none →
    cfg.maxOpenFilesForPartitionedWrite ≤ s.partitionsHash.entries.length →
      ∃ ent ∈ s.partitionsHash.entries, 0 < ent.2.rowCount

variable {cfg} {s : State Row} {rows : List Row} {row : Row} {hashKey : UInt64} {entry : Entry Row}

theorem perm_of_lookup (h : m.lookup hashKey = some entry) :
    m.entries.Perm (⟨hashKey, entry⟩ :: (m.erase hashKey).entries) := by
  have hk : hashKey ∈ m.entries.keys := lookup_isSome.mp (h ▸ rfl)
  obtain ⟨entry', l₁, l₂, hnot, hes, herase⟩ := exists_of_kerase hk
  have hl : m.lookup hashKey = some entry' := by
    refine mem_lookup_iff.mpr ?_
    rw [hes]
    exact mem_append_right _ mem_cons_self
  cases h.symm.trans hl
  show m.entries.Perm (_ :: m.entries.kerase hashKey)
  rw [herase, hes]
  exact perm_middle

variable {ent : (_ : UInt64) × Entry Row}

theorem describes_entryModifications (h : cfg.Collects ent) :
    ∀ m ∈ entryModifications cfg ent.2, cfg.Describes m := by
  obtain ⟨received, hre, -, hrs⟩ := h
  intro m hm
  obtain ⟨f, hf, rfl⟩ := mem_map.mp hm
  refine ⟨rfl, fun row hr => (hrs row ?_).2⟩
  have hme := (cfg.dataFiles_perm ent.2.received).mem_iff.mp
    (mem_flatten.mpr ⟨f, hf, hr⟩)
  rwa [Entry.received, hre] at hme

theorem entryModifications_rows (entry : Entry Row) :
    ((entryModifications cfg entry).flatMap Modification.rows).Perm entry.received := by
  rw [entryModifications, flatMap_map]
  exact flatMap_id'.symm ▸ cfg.dataFiles_perm entry.received

theorem mem_erase (h : ent ∈ (m.erase hashKey).entries) : ent ∈ m.entries :=
  mem_of_mem_eraseP h

def Config.first (cfg : Config Row) (row : Row) : Entry Row :=
  ⟨some [row], 1, copyPartition (cfg.computePartitionTuple row)⟩

theorem collects_first (cfg : Config Row) (row : Row) :
    cfg.Collects ⟨cfg.keyOf row, cfg.first row⟩ := by
  refine ⟨[row], rfl, cons_ne_nil _ _, ?_⟩
  intro row' hrow'
  obtain rfl := mem_singleton.mp hrow'
  exact ⟨rfl, rfl⟩

theorem Routed.evict (h : Routed cfg rows s)
    (hent : ent ∈ s.partitionsHash.entries) : Routed cfg rows (evict cfg s ent) where
  opened ent' hent' := h.opened ent' (mem_erase hent')
  flushed m hm := by
    rcases mem_append.mp hm with hm | hm
    · exact h.flushed m hm
    · exact describes_entryModifications (h.opened ent hent) m hm
  contents := by
    refine List.Perm.trans ?_ h.contents
    have hp := perm_of_lookup (mem_lookup_iff.mpr hent)
    rw [State.contents, State.contents, PartitionedWrites.evict, flatMap_append, append_assoc]
    refine List.Perm.append_left _ ?_
    refine ((entryModifications_rows ent.2).append_right _).trans ?_
    have hrs := hp.flatMap_right fun ent => ent.2.received
    exact hrs.symm
  room := by
    have hlen := (perm_of_lookup (mem_lookup_iff.mpr hent)).length_eq
    have hr := h.room
    rw [length_cons] at hlen
    show (s.partitionsHash.erase ent.1).entries.length ≤ _
    omega

theorem Routed.first (h : Routed cfg rows s) (hnew : cfg.keyOf row ∉ s.partitionsHash)
    (hr : s.partitionsHash.entries.length < cfg.maxOpenFilesForPartitionedWrite) :
    Routed cfg (rows ++ [row]) (s.set (cfg.keyOf row) (cfg.first row)) := by
  have hes : (s.partitionsHash.insert (cfg.keyOf row) (cfg.first row)).entries =
      ⟨cfg.keyOf row, cfg.first row⟩ :: s.partitionsHash.entries :=
    entries_insert_of_notMem hnew
  refine ⟨?_, h.flushed, ?_, ?_⟩
  · intro ent hent
    rw [State.set, hes] at hent
    rcases mem_cons.mp hent with rfl | hent
    · exact collects_first cfg row
    · exact h.opened ent hent
  · rw [State.contents, State.set, hes, flatMap_cons]
    refine (perm_append_comm_assoc _ _ _).trans ?_
    exact (@List.perm_append_comm _ [row] _).trans (h.contents.append_right _)
  · rw [State.set, hes, length_cons]
    exact hr

theorem forward_of_lookup (h : s.partitionsHash.lookup (cfg.keyOf row) = some entry) :
    forward cfg s row = s.set (cfg.keyOf row) (entry.add row) := by
  rw [forward, h]

theorem Routed.add (h : Routed cfg rows s)
    (hfo : s.partitionsHash.lookup (cfg.keyOf row) = some entry)
    (hs : ∀ row' ∈ entry.received,
      cfg.computePartitionTuple row' = cfg.computePartitionTuple row) :
    Routed cfg (rows ++ [row]) (s.set (cfg.keyOf row) (entry.add row)) := by
  have hp := perm_of_lookup hfo
  have hc := hp.flatMap_right fun ent => ent.2.received
  obtain ⟨received, hr, hne, hrs⟩ := h.opened _ (mem_lookup_iff.mp hfo)
  obtain rfl : received = entry.received := by
    rw [Entry.received, hr]
    rfl
  refine ⟨?_, h.flushed, ?_, ?_⟩
  · intro ent hent
    rcases mem_cons.mp hent with rfl | hent
    · refine ⟨entry.received ++ [row], rfl, append_ne_nil_of_left_ne_nil hne _, ?_⟩
      intro row' hrow'
      rcases mem_append.mp hrow' with hrow' | hrow'
      · exact hrs row' hrow'
      · obtain rfl := mem_singleton.mp hrow'
        -- the tuple is that of the first row, which made the entry
        obtain ⟨first, hf⟩ := exists_mem_of_ne_nil _ hne
        exact ⟨rfl, hs first hf ▸ (hrs first hf).2⟩
    · exact h.opened ent (mem_erase hent)
  · refine List.Perm.trans ?_ (h.contents.append_right [row])
    rw [State.contents, State.contents, append_assoc]
    refine List.Perm.append_left _ ?_
    refine List.Perm.trans ?_ (hc.symm.append_right _)
    rw [flatMap_cons, append_assoc]
    show (entry.received ++ [row] ++ _).Perm _
    rw [append_assoc]
    exact List.Perm.append_left _ perm_append_comm
  · show (_ :: (s.partitionsHash.erase _).entries).length ≤ _
    rw [length_cons, ← hp.length_eq.trans (length_cons ..)]
    exact h.room

def Config.entered (cfg : Config Row) (row : Row) : Entry Row :=
  ⟨none, 0, copyPartition (cfg.computePartitionTuple row)⟩

theorem evict_set (hne : ent.1 ≠ hashKey) :
    evict cfg (s.set hashKey entry) ent = (evict cfg s ent).set hashKey entry := by
  have hes : (s.partitionsHash.insert hashKey entry).erase ent.1 =
      (s.partitionsHash.erase ent.1).insert hashKey entry := by
    refine AList.ext ?_
    show (⟨hashKey, entry⟩ :: s.partitionsHash.entries.kerase hashKey).kerase ent.1 =
      ⟨hashKey, entry⟩ :: (s.partitionsHash.entries.kerase ent.1).kerase hashKey
    rw [kerase_cons_ne hne, kerase_comm]
  rw [evict, evict, State.set, State.set, hes]

/-- **Room is made by shutting down a receiver that has rows.** -/
theorem Routed.makeRoom (h : Routed cfg rows s) (he : cfg.Evictable s row)
    (hnew : s.partitionsHash.lookup (cfg.keyOf row) = none) :
    ∃ t, Routed cfg rows t ∧ t.partitionsHash.entries.length < cfg.maxOpenFilesForPartitionedWrite ∧
      cfg.keyOf row ∉ t.partitionsHash ∧
      makeRoom cfg (enter cfg s row) = some (t.set (cfg.keyOf row) (cfg.entered row)) := by
  have hnotMem := lookup_eq_none.mp hnew
  have hes : (enter cfg s row).partitionsHash.entries =
      ⟨cfg.keyOf row, cfg.entered row⟩ :: s.partitionsHash.entries :=
    entries_insert_of_notMem hnotMem
  rw [PartitionedWrites.makeRoom, hes, length_cons]
  split_ifs with hfu
  · obtain ⟨positive, hp, hc⟩ := he hnew (by omega)
    have hm : ∀ ent, ent ∈ cfg.hashOrder.seq (enter cfg s row).partitionsHash.entries ↔
        ent ∈ (⟨cfg.keyOf row, cfg.entered row⟩ : (_ : UInt64) × Entry Row) ::
          s.partitionsHash.entries :=
      fun ent => hes ▸ (cfg.hashOrder.perm _).mem_iff
    have hpos := (hm positive).mpr (mem_cons_of_mem _ hp)
    obtain ⟨largest, hf, hl, hmax⟩ := findLargest_some (ne_nil_of_mem hpos)
    -- the entry of the new partition has no rows yet
    have hold : largest ∈ s.partitionsHash.entries := by
      rcases mem_cons.mp ((hm largest).mp hl) with rfl | hold
      · exact absurd (Int32.lt_of_lt_of_le hc (hmax positive hpos)) Int32.lt_irrefl
      · exact hold
    obtain ⟨received, hr, -⟩ := h.opened largest hold
    have hk : largest.1 ≠ cfg.keyOf row := by
      intro heq
      exact hnotMem (heq ▸ mem_keys_of_mem hold)
    refine ⟨PartitionedWrites.evict cfg s largest, h.evict hold, ?_, ?_, ?_⟩
    · have hlen := (perm_of_lookup (mem_lookup_iff.mpr hold)).length_eq
      have hro := h.room
      rw [length_cons] at hlen
      show (s.partitionsHash.erase largest.1).entries.length < _
      omega
    · exact fun hm => hnotMem (AList.mem_erase.mp hm).2
    · rw [flushLargestPartitionedDestReceiver, hf]
      simp only [hr]
      exact congrArg some (evict_set hk)
  · exact ⟨s, h, by omega, hnotMem, rfl⟩

theorem set_set (s : State Row) (hashKey : UInt64) (entry entry' : Entry Row) :
    (s.set hashKey entry).set hashKey entry' = s.set hashKey entry' := by
  rw [State.set, State.set, State.set, AList.insert_insert]

theorem forward_createReceiver (t : State Row) :
    forward cfg (createReceiver cfg (t.set (cfg.keyOf row) (cfg.entered row)) row) row =
      t.set (cfg.keyOf row) (cfg.first row) := by
  rw [createReceiver, set_set, forward_of_lookup (AList.lookup_insert _), set_set]
  rfl

theorem State.openReceivers_le (s : State Row) :
    s.openReceivers ≤ s.partitionsHash.entries.length :=
  length_filter_le _ _

theorem length_set_of_notMem {t : State Row} (h : cfg.keyOf row ∉ t.partitionsHash)
    (entry : Entry Row) : (t.set (cfg.keyOf row) entry).partitionsHash.entries.length =
      t.partitionsHash.entries.length + 1 := by
  rw [State.set, AList.entries_insert_of_notMem h, length_cons]

/-- At no moment of the step are there more open files than allowed. -/
def Config.Limited (cfg : Config Row) (s : State Row) (row : Row) : Prop :=
  ∀ m ∈ moments cfg s row, m.openReceivers ≤ cfg.maxOpenFilesForPartitionedWrite

/-- **The step lemma.** -/
theorem Routed.of_receiveSlot (h : Routed cfg rows s) (he : cfg.Evictable s row)
    (hinj : ∀ row' ∈ rows, cfg.keyOf row' = cfg.keyOf row →
      cfg.computePartitionTuple row' = cfg.computePartitionTuple row) :
    ∃ s', receiveSlot cfg s row = some s' ∧ Routed cfg (rows ++ [row]) s' ∧ cfg.Limited s row := by
  unfold receiveSlot Config.Limited moments
  cases hl : s.partitionsHash.lookup (cfg.keyOf row) with
  | some entry =>
    have hent := mem_lookup_iff.mp hl
    have hs : ∀ row' ∈ entry.received,
        cfg.computePartitionTuple row' = cfg.computePartitionTuple row := by
      intro row' hrow'
      obtain ⟨received, hreceiver, -, hrs⟩ := h.opened _ hent
      have hre : row' ∈ received := by
        rwa [Entry.received, hreceiver] at hrow'
      refine hinj row' (h.contents.mem_iff.mp ?_) (hrs row' hre).1
      exact mem_append_right _ (mem_flatMap.mpr ⟨_, hent, hrow'⟩)
    have hr := h.add hl hs
    rw [← forward_of_lookup hl] at hr
    refine ⟨_, rfl, hr, fun m hm => ?_⟩
    obtain rfl := mem_singleton.mp hm
    exact (openReceivers_le _).trans hr.room
  | none =>
    obtain ⟨t, hr, hro, hnotMem, hmake⟩ := h.makeRoom he hl
    have hf := hr.first hnotMem hro
    rw [hmake]
    refine ⟨_, congrArg some (forward_createReceiver t), hf, fun m hm => ?_⟩
    have hle : ∀ entry, (t.set (cfg.keyOf row) entry).openReceivers ≤
        cfg.maxOpenFilesForPartitionedWrite := by
      intro entry
      refine (openReceivers_le _).trans ?_
      rw [length_set_of_notMem hnotMem]
      exact hro
    simp only [mem_cons, not_mem_nil, or_false, forward_createReceiver] at hm
    rcases hm with rfl | rfl | rfl | rfl
    · -- the new entry is not open yet
      refine le_trans (le_of_eq ?_) ((openReceivers_le s).trans h.room)
      rw [State.openReceivers, enter, State.set,
        entries_insert_of_notMem (lookup_eq_none.mp hl)]
      rfl
    · exact hle _
    · rw [createReceiver, set_set]
      exact hle _
    · exact hle _

/-! ## All rows -/

theorem routed_init (cfg : Config Row) : Routed cfg [] (init Row) :=
  ⟨nofun, nofun, .refl _, Nat.zero_le _⟩

/-- **The run lemma.** -/
theorem Routed.run (hinj : ∀ row ∈ rows, ∀ row' ∈ rows, cfg.keyOf row' = cfg.keyOf row →
      cfg.computePartitionTuple row' = cfg.computePartitionTuple row) :
    ∀ {before after : List Row} {s : State Row}, rows = before ++ after → Routed cfg before s →
      Along (receiveSlot cfg) cfg.Evictable s after →
        ∃ s', Transition.run (receiveSlot cfg) s after = some s' ∧ Routed cfg rows s' ∧
          Along (receiveSlot cfg) cfg.Limited s after := by
  intro before after
  induction after generalizing before with
  | nil =>
    intro s hrs h _
    rw [append_nil] at hrs
    exact ⟨s, rfl, hrs ▸ h, trivial⟩
  | cons row after ih =>
    intro s hrs h ha
    obtain ⟨s', hs', h', hl⟩ := h.of_receiveSlot ha.1 fun row' hrow' =>
      hinj row (by simp [hrs]) row' (by simp [hrs, hrow'])
    obtain ⟨s'', hrun, hf, hlimits⟩ := ih (by simpa using hrs) h' (ha.2 s' hs')
    refine ⟨s'', ?_, hf, .of_step hl hs' hlimits⟩
    rw [Transition.run, hs']
    exact hrun

theorem Routed.modifications_rows (h : Routed cfg rows s) :
    ((modifications cfg s).flatMap Modification.rows).Perm rows := by
  refine List.Perm.trans ?_ h.contents
  rw [modifications, flatMap_append, State.contents]
  refine List.Perm.append_left _ ?_
  rw [flatMap_assoc]
  refine ((cfg.hashOrder.perm _).flatMap_right _).trans ?_
  exact List.Perm.flatMap_left _ fun ent _ => entryModifications_rows ent.2

theorem Routed.modifications_describe (h : Routed cfg rows s) :
    ∀ m ∈ modifications cfg s, cfg.Describes m := by
  intro m hm
  rcases mem_append.mp hm with hm | hm
  · exact h.flushed m hm
  · obtain ⟨ent, hent, hm⟩ := mem_flatMap.mp hm
    exact describes_entryModifications (h.opened ent ((cfg.hashOrder.perm _).mem_iff.mp hent)) m hm

/-- Every row is in one data file, which has its spec and its tuple. -/
def WrittenCorrectly (cfg : Config Row) (rows : List Row) (files : List (Modification Row)) :
    Prop :=
  (files.flatMap Modification.rows).Perm rows ∧
    ∀ file ∈ files, file.partitionSpecId = cfg.currentPartitionSpecId ∧
      ∀ row ∈ file.rows, file.partition = cfg.computePartitionTuple row

/-- **No row is lost or misplaced, and at no moment are too many receivers open**, if keys are
    injective, no value of a tuple is empty and in every step that shuts down a receiver one of
    them has a positive count. -/
theorem partitioned_write_correct (cfg : Config Row) (rows : List Row)
    (hinj : ∀ row ∈ rows, ∀ row' ∈ rows, cfg.keyOf row' = cfg.keyOf row →
      cfg.computePartitionTuple row' = cfg.computePartitionTuple row)
    (hvalues : ∀ row ∈ rows, ∀ field ∈ cfg.computePartitionTuple row, field.value ≠ some [])
    (hcounts : Along (receiveSlot cfg) cfg.Evictable (init Row) rows) :
    ∃ s, Transition.run (receiveSlot cfg) (init Row) rows = some s ∧
      WrittenCorrectly cfg rows (modifications cfg s) ∧
      Along (receiveSlot cfg) cfg.Limited (init Row) rows := by
  obtain ⟨s, hrun, hrouted, hlimited⟩ :=
    Routed.run hinj (nil_append rows).symm (routed_init cfg) hcounts
  refine ⟨s, hrun, ⟨hrouted.modifications_rows, fun file hfile => ?_⟩, hlimited⟩
  obtain ⟨hspec, hdescribes⟩ := hrouted.modifications_describe file hfile
  refine ⟨hspec, fun row hrow => ?_⟩
  have hmem : row ∈ rows :=
    hrouted.modifications_rows.mem_iff.mp (mem_flatMap.mpr ⟨file, hfile, hrow⟩)
  rw [hdescribes row hrow, copyPartition_eq_self (hvalues row hmem)]

end Proof

/-! ## Counts that overflow -/

section Overflow
variable {cfg : Config Row} {a b : Row}

theorem run_replicate (n : ℕ) {s : State Row} {entry : Entry Row}
    (hs : s.partitionsHash = singleton (cfg.keyOf a) entry) :
    ∃ s' entry', Transition.run (receiveSlot cfg) s (List.replicate n a) = some s' ∧
      s'.partitionsHash = singleton (cfg.keyOf a) entry' ∧
      entry'.rowCount = entry.rowCount + Int32.ofNat n := by
  induction n generalizing s entry with
  | zero => exact ⟨s, entry, rfl, hs, (Int32.add_zero _).symm⟩
  | succ n ih =>
    have hl : s.partitionsHash.lookup (cfg.keyOf a) = some entry := by
      rw [hs]
      exact dlookup_cons_eq _ _ _
    have hadd : (s.set (cfg.keyOf a) (entry.add a)).partitionsHash =
        singleton (cfg.keyOf a) (entry.add a) := by
      rw [State.set, hs, AList.insert_singleton_eq]
    obtain ⟨s', entry', hrun, hs', hc⟩ := ih hadd
    refine ⟨s', entry', ?_, hs', ?_⟩
    · rw [replicate_succ, Transition.run, receiveSlot, hl, forward_of_lookup hl]
      exact hrun
    · rw [hc, Int32.ofNat_add, Int32.add_comm (Int32.ofNat n), ← Int32.add_assoc]
      rfl

theorem run_first (n : ℕ) (a : Row) (hn : Int32.ofNat n < 0)
    (hli : cfg.maxOpenFilesForPartitionedWrite = 1) :
    ∃ s entry, Transition.run (receiveSlot cfg) (init Row) (List.replicate n a) = some s ∧
      s.partitionsHash = singleton (cfg.keyOf a) entry ∧ entry.rowCount = Int32.ofNat n := by
  cases n with
  | zero => exact absurd hn (by decide)
  | succ n =>
    have hl : (init Row).partitionsHash.lookup (cfg.keyOf a) = none := rfl
    have hlen : ¬ (enter cfg (init Row) a).partitionsHash.entries.length >
        cfg.maxOpenFilesForPartitionedWrite := by
      rw [hli]
      exact Nat.lt_irrefl 1
    have hf : receiveSlot cfg (init Row) a =
        some ((init Row).set (cfg.keyOf a) (cfg.first a)) := by
      rw [receiveSlot, hl]
      simp only [makeRoom, if_neg hlen]
      exact congrArg some (forward_createReceiver (init Row))
    obtain ⟨s, entry, hrun, hs, hc⟩ :=
      run_replicate n (s := (init Row).set (cfg.keyOf a) (cfg.first a)) rfl
    refine ⟨s, entry, ?_, hs, ?_⟩
    · rw [replicate_succ, Transition.run, hf]
      exact hrun
    · rw [hc, Int32.ofNat_add, Int32.add_comm (Int32.ofNat n)]
      rfl

/-- **When the count of a partition has become negative, a row of another one fails** where one
    file may be open: the new entry has the largest count, and no receiver yet. -/
theorem rowCount_overflow_stops {n : ℕ} (hn : Int32.ofNat n < 0)
    (hl : cfg.maxOpenFilesForPartitionedWrite = 1) (hk : cfg.keyOf a ≠ cfg.keyOf b) :
    Transition.run (receiveSlot cfg) (init Row) (List.replicate n a ++ [b]) = none := by
  obtain ⟨s, entry, hrun, hs, hc⟩ := run_first n a hn hl
  have hnotMem : cfg.keyOf b ∉ s.partitionsHash := by
    rw [hs]
    exact fun hm => hk (mem_singleton.mp hm).symm
  have hes : (enter cfg s b).partitionsHash.entries =
      [⟨cfg.keyOf b, cfg.entered b⟩, ⟨cfg.keyOf a, entry⟩] := by
    rw [enter, State.set, AList.entries_insert_of_notMem hnotMem, hs]
    rfl
  have hm : ∀ ent, ent ∈ cfg.hashOrder.seq (enter cfg s b).partitionsHash.entries ↔
      ent = ⟨cfg.keyOf b, cfg.entered b⟩ ∨ ent = ⟨cfg.keyOf a, entry⟩ := by
    intro ent
    rw [(cfg.hashOrder.perm _).mem_iff, hes, mem_pair]
  have hnew := (hm _).mpr (.inl rfl)
  obtain ⟨largest, hf, hla, hmax⟩ := findLargest_some (ne_nil_of_mem hnew)
  have heq : largest = ⟨cfg.keyOf b, cfg.entered b⟩ := by
    rcases (hm largest).mp hla with heq | rfl
    · exact heq
    · exact absurd (Int32.lt_of_le_of_lt (hmax _ hnew) (hc ▸ hn)) Int32.lt_irrefl
  have hfu : (enter cfg s b).partitionsHash.entries.length >
      cfg.maxOpenFilesForPartitionedWrite := by
    rw [hes, hl]
    exact Nat.one_lt_two
  have hfl : makeRoom cfg (enter cfg s b) = none := by
    rw [makeRoom, if_pos hfu, flushLargestPartitionedDestReceiver, hf, heq]
    rfl
  rw [run_append, hrun, Option.bind_some, Transition.run, receiveSlot, lookup_eq_none.mpr hnotMem]
  simp [hfl]

end Overflow


/-- A partition for each value, and one open file. -/
def boolConfig : Config Bool where
  computePartitionTuple b := [⟨1000, .int32, some [if b then 1 else 0]⟩]
  computePartitionKey p := if p = [⟨1000, .int32, some [1]⟩] then 1 else 0
  currentPartitionSpecId := 1
  maxOpenFilesForPartitionedWrite := 1
  hashOrder := ⟨id, .refl⟩
  dataFiles rows := [rows]
  dataFiles_perm rows := by simp

theorem partitioned_write_correct_reopened :
    ∃ s, Transition.run (receiveSlot boolConfig) (init Bool) [true, false, true] = some s ∧
      WrittenCorrectly boolConfig [true, false, true] (modifications boolConfig s) ∧
      Along (receiveSlot boolConfig) boolConfig.Limited (init Bool) [true, false, true] := by
  refine partitioned_write_correct boolConfig [true, false, true] (by decide) (by decide) ?_
  refine .of_step (fun _ h => absurd h (by decide)) rfl ?_
  refine .of_step (fun _ _ => ⟨_, mem_cons_self, by decide⟩) rfl ?_
  exact .of_step (fun _ _ => ⟨_, mem_cons_self, by decide⟩) rfl trivial

/-- One partition, of the empty bytea. -/
def emptyConfig : Config Unit where
  computePartitionTuple _ := [⟨1000, .binary, some []⟩]
  computePartitionKey _ := 0
  currentPartitionSpecId := 1
  maxOpenFilesForPartitionedWrite := 1
  hashOrder := ⟨id, .refl⟩
  dataFiles rows := [rows]
  dataFiles_perm rows := by simp

/-- **A row with an empty bytea** is written to a data file whose tuple has NULL. -/
theorem empty_value_is_misplaced :
    ∃ s, Transition.run (receiveSlot emptyConfig) (init Unit) [()] = some s ∧
      ¬ WrittenCorrectly emptyConfig [()] (modifications emptyConfig s) := by
  refine ⟨_, rfl, fun h => ?_⟩
  have hpartition := (h.2 _ mem_cons_self).2 () mem_cons_self
  exact absurd hpartition (by decide)

end PgLake.Fdw.PartitionedWrites
