/-
  Row ids of new data files (`fdw/row_ids.c`, and `FlushChildDestReceiver` of
  `multi_data_file_dest.c`).

  Each table with row ids has a sequence.  `CreateRowIdRangeForNewFile` draws a value and raises
  the sequence by the row count; a writer that does not know its row count yet draws a value
  with `StartReservingRowIdRange`, numbers its files from there on, and raises the sequence with
  `FinishReservingRowIdRange`.

  Main result: `run_disjoint_iff`.
-/
import Mathlib.Algebra.Order.Ring.Int
import Mathlib.Data.List.Pairwise
import PgLake.Lib.Transition

namespace PgLake.Fdw.RowIds

open Function

/-! ## Ranges -/

structure RowIdRangeMapping where
  rowStartId : ℤ
  rowStartNum : ℤ
  numRows : ℕ
  deriving DecidableEq

namespace RowIdRangeMapping

/-- The range of a file whose ids start here. -/
def ofFile (rowIdStart : ℤ) (rowCount : ℕ) : RowIdRangeMapping := ⟨rowIdStart, 0, rowCount⟩

/-- The id is in the range. -/
def Contains (range : RowIdRangeMapping) (id : ℤ) : Prop :=
  range.rowStartId ≤ id ∧ id < range.rowStartId + range.numRows

/-- No id is in both ranges. -/
def Disjoint (range range' : RowIdRangeMapping) : Prop :=
  ∀ id, ¬ (range.Contains id ∧ range'.Contains id)

theorem contains_ofFile {rowIdStart : ℤ} {rowCount : ℕ} {id : ℤ} :
    (ofFile rowIdStart rowCount).Contains id ↔ rowIdStart ≤ id ∧ id < rowIdStart + rowCount :=
  Iff.rfl

end RowIdRangeMapping

open RowIdRangeMapping

/-- An open reservation: the value drawn for it, the `currentRowIdStart` of its
    `MultiDataFileUploadDestReceiver`, and the ranges of the files written so far. -/
structure Reservation where
  rowIdOffset : ℤ
  currentRowIdStart : ℤ
  files : List RowIdRangeMapping
  offset_le : rowIdOffset ≤ currentRowIdStart
  within : ∀ file ∈ files, ∀ id, file.Contains id → rowIdOffset ≤ id ∧ id < currentRowIdStart
  disjoint : files.Pairwise RowIdRangeMapping.Disjoint

namespace Reservation

def new (rowIdOffset : ℤ) : Reservation where
  rowIdOffset := rowIdOffset
  currentRowIdStart := rowIdOffset
  files := []
  offset_le := le_rfl
  within := by simp
  disjoint := .nil

/-- `FlushChildDestReceiver` for a file with reserved row ids, and the range that
    `CreateRowIdRangeForNewFile` makes of its `reservedRowIdStart`. -/
def flush (r : Reservation) (insertedRowCount : ℕ) : Reservation where
  rowIdOffset := r.rowIdOffset
  currentRowIdStart := r.currentRowIdStart + insertedRowCount
  files := r.files ++ [ofFile r.currentRowIdStart insertedRowCount]
  offset_le := r.offset_le.trans (by omega)
  within := by
    intro file hfile id hid
    rcases List.mem_append.mp hfile with hfile | hfile
    · obtain ⟨hoffset, hcurrent⟩ := r.within file hfile id hid
      exact ⟨hoffset, by omega⟩
    · obtain rfl := List.mem_singleton.mp hfile
      obtain ⟨hstart, hend⟩ := contains_ofFile.mp hid
      exact ⟨r.offset_le.trans hstart, hend⟩
  disjoint := by
    refine List.pairwise_append.mpr ⟨r.disjoint, List.pairwise_singleton _ _, ?_⟩
    rintro file hfile _ hnew id ⟨hid, hid'⟩
    obtain rfl := List.mem_singleton.mp hnew
    obtain ⟨-, hcurrent⟩ := r.within file hfile id hid
    obtain ⟨hstart, -⟩ := contains_ofFile.mp hid'
    omega

end Reservation

/-- A range that was handed out, and the ranges of files it was split into. -/
structure Handout where
  range : RowIdRangeMapping
  files : List RowIdRangeMapping
  within : ∀ file ∈ files, ∀ id, file.Contains id → range.Contains id
  disjoint : files.Pairwise RowIdRangeMapping.Disjoint

namespace Handout

def ofNewFile (rowIdStart : ℤ) (rowCount : ℕ) : Handout where
  range := ofFile rowIdStart rowCount
  files := [ofFile rowIdStart rowCount]
  within := by simp
  disjoint := List.pairwise_singleton _ _

def ofReservation (r : Reservation) (rowCount : ℕ)
    (henough : r.currentRowIdStart ≤ r.rowIdOffset + rowCount) : Handout where
  range := ofFile r.rowIdOffset rowCount
  files := r.files
  within := fun file hfile id hid =>
    ⟨(r.within file hfile id hid).1, (r.within file hfile id hid).2.trans_le henough⟩
  disjoint := r.disjoint

end Handout

/-! ## Sessions -/

/-- Where a session is in one of the three functions. -/
inductive Pc where
  | idle
  /-- `CreateRowIdRangeForNewFile` without a reserved start, the sequence locked -/
  | createLocked (rowCount : ℕ)
  /-- `nextval_internal` returned `rowIdStart` -/
  | createDrawn (rowCount : ℕ) (rowIdStart : ℤ)
  /-- `setval_oid` returned -/
  | createSet (rowCount : ℕ) (rowIdStart : ℤ)
  /-- `StartReservingRowIdRange`, the sequence locked -/
  | startLocked
  /-- `FinishReservingRowIdRange`, before the unlock -/
  | finishSet
  deriving DecidableEq

/-- The next action of a session.  `nextval` carries the value it returns. -/
inductive Event where
  | createLock (rowCount : ℕ)
  | createNextval (value : ℤ)
  | createSetval
  | createUnlock
  | startLock
  | startNextval (value : ℤ)
  /-- a file is written under the session's `reservation`-th open reservation -/
  | flush (reservation : ℕ) (insertedRowCount : ℕ)
  | finishSetval (reservation : ℕ) (rowCount : ℕ)
  | finishUnlock
  /-- commit or abort: locks are released, what is open is dropped, the sequence stays -/
  | endTransaction
  deriving DecidableEq

variable {Session : Type} [DecidableEq Session]

/-- `lastValue` is the value last set; `lock` says who has locked the sequence how often. -/
structure State (Session : Type) where
  lastValue : ℤ
  lock : Option (Session × ℕ)
  pc : Session → Pc
  reservations : Session → List Reservation
  handedOut : List Handout

/-- No range, and every session idle. -/
def State.init : State Session where
  lastValue := 0
  lock := none
  pc := fun _ => .idle
  reservations := fun _ => []
  handedOut := []

/-- `LockRelationOid(sequenceId, ExclusiveLock)`; `none` while another session holds the lock. -/
def lockRelationOid (t : Session) : Option (Session × ℕ) → Option (Option (Session × ℕ))
  | none => some (some (t, 1))
  | some (holder, n) => if holder = t then some (some (t, n + 1)) else none

/-- `UnlockRelationOid(sequenceId, ExclusiveLock)`. -/
def unlockRelationOid (t : Session) : Option (Session × ℕ) → Option (Session × ℕ)
  | none => none
  | some (holder, n) =>
    if holder = t then if n ≤ 1 then none else some (t, n - 1) else some (holder, n)

def releaseLocks (t : Session) : Option (Session × ℕ) → Option (Session × ℕ)
  | none => none
  | some (holder, n) => if holder = t then none else some (holder, n)

variable (s : State Session)

def State.goto (t : Session) (pc : Pc) : State Session :=
  { s with pc := update s.pc t pc }

def State.withReservations (t : Session) (reservations : List Reservation) : State Session :=
  { s with reservations := update s.reservations t reservations }

/-- `setval_oid`, and `nextval_internal` once its value is known. -/
def State.setval (value : ℤ) : State Session :=
  { s with lastValue := value }

def State.handOut (handout : Handout) : State Session :=
  { s with handedOut := s.handedOut ++ [handout] }

/-- One step of a session; `none` when it has to wait. -/
def step : Session × Event → Option (State Session)
  | (t, .createLock rowCount) =>
    if s.pc t = .idle ∧ 0 < rowCount then
      (lockRelationOid t s.lock).map fun lock =>
        { s with lock := lock }.goto t (.createLocked rowCount)
    else none
  | (t, .createNextval value) =>
    match s.pc t with
    | .createLocked rowCount =>
      if s.lastValue < value then some ((s.setval value).goto t (.createDrawn rowCount value))
      else none
    | _ => none
  | (t, .createSetval) =>
    match s.pc t with
    | .createDrawn rowCount rowIdStart =>
      -- raise the sequence by rowCount - 1, since it was raised by 1 already
      some ((s.setval (rowIdStart + rowCount - 1)).goto t (.createSet rowCount rowIdStart))
    | _ => none
  | (t, .createUnlock) =>
    match s.pc t with
    | .createSet rowCount rowIdStart =>
      some (({ s with lock := unlockRelationOid t s.lock }.handOut
        (.ofNewFile rowIdStart rowCount)).goto t .idle)
    | _ => none
  | (t, .startLock) =>
    if s.pc t = .idle then
      (lockRelationOid t s.lock).map fun lock => { s with lock := lock }.goto t .startLocked
    else none
  | (t, .startNextval value) =>
    if s.pc t = .startLocked ∧ s.lastValue < value then
      some (((s.setval value).withReservations t (s.reservations t ++ [.new value])).goto t .idle)
    else none
  | (t, .flush reservation insertedRowCount) =>
    match s.pc t, (s.reservations t)[reservation]? with
    | .idle, some r =>
      some (s.withReservations t ((s.reservations t).set reservation (r.flush insertedRowCount)))
    | _, _ => none
  | (t, .finishSetval reservation rowCount) =>
    match s.pc t, (s.reservations t)[reservation]? with
    | .idle, some r =>
      -- the caller does not use more ids than it says
      if henough : r.currentRowIdStart ≤ r.rowIdOffset + rowCount then
        let closed := (s.withReservations t ((s.reservations t).eraseIdx reservation)).goto t
          .finishSet
        if 0 < rowCount then
          some ((closed.setval (r.rowIdOffset + rowCount - 1)).handOut
            (.ofReservation r rowCount henough))
        else some closed
      else none
    | _, _ => none
  | (t, .finishUnlock) =>
    if s.pc t = .finishSet then
      some ({ s with lock := unlockRelationOid t s.lock }.goto t .idle)
    else none
  | (t, .endTransaction) =>
    some (({ s with lock := releaseLocks t s.lock }.withReservations t []).goto t .idle)

/-! ## Safety -/

/-- No id from `value` on was handed out. -/
def Below (handedOut : List Handout) (value : ℤ) : Prop :=
  ∀ handout ∈ handedOut, ∀ id, handout.range.Contains id → id < value

/-- **What row ids are for**: no two files share one, and the sequence is past all of them. -/
structure Safe (s : State Session) : Prop where
  ranges : (s.handedOut.map Handout.range).Pairwise RowIdRangeMapping.Disjoint
  files : (s.handedOut.flatMap Handout.files).Pairwise RowIdRangeMapping.Disjoint
  sequence : Below s.handedOut (s.lastValue + 1)

/-- Whoever finishes a reservation that is not empty finds no id handed out from its start on. -/
def FinishesAbove : Session × Event → Prop
  | (t, .finishSetval reservation rowCount) =>
    0 < rowCount → ∀ r ∈ (s.reservations t)[reservation]?, Below s.handedOut r.rowIdOffset
  | _ => True

/-! ## Handing out a range -/

theorem Below.mono {handedOut : List Handout} {v v' : ℤ} (h : Below handedOut v)
    (hle : v ≤ v') : Below handedOut v' :=
  fun handout hm id hid => (h handout hm id hid).trans_le hle

open List State Option

theorem pairwise_files {handedOut : List Handout}
    (h : (handedOut.map Handout.range).Pairwise RowIdRangeMapping.Disjoint) :
    (handedOut.flatMap Handout.files).Pairwise RowIdRangeMapping.Disjoint := by
  rw [pairwise_map] at h
  rw [pairwise_flatMap]
  refine ⟨fun handout _ => handout.disjoint, h.imp ?_⟩
  intro handout handout' hd f hf f' hf' id hid
  exact hd id ⟨handout.within f hf id hid.1, handout'.within f' hf' id hid.2⟩

omit [DecidableEq Session] in
/-- **A new range is safe exactly when it starts above all ids handed out**, if the sequence is
    then set to its end. -/
theorem safe_append_iff {s s' : State Session} (hs : Safe s) {handout : Handout}
    (hh : s'.handedOut = s.handedOut ++ [handout]) (hrs : 0 < handout.range.numRows)
    (hl : s'.lastValue + 1 = handout.range.rowStartId + handout.range.numRows) :
    Safe s' ↔ Below s.handedOut handout.range.rowStartId := by
  constructor
  · intro hs' old hold id hid
    by_contra hge
    have hle : id < s'.lastValue + 1 :=
      hs'.sequence old (hh ▸ mem_append_left _ hold) id hid
    have hra := hs'.ranges
    rw [hh, map_append, pairwise_append] at hra
    have hd := hra.2.2 _ (mem_map_of_mem hold) handout.range (by simp)
    exact hd id ⟨hid, by omega, by omega⟩
  · intro hb
    have hra : (s'.handedOut.map Handout.range).Pairwise RowIdRangeMapping.Disjoint := by
      rw [hh, map_append, pairwise_append]
      refine ⟨hs.ranges, pairwise_singleton _ _, ?_⟩
      intro range hr range' hr' id hid
      obtain ⟨old, hold, rfl⟩ := mem_map.mp hr
      obtain rfl : range' = handout.range := by simpa using hr'
      have := hb old hold id hid.1
      have := hid.2.1
      omega
    refine ⟨hra, pairwise_files hra, ?_⟩
    intro old hold id hid
    rw [hh, mem_append] at hold
    rcases hold with hold | hold
    · have := hb old hold id hid
      omega
    · obtain rfl := mem_singleton.mp hold
      have := hid.2
      omega

omit [DecidableEq Session] in
theorem Safe.raise {s s' : State Session} (hs : Safe s) (hh : s'.handedOut = s.handedOut)
    (hl : s.lastValue ≤ s'.lastValue) : Safe s' := by
  refine ⟨hh ▸ hs.ranges, hh ▸ hs.files, ?_⟩
  rw [hh]
  exact hs.sequence.mono (by omega)

/-! ## The lock -/

/-- How often a session has locked the sequence: once for each open reservation, and once more
    inside of one of the functions. -/
def State.demand (t : Session) : ℕ :=
  (s.reservations t).length + if s.pc t = .idle then 0 else 1

def PcOk (lastValue : ℤ) (handedOut : List Handout) : Pc → Prop
  | .createLocked rowCount => 0 < rowCount
  | .createDrawn rowCount rowIdStart =>
    0 < rowCount ∧ Below handedOut rowIdStart ∧ lastValue = rowIdStart
  | .createSet rowCount rowIdStart =>
    0 < rowCount ∧ Below handedOut rowIdStart ∧ lastValue = rowIdStart + rowCount - 1
  | _ => True

structure Inv (s : State Session) : Prop where
  safe : Safe s
  lock_iff : ∀ t n, s.lock = some (t, n) ↔ 0 < n ∧ n = s.demand t
  pcOk : ∀ t, PcOk s.lastValue s.handedOut (s.pc t)

/-- Nobody but `t` has the lock. -/
structure Solo (s : State Session) (t : Session) : Prop where
  others : ∀ t', t' ≠ t → s.demand t' = 0
  lock : s.lock = if s.demand t = 0 then none else some (t, s.demand t)

variable {s : State Session} {t : Session}

omit [DecidableEq Session] in
theorem pc_eq_idle_of_demand (h : s.demand t = 0) : s.pc t = .idle := by
  unfold demand at h
  split at h
  · assumption
  · omega

omit [DecidableEq Session] in
theorem Inv.solo (hs : Inv s) (ht : 0 < s.demand t) : Solo s t := by
  have hl : s.lock = some (t, s.demand t) := (hs.lock_iff t _).mpr ⟨ht, rfl⟩
  refine ⟨fun t' hne => ?_, ?_⟩
  · by_contra hpos
    have hl' := (hs.lock_iff t' _).mpr ⟨Nat.pos_of_ne_zero hpos, rfl⟩
    rw [hl] at hl'
    exact hne (congrArg Prod.fst (some.inj hl')).symm
  · rw [hl, if_neg (by omega)]

theorem Inv.solo_of_lock (hs : Inv s)
    {lock : Option (Session × ℕ)} (hl : lockRelationOid t s.lock = some lock) :
    Solo s t ∧ lock = some (t, s.demand t + 1) := by
  cases hh : s.lock with
  | none =>
    have hz : ∀ t', s.demand t' = 0 := by
      intro t'
      by_contra hpos
      have := (hs.lock_iff t' _).mpr ⟨Nat.pos_of_ne_zero hpos, rfl⟩
      rw [hh] at this
      cases this
    rw [hh] at hl
    cases hl
    refine ⟨⟨fun t' _ => hz t', ?_⟩, by rw [hz]⟩
    rw [hh, if_pos (hz t)]
  | some held =>
    obtain ⟨ho, n⟩ := held
    rw [hh, lockRelationOid] at hl
    split_ifs at hl with hholder
    subst hholder
    cases hl
    obtain ⟨hpos, hn⟩ := (hs.lock_iff ho n).mp hh
    exact ⟨hs.solo (hn ▸ hpos), by rw [hn]⟩

theorem Solo.unlock (hs : Solo s t) :
    unlockRelationOid t s.lock = if s.demand t - 1 = 0 then none else some (t, s.demand t - 1) := by
  rw [hs.lock]
  by_cases hz : s.demand t = 0
  · simp [hz, unlockRelationOid]
  · by_cases hone : s.demand t ≤ 1
    · rw [if_neg hz, unlockRelationOid, if_pos rfl, if_pos hone, if_pos (by omega)]
    · rw [if_neg hz, unlockRelationOid, if_pos rfl, if_neg hone, if_neg (by omega)]

theorem Solo.inv (hs : Solo s t) (hsa : Safe s)
    (hpc : PcOk s.lastValue s.handedOut (s.pc t)) : Inv s := by
  refine ⟨hsa, fun t' n => ?_, fun t' => ?_⟩
  · rw [hs.lock]
    by_cases heq : t' = t
    · subst heq
      by_cases hz : s.demand t' = 0
      · rw [if_pos hz, hz]
        constructor
        · intro h
          cases h
        · omega
      · rw [if_neg hz, some.injEq, Prod.mk.injEq]
        constructor
        · rintro ⟨-, rfl⟩
          exact ⟨Nat.pos_of_ne_zero hz, rfl⟩
        · rintro ⟨-, rfl⟩
          exact ⟨rfl, rfl⟩
    · rw [hs.others t' heq]
      constructor
      · intro h
        split_ifs at h
        exact absurd (congrArg Prod.fst (some.inj h)).symm heq
      · omega
  · by_cases heq : t' = t
    · exact heq ▸ hpc
    · rw [pc_eq_idle_of_demand (hs.others t' heq)]
      trivial

omit [DecidableEq Session] in
/-- A step of `t` that leaves the others alone and keeps the lock in line with what `t` needs. -/
theorem Solo.step {s s' : State Session} (hs : Solo s t) (hpc : ∀ t', t' ≠ t → s'.pc t' = s.pc t')
    (hres : ∀ t', t' ≠ t → s'.reservations t' = s.reservations t')
    (hl : s'.lock = if s'.demand t = 0 then none else some (t, s'.demand t)) :
    Solo s' t := by
  refine ⟨fun t' hne => ?_, hl⟩
  have := hs.others t' hne
  unfold demand at this ⊢
  rw [hpc t' hne, hres t' hne]
  exact this

/-! ## Steps -/

section Steps
variable {s s' : State Session} {t : Session}

omit [DecidableEq Session] in
theorem demand_of_idle (h : s.pc t = .idle) : s.demand t = (s.reservations t).length := by
  rw [demand, if_pos h, Nat.add_zero]

omit [DecidableEq Session] in
theorem demand_of_busy (h : s.pc t ≠ .idle) : s.demand t = (s.reservations t).length + 1 := by
  rw [demand, if_neg h]

omit [DecidableEq Session] in
theorem Inv.solo_of_busy (hs : Inv s) (h : s.pc t ≠ .idle) : Solo s t :=
  hs.solo (by rw [demand_of_busy h]; omega)

omit [DecidableEq Session] in
theorem Inv.solo_of_reservation (hs : Inv s) {i : ℕ} {r : Reservation}
    (h : (s.reservations t)[i]? = some r) : Solo s t := by
  have hlt := (List.getElem?_eq_some_iff.mp h).1
  refine hs.solo ?_
  rw [State.demand]
  omega

omit [DecidableEq Session] in
theorem Solo.keep (hs : Solo s t) (hpc : ∀ t', t' ≠ t → s'.pc t' = s.pc t')
    (hres : ∀ t', t' ≠ t → s'.reservations t' = s.reservations t')
    (hl : s'.lock = s.lock) (hd : s'.demand t = s.demand t) : Solo s' t :=
  hs.step hpc hres (by rw [hl, hs.lock, hd])

section

variable (hs : Inv s)

include hs

theorem inv_lock {lock : Option (Session × ℕ)} {pc : Pc} (hi : s.pc t = .idle)
    (hl : lockRelationOid t s.lock = some lock) (hb : pc ≠ .idle)
    (hpcOk : PcOk s.lastValue s.handedOut pc) :
    Inv ({ s with lock := lock }.goto t pc) := by
  obtain ⟨hso, rfl⟩ := hs.solo_of_lock hl
  set s' := { s with lock := some (t, s.demand t + 1) }.goto t pc
  have hpc : s'.pc t = pc := update_self ..
  have hd : s'.demand t = s.demand t + 1 := by
    rw [demand_of_idle hi]
    exact demand_of_busy (hpc ▸ hb)
  refine Solo.inv (t := t) (hso.step (fun t' hne => update_of_ne hne _ _) (fun _ _ => rfl) ?_)
    (hs.safe.raise rfl le_rfl) ?_
  · rw [hd, if_neg (by omega)]
    rfl
  · rw [hpc]
    exact hpcOk

theorem inv_createLock {rowCount : ℕ}
    (hst : step s (t, .createLock rowCount) = some s') : Inv s' := by
  simp only [step] at hst
  split_ifs at hst with hg
  obtain ⟨lock, hl, rfl⟩ := map_eq_some_iff.mp hst
  exact inv_lock hs hg.1 hl Pc.noConfusion hg.2

theorem inv_setval {v : ℤ} {pc : Pc} (hb : s.pc t ≠ .idle) (hpc : pc ≠ .idle)
    (hle : s.lastValue ≤ v) (hpcOk : PcOk v s.handedOut pc) :
    Inv ((s.setval v).goto t pc) := by
  refine Solo.inv (t := t) ((hs.solo_of_busy hb).keep (fun t' hne => update_of_ne hne _ _)
    (fun _ _ => rfl) rfl ?_) (hs.safe.raise rfl hle) ?_
  · simp [demand, goto, setval, hb, hpc]
  · simpa [goto, setval] using hpcOk

theorem inv_createNextval {v : ℤ}
    (hst : step s (t, .createNextval v) = some s') : Inv s' := by
  simp only [step] at hst
  split at hst
  case h_2 => cases hst
  case h_1 rowCount hpc =>
    split_ifs at hst with hv
    cases hst
    have hpcOk := hs.pcOk t
    rw [hpc] at hpcOk
    exact inv_setval hs (hpc ▸ Pc.noConfusion) Pc.noConfusion hv.le
      ⟨hpcOk, hs.safe.sequence.mono hv, rfl⟩

theorem inv_createSetval (hst : step s (t, .createSetval) = some s') : Inv s' := by
  simp only [step] at hst
  split at hst
  case h_2 => cases hst
  case h_1 rowCount rowIdStart hpc =>
    cases hst
    have hpcOk := hs.pcOk t
    rw [hpc] at hpcOk
    obtain ⟨hrs, hb, hl⟩ := hpcOk
    exact inv_setval hs (hpc ▸ Pc.noConfusion) Pc.noConfusion (by omega) ⟨hrs, hb, rfl⟩

theorem inv_createUnlock (hst : step s (t, .createUnlock) = some s') : Inv s' := by
  simp only [step] at hst
  split at hst
  case h_2 => cases hst
  case h_1 rowCount rowIdStart hpc =>
    cases hst
    have hb : s.pc t ≠ .idle := by rw [hpc]; simp
    have hso := hs.solo_of_busy hb
    have hpcOk := hs.pcOk t
    rw [hpc] at hpcOk
    obtain ⟨hrs, hbe, hl⟩ := hpcOk
    refine Solo.inv (t := t)
      (hso.step (fun t' hne => update_of_ne hne _ _) (fun _ _ => rfl) ?_) ?_ ?_
    · simp only [goto, handOut]
      rw [hso.unlock, demand_of_busy hb]
      simp [demand]
    · refine (safe_append_iff hs.safe rfl hrs ?_).mpr hbe
      simp only [goto, handOut, Handout.ofNewFile, ofFile]
      omega
    · simp [goto, PcOk]

theorem inv_startLock (hst : step s (t, .startLock) = some s') : Inv s' := by
  simp only [step] at hst
  split_ifs at hst with hi
  obtain ⟨lock, hl, rfl⟩ := map_eq_some_iff.mp hst
  exact inv_lock hs hi hl Pc.noConfusion trivial

theorem inv_startNextval {v : ℤ}
    (hst : step s (t, .startNextval v) = some s') : Inv s' := by
  simp only [step] at hst
  split_ifs at hst with hg
  obtain ⟨hpc, hv⟩ := hg
  cases hst
  have hso := hs.solo_of_busy (by rw [hpc]; simp)
  refine Solo.inv (t := t) (hso.keep (fun t' hne => update_of_ne hne _ _)
    (fun t' hne => update_of_ne hne _ _) rfl ?_) (hs.safe.raise rfl hv.le) ?_
  · simp [demand, goto, withReservations, setval, hpc]
  · simp [goto, PcOk]

theorem inv_flush {i insertedRowCount : ℕ}
    (hst : step s (t, .flush i insertedRowCount) = some s') : Inv s' := by
  simp only [step] at hst
  split at hst
  case h_2 => cases hst
  case h_1 r hpc hr =>
    cases hst
    have hso := hs.solo_of_reservation hr
    refine Solo.inv (t := t)
      (hso.keep (fun _ _ => rfl) (fun t' hne => update_of_ne hne _ _) rfl ?_) (hs.safe.raise rfl le_rfl) (hs.pcOk t)
    simp [demand, withReservations, hpc]

theorem inv_finishUnlock (hst : step s (t, .finishUnlock) = some s') : Inv s' := by
  simp only [step] at hst
  split_ifs at hst with hpc
  cases hst
  have hb : s.pc t ≠ .idle := by rw [hpc]; simp
  have hso := hs.solo_of_busy hb
  refine Solo.inv (t := t) (hso.step (fun t' hne => update_of_ne hne _ _) (fun _ _ => rfl) ?_)
    (hs.safe.raise rfl le_rfl) ?_
  · simp only [goto]
    rw [hso.unlock, demand_of_busy hb]
    simp [demand]
  · simp [goto, PcOk]

theorem inv_endTransaction (hst : step s (t, .endTransaction) = some s') : Inv s' := by
  cases hst
  by_cases hz : s.demand t = 0
  · -- the session has nothing open: nothing changes
    have hi := pc_eq_idle_of_demand hz
    have hres : s.reservations t = [] := by
      rw [demand_of_idle hi] at hz
      exact length_eq_zero_iff.mp hz
    have hl : releaseLocks t s.lock = s.lock := by
      cases hh : s.lock with
      | none => rfl
      | some held =>
        obtain ⟨hpos, hn⟩ := (hs.lock_iff held.1 held.2).mp hh
        rw [releaseLocks, if_neg]
        rintro rfl
        omega
    have heq : ({ s with lock := releaseLocks t s.lock }.withReservations t []).goto t .idle = s := by
      simp only [goto, withReservations, hl]
      rw [← hi, ← hres, update_eq_self, update_eq_self]
    exact heq.symm ▸ hs
  · have hso := hs.solo (Nat.pos_of_ne_zero hz)
    refine Solo.inv (t := t) (hso.step (fun t' hne => update_of_ne hne _ _)
      (fun t' hne => update_of_ne hne _ _) ?_) (hs.safe.raise rfl le_rfl) ?_
    · simp only [goto, withReservations]
      rw [hso.lock, if_neg hz]
      simp [demand, releaseLocks]
    · simp [goto, PcOk]

end

variable {i rowCount : ℕ}

theorem finishSetval_cases (hst : step s (t, .finishSetval i rowCount) = some s') :
    ∃ r, (s.reservations t)[i]? = some r ∧ s.pc t = .idle ∧ s'.lock = s.lock ∧
      s'.pc = update s.pc t .finishSet ∧
      s'.reservations = update s.reservations t ((s.reservations t).eraseIdx i) ∧
      ((rowCount = 0 ∧ s'.lastValue = s.lastValue ∧ s'.handedOut = s.handedOut) ∨
        (0 < rowCount ∧ s'.lastValue = r.rowIdOffset + rowCount - 1 ∧
          ∃ handout : Handout, handout.range = ofFile r.rowIdOffset rowCount ∧
            s'.handedOut = s.handedOut ++ [handout])) := by
  simp only [step] at hst
  split at hst
  case h_2 => cases hst
  case h_1 r hpc hr =>
    split_ifs at hst with he hrs
    · cases hst
      exact ⟨r, hr, hpc, rfl, rfl, rfl, .inr ⟨hrs, rfl, _, rfl, rfl⟩⟩
    · cases hst
      exact ⟨r, hr, hpc, rfl, rfl, rfl, .inl ⟨by omega, rfl, rfl⟩⟩

/-- **Finishing is safe exactly above everything handed out.** -/
theorem finishSetval_safe_iff (hs : Inv s)
    (hst : step s (t, .finishSetval i rowCount) = some s') :
    Safe s' ↔ FinishesAbove s (t, .finishSetval i rowCount) := by
  obtain ⟨r, hr, -, -, -, -, hc⟩ := finishSetval_cases hst
  simp only [FinishesAbove, hr, mem_def, some.injEq, forall_eq']
  rcases hc with ⟨rfl, hl, hh⟩ | ⟨hrs, hl, handout, hra, hh⟩
  · simp [hs.safe.raise hh hl.ge]
  · have hiff := safe_append_iff hs.safe hh (by rw [hra]; exact hrs)
      (by rw [hra, hl]; exact sub_add_cancel ..)
    rw [hiff, hra]
    exact ⟨fun h _ => h, fun h => h hrs⟩

theorem inv_finishSetval (hs : Inv s) (hf : FinishesAbove s (t, .finishSetval i rowCount))
    (hst : step s (t, .finishSetval i rowCount) = some s') : Inv s' := by
  have hsa := (finishSetval_safe_iff hs hst).mpr hf
  obtain ⟨r, hr, hi, hl, hpc, hres, -⟩ := finishSetval_cases hst
  have hlt := (List.getElem?_eq_some_iff.mp hr).1
  refine ((hs.solo_of_reservation hr).keep (fun t' hne => ?_) (fun t' hne => ?_) hl ?_).inv
    hsa ?_
  · rw [hpc, update_of_ne hne]
  · rw [hres, update_of_ne hne]
  · rw [demand, demand, hpc, hres, update_self, update_self, hi,
      if_neg (by decide), if_pos rfl, length_eraseIdx_of_lt hlt]
    omega
  · rw [hpc, update_self]
    trivial

/-- **The step lemma.** -/
theorem step_inv {e : Session × Event} (hs : Inv s) (hf : FinishesAbove s e)
    (hst : step s e = some s') : Inv s' := by
  obtain ⟨t, event⟩ := e
  cases event with
  | createLock => exact inv_createLock hs hst
  | createNextval => exact inv_createNextval hs hst
  | createSetval => exact inv_createSetval hs hst
  | createUnlock => exact inv_createUnlock hs hst
  | startLock => exact inv_startLock hs hst
  | startNextval => exact inv_startNextval hs hst
  | flush => exact inv_flush hs hst
  | finishSetval => exact inv_finishSetval hs hf hst
  | finishUnlock => exact inv_finishUnlock hs hst
  | endTransaction => exact inv_endTransaction hs hst

theorem step_safe_iff {e : Session × Event} (hs : Inv s) (hst : step s e = some s') :
    Safe s' ↔ FinishesAbove s e := by
  refine ⟨fun hsa => ?_, fun hf => (step_inv hs hf hst).safe⟩
  obtain ⟨t, event⟩ := e
  cases event with
  | finishSetval => exact (finishSetval_safe_iff hs hst).mp hsa
  | _ => trivial

end Steps

/-! ## Runs -/

omit [DecidableEq Session] in
theorem inv_init : Inv (init : State Session) where
  safe := ⟨.nil, .nil, by simp [Below, init]⟩
  lock_iff := by
    intro t n
    simp only [init, demand]
    constructor
    · intro h
      cases h
    · simp only [length_nil, ↓reduceIte]
      omega
  pcOk := fun _ => trivial

/-- **Row ids are never assigned twice, in every state of a run, exactly when each reservation of
    the run that is not empty is finished before its session has been handed an id above its
    start.** -/
theorem run_disjoint_iff (events : List (Session × Event)) :
    Transition.Throughout step Safe (init : State Session) events ↔
      Transition.Along step (fun s e => ∀ s', step s e = some s' → FinishesAbove s e)
        (init : State Session) events :=
  Transition.throughout_iff_along Inv.safe step_safe_iff step_inv inv_init

/-- **One session gets two ranges that overlap.**  Between its start and its finish it creates a
    range for a file of its own. -/
theorem nested_ranges_overlap : ((Transition.run step (init : State ℕ)
      [(0, .startLock), (0, .startNextval 1), (0, .createLock 5), (0, .createNextval 2),
        (0, .createSetval), (0, .createUnlock), (0, .finishSetval 0 3), (0, .finishUnlock)]).map
      fun s => (s.handedOut.map Handout.range, s.lastValue)) = some ([ofFile 2 5, ofFile 1 3], 3) ∧
    ¬ (ofFile 2 5).Disjoint (ofFile 1 3) := by
  refine ⟨by decide, fun h => h 2 ⟨⟨by decide, by decide⟩, by decide, by decide⟩⟩

end PgLake.Fdw.RowIds
