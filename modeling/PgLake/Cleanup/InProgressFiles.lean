/-
  Files of transactions that have not committed (`cleanup/in_progress_files.c`).

  A transaction that writes files records them under an operation id it holds a lock on. The
  record is inserted by a transaction of its own, so that everyone sees it at once; the writer
  removes it in its transaction.  A cleaner reads the records, tries to lock their operation
  ids, checks that the record still exists, and removes the file.

  Main result: `cleanup_safe`.
-/
import Mathlib.Data.List.Infix
import PgLake.Lib.Transition

namespace PgLake.Cleanup

open List

open Function (update_of_ne update_self)

abbrev Path := List Char

scoped instance instLawfulBEqPath : LawfulBEq Path := inferInstance

/-- A row of `in_progress_files`. -/
structure Record where
  path : Path
  operationId : ℕ
  isPrefix : Bool
  deriving DecidableEq

/-- The files a cleaner removes for a record: `DeleteRemotePrefix` or `DeleteRemoteFile`. -/
def Record.covers (r : Record) (file : Path) : Prop :=
  if r.isPrefix then r.path ++ ['/'] <+: file else file = r.path

instance (r : Record) (file : Path) : Decidable (r.covers file) :=
  inferInstanceAs (Decidable (if r.isPrefix then r.path ++ ['/'] <+: file else file = r.path))

inductive Phase where
  | active
  /-- the changes are visible, locks are still held -/
  | committing
  | committed
  | aborted
  deriving DecidableEq

/-- Where `RemoveInProgressFiles` is. -/
inductive Stage where
  | idle
  | looping
  | locked (r : Record)
  | found (r : Record)
  deriving DecidableEq

/-- A transaction.  `recorded` are the records it made, `left` the ones of them that were still in
    the table when its commit became visible. -/
structure Txn where
  phase : Phase := .active
  /-- `TransactionOperationId` -/
  operationId : Option ℕ := none
  /-- rows inserted and deleted, not yet visible to others -/
  inserts : List Record := []
  deletes : List Record := []
  /-- the rows of the snapshot its queries run with -/
  snapshot : List Record := []
  stage : Stage := .idle
  /-- the records read that the loop has not reached -/
  todo : List Record := []
  /-- `deletedPaths` -/
  removed : List Path := []
  recorded : List Record := []
  left : List Record := []

/-- The rows of `in_progress_files`, the operation locks and the open transactions. -/
structure State where
  table : List Record := []
  locks : ℕ → Option ℕ := fun _ => none
  nextOperationId : ℕ := 0
  txns : ℕ → Txn := fun _ => {}

variable (s : State) (t : ℕ)

def State.visible : List Record :=
  (s.table ++ (s.txns t).inserts).filter fun r => r ∉ (s.txns t).deletes

variable (x : Txn)

def State.setTxn : State :=
  { s with txns := Function.update s.txns t x }

/-- What a transaction or a cleaner does next. -/
inductive Action where
  /-- `InsertInProgressFileRecordExtended` -/
  | insert (path : Path) (isPrefix autoDeleteRecord : Bool)
  /-- `ReplaceInProgressPrefixPathWithFullPaths` -/
  | replace (prefixPath : Path) (fullPaths : List Path)
  /-- `DeleteInProgressFileRecords` -/
  | deleteRecords (paths : List Path)
  | commit
  | release
  | abort
  | takeSnapshot
  /-- `GetInProgressFileRecords`: some of the records the snapshot shows -/
  | read (records : List Record)
  | tryLock
  /-- `FileInProgressRecordExists` -/
  | recheck
  | removeRemote
  /-- the final `DeleteInProgressFileRecords` -/
  | finish
  deriving DecidableEq

def rowsOf (rows : List Record) (paths : List Path) : List Record :=
  rows.filter fun r => r.path ∈ paths

/-- A lock that is free or already held by `t`. -/
def State.lockable (t operationId : ℕ) : Prop :=
  s.locks operationId = none ∨ s.locks operationId = some t

instance (s : State) (t operationId : ℕ) : Decidable (s.lockable t operationId) :=
  inferInstanceAs (Decidable (_ ∨ _))

def State.releaseLocks : State :=
  { s with locks := fun operationId =>
      if s.locks operationId = some t then none else s.locks operationId }

/-- `InsertInProgressFileRecordExtended`.  The path is the primary key of the table. -/
def insertRecord (path : Path) (isPrefix autoDeleteRecord : Bool) : Option State :=
  let x := s.txns t
  -- `GetTransactionOperationId`
  let operationId := x.operationId.getD s.nextOperationId
  let nextOperationId := if x.operationId = none then s.nextOperationId + 1 else s.nextOperationId
  if s.lockable t operationId ∧ ∀ r ∈ s.table, r.path ≠ path then
    let r : Record := ⟨path, operationId, isPrefix⟩
    let s := { s with
      table := s.table ++ [r]
      locks := Function.update s.locks operationId (some t)
      nextOperationId := nextOperationId }
    let x := { x with operationId := some operationId, recorded := x.recorded ++ [r] }
    let deletes := if autoDeleteRecord then rowsOf (s.visible t) [path] else []
    some (s.setTxn t { x with deletes := x.deletes ++ deletes })
  else none

def State.prefixRows (prefixPath : Path) : List Record :=
  (rowsOf (s.visible t) [prefixPath]).filter Record.isPrefix

def fullPathRows (rows : List Record) (fullPaths : List Path) : List Record :=
  rows.flatMap fun row => fullPaths.map fun p => ⟨p, row.operationId, false⟩

/-- `ReplaceInProgressPrefixPathWithFullPaths`. -/
def replacePrefix (prefixPath : Path) (fullPaths : List Path) : State :=
  let x := s.txns t
  let rows := s.prefixRows t prefixPath
  let new := fullPathRows rows fullPaths
  s.setTxn t { x with
    deletes := x.deletes ++ rows
    inserts := x.inserts ++ new
    recorded := x.recorded ++ new }

/-- One action of transaction `t`; `none` where it is not possible. -/
def step : ℕ × Action → Option State
  | (t, action) =>
    let x := s.txns t
    match x.phase, x.stage, action with
    | .active, .idle, .insert path isPrefix autoDeleteRecord =>
      insertRecord s t path isPrefix autoDeleteRecord
    | .active, .idle, .replace prefixPath fullPaths =>
      let rows := s.prefixRows t prefixPath
      let new := (fullPathRows rows fullPaths).map Record.path
      -- the primary key
      if new.Nodup ∧ ∀ r ∈ s.visible t, r ∈ rows ∨ r.path ∉ new then
        some (replacePrefix s t prefixPath fullPaths)
      else none
    | .active, .idle, .deleteRecords paths =>
      some (s.setTxn t { x with deletes := x.deletes ++ rowsOf (s.visible t) paths })
    | .active, .idle, .commit =>
      let table := s.visible t
      some ({ s with table := table }.setTxn t { x with
        phase := .committing
        inserts := []
        deletes := []
        left := table })
    | .committing, .idle, .release => some ((s.releaseLocks t).setTxn t { x with phase := .committed })
    | .active, _, .abort =>
      some ((s.releaseLocks t).setTxn t { x with
        phase := .aborted
        inserts := []
        deletes := []
        stage := .idle })
    | .active, .idle, .takeSnapshot => some (s.setTxn t { x with snapshot := s.table })
    | .active, .idle, .read records =>
      if ∀ r ∈ records, r ∈ x.snapshot ++ x.inserts ∧ r ∉ x.deletes then
        some (s.setTxn t { x with stage := .looping, todo := records, removed := [] })
      else none
    | .active, .looping, .tryLock =>
      match x.todo with
      | [] => none
      | r :: rest =>
        if s.lockable t r.operationId then
          some ({ s with locks := Function.update s.locks r.operationId (some t) }.setTxn t
            { x with stage := .locked r, todo := rest })
        else some (s.setTxn t { x with todo := rest })
    | .active, .locked r, .recheck =>
      if ∃ row ∈ s.visible t, row.path = r.path then
        some (s.setTxn t { x with stage := .found r })
      else some (s.setTxn t { x with stage := .looping })
    | .active, .found r, .removeRemote =>
      some (s.setTxn t { x with stage := .looping, removed := x.removed ++ [r.path] })
    | .active, .looping, .finish =>
      if x.todo = [] then
        some (s.setTxn t { x with
          stage := .idle
          deletes := x.deletes ++ rowsOf (s.visible t) x.removed })
      else none
    | _, _, _ => none

/-! ## Safety -/

/-- The transaction has ended without committing the file: it aborted, or a record of the file was
    left in the table by its commit. -/
def EndedWithout (file : Path) : Prop :=
  x.phase = .aborted ∨ x.phase = .committed ∧ ∃ r ∈ x.recorded, r ∈ x.left ∧ r.covers file

/-- A file is removed only if every transaction that recorded it has ended without committing it. -/
def SafeStep : ℕ × Action → Prop
  | (t, .removeRemote) => ∀ r, (s.txns t).stage = .found r → ∀ file, r.covers file →
    ∀ t', (∃ r' ∈ (s.txns t').recorded, r'.covers file) → EndedWithout (s.txns t') file
  | _ => True

def Record.Meets (r r' : Record) : Prop :=
  r.path = r'.path ∨ ∃ file, r.covers file ∧ r'.covers file

/-- A step that keeps cleanup safe: paths are recorded once and do not lie below one another, a
    prefix is replaced by new paths below it in the transaction that recorded it, and a cleaner
    leaves out the records of its own transaction. -/
def Careful : ℕ × Action → Prop
  | (_, .insert path isPrefix _) => ∀ t' r', r' ∈ (s.txns t').recorded →
    ∀ operationId, ¬ Record.Meets ⟨path, operationId, isPrefix⟩ r'
  | (t, .replace prefixPath fullPaths) =>
    (∀ p ∈ fullPaths, prefixPath ++ ['/'] <+: p ∧
      ∀ t' r', r' ∈ (s.txns t').recorded → r'.path ≠ p) ∧
    ∀ r ∈ s.visible t, r.path = prefixPath → r ∈ (s.txns t).recorded
  | (t, .tryLock) => ∀ r, (s.txns t).todo.head? = some r →
    (s.txns t).operationId ≠ some r.operationId
  | _ => True

/-! ## The invariant -/

def Stage.record? : Stage → Option Record
  | .locked r | .found r => some r
  | _ => none

def Txn.Running : Prop := x.phase = .active ∨ x.phase = .committing

def EndedWith (r : Record) : Prop :=
  x.phase = .aborted ∨ x.phase = .committed ∧ r ∈ x.left

/-- Operation ids and recorded paths belong to one transaction each. -/
structure Owners (s : State) : Prop where
  id_lt : ∀ {t i}, (s.txns t).operationId = some i → i < s.nextOperationId
  id_inj : ∀ {t t' i}, (s.txns t).operationId = some i → (s.txns t').operationId = some i → t = t'
  recorded_id : ∀ {t r}, r ∈ (s.txns t).recorded → (s.txns t).operationId = some r.operationId
  meets : ∀ {t t' r r'}, r ∈ (s.txns t).recorded → r' ∈ (s.txns t').recorded → r.Meets r' → t = t'
  path_inj : ∀ {t r r'}, r ∈ (s.txns t).recorded → r' ∈ (s.txns t).recorded → r.path = r'.path →
    r = r'

def State.Recorded (r : Record) : Prop := ∃ t, r ∈ (s.txns t).recorded

def Txn.Reads (r : Record) : Prop :=
  r ∈ x.snapshot ∨ r ∈ x.todo ∨ x.stage.record? = some r

structure Inv (s : State) : Prop where
  owners : Owners s
  table_recorded : ∀ {r}, r ∈ s.table → s.Recorded r
  reads_recorded : ∀ {t r}, (s.txns t).Reads r → s.Recorded r
  inserts_recorded : ∀ {t r}, r ∈ (s.txns t).inserts → r ∈ (s.txns t).recorded
  /-- a running transaction holds the lock on its operation id -/
  locks_own : ∀ {t i}, (s.txns t).Running → (s.txns t).operationId = some i → s.locks i = some t
  /-- a cleaner holds the lock on the operation id of another transaction -/
  locks_cleaned : ∀ {t r}, (s.txns t).stage.record? = some r →
    s.locks r.operationId = some t ∧ (s.txns t).operationId ≠ some r.operationId
  found_ended : ∀ {t t' r}, (s.txns t).stage = .found r → r ∈ (s.txns t').recorded →
    EndedWith (s.txns t') r
  table_left : ∀ {t r}, (s.txns t).phase = .committing ∨ (s.txns t).phase = .committed →
    r ∈ s.table → r ∈ (s.txns t).recorded → r ∈ (s.txns t).left

theorem Record.Meets.symm {r r' : Record} (h : r.Meets r') : r'.Meets r := by
  rcases h with hp | ⟨f, hr, hr'⟩
  · exact .inl hp.symm
  · exact .inr ⟨f, hr', hr⟩

theorem Inv.eq_of_recorded {s : State} (h : Inv s) {t t' : ℕ} {r r' : Record}
    (hr : r ∈ (s.txns t).recorded) (hr' : r' ∈ (s.txns t').recorded) (hp : r.path = r'.path) :
    t = t' ∧ r = r' := by
  obtain rfl := h.owners.meets hr hr' (.inl hp)
  exact ⟨rfl, h.owners.path_inj hr hr' hp⟩

variable {r : Record}

theorem Inv.not_running {s : State} (h : Inv s) {t t' : ℕ}
    (hst : (s.txns t).stage.record? = some r) (hr : r ∈ (s.txns t').recorded) :
    t' ≠ t ∧ ¬ (s.txns t').Running := by
  obtain ⟨hl, hne⟩ := h.locks_cleaned hst
  have hid := h.owners.recorded_id hr
  have htt' : t' ≠ t := by
    rintro rfl
    exact hne hid
  refine ⟨htt', ?_⟩
  intro hru
  have hown := h.locks_own hru hid
  rw [hl] at hown
  exact htt' (Option.some.inj hown).symm

open Transition

section Update
variable {s s' : State} {t} {x}

theorem Owners.update (h : Owners s) (htx : s'.txns = Function.update s.txns t x)
    (hn : s.nextOperationId ≤ s'.nextOperationId) (hid : ∀ i, x.operationId = some i →
      i < s'.nextOperationId ∧ ∀ t', t' ≠ t → (s.txns t').operationId ≠ some i)
    (hre : ∀ r ∈ x.recorded, x.operationId = some r.operationId)
    (hm : ∀ r ∈ x.recorded, ∀ t', t' ≠ t → ∀ r' ∈ (s.txns t').recorded, ¬ r.Meets r')
    (hp : ∀ r ∈ x.recorded, ∀ r' ∈ x.recorded, r.path = r'.path → r = r') : Owners s' := by
  have hc := update_cases htx
  constructor
  · intro t' i hi
    obtain ⟨rfl, heq⟩ | ⟨htt', heq⟩ := hc t' <;> rw [heq] at hi
    · exact (hid i hi).1
    · exact lt_of_lt_of_le (h.id_lt hi) hn
  · intro t₁ t₂ i h₁ h₂
    obtain ⟨rfl, heq₁⟩ | ⟨ht₁, heq₁⟩ := hc t₁ <;>
      obtain ⟨ht₂, heq₂⟩ | ⟨ht₂, heq₂⟩ := hc t₂ <;> rw [heq₁] at h₁ <;> rw [heq₂] at h₂
    · exact ht₂.symm
    · exact absurd h₂ ((hid i h₁).2 t₂ ht₂)
    · exact absurd h₁ ((hid i h₂).2 t₁ ht₁)
    · exact h.id_inj h₁ h₂
  · intro t' r hr
    obtain ⟨rfl, heq⟩ | ⟨htt', heq⟩ := hc t' <;> rw [heq] at hr ⊢
    · exact hre r hr
    · exact h.recorded_id hr
  · intro t₁ t₂ r r' hr hr' hrr'
    obtain ⟨rfl, heq₁⟩ | ⟨ht₁, heq₁⟩ := hc t₁ <;>
      obtain ⟨ht₂, heq₂⟩ | ⟨ht₂, heq₂⟩ := hc t₂ <;> rw [heq₁] at hr <;> rw [heq₂] at hr'
    · exact ht₂.symm
    · exact absurd hrr' (hm r hr t₂ ht₂ r' hr')
    · exact absurd hrr'.symm (hm r' hr' t₁ ht₁ r hr)
    · exact h.meets hr hr' hrr'
  · intro t' r r' hr hr'
    obtain ⟨rfl, heq⟩ | ⟨htt', heq⟩ := hc t' <;> rw [heq] at hr hr'
    · exact hp r hr r' hr'
    · exact h.path_inj hr hr'

theorem Owners.congr (h : Owners s) (ht : s'.txns = Function.update s.txns t x)
    (hn : s'.nextOperationId = s.nextOperationId)
    (hid : x.operationId = (s.txns t).operationId) (hrec : x.recorded = (s.txns t).recorded) :
    Owners s' := by
  refine h.update ht hn.ge ?_ ?_ ?_ ?_
  · rw [hid, hn]
    exact fun i hi => ⟨h.id_lt hi, fun t' htt' hi' => htt' (h.id_inj hi' hi)⟩
  · rw [hid, hrec]
    exact fun r hr => h.recorded_id hr
  · rw [hrec]
    exact fun r hr t' htt' r' hr' hrr' => htt' (h.meets hr hr' hrr').symm
  · rw [hrec]
    exact fun r hr r' hr' => h.path_inj hr hr'

/-- **What a step of one running transaction has to keep.** -/
theorem Inv.update (h : Inv s) (hru : (s.txns t).Running)
    (ht : s'.txns = Function.update s.txns t x) (how : Owners s')
    (hrecorded : (s.txns t).recorded ⊆ x.recorded)
    (htbl : ∀ r ∈ s'.table, r ∈ s.table ∨ r ∈ x.recorded) (hreads : ∀ r, x.Reads r → s.Recorded r)
    (hinserts : x.inserts ⊆ x.recorded)
    (hl : ∀ i t', t' ≠ t → s.locks i = some t' → s'.locks i = some t')
    (hown : x.Running → ∀ i, x.operationId = some i → s'.locks i = some t)
    (hcl : ∀ r, x.stage.record? = some r →
      s'.locks r.operationId = some t ∧ x.operationId ≠ some r.operationId)
    (hf : ∀ t' r, x.stage = .found r → t' ≠ t → r ∈ (s.txns t').recorded →
      EndedWith (s.txns t') r)
    (hle : x.phase = .committing ∨ x.phase = .committed →
      ∀ r ∈ s'.table, r ∈ x.recorded → r ∈ x.left) : Inv s' := by
  have hc := update_cases ht
  have hs : s'.txns t = x := by rw [ht, update_self]
  have hm : ∀ {r}, s.Recorded r → s'.Recorded r := by
    rintro r ⟨t', hr⟩
    refine ⟨t', ?_⟩
    obtain ⟨rfl, heq⟩ | ⟨htt', heq⟩ := hc t' <;> rw [heq]
    · exact hrecorded hr
    · exact hr
  constructor
  · exact how
  · intro r hr
    rcases htbl r hr with hr | hr
    · exact hm (h.table_recorded hr)
    · exact ⟨t, hs ▸ hr⟩
  · intro t' r hr
    obtain ⟨rfl, heq⟩ | ⟨htt', heq⟩ := hc t' <;> rw [heq] at hr
    · exact hm (hreads r hr)
    · exact hm (h.reads_recorded hr)
  · intro t' r hr
    obtain ⟨rfl, heq⟩ | ⟨htt', heq⟩ := hc t' <;> rw [heq] at hr ⊢
    · exact hinserts hr
    · exact h.inserts_recorded hr
  · intro t' i hrun hi
    obtain ⟨rfl, heq⟩ | ⟨htt', heq⟩ := hc t' <;> rw [heq] at hrun hi
    · exact hown hrun i hi
    · exact hl i t' htt' (h.locks_own hrun hi)
  · intro t' r hr
    obtain ⟨rfl, heq⟩ | ⟨htt', heq⟩ := hc t' <;> rw [heq] at hr ⊢
    · exact hcl r hr
    · exact ⟨hl _ t' htt' (h.locks_cleaned hr).1, (h.locks_cleaned hr).2⟩
  · intro c o r hst hr
    obtain ⟨rfl, heq⟩ | ⟨hct, heq⟩ := hc c <;> rw [heq] at hst
    · -- the record belongs to another transaction, which this step does not change
      obtain ⟨rfl, heq'⟩ | ⟨hoc, heq'⟩ := hc o
      · have hid := how.recorded_id hr
        rw [heq] at hid
        exact absurd hid (hcl r (by rw [hst]; rfl)).2
      · rw [heq'] at hr ⊢
        exact hf o r hst hoc hr
    · -- the owner has ended, so it is not the transaction of this step
      have hre : (s.txns c).stage.record? = some r := by
        rw [hst]
        rfl
      obtain ⟨o', ho'⟩ := h.reads_recorded (.inr (.inr hre))
      obtain ⟨rfl, -⟩ | ⟨ho't, heq'⟩ := hc o'
      · exact absurd hru (h.not_running hre ho').2
      · obtain rfl : o = o' := how.meets hr (by rwa [heq']) (.inl rfl)
        rw [heq']
        exact h.found_ended hst ho'
  · intro t' r hp hr hrec
    obtain ⟨rfl, heq⟩ | ⟨htt', heq⟩ := hc t'
    · rw [heq] at hp hrec ⊢
      exact hle hp r hr hrec
    · rcases htbl r hr with hr | hr
      · rw [heq] at hp hrec ⊢
        exact h.table_left hp hr hrec
      · exact absurd (how.meets hrec (by rwa [hs]) (.inl rfl)) htt'

theorem Inv.update_quiet (h : Inv s) (hact : (s.txns t).phase = .active)
    (hp : x.phase = .active) (hid : x.operationId = (s.txns t).operationId)
    (hrec : x.recorded = (s.txns t).recorded) (hins : x.inserts = (s.txns t).inserts)
    (hre : ∀ r, x.Reads r → s.Recorded r)
    (hcl : ∀ r, x.stage.record? = some r → (s.txns t).stage.record? = some r)
    (hf : ∀ t' r, x.stage = .found r → t' ≠ t → r ∈ (s.txns t').recorded →
      EndedWith (s.txns t') r) : Inv (s.setTxn t x) := by
  refine h.update (.inl hact) rfl (h.owners.congr rfl rfl hid hrec) ?_ ?_ hre ?_ ?_ ?_ ?_
    hf ?_
  · rw [hrec]
    exact fun r hr => hr
  · exact fun r hr => .inl hr
  · rw [hins, hrec]
    exact fun r hr => h.inserts_recorded hr
  · exact fun i t' _ hi => hi
  · intro _ i hi
    exact h.locks_own (.inl hact) (hid ▸ hi)
  · intro r hr
    rw [hid]
    exact h.locks_cleaned (hcl r hr)
  · rw [hp]
    rintro (hc | hc) <;> cases hc

theorem Inv.update_leave (h : Inv s) (hact : (s.txns t).phase = .active)
    (hp : x.phase = .active) (hid : x.operationId = (s.txns t).operationId)
    (hrec : x.recorded = (s.txns t).recorded) (hins : x.inserts = (s.txns t).inserts)
    (hsn : x.snapshot = (s.txns t).snapshot) (ht : x.todo ⊆ (s.txns t).todo)
    (hst : x.stage.record? = none) : Inv (s.setTxn t x) := by
  refine h.update_quiet hact hp hid hrec hins ?_ ?_ ?_
  · rintro r (hr | hr | hr)
    · exact h.reads_recorded (.inl (hsn ▸ hr))
    · exact h.reads_recorded (.inr (.inl (ht hr)))
    · rw [hst] at hr
      cases hr
  · intro r hr
    rw [hst] at hr
    cases hr
  · intro t' r hr
    rw [hr] at hst
    cases hst

end Update

/-! ## Steps -/

theorem mem_visible {s : State} {t : ℕ} (h : r ∈ s.visible t) :
    r ∈ s.table ∨ r ∈ (s.txns t).inserts := by
  exact mem_append.mp (mem_filter.mp h).1

section Step
variable {s s' : State} {t}

theorem Inv.visible_recorded (h : Inv s) (hr : r ∈ s.visible t) :
    r ∈ s.table ∨ r ∈ (s.txns t).recorded := by
  rcases mem_visible hr with hr | hr
  · exact .inl hr
  · exact .inr (h.inserts_recorded hr)

theorem releaseLocks_locks {i t' : ℕ} (htt' : t' ≠ t) (hi : s.locks i = some t') :
    (s.releaseLocks t).locks i = some t' := by
  show (if s.locks i = some t then none else s.locks i) = some t'
  rw [if_neg, hi]
  rw [hi]
  exact fun heq => htt' (Option.some.inj heq)

theorem lock_locks {i j t' : ℕ} (hl : s.lockable t i) (htt' : t' ≠ t)
    (hj : s.locks j = some t') : Function.update s.locks i (some t) j = some t' := by
  have hji : j ≠ i := by
    rintro rfl
    rcases hl with hf | hh
    · rw [hf] at hj
      cases hj
    · rw [hh] at hj
      exact htt' (Option.some.inj hj).symm
  rwa [update_of_ne hji]

theorem Inv.insertRecord (h : Inv s) {p : Path} {isPrefix autoDelete : Bool}
    (hact : (s.txns t).phase = .active) (hidle : (s.txns t).stage = .idle)
    (hc : Careful s (t, .insert p isPrefix autoDelete))
    (hs : insertRecord s t p isPrefix autoDelete = some s') : Inv s' := by
  unfold Cleanup.insertRecord at hs
  dsimp only at hs
  split at hs
  case isFalse => cases hs
  case isTrue hg =>
    obtain ⟨hl, -⟩ := hg
    obtain rfl := (Option.some.inj hs).symm
    set i := (s.txns t).operationId.getD s.nextOperationId with hi
    -- the id is new, or it was the transaction's before
    have hid : (s.txns t).operationId = some i ∨
        (s.txns t).operationId = none ∧ i = s.nextOperationId := by
      cases hop : (s.txns t).operationId with
      | none => exact .inr ⟨rfl, by rw [hi, hop]; rfl⟩
      | some j => exact .inl (by rw [hi, hop]; rfl)
    have hne : i < (if (s.txns t).operationId = none then s.nextOperationId + 1
        else s.nextOperationId) ∧ ∀ t', t' ≠ t → (s.txns t').operationId ≠ some i := by
      rcases hid with hid | ⟨hn, hi⟩
      · rw [if_neg (by rw [hid]; exact nofun)]
        exact ⟨h.owners.id_lt hid, fun t' htt' hi' => htt' (h.owners.id_inj hi' hid)⟩
      · rw [if_pos hn, hi]
        refine ⟨Nat.lt_succ_self _, fun t' _ hi' => ?_⟩
        exact absurd (h.owners.id_lt hi') (lt_irrefl _)
    have hold : ∀ r ∈ (s.txns t).recorded, some i = some r.operationId := by
      intro r hr
      have hr := h.owners.recorded_id hr
      rcases hid with hid | ⟨hn, -⟩
      · rw [← hr, hid]
      · rw [hn] at hr
        cases hr
    refine h.update (.inl hact) rfl (h.owners.update rfl ?_ ?_ ?_ ?_ ?_) ?_ ?_ ?_ ?_ ?_ ?_ ?_ ?_
      ?_
    · show s.nextOperationId ≤ if (s.txns t).operationId = none then s.nextOperationId + 1
        else s.nextOperationId
      split <;> omega
    · intro j hj
      cases hj
      exact hne
    · intro r hr
      rcases mem_append.mp hr with hr | hr
      · exact hold r hr
      · rw [mem_singleton.mp hr]
    · intro r hr t' htt' r' hr' hm
      rcases mem_append.mp hr with hr | hr
      · exact htt' (h.owners.meets hr hr' hm).symm
      · rw [mem_singleton.mp hr] at hm
        exact hc t' r' hr' i hm
    · intro r hr r' hr' hp
      rcases mem_append.mp hr with hr | hr <;> rcases mem_append.mp hr' with hr' | hr'
      · exact h.owners.path_inj hr hr' hp
      · rw [mem_singleton.mp hr'] at hp
        exact absurd (.inl hp.symm) (hc t r hr i)
      · rw [mem_singleton.mp hr] at hp
        exact absurd (.inl hp) (hc t r' hr' i)
      · rw [mem_singleton.mp hr, mem_singleton.mp hr']
    · exact fun r hr => mem_append_left _ hr
    · intro r hr
      rcases mem_append.mp hr with hr | hr
      · exact .inl hr
      · exact .inr (mem_append_right _ hr)
    · exact fun r hr => h.reads_recorded (t := t) hr
    · exact fun r hr => mem_append_left _ (h.inserts_recorded hr)
    · exact fun j t' htt' hj => lock_locks hl htt' hj
    · intro _ j hj
      cases hj
      exact update_self ..
    · intro r hr
      change (s.txns t).stage.record? = some r at hr
      rw [hidle] at hr
      cases hr
    · intro t' r hr
      change (s.txns t).stage = .found r at hr
      rw [hidle] at hr
      cases hr
    · rintro (hph | hph) <;> cases hact.symm.trans hph

theorem Record.Meets.of_below {p q : Path} {i j : ℕ} (hp : q ++ ['/'] <+: p)
    (h : Record.Meets ⟨p, i, false⟩ r) : Record.Meets ⟨q, j, true⟩ r := by
  rcases h with hpa | ⟨f, hf, hr⟩
  · -- the same path: the prefix covers a file of `r`
    change p = r.path at hpa
    refine .inr ⟨if r.isPrefix then p ++ ['/'] else p, ?_, ?_⟩
    · split
      · exact hp.trans (prefix_append _ _)
      · exact hp
    · unfold Record.covers
      split
      · rw [hpa]
      · exact hpa
  · obtain rfl : f = p := hf
    exact .inr ⟨f, hp, hr⟩

theorem mem_prefixRows {prefixPath : Path} {r : Record} : r ∈ s.prefixRows t prefixPath ↔
      r ∈ s.visible t ∧ r.path = prefixPath ∧ r.isPrefix = true := by
  simp only [State.prefixRows, rowsOf, mem_filter, mem_singleton, decide_eq_true_eq, and_assoc]

theorem mem_fullPathRows {rs : List Record} {fullPaths : List Path} :
    r ∈ fullPathRows rs fullPaths ↔
      ∃ row ∈ rs, ∃ p ∈ fullPaths, (⟨p, row.operationId, false⟩ : Record) = r := by
  simp [fullPathRows]

theorem Inv.replacePrefix (h : Inv s) {prefixPath : Path} {fullPaths : List Path}
    (hact : (s.txns t).phase = .active)
    (hc : Careful s (t, .replace prefixPath fullPaths)) :
    Inv (replacePrefix s t prefixPath fullPaths) := by
  obtain ⟨hb, hown⟩ := hc
  -- a new row takes the operation id of a prefix row of the same transaction
  have hnew : ∀ {r}, r ∈ fullPathRows (s.prefixRows t prefixPath) fullPaths →
      ∃ row ∈ (s.txns t).recorded, row = ⟨prefixPath, r.operationId, true⟩ ∧
        r = ⟨r.path, r.operationId, false⟩ ∧ prefixPath ++ ['/'] <+: r.path ∧
          ∀ t' r', r' ∈ (s.txns t').recorded → r'.path ≠ r.path := by
    intro r hr
    obtain ⟨row, hrow, p, hp, rfl⟩ := mem_fullPathRows.mp hr
    obtain ⟨hvisible, hpa, hpr⟩ := mem_prefixRows.mp hrow
    refine ⟨row, hown row hvisible hpa, ?_, rfl, hb p hp⟩
    rcases row with ⟨q, i, b⟩
    obtain rfl : q = prefixPath := hpa
    obtain rfl : b = true := hpr
    rfl
  refine h.update (.inl hact) rfl (h.owners.update rfl le_rfl ?_ ?_ ?_ ?_) ?_ ?_ ?_ ?_ ?_ ?_ ?_
    ?_ ?_
  · exact fun i hi => ⟨h.owners.id_lt hi, fun t' htt' hi' => htt' (h.owners.id_inj hi' hi)⟩
  · intro r hr
    rcases mem_append.mp hr with hr | hr
    · exact h.owners.recorded_id hr
    · obtain ⟨row, hrow, rfl, -⟩ := hnew hr
      have hid := h.owners.recorded_id hrow
      exact hid
  · intro r hr t' htt' r' hr' hm
    rcases mem_append.mp hr with hr | hr
    · exact htt' (h.owners.meets hr hr' hm).symm
    · obtain ⟨row, hrow, rfl, hr, hpr, -⟩ := hnew hr
      rw [hr] at hm
      exact htt' (h.owners.meets hrow hr' (hm.of_below hpr)).symm
  · intro r hr r' hr' hpa
    rcases mem_append.mp hr with hr | hr <;> rcases mem_append.mp hr' with hr' | hr'
    · exact h.owners.path_inj hr hr' hpa
    · obtain ⟨-, -, -, -, -, hf⟩ := hnew hr'
      exact absurd hpa (hf t r hr)
    · obtain ⟨-, -, -, -, -, hf⟩ := hnew hr
      exact absurd hpa.symm (hf t r' hr')
    · obtain ⟨row, hrow, hrow_eq, hr_eq, -⟩ := hnew hr
      obtain ⟨row', hrow', hrow_eq', hr_eq', -⟩ := hnew hr'
      have hrs := h.owners.path_inj hrow hrow' (by rw [hrow_eq, hrow_eq'])
      have hid : r.operationId = r'.operationId := by
        rw [hrow_eq, hrow_eq'] at hrs
        exact (Record.mk.inj hrs).2.1
      rw [hr_eq, hr_eq', hpa, hid]
  · exact fun r hr => mem_append_left _ hr
  · exact fun r hr => .inl hr
  · exact fun r hr => h.reads_recorded (t := t) hr
  · intro r hr
    rcases mem_append.mp hr with hr | hr
    · exact mem_append_left _ (h.inserts_recorded hr)
    · exact mem_append_right _ hr
  · exact fun i t' _ hi => hi
  · exact fun _ i hi => h.locks_own (.inl hact) hi
  · exact fun r hr => h.locks_cleaned hr
  · exact fun t' r hr _ hr' => h.found_ended hr hr'
  · rintro (hph | hph) <;> cases hact.symm.trans hph

theorem Inv.commit (h : Inv s) (hact : (s.txns t).phase = .active) :
    Inv ({ s with table := s.visible t }.setTxn t { s.txns t with
      phase := .committing, inserts := [], deletes := [], left := s.visible t }) := by
  refine h.update (.inl hact) rfl (h.owners.congr rfl rfl rfl rfl) ?_ ?_ ?_ ?_ ?_ ?_ ?_ ?_ ?_
  · exact fun r hr => hr
  · exact fun r hr => h.visible_recorded hr
  · exact fun r hr => h.reads_recorded (t := t) hr
  · exact fun r hr => nomatch hr
  · exact fun i t' _ hi => hi
  · exact fun _ i hi => h.locks_own (.inl hact) hi
  · exact fun r hr => h.locks_cleaned hr
  · exact fun t' r hr _ hr' => h.found_ended hr hr'
  · exact fun _ r hr _ => hr

theorem Inv.release (h : Inv s) (hp : (s.txns t).phase = .committing)
    (hid : (s.txns t).stage = .idle) :
    Inv ((s.releaseLocks t).setTxn t { s.txns t with phase := .committed }) := by
  refine h.update (.inr hp) rfl (h.owners.congr rfl rfl rfl rfl) ?_ ?_ ?_ ?_ ?_ ?_ ?_ ?_ ?_
  · exact fun r hr => hr
  · exact fun r hr => .inl hr
  · exact fun r hr => h.reads_recorded (t := t) hr
  · exact fun r hr => h.inserts_recorded hr
  · exact fun i t' htt' hi => releaseLocks_locks htt' hi
  · rintro (hc | hc) <;> cases hc
  · intro r hr
    rw [hid] at hr
    cases hr
  · exact fun t' r hr _ hr' => h.found_ended hr hr'
  · exact fun _ r hr hrec => h.table_left (.inl hp) hr hrec

theorem Inv.abort (h : Inv s) (hact : (s.txns t).phase = .active) :
    Inv ((s.releaseLocks t).setTxn t { s.txns t with
      phase := .aborted, inserts := [], deletes := [], stage := .idle }) := by
  refine h.update (.inl hact) rfl (h.owners.congr rfl rfl rfl rfl) ?_ ?_ ?_ ?_ ?_ ?_ ?_ ?_ ?_
  · exact fun r hr => hr
  · exact fun r hr => .inl hr
  · rintro r (hr | hr | hr)
    · exact h.reads_recorded (.inl hr)
    · exact h.reads_recorded (.inr (.inl hr))
    · cases hr
  · exact fun r hr => nomatch hr
  · exact fun i t' htt' hi => releaseLocks_locks htt' hi
  · rintro (hc | hc) <;> cases hc
  · exact fun r hr => nomatch hr
  · exact fun t' r hr => nomatch hr
  · rintro (hc | hc) <;> cases hc

theorem Inv.lock (h : Inv s) {rest : List Record} (hact : (s.txns t).phase = .active)
    (ht : (s.txns t).todo = r :: rest) (hl : s.lockable t r.operationId)
    (hne : (s.txns t).operationId ≠ some r.operationId) :
    Inv ({ s with locks := Function.update s.locks r.operationId (some t) }.setTxn t
      { s.txns t with stage := .locked r, todo := rest }) := by
  refine h.update (.inl hact) rfl (h.owners.congr rfl rfl rfl rfl) ?_ ?_ ?_ ?_ ?_ ?_ ?_ ?_ ?_
  · exact fun r hr => hr
  · exact fun r hr => .inl hr
  · rintro r' (hr' | hr' | hr')
    · exact h.reads_recorded (.inl hr')
    · exact h.reads_recorded (t := t) (.inr (.inl (ht ▸ mem_cons_of_mem r hr')))
    · cases hr'
      exact h.reads_recorded (t := t) (.inr (.inl (ht ▸ mem_cons_self)))
  · exact fun r hr => h.inserts_recorded hr
  · exact fun i t' htt' hi => lock_locks hl htt' hi
  · intro _ i hi
    have hir : i ≠ r.operationId := by
      rintro rfl
      exact hne hi
    exact (update_of_ne hir _ _).trans (h.locks_own (.inl hact) hi)
  · intro r' hr'
    cases hr'
    exact ⟨update_self .., hne⟩
  · exact fun t' r hr => nomatch hr
  · rintro (hc | hc)
    iterate 2 exact absurd (hact.symm.trans hc) nofun

theorem Inv.ended_of_found (h : Inv s) {r row : Record}
    (hst : (s.txns t).stage = .locked r) (hrow : row ∈ s.visible t) (hp : row.path = r.path)
    {t' : ℕ} (hr : r ∈ (s.txns t').recorded) : EndedWith (s.txns t') r := by
  obtain ⟨htt', hnot⟩ := h.not_running (t := t) (by rw [hst]; rfl) hr
  cases hph : (s.txns t').phase with
  | active => exact absurd (.inl hph) hnot
  | committing => exact absurd (.inr hph) hnot
  | aborted => exact .inl hph
  | committed =>
    -- the row is not one the cleaner has inserted: it has the path of another's record
    refine .inr ⟨hph, h.table_left (.inr hph) ?_ hr⟩
    rcases h.visible_recorded hrow with hrow | hrow
    · obtain ⟨t'', hrow'⟩ := h.table_recorded hrow
      obtain ⟨-, rfl⟩ := h.eq_of_recorded hrow' hr hp
      exact hrow
    · exact absurd (h.eq_of_recorded hrow hr hp).1.symm htt'

/-- **A careful step keeps the invariant.** -/
theorem Inv.step {e : ℕ × Action} (h : Inv s) (hc : Careful s e)
    (hs : step s e = some s') : Inv s' := by
  obtain ⟨t, action⟩ := e
  unfold Cleanup.step at hs
  dsimp only at hs
  split at hs
  next hact hi => exact h.insertRecord hact hi hc hs
  next hact _ =>
    split at hs
    · cases hs
      exact h.replacePrefix hact hc
    · cases hs
  next hact hi =>
    cases hs
    exact h.update_quiet hact hact rfl rfl rfl (fun r hr => h.reads_recorded (t := t) hr)
      (fun r hr => hr) (fun t' r hr _ hr' => h.found_ended hr hr')
  next hact _ =>
    cases hs
    exact h.commit hact
  next hph hi =>
    cases hs
    exact h.release hph hi
  next hact =>
    cases hs
    exact h.abort hact
  next hact hi =>
    cases hs
    refine h.update_quiet hact hact rfl rfl rfl ?_ (fun r hr => hr)
      (fun t' r hr _ hr' => h.found_ended hr hr')
    rintro r (hr | hr)
    · exact h.table_recorded hr
    · exact h.reads_recorded (t := t) (.inr hr)
  next hact hi =>
    split at hs
    next hre =>
      cases hs
      refine h.update_quiet hact hact rfl rfl rfl ?_ (fun r hr => nomatch hr)
        (fun t' r hr => nomatch hr)
      rintro r (hr | hr | hr)
      · exact h.reads_recorded (.inl hr)
      · rcases mem_append.mp (hre r hr).1 with hr | hr
        · exact h.reads_recorded (.inl hr)
        · exact ⟨t, h.inserts_recorded hr⟩
      · cases hr
    next => cases hs
  next hact hl =>
    cases ht : (s.txns t).todo with
    | nil =>
      rw [ht] at hs
      cases hs
    | cons r =>
      rw [ht] at hs
      dsimp only at hs
      split at hs
      next hlockable =>
        cases hs
        exact h.lock hact ht hlockable (hc r (by rw [ht]; rfl))
      next =>
        cases hs
        refine h.update_leave hact hact rfl rfl rfl rfl ?_ ?_
        · exact fun r' hr' => ht ▸ mem_cons_of_mem r hr'
        · exact congrArg Stage.record? hl
  next r hact hlo =>
    have hrec : (s.txns t).stage.record? = some r := by
      rw [hlo]
      rfl
    split at hs
    next hexists =>
      cases hs
      obtain ⟨row, hrow, hp⟩ := hexists
      refine h.update_quiet hact hact rfl rfl rfl ?_ ?_ ?_
      · rintro r' (hr | hr | hr)
        · exact h.reads_recorded (.inl hr)
        · exact h.reads_recorded (t := t) (.inr (.inl hr))
        · exact h.reads_recorded (t := t) (.inr (.inr (hrec.trans hr)))
      · exact fun r' hr => hrec.trans hr
      · intro t' r' hr _ hr'
        obtain rfl := Stage.found.inj hr
        exact h.ended_of_found hlo hrow hp hr'
    next =>
      cases hs
      exact h.update_leave hact hact rfl rfl rfl rfl (fun r' hr' => hr') rfl
  next r hact hf =>
    cases hs
    exact h.update_leave hact hact rfl rfl rfl rfl (fun r' hr' => hr') rfl
  next hact hl =>
    split at hs
    next =>
      cases hs
      exact h.update_leave hact hact rfl rfl rfl rfl (fun r' hr' => hr') rfl
    next => cases hs
  next => cases hs

theorem Inv.safeStep {e : ℕ × Action} (h : Inv s) : SafeStep s e := by
  rcases e with ⟨t, action⟩
  cases action with
  | removeRemote =>
    rintro r hfo f hf t' ⟨r', hr', hf'⟩
    have hrec : (s.txns t).stage.record? = some r := by
      rw [hfo]
      rfl
    obtain ⟨o, ho⟩ := h.reads_recorded (.inr (.inr hrec))
    -- who recorded the file is who made the record
    obtain rfl := h.owners.meets ho hr' (.inr ⟨f, hf, hf'⟩)
    rcases h.found_ended hfo ho with ha | ⟨hc, hl⟩
    · exact .inl ha
    · exact .inr ⟨hc, r, ho, hl, hf⟩
  | _ => trivial

end Step

/-! ## Runs -/

/-- No row, no lock, no transaction. -/
def start : State := {}

theorem inv_start : Inv start := by
  have ho : Owners start := by
    constructor
    iterate 5 exact nofun
  refine ⟨ho, nofun, ?_, nofun, nofun, nofun, nofun, nofun⟩
  rintro t r (hr | hr | hr) <;> cases hr

/-- **Cleanup removes no file in use** in a run in which paths are recorded once and no
    transaction cleans up its own records. -/
theorem cleanup_safe (es : List (ℕ × Action)) (h : Transition.Along step Careful start es) :
    Transition.Along step SafeStep start es :=
  along_of_invariant Inv.step (fun hinv _ => hinv.safeStep) inv_start h

/-- A transaction cleans up what the snapshot shows, one record. -/
def cleanRecord (t : ℕ) (r : Record) : List (ℕ × Action) :=
  [(t, .takeSnapshot), (t, .read [r]), (t, .tryLock), (t, .recheck)]

/-- A writer aborts, and its file is cleaned up. -/
theorem cleanup_safe_aborted :
    (∃ s, run step start ([(0, .insert ['f'] false false), (0, .abort)] ++
      cleanRecord 1 ⟨['f'], 0, false⟩ ++ [(1, .removeRemote)]) = some s ∧
        (s.txns 1).removed = [['f']]) ∧
    Transition.Along step SafeStep start ([(0, .insert ['f'] false false), (0, .abort)] ++
      cleanRecord 1 ⟨['f'], 0, false⟩ ++ [(1, .removeRemote)]) := by
  refine ⟨⟨_, rfl, rfl⟩, cleanup_safe _ ?_⟩
  refine .of_step (fun t r hr => nomatch hr) rfl (.of_step trivial rfl (.of_step trivial rfl
    (.of_step trivial rfl (.of_step ?_ rfl (.of_step trivial rfl (.of_step trivial rfl trivial))))))
  exact fun r _ => nofun

/-- The lock is no obstacle to the transaction that holds it: it removes the file it has recorded,
    and commits it. -/
theorem own_file_removed : (∃ s, run step start ((0, .insert ['f'] false false) ::
      cleanRecord 0 ⟨['f'], 0, false⟩ ++ [(0, .removeRemote), (0, .finish), (0, .commit),
        (0, .release)]) = some s ∧ (s.txns 0).phase = .committed ∧ (s.txns 0).left = []) ∧
    ¬ Transition.Along step SafeStep start ((0, .insert ['f'] false false) ::
      cleanRecord 0 ⟨['f'], 0, false⟩ ++ [(0, .removeRemote), (0, .finish), (0, .commit),
        (0, .release)]) := by
  refine ⟨⟨_, rfl, rfl, rfl⟩, ?_⟩
  intro h
  have hsafe := (h.of_append rfl).1 ⟨['f'], 0, false⟩ rfl ['f'] rfl 0
    ⟨⟨['f'], 0, false⟩, mem_singleton_self _, rfl⟩
  rcases hsafe with haborted | ⟨hcommitted, -⟩
  · cases haborted
  · cases hcommitted

-- The record that is found may be another one of the same path: transaction 1 has read the record
-- of transaction 0 and locks its id, but the path is by now one of transaction 3.
example : ¬ Transition.Along step SafeStep start ([(0, .insert ['f'] false false), (0, .abort),
    (1, .takeSnapshot), (1, .read [⟨['f'], 0, false⟩])] ++ cleanRecord 2 ⟨['f'], 0, false⟩ ++
    [(2, .removeRemote), (2, .finish), (2, .commit), (2, .release),
      (3, .insert ['f'] false false), (1, .tryLock), (1, .recheck)] ++ [(1, .removeRemote)]) := by
  intro h
  have hsafe := (h.of_append rfl).1 ⟨['f'], 0, false⟩ rfl ['f'] rfl 3
    ⟨⟨['f'], 1, false⟩, mem_singleton_self _, rfl⟩
  rcases hsafe with haborted | ⟨hcommitted, -⟩
  · cases haborted
  · cases hcommitted

end PgLake.Cleanup
