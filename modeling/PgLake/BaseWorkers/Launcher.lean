/-
  The base worker launcher (`pg_extension_base/src/base_worker_launcher.c`), for one database.

  Extensions register base workers in a table.  The server starter starts a database starter,
  which reads the table and starts a process for each registered worker.  They meet in shared
  memory: an entry for the database starter, and a hash with an entry for each worker id.
  Transactions that drop an extension or a worker mark the entries for restart and kill the
  processes before they commit, in case they abort.

  `step` is one atomic action of one party: a section under the lock of the shared memory, a
  transaction that reads the catalog, or a signal that takes effect.  SIGTERM sets the flag of a
  database starter at once; a base worker gets to it in a step of its own.

  Main result: `decodeWorkerKey_eq_iff`.
-/
import Mathlib.Data.Int.Notation
import Mathlib.Data.List.Basic

namespace PgLake.BaseWorkers

/-! ## The catalog -/

/-- `BaseWorkerRegistration`, with the extension and the function by OID. -/
structure Registration where
  workerId : ℕ
  extensionId : ℕ
  entryPointFunctionId : ℕ
  deriving DecidableEq

/-- The committed state of the catalog. -/
structure Catalog where
  /-- `pg_extension_base` exists, and with it the table of workers -/
  hasBase : Bool
  extensions : List ℕ
  workers : List Registration
  deriving DecidableEq

/-- What a transaction does to the catalog when it commits. -/
inductive Change where
  | createBase
  /-- with all the extensions that depend on it -/
  | dropBase
  | createExtension (extensionId : ℕ)
  | dropExtension (extensionId : ℕ)
  | register (r : Registration)
  | deregister (workerId : ℕ)
  deriving DecidableEq

def Catalog.apply (c : Catalog) : Change → Catalog
  | .createBase => { c with hasBase := true }
  | .dropBase => ⟨false, [], []⟩
  | .createExtension extensionId => { c with extensions := extensionId :: c.extensions }
  | .dropExtension extensionId =>
    { c with
      extensions := c.extensions.filter (· ≠ extensionId)
      workers := c.workers.filter (·.extensionId ≠ extensionId) }
  | .register r => { c with workers := c.workers ++ [r] }
  | .deregister workerId => { c with workers := c.workers.filter (·.workerId ≠ workerId) }

/-- `GetBaseWorkerRegistrationList`: the rows that join with an extension. -/
def Catalog.registrationList (c : Catalog) : List Registration :=
  c.workers.filter (·.extensionId ∈ c.extensions)

def Catalog.isWorkerRegistered (c : Catalog) (workerId : ℕ) : Bool :=
  c.workers.any (·.workerId = workerId)

/-! ## Shared memory and processes -/

inductive WorkerState where
  | notStarted
  | starting
  | running
  | stopped
  | restarting
  deriving DecidableEq

/-- A PID of 0 is `none`. -/
structure DatabaseStarterEntry where
  workerPid : Option ℕ
  state : WorkerState
  needsRestart : Bool
  deriving DecidableEq

structure BaseWorkerEntry where
  extensionId : ℕ
  entryPointFunctionId : ℕ
  workerPid : Option ℕ
  state : WorkerState
  needsRestart : Bool
  /-- 0 for at once -/
  restartAfter : ℕ
  deriving DecidableEq

def BaseWorkerEntry.isActive (e : BaseWorkerEntry) : Bool :=
  e.workerPid.isSome || e.state = .starting

/-- Where a database starter is in `PgExtensionBaseDatabaseStarterMain`. -/
inductive StarterStage where
  | gone
  /-- before it looks for its entry -/
  | launched
  /-- waits for `LockDatabaseStarter` -/
  | waiting
  /-- saw no base extension, about to call `RemoveBaseWorkerEntriesForDatabase` -/
  | removingAll
  /-- at the head of its loop -/
  | reading
  /-- about to call `RemoveBaseWorkerEntriesNotInRegistrationList` -/
  | removing (registrations : List Registration)
  /-- at the head of the loop of `StartAllBaseWorkers` -/
  | starting (registrations : List Registration) (hasBlocked : Bool)
  /-- `TerminationRequested` was checked, about to call `StartBaseWorker` -/
  | checked (r : Registration) (registrations : List Registration) (hasBlocked : Bool)
  /-- about to call `DatabaseStarterNeedsRestart` -/
  | restarting
  /-- before its exit handler -/
  | exiting (code : ℕ)
  deriving DecidableEq

structure Starter where
  pid : ℕ
  stage : StarterStage
  terminationRequested : Bool
  deriving DecidableEq

/-- Where a base worker is in `PgExtensionBaseWorkerMain`. -/
inductive Stage where
  /-- before it looks for its entry -/
  | launched
  /-- its PID is known, before it looks for its registration -/
  | attached (extensionId entryPointFunctionId : ℕ)
  /-- in the entry point -/
  | running (extensionId entryPointFunctionId : ℕ)
  /-- the entry point returned and wants a restart -/
  | returned (restartDelayMs : ℤ)
  /-- before its exit handler -/
  | exiting (code : ℕ)
  | exited
  deriving DecidableEq

structure Process where
  /-- the worker id in `bgw_main_arg` -/
  workerId : ℕ
  stage : Stage
  /-- SIGTERM was sent -/
  sigterm : Bool
  deriving DecidableEq

/-- `workerKey & 0xFFFF`: the worker id that the process finds in its argument. -/
def Process.key (p : Process) : ℕ := p.workerId % 65536

inductive LockMode where
  | share
  | exclusive
  deriving DecidableEq

structure Txn where
  changes : List Change
  /-- in `DeregisterBaseWorker_internal`, before the entry is marked -/
  deregistering : Option ℕ
  deriving DecidableEq

structure State where
  catalog : Catalog
  nextWorkerId : ℕ
  nextExtensionId : ℕ
  txns : ℕ → Txn
  /-- who holds `LockDatabaseStarter`, until the end of the transaction -/
  locks : List (ℕ × LockMode)
  starterEntry : Option DatabaseStarterEntry
  starter : Starter
  entries : ℕ → Option BaseWorkerEntry
  processes : ℕ → Option Process
  nextPid : ℕ
  now : ℕ

section

variable (s : State)

def State.setStage (stage : StarterStage) : State :=
  { s with starter := { s.starter with stage } }

def State.setEntry (workerId : ℕ) (e : Option BaseWorkerEntry) : State :=
  { s with entries := Function.update s.entries workerId e }

def State.setProcess (pid : ℕ) (p : Process) : State :=
  { s with processes := Function.update s.processes pid (some p) }

/-- `DatabaseStarterNeedsRestart`. -/
def State.starterNeedsRestart : State :=
  { s with starterEntry := s.starterEntry.map fun e => { e with needsRestart := true } }

/-! ## The server starter -/

/-- `StartDatabaseStarter` starts a process. -/
def State.startable : Bool :=
  match s.starterEntry with
  | none => true
  | some e => !e.workerPid.isSome && e.state ≠ .starting && e.needsRestart

/-- `GetOrCreateDatabaseStarterEntry`. -/
def State.getOrCreateStarterEntry : DatabaseStarterEntry :=
  s.starterEntry.getD ⟨none, .notStarted, true⟩

end

variable (registered : Bool) (s : State)

/-- `StartDatabaseStarter`; `registered` is the result of `RegisterDynamicBackgroundWorker`. -/
def startDatabaseStarter : State :=
  if s.startable && registered then
    { s with
      starterEntry := some { s.getOrCreateStarterEntry with needsRestart := false, state := .starting }
      starter := ⟨s.nextPid, .launched, false⟩
      nextPid := s.nextPid + 1 }
  else { s with starterEntry := some s.getOrCreateStarterEntry }

/-! ## The database starter -/

inductive StartBaseWorkerResult where
  | started
  | exists
  | done
  | failed
  | blocked
  deriving DecidableEq

/-- The end of `StartBaseWorker`, with the entry that was found or created. -/
def launch (r : Registration) (e : BaseWorkerEntry) : State × StartBaseWorkerResult :=
  if registered then
    ({ s.setEntry r.workerId
        (some ⟨r.extensionId, r.entryPointFunctionId, e.workerPid, .starting, false, 0⟩) with
      processes := Function.update s.processes s.nextPid (some ⟨r.workerId, .launched, false⟩)
      nextPid := s.nextPid + 1 }, .started)
  else
    (s.setEntry r.workerId (some { e with
      extensionId := r.extensionId
      entryPointFunctionId := r.entryPointFunctionId }), .failed)

def startBaseWorker (r : Registration) : State × StartBaseWorkerResult :=
  match s.entries r.workerId with
  | none => launch registered s r ⟨0, 0, none, .notStarted, true, 0⟩
  | some e =>
    if e.isActive then (s, .exists)
    else if e.needsRestart = false then (s, .done)
    else if e.restartAfter ≠ 0 ∧ s.now ≤ e.restartAfter then (s, .blocked)
    else launch registered s r e

/-- How `StartAllBaseWorkers` goes on. -/
def StartBaseWorkerResult.next (registrations : List Registration) (hasBlocked : Bool) :
    StartBaseWorkerResult → StarterStage
  | .failed => .reading
  | .blocked => .starting registrations true
  | _ => .starting registrations hasBlocked

/-- What `PgExtensionBaseDatabaseStarterMain` does next; `none` if there is no database
    starter or it waits for its lock. -/
def starterStep : Option State :=
  match s.starter.stage with
  | .gone => none
  | .launched =>
    match s.starterEntry with
    | none => some (s.setStage (.exiting 0))
    | some e =>
      if e.workerPid.isSome ∨ e.needsRestart then some (s.setStage (.exiting 0))
      else some { s.setStage .waiting with
        starterEntry := some { e with workerPid := some s.starter.pid, state := .running } }
  | .waiting =>
    -- RowExclusiveLock, released when the transaction that reads the catalog commits
    if s.locks = [] then
      some (s.setStage (if s.catalog.hasBase then .reading else .removingAll))
    else none
  | .removingAll => some { s.setStage (.exiting 0) with entries := fun _ => none }
  | .reading =>
    if s.starter.terminationRequested then some (s.setStage .restarting)
    else if s.catalog.hasBase then
      some (s.setStage (.removing s.catalog.registrationList))
    else
      -- the query fails
      some (s.setStage (.exiting 1))
  | .removing registrations =>
    some { s.setStage (.starting registrations false) with
      entries := fun workerId =>
        if registrations.any (·.workerId = workerId) then s.entries workerId else none }
  | .starting [] hasBlocked =>
    some (s.setStage (if hasBlocked then .reading else .exiting 0))
  | .starting (r :: registrations) hasBlocked =>
    some (s.setStage (if s.starter.terminationRequested then .reading
      else .checked r registrations hasBlocked))
  | .checked r registrations hasBlocked =>
    some ((startBaseWorker registered s r).1.setStage
      ((startBaseWorker registered s r).2.next registrations hasBlocked))
  | .restarting => some (s.starterNeedsRestart.setStage (.exiting 0))
  | .exiting code =>
    -- PgExtensionBaseDatabaseStarterSharedMemoryExit
    some { s.setStage .gone with
      starterEntry := s.starterEntry.map fun e =>
        ⟨none, .stopped, if code ≠ 0 then true else e.needsRestart⟩ }

def starterFails : Option State :=
  match s.starter.stage with
  | .gone | .launched | .exiting _ => none
  | _ => some (s.setStage (.exiting 1))

/-! ## Base workers -/

/-- `NAP_TIME_AFTER_FAILURE` in microseconds. -/
def napTimeAfterFailure : ℕ := 5000 * 1000

/-- `PgExtensionBaseWorkerSharedMemoryExit`, the part about the entry. -/
def exitEntry (now code : ℕ) (e : BaseWorkerEntry) : BaseWorkerEntry :=
  if code = 0 then
    { e with workerPid := none, state := if e.needsRestart then e.state else .stopped }
  else if e.needsRestart then { e with workerPid := none, state := .restarting }
  else
    { e with
      workerPid := none
      state := .restarting
      needsRestart := true
      restartAfter := now + napTimeAfterFailure }

/-- `PgExtensionBaseWorkerSharedMemoryExit`. -/
def exitHandler (key code : ℕ) : State :=
  match s.entries key with
  | none => s
  | some e =>
    if code ≠ 0 ∧ e.needsRestart = false then
      (s.setEntry key (some (exitEntry s.now code e))).starterNeedsRestart
    else s.setEntry key (some (exitEntry s.now code e))

/-- The entry when the entry point returned and wants a restart. -/
def restartEntry (now : ℕ) (restartDelayMs : ℤ) (e : BaseWorkerEntry) : BaseWorkerEntry :=
  { e with
    needsRestart := true
    state := .restarting
    restartAfter := if restartDelayMs ≤ 0 then 0 else now + 1000 * restartDelayMs.toNat }

variable (pid : ℕ)

/-- What `PgExtensionBaseWorkerMain` does next.  The entry point returns, and signals take
    effect, in steps of their own. -/
def processStep : Option State :=
  match s.processes pid with
  | none => none
  | some p =>
    match p.stage with
    | .launched =>
      match s.entries p.key with
      | none => some (s.setProcess pid { p with stage := .exiting 0 })
      | some e =>
        if e.workerPid.isSome ∨ e.needsRestart then
          some (s.setProcess pid { p with stage := .exiting 0 })
        else
          some ((s.setEntry p.key (some { e with workerPid := some pid, state := .running })).setProcess
            pid { p with stage := .attached e.extensionId e.entryPointFunctionId })
    | .attached extensionId entryPointFunctionId =>
      if extensionId ∉ s.catalog.extensions then
        some ((s.setEntry p.key none).setProcess pid { p with stage := .exiting 0 })
      else if s.catalog.hasBase = false then
        -- the query fails
        some (s.setProcess pid { p with stage := .exiting 1 })
      else if s.catalog.isWorkerRegistered p.key then
        some (s.setProcess pid { p with stage := .running extensionId entryPointFunctionId })
      else some ((s.setEntry p.key none).setProcess pid { p with stage := .exiting 0 })
    | .running _ _ => none
    | .returned restartDelayMs =>
      match s.entries p.key with
      | none => some (s.setProcess pid { p with stage := .exiting 0 })
      | some e =>
        -- SignalDatabaseStarterLocked also marks the database starter
        some (((s.setEntry p.key (some (restartEntry s.now restartDelayMs e))).starterNeedsRestart).setProcess
          pid { p with stage := .exiting 0 })
    | .exiting code =>
      some ((exitHandler s p.key code).setProcess pid { p with stage := .exited })
    | .exited => none

def Stage.canBeInterrupted : Stage → Bool
  | .attached _ _ | .running _ _ | .returned _ => true
  | _ => false

/-- A process that can be interrupted exits with an error. -/
def interrupt (p : Process) : Option State :=
  if p.stage.canBeInterrupted then some (s.setProcess pid { p with stage := .exiting 1 })
  else none

def die : Option State :=
  match s.processes pid with
  | none => none
  | some p => if p.sigterm then interrupt s pid p else none

def fail : Option State :=
  (s.processes pid).bind fun p => interrupt s pid p

/-- The entry point returns: -1 asks for a restart, a positive number for a restart with a
    delay. -/
def returns (restartDelayMs : ℤ) : Option State :=
  match s.processes pid with
  | none => none
  | some p =>
    match p.stage with
    | .running _ _ =>
      some (s.setProcess pid { p with stage :=
        if restartDelayMs = -1 ∨ 0 < restartDelayMs then .returned restartDelayMs else .exiting 0 })
    | _ => none

/-! ## Transactions -/

/-- Mark the entries that `selects` picks for restart and kill their processes.  A process
    writes its PID only into the entry of its key. -/
def State.mark (selects : ℕ → BaseWorkerEntry → Bool) : State :=
  { s with
    entries := fun workerId => (s.entries workerId).map fun e =>
      if selects workerId e && e.isActive then { e with needsRestart := true } else e
    processes := fun pid => (s.processes pid).map fun p =>
      if (s.entries p.key).any fun e => selects p.key e && e.workerPid = some pid then
        { p with sigterm := true }
      else p }

/-- The part of `PrepareForDrop` about the database starter. -/
def State.killStarter : State :=
  { s.starterNeedsRestart with
    starter := if (s.starterEntry.any fun e => e.workerPid = some s.starter.pid) then
        { s.starter with terminationRequested := true }
      else s.starter }

variable (t : ℕ)

def State.setTxn (x : Txn) : State :=
  { s with txns := Function.update s.txns t x }

def State.addChange (change : Change) : State :=
  s.setTxn t { s.txns t with changes := (s.txns t).changes ++ [change] }

def State.lockable (mode : LockMode) : Bool :=
  s.locks.all fun (t', mode') => t' = t || (mode = .share && mode' = .share)

inductive TxnAction where
  /-- `PrepareForDrop` for one extension, or for the base extension -/
  | prepareForDrop (extensionId : Option ℕ)
  /-- the first half of `DeregisterBaseWorker_internal` -/
  | deregister (workerId : ℕ)
  /-- the second half -/
  | markDeregistered
  /-- `RegisterBaseWorker` -/
  | register (extensionId entryPointFunctionId : ℕ)
  | createExtension
  | createBase
  | commit
  | abort
  deriving DecidableEq

/-- The entries of an extension, or all of them for the base extension. -/
def selectsExtension (extensionId : Option ℕ) : ℕ → BaseWorkerEntry → Bool :=
  fun _ e => extensionId = none || extensionId = some e.extensionId

def selectsWorker (workerId : ℕ) : ℕ → BaseWorkerEntry → Bool :=
  fun workerId' _ => workerId' = workerId

def dropChange : Option ℕ → Change
  | none => .dropBase
  | some extensionId => .dropExtension extensionId

def State.endTxn : State :=
  { s.setTxn t ⟨[], none⟩ with locks := s.locks.filter (·.1 ≠ t) }

def State.committed : Catalog := (s.txns t).changes.foldl Catalog.apply s.catalog

def txnStep : TxnAction → Option State
  | .prepareForDrop extensionId =>
    if s.catalog.hasBase && s.lockable t .exclusive && (s.txns t).deregistering = none then
      some ({ s.killStarter.mark (selectsExtension extensionId) with
        locks := (t, .exclusive) :: s.locks }.addChange t (dropChange extensionId))
    else none
  | .deregister workerId =>
    if s.catalog.hasBase && s.lockable t .share && (s.txns t).deregistering = none then
      some ({ s.starterNeedsRestart with locks := (t, .share) :: s.locks }.setTxn t
        { s.txns t with deregistering := some workerId })
    else none
  | .markDeregistered =>
    match (s.txns t).deregistering with
    | none => none
    | some workerId =>
      some ((s.mark (selectsWorker workerId)).setTxn t
        ⟨(s.txns t).changes ++ [.deregister workerId], none⟩)
  | .register extensionId entryPointFunctionId =>
    if s.catalog.hasBase && s.lockable t .share && (s.txns t).deregistering = none then
      some ({ s.starterNeedsRestart with
        locks := (t, .share) :: s.locks
        nextWorkerId := s.nextWorkerId + 1 }.addChange t
          (.register ⟨s.nextWorkerId, extensionId, entryPointFunctionId⟩))
    else none
  | .createExtension =>
    some ({ s with nextExtensionId := s.nextExtensionId + 1 }.addChange t
      (.createExtension s.nextExtensionId))
  | .createBase => if s.catalog.hasBase then none else some (s.addChange t .createBase)
  | .commit =>
    -- worker_id is unique, and so is the name of an extension
    if (s.txns t).deregistering = none ∧ ((s.committed t).workers.map (·.workerId)).Nodup ∧
        (.createBase ∈ (s.txns t).changes → s.catalog.hasBase = false) then
      some { s.endTxn t with
        catalog := s.committed t
        nextWorkerId := if .createBase ∈ (s.txns t).changes then 1 else s.nextWorkerId }
    else none
  | .abort => some (s.endTxn t)

/-! ## The system -/

/-- A step of the server: of a database starter, a base worker, a transaction or the clock. -/
inductive Event where
  | startDatabaseStarter (registered : Bool)
  | starter (registered : Bool)
  | starterFails
  | process (pid : ℕ)
  | die (pid : ℕ)
  | fail (pid : ℕ)
  | returns (pid : ℕ) (restartDelayMs : ℤ)
  | txn (t : ℕ) (action : TxnAction)
  | tick
  deriving DecidableEq

/-- One step of the system. -/
def step : Event → Option State
  | .startDatabaseStarter registered => some (startDatabaseStarter registered s)
  | .starter registered => starterStep registered s
  | .starterFails => starterFails s
  | .process pid => processStep s pid
  | .die pid => die s pid
  | .fail pid => fail s pid
  | .returns pid restartDelayMs => returns s pid restartDelayMs
  | .txn t action => txnStep s t action
  | .tick => some { s with now := s.now + 1 }

/-- The server after its start, with the catalog as it is on disk. -/
def start (catalog : Catalog) (nextWorkerId nextExtensionId : ℕ) : State where
  catalog := catalog
  nextWorkerId := nextWorkerId
  nextExtensionId := nextExtensionId
  txns _ := ⟨[], none⟩
  locks := []
  starterEntry := none
  starter := ⟨0, .gone, false⟩
  entries _ := none
  processes _ := none
  nextPid := 1
  now := 0

/-! ## The argument of a process -/

/-- `StartBaseWorker`: the database and the worker in `bgw_main_arg`. -/
def workerKey (databaseId : UInt32) (workerId : Int32) : UInt64 :=
  (databaseId.toUInt64 <<< 32) ||| workerId.toInt64.toUInt64

/-- What `PgExtensionBaseWorkerMain` and the exit handler find in it. -/
def decodeWorkerKey (workerKey : UInt64) : UInt32 × Int32 :=
  ((workerKey >>> 32).toUInt32, (workerKey &&& 0xFFFF).toUInt32.toInt32)

section

variable (databaseId : UInt32) {workerId : Int32} (h : 0 < workerId)

include h

theorem msb_eq_false : workerId.toBitVec.msb = false := by
  rw [BitVec.msb_eq_toInt]
  simpa using Int.le_of_lt (Int32.lt_iff_toInt_lt.mp h)

/-- The worker id is cut to 16 bits, as in `Process.key`. -/
theorem decodeWorkerKey_workerKey :
    decodeWorkerKey (workerKey databaseId workerId) = (databaseId, workerId &&& 0xFFFF) := by
  have hmsb := msb_eq_false h
  refine Prod.ext (UInt32.eq_of_toBitVec_eq ?_) (Int32.toBitVec_inj.mp ?_) <;> ext i hi <;>
    simp [decodeWorkerKey, workerKey] <;> grind

/-- **A process finds its own entry** if and only if its worker id fits into 16 bits. -/
theorem decodeWorkerKey_eq_iff :
    decodeWorkerKey (workerKey databaseId workerId) = (databaseId, workerId) ↔
      workerId < 65536 := by
  rw [decodeWorkerKey_workerKey databaseId h, Prod.mk.injEq, and_iff_right rfl,
    ← Int32.toBitVec_inj, ← BitVec.toNat_inj, Int32.lt_iff_toInt_lt, Int32.toInt,
    BitVec.toInt_eq_toNat_of_msb (msb_eq_false h)]
  show workerId.toBitVec.toNat &&& 2 ^ 16 - 1 = _ ↔ (_ : ℤ) < 65536
  rw [Nat.and_two_pow_sub_one_eq_mod]
  omega

end

theorem decodeWorkerKey_first : decodeWorkerKey (workerKey 5 1) = (5, 1) :=
  (decodeWorkerKey_eq_iff 5 (by decide)).mpr (by decide)

theorem decodeWorkerKey_65536 : decodeWorkerKey (workerKey 5 65536) ≠ (5, 65536) := by
  decide

end PgLake.BaseWorkers
