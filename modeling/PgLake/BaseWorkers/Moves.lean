/-
  The moves of the base worker launcher.

  `Move s e s'` has a constructor for each thing that a step can do, with what the party
  saw in shared memory or in the catalog when it did it.
-/
import PgLake.BaseWorkers.Launcher

namespace PgLake.BaseWorkers

/-- A database starter goes on without a change to shared memory. -/
inductive StarterMove (s : State) : StarterStage → Prop where
  /-- it is not the one that the entry waits for -/
  | givesUp (hstage : s.starter.stage = .launched)
      (hentry : ∀ e, s.starterEntry = some e → e.workerPid.isSome ∨ e.needsRestart = true) :
      StarterMove s (.exiting 0)
  | locks (hstage : s.starter.stage = .waiting) (hlocks : s.locks = []) :
      StarterMove s (if s.catalog.hasBase then .reading else .removingAll)
  | terminates (hstage : s.starter.stage = .reading)
      (hterm : s.starter.terminationRequested = true) : StarterMove s .restarting
  | reads (hstage : s.starter.stage = .reading) (hterm : s.starter.terminationRequested = false)
      (hbase : s.catalog.hasBase = true) : StarterMove s (.removing s.catalog.registrationList)
  | readFails (hstage : s.starter.stage = .reading) (hbase : s.catalog.hasBase = false) :
      StarterMove s (.exiting 1)
  | finishes {hasBlocked} (hstage : s.starter.stage = .starting [] hasBlocked) :
      StarterMove s (if hasBlocked then .reading else .exiting 0)
  | stops {r rest hasBlocked}
      (hstage : s.starter.stage = .starting (r :: rest) hasBlocked)
      (hterm : s.starter.terminationRequested = true) : StarterMove s .reading
  | checks {r rest hasBlocked}
      (hstage : s.starter.stage = .starting (r :: rest) hasBlocked)
      (hterm : s.starter.terminationRequested = false) :
      StarterMove s (.checked r rest hasBlocked)
  | passes {r rest hasBlocked e}
      (hstage : s.starter.stage = .checked r rest hasBlocked)
      (hentry : s.entries r.workerId = some e)
      (he : e.isActive = true ∨ e.needsRestart = false) : StarterMove s (.starting rest hasBlocked)
  | blocks {r rest hasBlocked e}
      (hstage : s.starter.stage = .checked r rest hasBlocked)
      (hentry : s.entries r.workerId = some e) (hactive : e.isActive = false)
      (hneeds : e.needsRestart = true) (hdelay : e.restartAfter ≠ 0 ∧ s.now ≤ e.restartAfter) :
      StarterMove s (.starting rest true)

/-- The entry with which `StartBaseWorker` registers a process. -/
inductive Launchable (s : State) (r : Registration) : BaseWorkerEntry → Prop where
  | created (hentry : s.entries r.workerId = none) :
      Launchable s r ⟨0, 0, none, .notStarted, true, 0⟩
  | found {e} (hentry : s.entries r.workerId = some e)
      (hactive : e.isActive = false) (hneeds : e.needsRestart = true)
      (hdelay : ¬ (e.restartAfter ≠ 0 ∧ s.now ≤ e.restartAfter)) : Launchable s r e

/-- A process goes on without a change to shared memory. -/
inductive ProcessMove (s : State) (p : Process) : Stage → Prop where
  | givesUp (hstage : p.stage = .launched)
      (hentry : ∀ e, s.entries p.key = some e → e.workerPid.isSome ∨ e.needsRestart = true) :
      ProcessMove s p (.exiting 0)
  | checkFails {extensionId entryPointFunctionId}
      (hstage : p.stage = .attached extensionId entryPointFunctionId)
      (hbase : s.catalog.hasBase = false) : ProcessMove s p (.exiting 1)
  | runs {extensionId entryPointFunctionId}
      (hstage : p.stage = .attached extensionId entryPointFunctionId)
      (hextension : extensionId ∈ s.catalog.extensions) (hbase : s.catalog.hasBase = true)
      (hregistered : s.catalog.isWorkerRegistered p.key = true) :
      ProcessMove s p (.running extensionId entryPointFunctionId)
  | finishes {restartDelayMs} (hstage : p.stage = .returned restartDelayMs)
      (hentry : s.entries p.key = none) : ProcessMove s p (.exiting 0)

inductive Move (s : State) : Event → State → Prop where
  | serverStarts (hstartable : s.startable = true) :
      Move s (.startDatabaseStarter true) { s with
        starterEntry := some
          { s.getOrCreateStarterEntry with needsRestart := false, state := .starting }
        starter := ⟨s.nextPid, .launched, false⟩
        nextPid := s.nextPid + 1 }
  | serverPasses {registered} (h : s.startable = false ∨ registered = false) :
      Move s (.startDatabaseStarter registered)
        { s with starterEntry := some s.getOrCreateStarterEntry }
  | starterAttaches {registered e}
      (hstage : s.starter.stage = .launched) (hentry : s.starterEntry = some e)
      (hpid : e.workerPid = none) (hneeds : e.needsRestart = false) :
      Move s (.starter registered) { s.setStage .waiting with
        starterEntry := some { e with workerPid := some s.starter.pid, state := .running } }
  | starterMoves {registered stage} (h : StarterMove s stage) :
      Move s (.starter registered) (s.setStage stage)
  | starterRemovesAll {registered} (hstage : s.starter.stage = .removingAll) :
      Move s (.starter registered) { s.setStage (.exiting 0) with entries := fun _ => none }
  | starterRemoves {registered registrations}
      (hstage : s.starter.stage = .removing registrations) :
      Move s (.starter registered) { s.setStage (.starting registrations false) with
        entries := fun workerId =>
          if registrations.any (·.workerId = workerId) then s.entries workerId else none }
  | starterLaunches {r rest hasBlocked}
      {e} (hstage : s.starter.stage = .checked r rest hasBlocked)
      (h : Launchable s r e) :
      Move s (.starter true) ((launch true s r e).1.setStage (.starting rest hasBlocked))
  | starterLaunchFails {r rest hasBlocked}
      {e} (hstage : s.starter.stage = .checked r rest hasBlocked)
      (h : Launchable s r e) :
      Move s (.starter false) ((launch false s r e).1.setStage .reading)
  | starterRestarts {registered} (hstage : s.starter.stage = .restarting) :
      Move s (.starter registered) (s.starterNeedsRestart.setStage (.exiting 0))
  | starterExits {registered code} (hstage : s.starter.stage = .exiting code) :
      Move s (.starter registered) { s.setStage .gone with
        starterEntry := s.starterEntry.map fun e =>
          ⟨none, .stopped, if code ≠ 0 then true else e.needsRestart⟩ }
  | starterFails (hgone : s.starter.stage ≠ .gone) (hlaunched : s.starter.stage ≠ .launched)
      (hexiting : ∀ code, s.starter.stage ≠ .exiting code) :
      Move s .starterFails (s.setStage (.exiting 1))
  | processMoves {q p stage} (hp : s.processes q = some p)
      (h : ProcessMove s p stage) : Move s (.process q) (s.setProcess q { p with stage })
  | attaches {q p e} (hp : s.processes q = some p)
      (hstage : p.stage = .launched) (hentry : s.entries p.key = some e)
      (hpid : e.workerPid = none) (hneeds : e.needsRestart = false) :
      Move s (.process q)
        ((s.setEntry p.key (some { e with workerPid := some q, state := .running })).setProcess q
          { p with stage := .attached e.extensionId e.entryPointFunctionId })
  | unregistered {q p extensionId entryPointFunctionId}
      (hp : s.processes q = some p)
      (hstage : p.stage = .attached extensionId entryPointFunctionId)
      (hgone : extensionId ∉ s.catalog.extensions ∨ s.catalog.isWorkerRegistered p.key = false) :
      Move s (.process q) ((s.setEntry p.key none).setProcess q { p with stage := .exiting 0 })
  | asksForRestart {q p e restartDelayMs}
      (hp : s.processes q = some p) (hstage : p.stage = .returned restartDelayMs)
      (hentry : s.entries p.key = some e) :
      Move s (.process q)
        (((s.setEntry p.key (some (restartEntry s.now restartDelayMs e))).starterNeedsRestart).setProcess
          q { p with stage := .exiting 0 })
  | exits {q p code} (hp : s.processes q = some p)
      (hstage : p.stage = .exiting code) :
      Move s (.process q) ((exitHandler s p.key code).setProcess q { p with stage := .exited })
  | dies {q p} (hp : s.processes q = some p) (hsigterm : p.sigterm = true)
      (hstage : p.stage.canBeInterrupted = true) :
      Move s (.die q) (s.setProcess q { p with stage := .exiting 1 })
  | fails {q p} (hp : s.processes q = some p)
      (hstage : p.stage.canBeInterrupted = true) :
      Move s (.fail q) (s.setProcess q { p with stage := .exiting 1 })
  | returns {q p extensionId entryPointFunctionId restartDelayMs}
      (hp : s.processes q = some p)
      (hstage : p.stage = .running extensionId entryPointFunctionId) :
      Move s (.returns q restartDelayMs) (s.setProcess q { p with stage :=
        if restartDelayMs = -1 ∨ 0 < restartDelayMs then .returned restartDelayMs else .exiting 0 })
  | prepareForDrop {t extensionId} (hlock : s.lockable t .exclusive = true)
      (hbase : s.catalog.hasBase = true) :
      Move s (.txn t (.prepareForDrop extensionId))
        ({ s.killStarter.mark (selectsExtension extensionId) with
          locks := (t, .exclusive) :: s.locks }.addChange t (dropChange extensionId))
  | deregister {t workerId} (hlock : s.lockable t .share = true) :
      Move s (.txn t (.deregister workerId))
        ({ s.starterNeedsRestart with locks := (t, .share) :: s.locks }.setTxn t
          { s.txns t with deregistering := some workerId })
  | markDeregistered {t workerId} (hworker : (s.txns t).deregistering = some workerId) :
      Move s (.txn t .markDeregistered)
        ((s.mark (selectsWorker workerId)).setTxn t
          ⟨(s.txns t).changes ++ [.deregister workerId], none⟩)
  | register {t extensionId entryPointFunctionId} (hlock : s.lockable t .share = true) :
      Move s (.txn t (.register extensionId entryPointFunctionId))
        ({ s.starterNeedsRestart with
          locks := (t, .share) :: s.locks
          nextWorkerId := s.nextWorkerId + 1 }.addChange t
            (.register ⟨s.nextWorkerId, extensionId, entryPointFunctionId⟩))
  | createExtension {t} :
      Move s (.txn t .createExtension)
        ({ s with nextExtensionId := s.nextExtensionId + 1 }.addChange t
          (.createExtension s.nextExtensionId))
  | createBase {t} : Move s (.txn t .createBase) (s.addChange t .createBase)
  | commits {t} (hdone : (s.txns t).deregistering = none)
      (hnodup : ((s.committed t).workers.map (·.workerId)).Nodup) :
      Move s (.txn t .commit) { s.endTxn t with
        catalog := s.committed t
        nextWorkerId := if .createBase ∈ (s.txns t).changes then 1 else s.nextWorkerId }
  | aborts {t} : Move s (.txn t .abort) (s.endTxn t)
  | tick : Move s .tick { s with now := s.now + 1 }

/-! ## What `PrepareForDrop` and the exit handler leave alone -/

@[simp] theorem killStarter_stage (s : State) : s.killStarter.starter.stage = s.starter.stage := by
  unfold State.killStarter
  split <;> rfl

@[simp] theorem exitEntry_extensionId (now code : ℕ) (e : BaseWorkerEntry) :
    (exitEntry now code e).extensionId = e.extensionId := by
  unfold exitEntry
  split
  · rfl
  · split <;> rfl

variable {e : BaseWorkerEntry}

theorem exitEntry_starting {now code : ℕ} (h : (exitEntry now code e).state = .starting) :
    e.state = .starting ∧ (exitEntry now code e).needsRestart = true := by
  unfold exitEntry at h ⊢
  split at h
  next hcode =>
    rw [if_pos hcode]
    split at h
    next hn => exact ⟨h, hn⟩
    next => exact nomatch h
  next =>
    split at h <;> exact nomatch h

open Option

section ExitHandler
variable (s : State) (key code : ℕ)

theorem exitHandler_eq : ∃ entries starterEntry,
    exitHandler s key code = { s with entries := entries, starterEntry := starterEntry } := by
  unfold exitHandler
  split
  · exact ⟨_, _, rfl⟩
  · split <;> exact ⟨_, _, rfl⟩

@[simp] theorem exitHandler_processes : (exitHandler s key code).processes = s.processes := by
  obtain ⟨_, _, h⟩ := exitHandler_eq s key code
  rw [h]

@[simp] theorem exitHandler_nextPid : (exitHandler s key code).nextPid = s.nextPid := by
  obtain ⟨_, _, h⟩ := exitHandler_eq s key code
  rw [h]

@[simp] theorem exitHandler_starter : (exitHandler s key code).starter = s.starter := by
  obtain ⟨_, _, h⟩ := exitHandler_eq s key code
  rw [h]

@[simp] theorem exitHandler_catalog : (exitHandler s key code).catalog = s.catalog := by
  obtain ⟨_, _, h⟩ := exitHandler_eq s key code
  rw [h]

@[simp] theorem exitHandler_txns : (exitHandler s key code).txns = s.txns := by
  obtain ⟨_, _, h⟩ := exitHandler_eq s key code
  rw [h]

@[simp] theorem exitHandler_nextExtensionId : (exitHandler s key code).nextExtensionId = s.nextExtensionId := by
  obtain ⟨_, _, h⟩ := exitHandler_eq s key code
  rw [h]

theorem exitHandler_entries (k : ℕ) : (exitHandler s key code).entries k =
    if k = key then (s.entries k).map (exitEntry s.now code) else s.entries k := by
  unfold exitHandler
  split
  next he =>
    split
    next hk => rw [hk, he, map_none]
    next => rfl
  next e he =>
    have hset : (if code ≠ 0 ∧ e.needsRestart = false then
        (s.setEntry key (some (exitEntry s.now code e))).starterNeedsRestart
      else s.setEntry key (some (exitEntry s.now code e))).entries =
        Function.update s.entries key (some (exitEntry s.now code e)) := by
      split <;> rfl
    rw [hset]
    split
    next hk => rw [hk, he, Function.update_self, map_some]
    next hk => rw [Function.update_of_ne hk]

theorem exits_processes (q : ℕ) (p : Process) :
    ((exitHandler s key code).setProcess q p).processes =
      Function.update s.processes q (some p) := by
  rw [State.setProcess, exitHandler_processes]

theorem exits_entries (q : ℕ) (p : Process) :
    ((exitHandler s key code).setProcess q p).entries = (exitHandler s key code).entries := rfl

end ExitHandler

/-! ## Every step is a move -/

section Inversion
variable {s s' : State}

theorem BaseWorkerEntry.isActive_iff :
    e.isActive = true ↔ e.workerPid.isSome ∨ e.state = .starting := by
  simp [isActive]

theorem BaseWorkerEntry.isActive_eq_false_iff :
    e.isActive = false ↔ e.workerPid = none ∧ e.state ≠ .starting := by
  simp [isActive]

theorem move_of_startDatabaseStarter (registered : Bool) :
    Move s (.startDatabaseStarter registered) (startDatabaseStarter registered s) := by
  cases hs : s.startable with
  | false =>
    rw [startDatabaseStarter, hs]
    exact .serverPasses (.inl hs)
  | true =>
    cases registered with
    | false =>
      rw [startDatabaseStarter, hs]
      exact .serverPasses (.inr rfl)
    | true =>
      rw [startDatabaseStarter, hs]
      exact .serverStarts hs

theorem move_of_startBaseWorker {r : Registration} {rest : List Registration} {blk : Bool}
    (hst : s.starter.stage = .checked r rest blk) (registered : Bool) :
    Move s (.starter registered) ((startBaseWorker registered s r).1.setStage
      ((startBaseWorker registered s r).2.next rest blk)) := by
  -- with an entry to register a process for, the registration succeeds or fails
  have hl : ∀ {e}, Launchable s r e → Move s (.starter registered)
      ((launch registered s r e).1.setStage ((launch registered s r e).2.next rest blk)) := by
    intro e he
    cases registered with
    | false => exact .starterLaunchFails hst he
    | true => exact .starterLaunches hst he
  cases hen : s.entries r.workerId with
  | none =>
    simp only [startBaseWorker, hen]
    exact hl (.created hen)
  | some e =>
    simp only [startBaseWorker, hen]
    split
    next hact => exact .starterMoves (.passes hst hen (.inl hact))
    next hact =>
      rw [Bool.not_eq_true] at hact
      split
      next hn => exact .starterMoves (.passes hst hen (.inr hn))
      next hn =>
        rw [Bool.not_eq_false] at hn
        split
        next hd => exact .starterMoves (.blocks hst hen hact hn hd)
        next hd => exact hl (.found hen hact hn hd)

theorem move_of_starterStep {registered : Bool} (h : starterStep registered s = some s') :
    Move s (.starter registered) s' := by
  unfold starterStep at h
  split at h
  next => exact nomatch h
  next hst =>
    split at h
    next hen =>
      cases h
      exact .starterMoves (.givesUp hst fun e he => nomatch hen.symm.trans he)
    next e hen =>
      split at h
      next he =>
        cases h
        refine .starterMoves (.givesUp hst fun e' he' => ?_)
        cases hen.symm.trans he'
        exact he
      next he =>
        cases h
        rw [not_or, Bool.not_eq_true, isSome_eq_false_iff, isNone_iff_eq_none,
          Bool.not_eq_true] at he
        exact .starterAttaches hst hen he.1 he.2
  next hst =>
    split at h
    next hl =>
      cases h
      exact .starterMoves (.locks hst hl)
    next => exact nomatch h
  next hst =>
    cases h
    exact .starterRemovesAll hst
  next hst =>
    split at h
    next ht =>
      cases h
      exact .starterMoves (.terminates hst ht)
    next ht =>
      rw [Bool.not_eq_true] at ht
      split at h
      next hb =>
        cases h
        exact .starterMoves (.reads hst ht hb)
      next hb =>
        cases h
        exact .starterMoves (.readFails hst (Bool.not_eq_true _ ▸ hb))
  next hst =>
    cases h
    exact .starterRemoves hst
  next hst =>
    cases h
    exact .starterMoves (.finishes hst)
  next hst =>
    cases h
    split
    next ht => exact .starterMoves (.stops hst ht)
    next ht => exact .starterMoves (.checks hst (Bool.not_eq_true _ ▸ ht))
  next hst =>
    cases h
    exact move_of_startBaseWorker hst registered
  next hst =>
    cases h
    exact .starterRestarts hst
  next hst =>
    cases h
    exact .starterExits hst

theorem move_of_starterFails (h : starterFails s = some s') : Move s .starterFails s' := by
  unfold starterFails at h
  split at h
  next => exact nomatch h
  next => exact nomatch h
  next => exact nomatch h
  next hg hl he =>
    cases h
    exact .starterFails hg hl he

theorem move_of_processStep {q : ℕ} (h : processStep s q = some s') : Move s (.process q) s' := by
  unfold processStep at h
  split at h
  next => exact nomatch h
  next p hp =>
    split at h
    next hst =>
      split at h
      next hen =>
        cases h
        exact .processMoves hp (.givesUp hst fun e he => nomatch hen.symm.trans he)
      next e hen =>
        split at h
        next he =>
          cases h
          refine .processMoves hp (.givesUp hst fun e' he' => ?_)
          cases hen.symm.trans he'
          exact he
        next he =>
          cases h
          rw [not_or, Bool.not_eq_true, isSome_eq_false_iff, isNone_iff_eq_none,
            Bool.not_eq_true] at he
          exact .attaches hp hst hen he.1 he.2
    next hst =>
      split at h
      next hext =>
        cases h
        exact .unregistered hp hst (.inl hext)
      next hext =>
        split at h
        next hb =>
          cases h
          exact .processMoves hp (.checkFails hst hb)
        next hb =>
          split at h
          next hreg =>
            cases h
            exact .processMoves hp (.runs hst (not_not.mp hext)
              (Bool.not_eq_false _ ▸ hb) hreg)
          next hreg =>
            cases h
            exact .unregistered hp hst (.inr (Bool.not_eq_true _ ▸ hreg))
    next => exact nomatch h
    next hst =>
      split at h
      next hen =>
        cases h
        exact .processMoves hp (.finishes hst hen)
      next e hen =>
        cases h
        exact .asksForRestart hp hst hen
    next hst =>
      cases h
      exact .exits hp hst
    next => exact nomatch h

theorem move_of_txnStep {t : ℕ} {action : TxnAction} (h : txnStep s t action = some s') :
    Move s (.txn t action) s' := by
  cases action with
  | prepareForDrop =>
    obtain ⟨hg, h⟩ := ite_none_right_eq_some.mp h
    cases h
    simp only [Bool.and_eq_true] at hg
    exact .prepareForDrop hg.1.2 hg.1.1
  | deregister =>
    obtain ⟨hg, h⟩ := ite_none_right_eq_some.mp h
    cases h
    simp only [Bool.and_eq_true] at hg
    exact .deregister hg.1.2
  | markDeregistered =>
    simp only [txnStep] at h
    split at h
    next => exact nomatch h
    next workerId hw =>
      cases h
      exact .markDeregistered hw
  | register =>
    obtain ⟨hg, h⟩ := ite_none_right_eq_some.mp h
    cases h
    simp only [Bool.and_eq_true] at hg
    exact .register hg.1.2
  | createExtension =>
    cases h
    exact .createExtension
  | createBase =>
    obtain ⟨-, h⟩ := ite_none_left_eq_some.mp h
    cases h
    exact .createBase
  | commit =>
    obtain ⟨⟨hd, hn, -⟩, h⟩ := ite_none_right_eq_some.mp h
    cases h
    exact .commits hd hn
  | abort =>
    cases h
    exact .aborts

theorem move_of_step {e : Event} (h : step s e = some s') : Move s e s' := by
  cases e with
  | startDatabaseStarter registered =>
    cases h
    exact move_of_startDatabaseStarter registered
  | starter => exact move_of_starterStep h
  | starterFails => exact move_of_starterFails h
  | process q => exact move_of_processStep h
  | die q =>
    simp only [step, die] at h
    split at h
    next => exact nomatch h
    next p hp =>
      obtain ⟨hsi, h⟩ := ite_none_right_eq_some.mp h
      obtain ⟨hs, h⟩ := ite_none_right_eq_some.mp h
      cases h
      exact .dies hp hsi hs
  | fail q =>
    obtain ⟨p, hp, h⟩ := bind_eq_some_iff.mp h
    obtain ⟨hs, h⟩ := ite_none_right_eq_some.mp h
    cases h
    exact .fails hp hs
  | returns =>
    simp only [step, returns] at h
    split at h
    next => exact nomatch h
    next p hp =>
      split at h
      next hs =>
        cases h
        exact .returns hp hs
      next => exact nomatch h
  | txn => exact move_of_txnStep h
  | tick =>
    cases h
    exact .tick

end Inversion

end PgLake.BaseWorkers
