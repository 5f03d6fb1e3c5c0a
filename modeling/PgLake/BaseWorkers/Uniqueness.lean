/-
  Base workers run at most once at a time.

  As long as the entry of a worker has a PID or is in state STARTING, `StartBaseWorker`
  leaves it alone.

  Main result: `runs_once`.
-/
import PgLake.BaseWorkers.Moves
import PgLake.Lib.Transition

namespace PgLake.BaseWorkers

open Function (update_of_ne update_self)

/-! ## The property -/

def Stage.isRunning : Stage → Bool
  | .running _ _ => true
  | _ => false

variable (s : State)

def RunsOnce : Prop :=
  ∀ q q' p p', s.processes q = some p → s.processes q' = some p' → p.stage.isRunning = true →
    p'.stage.isRunning = true → p.key = p'.key → q = q'

/-- The entry is the one of a live process: it has its PID, or it waits for it to start. -/
def Belongs (k q : ℕ) : Prop :=
  ∃ e p, s.entries k = some e ∧ s.processes q = some p ∧ p.key = k ∧ p.stage ≠ .exited ∧
    (e.workerPid = some q ∨ p.stage = .launched ∧ e.state = .starting)

/-- What must hold of a step: it leaves at most one process in an entry point, and if it is
    an exit handler, it does not change the entry of another process. -/
structure StepUnique (s : State) (e : Event) : Prop where
  once : ∀ s', step s e = some s' → RunsOnce s'
  exits : ∀ q p code s', e = .process q → s.processes q = some p → p.stage = .exiting code →
    step s e = some s' → ∀ q', q' ≠ q → Belongs s p.key q' → s'.entries p.key = s.entries p.key

/-- The step is a call of `StartBaseWorker`. -/
def StartsBaseWorker (e : Event) (r : Registration) : Prop :=
  (∃ registered, e = .starter registered) ∧
    ∃ rest hasBlocked, s.starter.stage = .checked r rest hasBlocked

def NoneLive (k : ℕ) : Prop :=
  ∀ q p, s.processes q = some p → p.key = k → p.stage = .exited

/-- Worker ids are small, as the argument of a process has 16 bits for them. -/
def SmallIds (e : Event) : Prop :=
  ∀ r, StartsBaseWorker s e r → r.workerId < 65536

/-- `StartBaseWorker` creates an entry only when no earlier process of the worker id is
    left. -/
def FreshEntries (e : Event) : Prop :=
  ∀ r, StartsBaseWorker s e r → s.entries r.workerId = none → NoneLive s r.workerId

/-! ## One worker id -/

def Tracks (e : BaseWorkerEntry) (q : ℕ) : Stage → Prop
  | .launched => e.workerPid = none ∧ e.state = .starting
  | .exiting _ => e.workerPid = some q ∨ e.workerPid = none ∧ e.state = .starting
  | .exited => True
  | _ => e.workerPid = some q

/-- The worker id has one live process, and its entry tracks it. -/
structure Owned (s : State) (k : ℕ) : Prop where
  unique : ∀ {q q' p p'}, s.processes q = some p → s.processes q' = some p' →
    p.stage ≠ .exited → p'.stage ≠ .exited → p.key = k → p'.key = k → q = q'
  tracked : ∀ {q p e}, s.processes q = some p → p.key = k → s.entries k = some e →
    Tracks e q p.stage

def FreshPids : Prop := ∀ q, s.nextPid ≤ q → s.processes q = none

/-- The worker id has the same entry and the same processes. -/
structure SameAt (k : ℕ) (s s' : State) : Prop where
  entry : s'.entries k = s.entries k
  process : ∀ {q p}, p.key = k → (s'.processes q = some p ↔ s.processes q = some p)

open Function

section SameAt
variable {s s' : State} {k : ℕ}

theorem SameAt.of_eq (hes : s'.entries = s.entries) (hprs : s'.processes = s.processes) :
    SameAt k s s' :=
  ⟨by rw [hes], by rw [hprs]; exact fun _ => Iff.rfl⟩

theorem setProcess_self (q : ℕ) (p : Process) : (s.setProcess q p).processes q = some p :=
  update_self ..

theorem setProcess_other {q q' : ℕ} (h : q' ≠ q) (p : Process) :
    (s.setProcess q p).processes q' = s.processes q' :=
  update_of_ne h ..

theorem SameAt.update {q : ℕ} {p : Process} (hp : s.processes q = some p) (hkey : p.key ≠ k)
    {stage : Stage} (hprs : s'.processes = update s.processes q (some { p with stage }))
    (he : s'.entries k = s.entries k) : SameAt k s s' := by
  refine ⟨he, ?_⟩
  intro q₁ p₁ hk
  rw [hprs]
  by_cases hq : q₁ = q
  · subst hq
    rw [update_self, hp]
    -- neither side is a process of this worker id
    constructor
    iterate 2
      rintro h
      cases h
      exact absurd hk hkey
  · rw [update_of_ne hq]

end SameAt

section Owned
variable {s s' : State} {k : ℕ}

theorem Owned.same (h : Owned s k) (hs : SameAt k s s') : Owned s' k := by
  constructor
  · intro q q' p p' hp hp' hl hl' hk hk'
    exact h.unique ((hs.process hk).mp hp) ((hs.process hk').mp hp') hl hl' hk hk'
  · intro q p e hp hk he
    exact h.tracked ((hs.process hk).mp hp) hk (hs.entry ▸ he)

theorem Owned.remove (h : Owned s k) (hprs : s'.processes = s.processes)
    (hen : s'.entries k = none) : Owned s' k := by
  constructor
  · rw [hprs]
    exact h.unique
  · intro q p e _ _ he
    exact nomatch hen.symm.trans he

theorem NoneLive.owned (h : NoneLive s k) : Owned s k := by
  constructor
  · intro q _ p _ hp _ hl _ hk _
    exact absurd (h q p hp hk) hl
  · intro q p e hp hk _
    rw [h q p hp hk]
    trivial

variable {q : ℕ} {p : Process}

theorem Owned.others_exited (h : Owned s k) (hp : s.processes q = some p)
    (hl : p.stage ≠ .exited) (hk : p.key = k) {q' : ℕ} {p' : Process} (hne : q' ≠ q)
    (hp' : s.processes q' = some p') (hk' : p'.key = k) : p'.stage = .exited := by
  by_contra hl'
  exact hne (h.unique hp' hp hl' hl hk' hk)

variable {e : BaseWorkerEntry}

theorem Owned.noneLive (h : Owned s k) (he : s.entries k = some e)
    (hact : e.isActive = false) : NoneLive s k := by
  obtain ⟨hpid, hst⟩ := BaseWorkerEntry.isActive_eq_false_iff.mp hact
  intro q p hp hk
  have ht := h.tracked hp hk he
  cases hs : p.stage with
  | exited => rfl
  | launched =>
    rw [hs] at ht
    exact absurd ht.2 hst
  | exiting =>
    rw [hs] at ht
    rcases ht with hso | ⟨-, hstarting⟩
    · exact nomatch hpid.symm.trans hso
    · exact absurd hstarting hst
  | attached _ _ | running _ _ | returned _ =>
    rw [hs] at ht
    exact nomatch hpid.symm.trans ht

theorem Owned.update {p p' : Process} (h : Owned s p.key) (hp : s.processes q = some p)
    (hl : p.stage ≠ .exited)
    (hprs : s'.processes = update s.processes q (some p'))
    (ht : ∀ e, s'.entries p.key = some e → Tracks e q p'.stage) : Owned s' p.key := by
  have hs : s'.processes q = some p' := by rw [hprs, update_self]
  have hex : ∀ {q₁ p₁}, q₁ ≠ q → s'.processes q₁ = some p₁ → p₁.key = p.key →
      p₁.stage = .exited := by
    intro q₁ p₁ hne hp₁ hkey₁
    rw [hprs, update_of_ne hne] at hp₁
    exact h.others_exited hp hl rfl hne hp₁ hkey₁
  constructor
  · intro q₁ q₂ p₁ p₂ hp₁ hp₂ hl₁ hl₂ hkey₁ hkey₂
    have hq₁ : q₁ = q := by
      by_contra hne
      exact hl₁ (hex hne hp₁ hkey₁)
    have hq₂ : q₂ = q := by
      by_contra hne
      exact hl₂ (hex hne hp₂ hkey₂)
    rw [hq₁, hq₂]
  · intro q₁ p₁ e hp₁ hkey₁ he
    by_cases hne : q₁ = q
    · subst hne
      cases hs.symm.trans hp₁
      exact ht e he
    · rw [hex hne hp₁ hkey₁]
      trivial

variable {stage : Stage}

theorem Owned.process (h : Owned s k) (hp : s.processes q = some p) (hl : p.stage ≠ .exited)
    (hprs : s'.processes = Function.update s.processes q (some { p with stage }))
    (hes : ∀ k', k' ≠ p.key → s'.entries k' = s.entries k')
    (ht : Owned s p.key → ∀ e, s'.entries p.key = some e → Tracks e q stage) :
    Owned s' k := by
  by_cases hkey : p.key = k
  · subst hkey
    exact h.update hp hl hprs (ht h)
  · exact h.same (.update hp hkey hprs (hes k (Ne.symm hkey)))

variable {selects : ℕ → BaseWorkerEntry → Bool}

theorem mark_process {p' : Process} (hp' : (s.mark selects).processes q = some p') :
    ∃ p, s.processes q = some p ∧ p'.stage = p.stage ∧ p'.key = p.key ∧
      (p.sigterm = true → p'.sigterm = true) := by
  obtain ⟨p, hp, rfl⟩ := Option.map_eq_some_iff.mp hp'
  refine ⟨p, hp, ?_⟩
  split
  · exact ⟨rfl, rfl, fun _ => rfl⟩
  · exact ⟨rfl, rfl, id⟩

theorem mark_entry {e' : BaseWorkerEntry} (he' : (s.mark selects).entries k = some e') :
    ∃ e, s.entries k = some e ∧ e'.workerPid = e.workerPid ∧ e'.state = e.state ∧
      e'.extensionId = e.extensionId ∧ e'.needsRestart = (e.needsRestart || (selects k e && e.isActive)) := by
  obtain ⟨e, he, rfl⟩ := Option.map_eq_some_iff.mp he'
  refine ⟨e, he, ?_⟩
  split
  next hm => simp [hm]
  next hm => simp [hm]

theorem Owned.mark (h : Owned s k) : Owned (s.mark selects) k := by
  constructor
  · intro q q' p p' hp hp' hl hl' hk hk'
    obtain ⟨p₀, hp₀, hst, hk₀, -⟩ := mark_process hp
    obtain ⟨p₀', hp₀', hst', hk₀', -⟩ := mark_process hp'
    exact h.unique hp₀ hp₀' (hst ▸ hl) (hst' ▸ hl') (hk₀ ▸ hk) (hk₀' ▸ hk')
  · intro q p e hp hk he
    obtain ⟨p₀, hp₀, hst, hk₀, -⟩ := mark_process hp
    obtain ⟨e₀, he₀, hpid, hs, -, -⟩ := mark_entry he
    have ht := h.tracked hp₀ (hk₀ ▸ hk) he₀
    rw [hst]
    cases hst₀ : p₀.stage <;> rw [hst₀] at ht <;> simp only [Tracks, hpid, hs] <;>
      exact ht

variable {r : Registration}

theorem Launchable.workerPid (h : Launchable s r e) : e.workerPid = none := by
  cases h with
  | created => rfl
  | found _ hact => exact (BaseWorkerEntry.isActive_eq_false_iff.mp hact).1

theorem Launchable.noneLive (h : Launchable s r e)
    (ho : Owned s r.workerId) (hf : s.entries r.workerId = none → NoneLive s r.workerId) :
    NoneLive s r.workerId := by
  cases h with
  | created he => exact hf he
  | found he hact => exact ho.noneLive he hact

theorem launch_processes (r : Registration) (e : BaseWorkerEntry) :
    (launch true s r e).1.processes =
      update s.processes s.nextPid (some ⟨r.workerId, .launched, false⟩) := rfl

theorem launch_entries (r : Registration) (e : BaseWorkerEntry) :
    (launch true s r e).1.entries = update s.entries r.workerId
      (some ⟨r.extensionId, r.entryPointFunctionId, e.workerPid, .starting, false, 0⟩) := rfl

theorem Owned.launch (hd : NoneLive s r.workerId)
    (hpid : e.workerPid = none) (hprs : s'.processes = (launch true s r e).1.processes)
    (hes : s'.entries = (launch true s r e).1.entries) : Owned s' r.workerId := by
  have ho : ∀ {q p}, q ≠ s.nextPid → s'.processes q = some p → p.key = r.workerId →
      p.stage = .exited := by
    intro q p hne hp hk
    rw [hprs, launch_processes, update_of_ne hne] at hp
    exact hd q p hp hk
  constructor
  · intro q q' p p' hp hp' hl hl' hk hk'
    have hq : q = s.nextPid := by
      by_contra hne
      exact hl (ho hne hp hk)
    have hq' : q' = s.nextPid := by
      by_contra hne
      exact hl' (ho hne hp' hk')
    rw [hq, hq']
  · intro q p e' hp hk he'
    by_cases hq : q = s.nextPid
    · rw [hprs, launch_processes, hq, update_self] at hp
      rw [hes, launch_entries, update_self] at he'
      cases hp
      cases he'
      exact ⟨hpid, rfl⟩
    · rw [ho hq hp hk]
      trivial

theorem SameAt.launch (hpi : FreshPids s) (hs : r.workerId < 65536) (hne : k ≠ r.workerId)
    (hprs : s'.processes = (launch true s r e).1.processes)
    (hes : s'.entries = (launch true s r e).1.entries) : SameAt k s s' := by
  refine ⟨by rw [hes, launch_entries, update_of_ne hne], ?_⟩
  intro q p hk
  rw [hprs, launch_processes]
  by_cases hq : q = s.nextPid
  · rw [hq, update_self, hpi _ (Nat.le_refl _)]
    constructor
    · rintro hp
      cases hp
      exact absurd (hk.symm.trans (Nat.mod_eq_of_lt hs)) hne
    · intro hp
      exact nomatch hp
  · rw [update_of_ne hq]

/-! ## Moves -/

theorem FreshPids.of_move {e : Event} (h : FreshPids s) (hm : Move s e s') : FreshPids s' := by
  -- a process that goes on was there before
  have hset : ∀ {q p p'}, s.processes q = some p → ∀ q', s.nextPid ≤ q' →
      update s.processes q (some p') q' = none := by
    intro q p p' hp q' hq'
    have hne : q' ≠ q := by
      rintro rfl
      exact nomatch hp.symm.trans (h _ hq')
    rw [update_of_ne hne]
    exact h q' hq'
  have hma : ∀ selects q, s.nextPid ≤ q → (s.mark selects).processes q = none := by
    intro selects q hq
    exact Option.map_eq_none_iff.mpr (h q hq)
  cases hm with
  | processMoves hp | attaches hp | unregistered hp | asksForRestart hp | dies hp | fails hp
  | returns hp => exact hset hp
  | exits hp =>
    intro q hq
    rw [State.setProcess, exitHandler_processes]
    exact hset hp q ((exitHandler_nextPid ..) ▸ hq)
  | serverStarts => exact fun q hq => h q (Nat.le_of_succ_le hq)
  | starterLaunches =>
    intro q hq
    have hne : q ≠ s.nextPid := Nat.ne_of_gt hq
    exact (update_of_ne hne ..).trans (h q (Nat.le_of_succ_le hq))
  | prepareForDrop => exact hma (selectsExtension _)
  | markDeregistered => exact hma (selectsWorker _)
  | _ => exact h

theorem Tracks.of_canBeInterrupted
    (h : Tracks e q stage) (hst : stage.canBeInterrupted = true) : e.workerPid = some q := by
  cases stage with
  | attached _ _ | running _ _ | returned _ => exact h
  | launched | exiting _ | exited => exact nomatch hst

theorem ProcessMove.live (h : ProcessMove s p stage) : p.stage ≠ .exited := by
  cases h with
  | givesUp hst | checkFails hst | runs hst | finishes hst =>
    rw [hst]
    exact nofun

theorem ProcessMove.tracks (h : ProcessMove s p stage) (he : s.entries p.key = some e)
    (ht : Tracks e q p.stage) : Tracks e q stage := by
  cases h with
  | givesUp hst =>
    rw [hst] at ht
    exact .inr ht
  | checkFails hst =>
    rw [hst] at ht
    exact .inl ht
  | runs hst =>
    rw [hst] at ht
    exact ht
  | finishes _ hn => exact nomatch hn.symm.trans he

theorem live_of_canBeInterrupted (h : stage.canBeInterrupted = true) : stage ≠ .exited := by
  rintro rfl
  exact nomatch h

theorem Owned.of_move {e : Event} (h : Owned s k) (hpi : FreshPids s) (hs : SmallIds s e)
    (hf : ∀ r, StartsBaseWorker s e r → r.workerId = k → s.entries k = none → NoneLive s k)
    (hm : Move s e s') : Owned s' k := by
  cases hm with
  | starterRemovesAll => exact h.remove rfl rfl
  | @starterRemoves _ regs hst =>
    by_cases hk : regs.any (·.workerId = k) = true
    · exact h.same ⟨if_pos hk, fun _ => Iff.rfl⟩
    · exact h.remove rfl (if_neg hk)
  | @starterLaunches r rest blk e hst hl =>
    have hstarts : StartsBaseWorker s (.starter true) r := ⟨⟨_, rfl⟩, _, _, hst⟩
    by_cases hk : r.workerId = k
    · subst hk
      exact .launch (hl.noneLive h (hf r hstarts rfl)) hl.workerPid rfl rfl
    · exact h.same (.launch hpi (hs r hstarts) (Ne.symm hk) rfl rfl)
  | @starterLaunchFails r rest blk e hst hl =>
    by_cases hk : r.workerId = k
    · subst hk
      have hd : NoneLive s r.workerId :=
        hl.noneLive h (hf r ⟨⟨_, rfl⟩, _, _, hst⟩ rfl)
      exact NoneLive.owned hd
    · exact h.same ⟨update_of_ne (Ne.symm hk) .., fun _ => Iff.rfl⟩
  | processMoves hp hm =>
    exact h.process hp hm.live rfl (fun _ _ => rfl)
      fun ho e he => hm.tracks he (ho.tracked hp rfl he)
  | @attaches q p e hp hst hen hpid hn =>
    refine h.process hp (by simp [hst]) rfl
      (fun k' hk' => update_of_ne hk' ..) fun _ e' he' => ?_
    cases (update_self ..).symm.trans he'
    rfl
  | @unregistered q p _ _ hp hst hg =>
    refine h.process hp (by simp [hst]) rfl
      (fun k' hk' => update_of_ne hk' ..) fun _ e' he' => ?_
    cases (update_self ..).symm.trans he'
  | @asksForRestart q p e _ hp hst hen =>
    refine h.process hp (by simp [hst]) rfl
      (fun k' hk' => update_of_ne hk' ..) fun ho e' he' => ?_
    cases (update_self ..).symm.trans he'
    have ht := ho.tracked hp rfl hen
    rw [hst] at ht
    exact .inl ht
  | @exits q p code hp hst =>
    refine h.process hp (by simp [hst]) (exits_processes ..) ?_ fun _ _ _ => trivial
    intro k' hk'
    exact (exitHandler_entries s p.key code k').trans (if_neg hk')
  | dies hp _ hst | fails hp hst =>
    exact h.process hp (live_of_canBeInterrupted hst) rfl (fun _ _ => rfl)
      fun ho e he => .inl ((ho.tracked hp rfl he).of_canBeInterrupted hst)
  | @returns q p _ _ restartDelayMs hp hst =>
    refine h.process hp (by simp [hst]) rfl (fun _ _ => rfl)
      fun ho e he => ?_
    have ht := ho.tracked hp rfl he
    rw [hst] at ht
    split
    · exact ht
    · exact .inl ht
  | prepareForDrop =>
    have hki : Owned s.killStarter k := h.same (.of_eq rfl rfl)
    exact hki.mark.same (.of_eq rfl rfl)
  | markDeregistered => exact h.mark.same (.of_eq rfl rfl)
  | _ => exact h.same (.of_eq rfl rfl)

end Owned

/-! ## Runs -/

section Runs
variable {s s' : State}

structure Unique (s : State) : Prop where
  pids : FreshPids s
  owned : ∀ k, Owned s k

theorem Unique.of_step {e : Event} (h : Unique s) (hs : SmallIds s e) (hf : FreshEntries s e)
    (hst : step s e = some s') : Unique s' := by
  have hm := move_of_step hst
  refine ⟨h.pids.of_move hm, fun k => (h.owned k).of_move h.pids hs ?_ hm⟩
  rintro r hstarts rfl
  exact hf r hstarts

theorem unique_start (c : Catalog) (nw next : ℕ) :
    Unique (start c nw next) :=
  ⟨fun _ _ => rfl, fun _ => NoneLive.owned nofun⟩

theorem live_of_isRunning {stage : Stage} (h : stage.isRunning = true) : stage ≠ .exited := by
  rintro rfl
  exact nomatch h

theorem Unique.runsOnce (h : Unique s) : RunsOnce s := by
  intro q q' p p' hp hp' hrun hrun' hk
  exact (h.owned p.key).unique hp hp' (live_of_isRunning hrun) (live_of_isRunning hrun') rfl hk.symm

theorem Unique.stepUnique {e : Event} (h : Unique s) (hs : SmallIds s e)
    (hf : FreshEntries s e) : StepUnique s e := by
  constructor
  · intro s' hstep
    exact (h.of_step hs hf hstep).runsOnce
  · -- the entry belongs to the process that exits, as both are live
    rintro q p code s' - hp hst - q' hne ⟨-, p', -, hp', hkey', hl', -⟩
    have hl : p.stage ≠ .exited := by
      rw [hst]
      exact nofun
    exact absurd ((h.owned p.key).unique hp' hp hl' hl hkey' rfl) hne

/-- **A base worker runs at most once at a time** in a run in which worker ids are small and
    entries are created after the processes of their worker id have exited. -/
theorem runs_once (catalog : Catalog) (nextWorkerId nextExtensionId : ℕ) (es : List Event)
    (h : Transition.Along step (fun s e => SmallIds s e ∧ FreshEntries s e)
      (start catalog nextWorkerId nextExtensionId) es) :
    Transition.Along step StepUnique (start catalog nextWorkerId nextExtensionId) es := by
  refine Transition.along_of_invariant ?_ ?_ (unique_start ..) h
  · rintro s s' e hunique ⟨hsmall, hfresh⟩ hstep
    exact hunique.of_step hsmall hfresh hstep
  · rintro s e hunique ⟨hsmall, hfresh⟩
    exact hunique.stepUnique hsmall hfresh

theorem fresh_of_stage {e : Event}
    (h : ∀ r rest blk, s.starter.stage ≠ .checked r rest blk) :
    SmallIds s e ∧ FreshEntries s e := by
  constructor
  iterate 2
    rintro r ⟨-, rest, blk, hst⟩
    exact absurd hst (h r rest blk)

theorem fresh_of_checked {e : Event} {r : Registration} {rest : List Registration} {blk : Bool}
    (h : s.starter.stage = .checked r rest blk) (hr : r.workerId < 65536)
    (hf : s.entries r.workerId = none → NoneLive s r.workerId) :
    SmallIds s e ∧ FreshEntries s e := by
  constructor
  · rintro r' ⟨-, rest', blk', hst⟩
    obtain ⟨rfl, -, -⟩ := StarterStage.checked.inj (h.symm.trans hst)
    exact hr
  · rintro r' ⟨-, rest', blk', hst⟩
    obtain ⟨rfl, -, -⟩ := StarterStage.checked.inj (h.symm.trans hst)
    exact hf

/-- One extension with one registered worker. -/
def oneWorker : Catalog := ⟨true, [5], [⟨1, 5, 0⟩]⟩

/-- The server starts a database starter, which comes to the first worker. -/
def startUp : List Event :=
  [.startDatabaseStarter true, .starter true, .starter true, .starter true, .starter true,
    .starter true]

/-- The worker asks for a restart when it returns, and a second starter runs it again. -/
theorem runs_once_restart : Transition.Along step StepUnique (start oneWorker 2 6)
      (startUp ++ [.starter true, .starter true, .starter true, .process 2, .process 2,
        .returns 2 (-1), .process 2, .process 2] ++ startUp ++
          [.starter true, .process 4, .process 4]) := by
  refine runs_once oneWorker 2 6 _ ?_
  iterate 6 refine .of_step (fresh_of_stage nofun) rfl ?_
  refine .of_step (fresh_of_checked rfl (by decide) fun _ _ _ hp => nomatch hp) rfl ?_
  iterate 13 refine .of_step (fresh_of_stage nofun) rfl ?_
  refine .of_step (fresh_of_checked rfl (by decide) nofun) rfl ?_
  iterate 2 refine .of_step (fresh_of_stage nofun) rfl ?_
  trivial

/-- `pg_extension_base` is dropped while the worker runs, and its worker id is used again
    before the worker has got its SIGTERM. -/
theorem worker_runs_twice : ¬ Transition.Along step StepUnique (start oneWorker 2 6)
      (startUp ++ [.starter true, .starter true, .starter true, .process 2, .process 2,
        .txn 0 (.prepareForDrop none), .txn 0 .commit, .startDatabaseStarter true, .starter true,
        .starter true, .starter true, .starter true, .txn 0 .createBase, .txn 0 .commit,
        .txn 0 .createExtension, .txn 0 (.register 6 0), .txn 0 .commit] ++ startUp ++
          [.starter true, .process 5] ++ [.process 5]) := by
  intro h
  have hrun := (h.of_append rfl).1.once _ rfl 2 5 _ _ rfl rfl rfl rfl rfl
  exact nomatch hrun

end Runs

end PgLake.BaseWorkers
