/-
  Fair schedules of the base worker launcher, and how far a process has come.
-/
import PgLake.BaseWorkers.Registrations
import PgLake.Lib.Fairness

namespace PgLake.BaseWorkers

/-! ## Fairness -/

inductive Actor where
  | server
  | starter
  | process (pid : ℕ)
  | clock
  deriving DecidableEq

def Process.canMove (p : Process) : Bool :=
  match p.stage with
  | .launched | .attached _ _ | .returned _ | .exiting _ => true
  | .running _ _ => p.sigterm
  | .exited => false

def Actor.enabled : Actor → State → Prop
  | .server, s => s.startable = true
  | .starter, s => (starterStep true s).isSome = true
  | .process q, s => ∃ p, s.processes q = some p ∧ p.canMove = true
  | .clock, _ => True

def Actor.takes : Actor → Event → Prop
  | .server, e => ∃ registered, e = .startDatabaseStarter registered
  | .starter, e => ∃ registered, e = .starter registered
  | .process q, e => e = .process q ∨ e = .die q
  | .clock, e => e = .tick

/-- Every actor that stays able to move does move. -/
def Fair {s : State} (ρ : Fairness.Path step s) : Prop :=
  ∀ a : Actor, ρ.WeakFair a.enabled a.takes

theorem Fair.follows {s s' : State} {es : List Event} {ρ : Fairness.Path step s}
    {ρ' : Fairness.Path step s'} (h : Fair ρ) (hρ' : ρ.Follows es ρ') : Fair ρ' :=
  fun a => hρ'.weakFair (h a)

/-! ## Processes -/

@[simp] def Stage.weight : Stage → ℕ
  | .launched => 5
  | .attached _ _ => 4
  | .running _ _ => 3
  | .returned _ => 2
  | .exiting _ => 1
  | .exited => 0

theorem Stage.weight_le (stage : Stage) : stage.weight ≤ 5 := by
  cases stage <;> simp

structure ProcessStep (e : Event) (q : ℕ) (p p' : Process) : Prop where
  workerId : p'.workerId = p.workerId
  sigterm : p.sigterm = true → p'.sigterm = true
  stage : p'.stage = p.stage ∧ ¬ (Actor.process q).takes e ∨ p'.stage.weight < p.stage.weight
  extension : p.stage ≠ .launched → ∀ {extensionId}, p'.stage.extensionId = some extensionId →
    p.stage.extensionId = some extensionId

section Process
variable {s s' : State} {e : Event} {q : ℕ} {p : Process}

theorem ProcessStep.refl (h : ¬ (Actor.process q).takes e) : ProcessStep e q p p where
  workerId := rfl
  sigterm := id
  stage := .inl ⟨rfl, h⟩
  extension _ _ := id

variable {stage : Stage}

theorem ProcessStep.of_weight (hw : stage.weight < p.stage.weight)
    (hext : p.stage ≠ .launched → ∀ {ext}, stage.extensionId = some ext →
      p.stage.extensionId = some ext) : ProcessStep e q p { p with stage } where
  workerId := rfl
  sigterm := id
  stage := .inr hw
  extension := hext

theorem ProcessStep.not_launched {p' : Process} (h : ProcessStep e q p p')
    (hst : p.stage ≠ .launched) : p'.stage ≠ .launched := by
  intro hl
  rcases h.stage with ⟨hs, -⟩ | hlt
  · exact hst (hs ▸ hl)
  · rw [hl] at hlt
    exact absurd p.stage.weight_le (Nat.not_le.mpr hlt)

theorem ProcessMove.weight (h : ProcessMove s p stage) : stage.weight < p.stage.weight := by
  cases h with
  | givesUp hst | checkFails hst | runs hst | finishes hst =>
    simp [hst]

theorem weight_of_canBeInterrupted (h : stage.canBeInterrupted = true) : 1 < stage.weight := by
  cases stage with
  | attached _ _ | running _ _ | returned _ => simp
  | launched | exiting _ | exited => exact nomatch h

theorem exists_processStep {q' : ℕ} {p₁ p' : Process} (hp : s.processes q = some p)
    (hp₁ : s.processes q' = some p₁)
    (hprs : s'.processes = Function.update s.processes q' (some p'))
    (hs : ProcessStep e q' p₁ p') (ho : q ≠ q' → ¬ (Actor.process q).takes e) :
    ∃ p', s'.processes q = some p' ∧ ProcessStep e q p p' := by
  by_cases hq : q = q'
  · subst hq
    cases hp.symm.trans hp₁
    exact ⟨p', by rw [hprs, Function.update_self], hs⟩
  · exact ⟨p, by rw [hprs, Function.update_of_ne hq, hp], .refl (ho hq)⟩

theorem not_takes_process {q' : ℕ} (hq : q ≠ q') : ¬ (Actor.process q).takes (.process q') := by
  rintro (h | h)
  · exact hq (Event.process.inj h).symm
  · exact nomatch h

theorem mark_processStep (selects : ℕ → BaseWorkerEntry → Bool) (hp : s.processes q = some p)
    (hprs : s'.processes = (s.mark selects).processes) (h : ¬ (Actor.process q).takes e) :
    ∃ p', s'.processes q = some p' ∧ ProcessStep e q p p' := by
  rw [hprs]
  refine ⟨_, Option.map_eq_some_iff.mpr ⟨p, hp, rfl⟩, ?_⟩
  split
  · exact ⟨rfl, fun _ => rfl, .inl ⟨rfl, h⟩, fun _ _ => id⟩
  · exact .refl h

theorem Move.process_cases (hm : Move s e s') (hpi : FreshPids s)
    (hp : s.processes q = some p) : ∃ p', s'.processes q = some p' ∧ ProcessStep e q p p' := by
  cases hm with
  | starterLaunches =>
    have hne : q ≠ s.nextPid := by
      rintro rfl
      exact nomatch hp.symm.trans (hpi _ (Nat.le_refl _))
    exact ⟨p, (Function.update_of_ne hne ..).trans hp, .refl nofun⟩
  | processMoves hp₁ hm =>
    exact exists_processStep hp hp₁ rfl (.of_weight hm.weight fun _ _ => hm.extensionId)
      not_takes_process
  | attaches hp₁ hst =>
    refine exists_processStep hp hp₁ rfl (.of_weight ?_ (absurd hst)) not_takes_process
    simp [hst]
  | unregistered hp₁ hst | asksForRestart hp₁ hst =>
    refine exists_processStep hp hp₁ rfl (.of_weight ?_ nofun) not_takes_process
    simp [hst]
  | exits hp₁ hst =>
    refine exists_processStep hp hp₁ (exits_processes ..) (.of_weight ?_ nofun) not_takes_process
    simp [hst]
  | dies hp₁ hs hst =>
    refine exists_processStep hp hp₁ rfl
      (.of_weight (weight_of_canBeInterrupted hst) nofun) fun hq => ?_
    rintro (h | h)
    · exact nomatch h
    · exact hq (Event.die.inj h).symm
  | fails hp₁ hst =>
    exact exists_processStep hp hp₁ rfl
      (.of_weight (weight_of_canBeInterrupted hst) nofun) nofun
  | returns hp₁ hst =>
    refine exists_processStep hp hp₁ rfl (.of_weight ?_ fun _ _ hext => ?_) nofun
    · rw [hst]
      split <;> simp
    · split at hext <;> exact nomatch hext
  | @prepareForDrop _ ext =>
    exact mark_processStep (selectsExtension ext) hp rfl nofun
  | @markDeregistered _ workerId => exact mark_processStep (selectsWorker workerId) hp rfl nofun
  | _ => exact ⟨p, hp, .refl nofun⟩

def State.weight (s : State) (q : ℕ) : ℕ :=
  match s.processes q with
  | some p => p.stage.weight
  | none => 0

theorem weight_of_some (hp : s.processes q = some p) : s.weight q = p.stage.weight := by
  rw [State.weight, hp]

end Process

/-! ## Runs in which nothing happens any more -/

section Idle
variable {s : State}

def State.tick (s : State) : State := { s with now := s.now + 1 }

def idle (s : State) : Fairness.Path step s := .loop s .tick State.tick fun _ => rfl

theorem idle_state (s : State) (n : ℕ) : (idle s).state n = { s with now := s.now + n } := by
  induction n with
  | zero => rfl
  | succ n ih =>
    rw [show (idle s).state (n + 1) = ((idle s).state n).tick from Function.iterate_succ_apply' .., ih]
    rfl

theorem fair_idle (hserver : s.startable = false) (hs : s.starter.stage = .gone)
    (hpr : ∀ q p, s.processes q = some p → p.canMove = false) : Fair (idle s) := by
  intro a n he
  have hn := he n (Nat.le_refl n)
  rw [idle_state] at hn
  cases a with
  | server => exact nomatch hserver.symm.trans hn
  | starter =>
    have hno : starterStep true { s with now := s.now + n } = none := by
      simp [starterStep, hs]
    rw [Actor.enabled, hno] at hn
    exact nomatch hn
  | process q =>
    obtain ⟨p, hp, hm⟩ := hn
    exact nomatch (hpr q p hp).symm.trans hm
  | clock => exact ⟨n, Nat.le_refl n, rfl⟩

end Idle

end PgLake.BaseWorkers
