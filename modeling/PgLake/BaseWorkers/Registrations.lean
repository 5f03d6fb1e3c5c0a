/-
  Registered base workers, their entries and their processes.

  A worker that is registered and whose extension exists is looked after: its entry is not
  removed while it has a process, and entry and process are of its extension.
-/
import Mathlib.Data.List.Nodup
import PgLake.BaseWorkers.Uniqueness

namespace PgLake.BaseWorkers

open List Option

open Function (update_of_ne update_self)

/-! ## The catalog -/

/-- The registration is one of `GetBaseWorkerRegistrationList`. -/
structure Catalog.IsValid (c : Catalog) (r : Registration) : Prop where
  base : c.hasBase = true
  worker : r ∈ c.workers
  extension : r.extensionId ∈ c.extensions

def Change.removes (r : Registration) : Change → Bool
  | .dropBase => true
  | .dropExtension extensionId => r.extensionId = extensionId
  | .deregister workerId => r.workerId = workerId
  | _ => false

open Catalog

section Catalog
variable {c : Catalog} {r : Registration}

theorem Catalog.mem_registrationList :
    r ∈ c.registrationList ↔ r ∈ c.workers ∧ r.extensionId ∈ c.extensions := by
  simp [registrationList]

theorem Catalog.IsValid.mem_registrationList (h : c.IsValid r) : r ∈ c.registrationList :=
  Catalog.mem_registrationList.mpr ⟨h.worker, h.extension⟩

theorem Catalog.IsValid.isWorkerRegistered (h : c.IsValid r) :
    c.isWorkerRegistered r.workerId = true :=
  any_eq_true.mpr ⟨r, h.worker, decide_eq_true rfl⟩

theorem Catalog.mem_apply {change : Change} (h : r ∈ (c.apply change).workers) :
    change = .register r ∨ r ∈ c.workers ∧ change.removes r = false := by
  cases change with
  | createBase | createExtension _ => exact .inr ⟨h, rfl⟩
  | dropBase => exact nomatch h
  | dropExtension ext | deregister workerId =>
    obtain ⟨hr, hne⟩ := mem_filter.mp h
    exact .inr ⟨hr, decide_eq_false (of_decide_eq_true hne)⟩
  | register =>
    rcases mem_append.mp h with hr | hr
    · exact .inr ⟨hr, rfl⟩
    · rw [mem_singleton.mp hr]
      exact .inl rfl

theorem Catalog.mem_foldl {changes : List Change} :
    ∀ {c : Catalog}, r ∈ (changes.foldl apply c).workers →
      .register r ∈ changes ∨ r ∈ c.workers ∧ ∀ change ∈ changes, change.removes r = false := by
  induction changes with
  | nil => exact fun h => .inr ⟨h, nofun⟩
  | cons change changes ih =>
    intro c h
    rcases ih h with hre | ⟨hr, hk⟩
    · exact .inl (mem_cons_of_mem _ hre)
    · rcases mem_apply hr with rfl | ⟨hr, hc⟩
      · exact .inl mem_cons_self
      · exact .inr ⟨hr, forall_mem_cons.mpr ⟨hc, hk⟩⟩

theorem Catalog.IsValid.apply (h : c.IsValid r) {change : Change}
    (hk : change.removes r = false) : (c.apply change).IsValid r := by
  cases change with
  | createBase => exact ⟨rfl, h.worker, h.extension⟩
  | dropBase => exact nomatch hk
  | createExtension _ => exact ⟨h.base, h.worker, mem_cons_of_mem _ h.extension⟩
  | dropExtension extensionId =>
    have hne : r.extensionId ≠ extensionId := of_decide_eq_false hk
    exact ⟨h.base, mem_filter.mpr ⟨h.worker, decide_eq_true hne⟩,
      mem_filter.mpr ⟨h.extension, decide_eq_true hne⟩⟩
  | register _ => exact ⟨h.base, mem_append_left _ h.worker, h.extension⟩
  | deregister workerId =>
    have hne : r.workerId ≠ workerId := of_decide_eq_false hk
    exact ⟨h.base, mem_filter.mpr ⟨h.worker, decide_eq_true hne⟩, h.extension⟩

theorem Catalog.IsValid.foldl {changes : List Change} :
    ∀ {c : Catalog}, c.IsValid r → (∀ change ∈ changes, change.removes r = false) →
      (changes.foldl Catalog.apply c).IsValid r := by
  induction changes with
  | nil => exact fun h _ => h
  | cons change changes ih =>
    intro c h hk
    obtain ⟨hc, hk⟩ := forall_mem_cons.mp hk
    exact ih (h.apply hc) hk

theorem Catalog.eq_of_workerId (hn : (c.workers.map (·.workerId)).Nodup) {r' : Registration}
    (hr : r ∈ c.workers) (hr' : r' ∈ c.workers) (hid : r'.workerId = r.workerId) : r' = r :=
  inj_on_of_nodup_map hn hr' hr hid

end Catalog

/-! ## What is left of a worker id -/

/-- The registrations that a database starter has read and still goes through. -/
def StarterStage.registrations : StarterStage → List Registration
  | .removing registrations | .starting registrations _ => registrations
  | .checked r registrations _ => r :: registrations
  | _ => []

def Stage.extensionId : Stage → Option ℕ
  | .attached extensionId _ | .running extensionId _ => some extensionId
  | _ => none

/-- Nothing is left of the worker id. -/
structure Unused (s : State) (k : ℕ) : Prop where
  entry : s.entries k = none
  dead : NoneLive s k
  list : ∀ r ∈ s.starter.stage.registrations, r.workerId ≠ k

/-- A transaction that commits registers no worker id of which something is left. -/
def NoReuse (s : State) : Event → Prop
  | .txn t .commit => ∀ r, .register r ∈ (s.txns t).changes → Unused s r.workerId
  | _ => True

/-- What is left of the worker id is of this registration. -/
structure Held (s : State) (r : Registration) : Prop where
  owned : Owned s r.workerId
  absent : s.entries r.workerId = none → NoneLive s r.workerId
  entry : ∀ {e}, s.entries r.workerId = some e → e.extensionId = r.extensionId
  process : ∀ {q p extensionId}, s.processes q = some p → p.key = r.workerId →
    p.stage.extensionId = some extensionId → extensionId = r.extensionId

/-- The database starter knows the registration, or its entry does not exist yet. -/
structure Listed (s : State) (r : Registration) : Prop where
  list : ∀ r' ∈ s.starter.stage.registrations, r'.workerId = r.workerId → r' = r
  removing : ∀ {registrations}, s.starter.stage = .removing registrations →
    registrations.any (·.workerId = r.workerId) = false → s.entries r.workerId = none
  removingAll : s.starter.stage = .removingAll → s.entries r.workerId = none

section Held
variable {s s' : State} {r : Registration} {k : ℕ}

theorem Unused.held (h : Unused s r.workerId) : Held s r where
  owned := h.dead.owned
  absent _ := h.dead
  entry he := nomatch h.entry.symm.trans he
  process hp hkey hext := by
    rw [h.dead _ _ hp hkey] at hext
    exact nomatch hext

theorem Unused.listed (h : Unused s r.workerId) : Listed s r where
  list r' hr' hid := absurd hid (h.list r' hr')
  removing _ _ := h.entry
  removingAll _ := h.entry

theorem NoneLive.same (h : NoneLive s k) (hs : SameAt k s s') : NoneLive s' k :=
  fun q p hp hk => h q p ((hs.process hk).mp hp) hk

theorem Held.same (h : Held s r) (hs : SameAt r.workerId s s') : Held s' r where
  owned := h.owned.same hs
  absent hn := (h.absent (hs.entry ▸ hn)).same hs
  entry he := h.entry (hs.entry ▸ he)
  process hp hkey := h.process ((hs.process hkey).mp hp) hkey

theorem Held.update (h : Held s r) {q : ℕ} {p : Process} (hp : s.processes q = some p)
    (hl : p.stage ≠ .exited) {stage : Stage}
    (hprs : s'.processes = Function.update s.processes q (some { p with stage }))
    (hes : ∀ k', k' ≠ p.key → s'.entries k' = s.entries k')
    (hen : p.key = r.workerId → ∀ e, s.entries p.key = some e →
      ∃ e', s'.entries p.key = some e' ∧ e'.extensionId = e.extensionId)
    (hext : p.key = r.workerId → ∀ ext, stage.extensionId = some ext →
      ext = r.extensionId)
    (ho : Owned s' r.workerId) : Held s' r := by
  by_cases hk : p.key = r.workerId
  · obtain ⟨e, he⟩ : ∃ e, s.entries p.key = some e := by
      refine ne_none_iff_exists'.mp fun hn => hl ?_
      exact h.absent (hk ▸ hn) q p hp hk
    obtain ⟨e', he', hs⟩ := hen hk e he
    rw [hk] at he he'
    refine ⟨ho, fun hn => ?_, fun he'' => ?_, ?_⟩
    · exact nomatch he'.symm.trans hn
    · cases he'.symm.trans he''
      exact hs.trans (h.entry he)
    · intro q' p' ext hp' hk' hext'
      rw [hprs] at hp'
      by_cases hq : q' = q
      · rw [hq, update_self] at hp'
        cases hp'
        exact hext hk ext hext'
      · rw [update_of_ne hq] at hp'
        exact h.process hp' hk' hext'
  · exact h.same (.update hp hk hprs (hes _ (Ne.symm hk)))

theorem Held.mark (h : Held s r) (selects : ℕ → BaseWorkerEntry → Bool) :
    Held (s.mark selects) r := by
  refine ⟨h.owned.mark, fun hn q p' hp' hk => ?_, fun he => ?_, fun hp' hk hext => ?_⟩
  · obtain ⟨p, hp, hst, hk', -⟩ := mark_process hp'
    rw [hst]
    exact h.absent (map_eq_none_iff.mp hn) q p hp (hk' ▸ hk)
  · obtain ⟨e, he, -, -, hext, -⟩ := mark_entry he
    exact hext.trans (h.entry he)
  · obtain ⟨p, hp, hst, hk', -⟩ := mark_process hp'
    exact h.process hp (hk' ▸ hk) (hst ▸ hext)

theorem Held.launch {e : BaseWorkerEntry} (h : Held s r)
    (hprs : s'.processes = (launch true s r e).1.processes)
    (hes : s'.entries = (launch true s r e).1.entries)
    (ho : Owned s' r.workerId) : Held s' r := by
  have hen : s'.entries r.workerId =
      some ⟨r.extensionId, r.entryPointFunctionId, e.workerPid, .starting, false, 0⟩ := by
    rw [hes, launch_entries, update_self]
  refine ⟨ho, fun hn => (nomatch hen.symm.trans hn), fun he => ?_, ?_⟩
  · cases hen.symm.trans he
    rfl
  · intro q p ext hp hk hext
    rw [hprs, launch_processes] at hp
    by_cases hq : q = s.nextPid
    · rw [hq, update_self] at hp
      cases hp
      exact nomatch hext
    · rw [update_of_ne hq] at hp
      exact h.process hp hk hext

theorem Listed.same (h : Listed s r) (hst : s'.starter.stage = s.starter.stage)
    (hn : s.entries r.workerId = none → s'.entries r.workerId = none) : Listed s' r where
  list := by
    rw [hst]
    exact h.list
  removing hr hany := hn (h.removing (hst ▸ hr) hany)
  removingAll hremovingAll := hn (h.removingAll (hst ▸ hremovingAll))

theorem Tracks.of_extensionId {e : BaseWorkerEntry} {q : ℕ} {stage : Stage} (h : Tracks e q stage)
    (hext : stage.extensionId.isSome = true) : e.workerPid = some q := by
  cases stage with
  | attached _ _ | running _ _ => exact h
  | launched | returned _ | exiting _ | exited => exact nomatch hext

/-! ## Moves -/

theorem ProcessMove.extensionId {p : Process} {stage : Stage} (h : ProcessMove s p stage)
    {extensionId : ℕ} (hext : stage.extensionId = some extensionId) :
    p.stage.extensionId = some extensionId := by
  cases h with
  | runs hst =>
    rw [hst]
    exact hext
  | givesUp | checkFails | finishes => exact nomatch hext

theorem Held.registered (h : Held s r) (hv : s.catalog.IsValid r) {q : ℕ} {p : Process}
    {ext fn : ℕ} (hp : s.processes q = some p)
    (hk : p.key = r.workerId) (hst : p.stage = .attached ext fn)
    (hg : ext ∉ s.catalog.extensions ∨ s.catalog.isWorkerRegistered p.key = false) :
    False := by
  have hext := h.process hp hk (by rw [hst]; rfl)
  rcases hg with he | hreg
  · exact absurd (hext ▸ hv.extension) he
  · rw [hk, hv.isWorkerRegistered] at hreg
    exact nomatch hreg

variable {e : Event}

theorem Held.of_move (h : Held s r) (hl : Listed s r)
    (hv : s.catalog.IsValid r) (hpi : FreshPids s) (hs : SmallIds s e)
    (hm : Move s e s') : Held s' r := by
  have ho : Owned s' r.workerId := by
    refine h.owned.of_move hpi hs ?_ hm
    exact fun _ _ _ => h.absent
  cases hm with
  | starterRemovesAll hst =>
    exact h.same ⟨(hl.removingAll hst).symm, fun _ => Iff.rfl⟩
  | @starterRemoves _ regs hst =>
    by_cases hk : regs.any (·.workerId = r.workerId) = true
    · exact h.same ⟨if_pos hk, fun _ => Iff.rfl⟩
    · have hn := hl.removing hst (Bool.not_eq_true _ ▸ hk)
      exact h.same ⟨(if_neg hk).trans hn.symm, fun _ => Iff.rfl⟩
  | @starterLaunches r' rest blk e hst hla =>
    by_cases hid : r'.workerId = r.workerId
    · obtain rfl := hl.list r' (by rw [hst]; exact mem_cons_self) hid
      exact h.launch rfl rfl ho
    · have hstarts : StartsBaseWorker s (.starter true) r' := ⟨⟨_, rfl⟩, _, _, hst⟩
      exact h.same (.launch hpi (hs r' hstarts) (Ne.symm hid) rfl rfl)
  | @starterLaunchFails r' rest blk e hst hla =>
    by_cases hid : r'.workerId = r.workerId
    · obtain rfl := hl.list r' (by rw [hst]; exact mem_cons_self) hid
      refine ⟨ho, fun hn => ?_, fun he => ?_, h.process⟩
      · exact nomatch (update_self ..).symm.trans hn
      · cases (update_self ..).symm.trans he
        rfl
    · exact h.same ⟨update_of_ne (Ne.symm hid) .., fun _ => Iff.rfl⟩
  | processMoves hp hm =>
    refine h.update hp hm.live rfl (fun _ _ => rfl) (fun _ e he => ⟨e, he, rfl⟩) ?_ ho
    exact fun hkey ext hext => h.process hp hkey (hm.extensionId hext)
  | @attaches q p e hp hst hen hpid hne =>
    refine h.update hp (by simp [hst]) rfl (fun k' hk' => update_of_ne hk' ..)
      (fun _ e' he' => ⟨_, update_self .., ?_⟩) (fun hkey ext hext => ?_) ho
    · cases hen.symm.trans he'
      rfl
    · cases hext
      exact h.entry (hkey ▸ hen)
  | @unregistered q p _ _ hp hst hg =>
    exact h.update hp (by simp [hst]) rfl (fun k' hk' => update_of_ne hk' ..)
      (fun hkey _ _ => (h.registered hv hp hkey hst hg).elim)
      (fun _ _ hext => nomatch hext) ho
  | @asksForRestart q p e _ hp hst hen =>
    refine h.update hp (by simp [hst]) rfl (fun k' hk' => update_of_ne hk' ..)
      (fun _ e' he' => ⟨_, update_self .., ?_⟩) (fun _ _ hext => nomatch hext) ho
    cases hen.symm.trans he'
    rfl
  | @exits q p code hp hst =>
    refine h.update hp (by simp [hst]) (exits_processes ..)
      (fun k' hk' => (exitHandler_entries s p.key code k').trans (if_neg hk'))
      (fun _ e he => ⟨_, ?_, exitEntry_extensionId s.now code e⟩) (fun _ _ hext => nomatch hext) ho
    refine (exitHandler_entries s p.key code p.key).trans ?_
    rw [if_pos rfl, he, map_some]
  | dies hp _ hst | fails hp hst =>
    exact h.update hp (live_of_canBeInterrupted hst) rfl (fun _ _ => rfl)
      (fun _ e he => ⟨e, he, rfl⟩) (fun _ _ hext => nomatch hext) ho
  | @returns q p _ _ restartDelayMs hp hst =>
    refine h.update hp (by simp [hst]) rfl (fun _ _ => rfl)
      (fun _ e he => ⟨e, he, rfl⟩) (fun _ ext hext => ?_) ho
    split at hext <;> exact nomatch hext
  | prepareForDrop =>
    have hki : Held s.killStarter r := h.same (.of_eq rfl rfl)
    exact (hki.mark _).same (.of_eq rfl rfl)
  | markDeregistered => exact (h.mark _).same (.of_eq rfl rfl)
  | _ => exact h.same (.of_eq rfl rfl)

theorem StarterMove.registrations {stage : StarterStage} (h : StarterMove s stage) :
    ∀ r ∈ stage.registrations, r ∈ s.starter.stage.registrations ∨
      s.catalog.hasBase = true ∧ r ∈ s.catalog.registrationList := by
  intro r hr
  cases h with
  | reads _ _ hb => exact .inr ⟨hb, hr⟩
  | checks hst _ =>
    rw [hst]
    exact .inl hr
  | passes hst _ _ | blocks hst _ _ _ _ =>
    rw [hst]
    exact .inl (mem_cons_of_mem _ hr)
  | locks _ _ | finishes _ =>
    split at hr <;> exact nomatch hr
  | givesUp | terminates | readFails | stops => exact nomatch hr

theorem Move.registrations (h : Move s e s') :
    ∀ r ∈ s'.starter.stage.registrations, r ∈ s.starter.stage.registrations ∨
      s.catalog.hasBase = true ∧ r ∈ s.catalog.registrationList := by
  intro r hr
  cases h with
  | serverStarts | starterAttaches | starterRemovesAll | starterLaunchFails | starterRestarts
  | starterExits | starterFails => exact nomatch hr
  | starterMoves h => exact h.registrations r hr
  | starterRemoves hst =>
    rw [hst]
    exact .inl hr
  | starterLaunches hst _ =>
    rw [hst]
    exact .inl (mem_cons_of_mem _ hr)
  | exits => exact .inl (exitHandler_starter s _ _ ▸ hr)
  | prepareForDrop => exact .inl (killStarter_stage s ▸ hr)
  | _ => exact .inl hr

theorem update_of_none {key : ℕ} (hn : s.entries k = none) {e : Option BaseWorkerEntry}
    (h : s.entries key ≠ none ∨ e = none) : Function.update s.entries key e k = none := by
  by_cases hk : k = key
  · subst hk
    rcases h with hs | rfl
    · exact absurd hn hs
    · exact update_self ..
  · rw [update_of_ne hk, hn]

theorem Listed.of_move (h : Listed s r) (hv : s.catalog.IsValid r)
    (hno : (s.catalog.workers.map (·.workerId)).Nodup) (hm : Move s e s') : Listed s' r := by
  have hl : ∀ r' ∈ s'.starter.stage.registrations, r'.workerId = r.workerId → r' = r := by
    intro r' hr' hid
    rcases hm.registrations r' hr' with hr' | ⟨-, hr'⟩
    · exact h.list r' hr' hid
    · obtain ⟨hw, -⟩ := mem_registrationList.mp hr'
      exact eq_of_workerId hno hv.worker hw hid
  cases hm with
  | serverStarts | starterAttaches | starterRemovesAll | starterRemoves | starterLaunches
  | starterLaunchFails | starterRestarts | starterExits | starterFails => exact ⟨hl, nofun, nofun⟩
  | starterMoves hm =>
    cases hm with
    | locks =>
      refine ⟨hl, ?_, ?_⟩ <;> rw [hv.base] <;> exact nofun
    | reads =>
      refine ⟨hl, fun hst' hany => ?_, nofun⟩
      cases hst'
      have hid := any_eq_false.mp hany r hv.mem_registrationList
      exact absurd (decide_eq_true rfl) hid
    | @finishes blk hst => cases blk <;> exact ⟨hl, nofun, nofun⟩
    | _ => exact ⟨hl, nofun, nofun⟩
  | attaches hp hst he | asksForRestart hp hst he =>
    exact h.same rfl fun hn => update_of_none hn (.inl (he ▸ nofun))
  | unregistered =>
    exact h.same rfl fun hn => update_of_none hn (.inr rfl)
  | exits =>
    refine h.same (congrArg _ (exitHandler_starter ..)) fun hn => ?_
    refine (exitHandler_entries ..).trans ?_
    rw [hn, map_none, ite_self]
  | prepareForDrop => exact h.same (killStarter_stage s) map_eq_none_iff.mpr
  | markDeregistered => exact h.same rfl map_eq_none_iff.mpr
  | _ => exact h.same rfl id

/-! ## Worker ids that are not used yet -/

theorem Unused.same (h : Unused s k) (hs : SameAt k s s')
    (hl : ∀ r ∈ s'.starter.stage.registrations, r.workerId ≠ k) : Unused s' k :=
  ⟨hs.entry.trans h.entry, h.dead.same hs, hl⟩

theorem SameAt.mark (selects : ℕ → BaseWorkerEntry → Bool)
    (hnot : ∀ e, s.entries k = some e → selects k e = false)
    (hes : s'.entries = (s.mark selects).entries)
    (hprs : s'.processes = (s.mark selects).processes) : SameAt k s s' := by
  have hpid : ∀ q, (s.entries k).any (fun e => selects k e && e.workerPid = some q) = false := by
    intro q
    cases he : s.entries k with
    | none => rfl
    | some e => rw [any_some, hnot e he, Bool.false_and]
  refine ⟨?_, ?_⟩
  · rw [hes]
    cases he : s.entries k with
    | none => exact map_eq_none_iff.mpr he
    | some e => simp [State.mark, he, hnot e he]
  intro q p hk
  rw [hprs]
  constructor
  · intro hp
    obtain ⟨p₀, hp₀, rfl⟩ := map_eq_some_iff.mp hp
    have hk₀ : p₀.key = k := by
      split at hk <;> exact hk
    rw [hp₀, hk₀, hpid]
    rfl
  · intro hp
    refine map_eq_some_iff.mpr ⟨p, hp, ?_⟩
    rw [hk, hpid]
    rfl

theorem Unused.of_move (h : Unused s k) (hpi : FreshPids s) (hs : SmallIds s e)
    (hli : s.catalog.hasBase = true → ∀ r ∈ s.catalog.registrationList, r.workerId ≠ k)
    (hm : Move s e s') : Unused s' k := by
  have hli' : ∀ r ∈ s'.starter.stage.registrations, r.workerId ≠ k := by
    intro r hr
    rcases hm.registrations r hr with hr | ⟨hb, hr⟩
    · exact h.list r hr
    · exact hli hb r hr
  -- a process that goes on is not of this worker id
  have ho : ∀ {q p}, s.processes q = some p → p.stage ≠ .exited → p.key ≠ k := by
    intro q p hp hl hk
    exact hl (h.dead q p hp hk)
  have hn : ∀ {selects : ℕ → BaseWorkerEntry → Bool} (e),
      s.entries k = some e → selects k e = false := fun _ he => nomatch h.entry.symm.trans he
  refine h.same ?_ hli'
  cases hm with
  | starterRemovesAll => exact ⟨h.entry.symm, fun _ => Iff.rfl⟩
  | starterRemoves => exact ⟨by simp [h.entry], fun _ => Iff.rfl⟩
  | @starterLaunches r _ _ _ hst =>
    have hid := h.list r (by rw [hst]; exact mem_cons_self)
    have hstarts : StartsBaseWorker s (.starter true) r := ⟨⟨_, rfl⟩, _, _, hst⟩
    exact .launch hpi (hs r hstarts) (Ne.symm hid) rfl rfl
  | @starterLaunchFails r _ _ _ hst =>
    have hid := h.list r (by rw [hst]; exact mem_cons_self)
    exact ⟨update_of_ne (Ne.symm hid) .., fun _ => Iff.rfl⟩
  | processMoves hp hm => exact .update hp (ho hp hm.live) rfl rfl
  | attaches hp hst | unregistered hp hst | asksForRestart hp hst =>
    have hne := ho hp (hst ▸ nofun)
    exact .update hp hne rfl (update_of_ne (Ne.symm hne) ..)
  | exits hp hst =>
    have hne := ho hp (hst ▸ nofun)
    exact .update hp hne (exits_processes ..)
      ((exitHandler_entries ..).trans (if_neg (Ne.symm hne)))
  | dies hp _ hst | fails hp hst =>
    exact .update hp (ho hp (live_of_canBeInterrupted hst)) rfl rfl
  | returns hp hst => exact .update hp (ho hp (hst ▸ nofun)) rfl rfl
  | @prepareForDrop _ ext => exact .mark (selectsExtension ext) hn rfl rfl
  | @markDeregistered _ workerId => exact .mark (selectsWorker workerId) hn rfl rfl
  | _ => exact .of_eq rfl rfl

end Held

/-! ## Runs -/

/-- Rows of the table have different worker ids.  What is left of a worker id is of its row,
    and nothing is left of it as long as the extension of the row does not exist. -/
structure Registered (s : State) : Prop where
  pids : FreshPids s
  nodup : (s.catalog.workers.map (·.workerId)).Nodup
  held : ∀ {r}, s.catalog.IsValid r → Held s r
  listed : ∀ {r}, s.catalog.IsValid r → Listed s r
  unused : ∀ {r}, r ∈ s.catalog.workers → ¬ s.catalog.IsValid r → Unused s r.workerId

section Runs
variable {s s' : State}

theorem registered_start {c : Catalog} (hn : (c.workers.map (·.workerId)).Nodup)
    (nw next : ℕ) :
    Registered (start c nw next) := by
  have hu : ∀ k, Unused (start c nw next) k :=
    fun _ => ⟨rfl, nofun, nofun⟩
  exact ⟨fun _ _ => rfl, hn, fun _ => (hu _).held, fun _ => (hu _).listed,
    fun _ _ => hu _⟩

theorem Registered.of_move {e : Event} (h : Registered s) (hs : SmallIds s e)
    (hm : Move s e s') (hc : s'.catalog = s.catalog) : Registered s' := by
  refine ⟨h.pids.of_move hm, hc ▸ h.nodup, ?_, ?_, ?_⟩ <;> rw [hc]
  · intro r hv
    exact (h.held hv).of_move (h.listed hv) hv h.pids hs hm
  · intro r hv
    exact (h.listed hv).of_move hv h.nodup hm
  · intro r hr hi
    refine (h.unused hr hi).of_move h.pids hs ?_ hm
    -- the list is of valid registrations, and the row is the only one with its worker id
    intro hb r' hr' hid
    obtain ⟨hw, hext⟩ := mem_registrationList.mp hr'
    obtain rfl := eq_of_workerId h.nodup hr hw hid
    exact hi ⟨hb, hw, hext⟩

theorem mem_committed {t : ℕ} {r : Registration} (hr : r ∈ (s.committed t).workers) :
    .register r ∈ (s.txns t).changes ∨
      r ∈ s.catalog.workers ∧ (s.catalog.IsValid r → (s.committed t).IsValid r) := by
  rcases Catalog.mem_foldl hr with hre | ⟨hr, hk⟩
  · exact .inl hre
  · exact .inr ⟨hr, fun hv => hv.foldl hk⟩

theorem Registered.commit {t : ℕ} (h : Registered s) (hreuse : NoReuse s (.txn t .commit))
    (hn : ((s.committed t).workers.map (·.workerId)).Nodup)
    (hc : s'.catalog = s.committed t) (hs : ∀ k, SameAt k s s')
    (hst : s'.starter = s.starter) (hp : FreshPids s') : Registered s' := by
  have hu : ∀ {k}, Unused s k → Unused s' k := by
    intro k hk
    exact hk.same (hs k) (hst ▸ hk.list)
  -- nothing is left of a row that was not valid before
  have hnew : ∀ {r}, r ∈ (s.committed t).workers → s.catalog.IsValid r ∨ Unused s' r.workerId := by
    intro r hr
    rcases mem_committed hr with hre | ⟨hr, -⟩
    · exact .inr (hu (hreuse r hre))
    · by_cases hv : s.catalog.IsValid r
      · exact .inl hv
      · exact .inr (hu (h.unused hr hv))
  refine ⟨hp, hc ▸ hn, ?_, ?_, ?_⟩ <;> rw [hc]
  · intro r hv
    rcases hnew hv.worker with hv | hu
    · exact (h.held hv).same (hs _)
    · exact hu.held
  · intro r hv
    rcases hnew hv.worker with hv | hu
    · exact (h.listed hv).same (by rw [hst]) ((hs _).entry.trans ·)
    · exact hu.listed
  · intro r hr hi
    rcases mem_committed hr with hre | ⟨hr, hke⟩
    · exact hu (hreuse r hre)
    · exact hu (h.unused hr (mt hke hi))

theorem Registered.of_step {e : Event} (h : Registered s) (hsm : SmallIds s e)
    (hr : NoReuse s e) (hs : step s e = some s') : Registered s' := by
  have hm := move_of_step hs
  have hp := h.pids.of_move hm
  cases hm with
  | commits hd hn =>
    exact h.commit hr hn rfl (fun _ => .of_eq rfl rfl) rfl hp
  | exits => exact h.of_move hsm (move_of_step hs) (exitHandler_catalog ..)
  | _ => exact h.of_move hsm (move_of_step hs) rfl

end Runs

end PgLake.BaseWorkers
