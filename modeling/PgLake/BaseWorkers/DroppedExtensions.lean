/-
  Base workers do not outlive their extension.

  `PrepareForDrop` marks the entries of an extension and kills their processes before the
  transaction commits, and a process that starts later finds its registration gone.

  Main result: `workers_terminate`.
-/
import PgLake.BaseWorkers.Schedule

namespace PgLake.BaseWorkers

open List Option Transition Bool

open Function (update_of_ne update_self)

/-! ## The property -/

/-- The extension is dropped by the step at `n`. -/
def DroppedAt {s : State} (ρ : Fairness.Path step s) (n extensionId : ℕ) : Prop :=
  extensionId ∈ (ρ.state n).catalog.extensions ∧ extensionId ∉ (ρ.state (n + 1)).catalog.extensions

/-- Every process that runs a worker of a dropped extension terminates. -/
def WorkersTerminate {s : State} (ρ : Fairness.Path step s) : Prop :=
  ∀ n extensionId, DroppedAt ρ n extensionId → ∀ m, n < m → ∀ q p,
    (ρ.state m).processes q = some p → p.stage.extensionId = some extensionId →
      ∃ m' p', m ≤ m' ∧ (ρ.state m').processes q = some p' ∧ p'.stage = .exited

/-- `StartBaseWorker` is not called for a worker whose registration an open transaction
    takes away. -/
def NoDoomedStart (s : State) (e : Event) : Prop :=
  ∀ r, StartsBaseWorker s e r → ∀ t, ∀ change ∈ (s.txns t).changes, change.removes r = false

/-- The catalog when the server starts: worker ids are unique, and OIDs are used up to
    `nextExtensionId`. -/
structure Catalog.WellFormed (c : Catalog) (nextExtensionId : ℕ) : Prop where
  nodup : (c.workers.map (·.workerId)).Nodup
  used : ∀ x ∈ c.extensions, x < nextExtensionId

/-! ## Open transactions -/

/-- The step adds a change to the transaction. -/
inductive Adds (s : State) : Event → ℕ → Change → Prop where
  | prepareForDrop {t extensionId} :
      Adds s (.txn t (.prepareForDrop extensionId)) t (dropChange extensionId)
  | markDeregistered {t workerId} (hworker : (s.txns t).deregistering = some workerId) :
      Adds s (.txn t .markDeregistered) t (.deregister workerId)
  | register {t extensionId entryPointFunctionId} :
      Adds s (.txn t (.register extensionId entryPointFunctionId)) t
        (.register ⟨s.nextWorkerId, extensionId, entryPointFunctionId⟩)
  | createExtension {t} :
      Adds s (.txn t .createExtension) t (.createExtension s.nextExtensionId)
  | createBase {t} : Adds s (.txn t .createBase) t .createBase

variable {x : ℕ}

section Pending
variable {s s' : State} {e : Event} {t : ℕ} {change : Change}

@[simp] theorem setTxn_txns (x : Txn) : (s.setTxn t x).txns = Function.update s.txns t x := rfl

theorem mem_setTxn {t' : ℕ} {x : Txn} (h : change ∈ ((s.setTxn t' x).txns t).changes) :
    t ≠ t' ∧ change ∈ (s.txns t).changes ∨ t = t' ∧ change ∈ x.changes := by
  by_cases ht : t = t'
  · subst ht
    rw [setTxn_txns, update_self] at h
    exact .inr ⟨rfl, h⟩
  · rw [setTxn_txns, update_of_ne ht] at h
    exact .inl ⟨ht, h⟩

theorem mem_addChange {t' : ℕ} {added : Change}
    (h : change ∈ ((s.addChange t' added).txns t).changes) :
    change ∈ (s.txns t).changes ∨ t = t' ∧ change = added := by
  rcases mem_setTxn h with ⟨-, h⟩ | ⟨rfl, h⟩
  · exact .inl h
  · rcases mem_append.mp h with h | h
    · exact .inl h
    · exact .inr ⟨rfl, mem_singleton.mp h⟩

theorem Move.pending (hm : Move s e s') (h : change ∈ (s'.txns t).changes) :
    change ∈ (s.txns t).changes ∧ e ≠ .txn t .commit ∨ Adds s e t change := by
  cases hm with
  | prepareForDrop | register | createExtension | createBase =>
    rcases mem_addChange h with h | ⟨rfl, rfl⟩
    · exact .inl ⟨h, nofun⟩
    · exact .inr (by constructor)
  | deregister =>
    rcases mem_setTxn h with ⟨-, h⟩ | ⟨rfl, h⟩
    · exact .inl ⟨h, nofun⟩
    · exact .inl ⟨h, nofun⟩
  | markDeregistered hw =>
    rcases mem_setTxn h with ⟨-, h⟩ | ⟨rfl, h⟩
    · exact .inl ⟨h, nofun⟩
    · rcases mem_append.mp h with h | h
      · exact .inl ⟨h, nofun⟩
      · rw [mem_singleton.mp h]
        exact .inr (.markDeregistered hw)
  | commits =>
    rcases mem_setTxn h with ⟨hne, h⟩ | ⟨-, h⟩
    · refine .inl ⟨h, fun ht => hne ?_⟩
      cases ht
      rfl
    · exact nomatch h
  | aborts =>
    rcases mem_setTxn h with ⟨-, h⟩ | ⟨-, h⟩
    · exact .inl ⟨h, nofun⟩
    · exact nomatch h
  | exits => exact .inl ⟨exitHandler_txns s _ _ ▸ h, nofun⟩
  | _ => exact .inl ⟨h, nofun⟩

/-! ## Extensions do not come back -/

theorem Catalog.mem_extensions_apply {c : Catalog} (h : x ∈ (c.apply change).extensions) :
    x ∈ c.extensions ∨ change = .createExtension x:= by
  cases change with
  | createExtension _ =>
    rcases mem_cons.mp h with rfl | h
    · exact .inr rfl
    · exact .inl h
  | dropExtension _ => exact .inl (mem_filter.mp h).1
  | dropBase => exact nomatch h
  | createBase | register _ | deregister _ => exact .inl h

theorem Catalog.mem_extensions_foldl {changes : List Change} :
    ∀ {c : Catalog}, x ∈ (changes.foldl Catalog.apply c).extensions →
      x ∈ c.extensions ∨ .createExtension x ∈ changes := by
  induction changes with
  | nil => exact .inl
  | cons change changes ih =>
    intro c h
    rcases ih h with h | h
    · rcases mem_extensions_apply h with h | rfl
      · exact .inl h
      · exact .inr mem_cons_self
    · exact .inr (mem_cons_of_mem _ h)

theorem Move.mem_extensions (hm : Move s e s') (h : x ∈ s'.catalog.extensions) :
    x ∈ s.catalog.extensions ∨
      ∃ t, e = .txn t .commit ∧ .createExtension x ∈ (s.txns t).changes := by
  cases hm with
  | commits =>
    rcases Catalog.mem_extensions_foldl h with h | h
    · exact .inl h
    · exact .inr ⟨_, rfl, h⟩
  | exits => exact .inl (exitHandler_catalog s _ _ ▸ h)
  | _ => exact .inl h

theorem Move.nextExtensionId_le (hm : Move s e s') : s.nextExtensionId ≤ s'.nextExtensionId := by
  cases hm with
  | createExtension => exact Nat.le_succ _
  | exits => exact Nat.le_of_eq (exitHandler_nextExtensionId ..).symm
  | _ => exact Nat.le_refl _

structure FreshOids (s : State) : Prop where
  used : ∀ {x}, x ∈ s.catalog.extensions → x < s.nextExtensionId
  pending : ∀ {t x}, .createExtension x ∈ (s.txns t).changes →
    x < s.nextExtensionId ∧ x ∉ s.catalog.extensions
  distinct : ∀ {t t' x}, .createExtension x ∈ (s.txns t).changes →
    .createExtension x ∈ (s.txns t').changes → t = t'

/-- The OID was used for an extension that does not exist any more. -/
structure GoneOid (s : State) (x : ℕ) : Prop where
  used : x < s.nextExtensionId
  gone : x ∉ s.catalog.extensions
  pending : ∀ t, .createExtension x ∉ (s.txns t).changes

theorem Adds.createExtension_eq (h : Adds s e t (.createExtension x)) :
    x = s.nextExtensionId ∧ e = .txn t .createExtension := by
  generalize hc : Change.createExtension x = change at h
  cases h with
  | createExtension =>
    cases hc
    exact ⟨rfl, rfl⟩
  | @prepareForDrop _ extensionId => cases extensionId <;> exact nomatch hc
  | markDeregistered | register | createBase => exact nomatch hc

theorem FreshOids.of_step (h : FreshOids s) (hs : step s e = some s') : FreshOids s' := by
  have hm := move_of_step hs
  have hle := hm.nextExtensionId_le
  constructor
  · intro x hx
    rcases hm.mem_extensions hx with hx | ⟨t, -, hx⟩
    · exact Nat.lt_of_lt_of_le (h.used hx) hle
    · exact Nat.lt_of_lt_of_le (h.pending hx).1 hle
  · intro t x hx
    rcases hm.pending hx with ⟨hx, ho⟩ | ha
    · refine ⟨Nat.lt_of_lt_of_le (h.pending hx).1 hle, fun hin => ?_⟩
      rcases hm.mem_extensions hin with hin | ⟨t', rfl, hx'⟩
      · exact (h.pending hx).2 hin
      · rw [h.distinct hx' hx] at ho
        exact ho rfl
    · obtain ⟨rfl, rfl⟩ := ha.createExtension_eq
      refine ⟨?_, fun hin => ?_⟩
      · cases hs
        exact Nat.lt_succ_self _
      · rcases hm.mem_extensions hin with hin | ⟨t', ht', -⟩
        · exact absurd (h.used hin) (Nat.lt_irrefl _)
        · exact nomatch ht'
  · intro t t' x hx hx'
    rcases hm.pending hx with ⟨hx, -⟩ | ha <;>
      rcases hm.pending hx' with ⟨hx', -⟩ | ha'
    · exact h.distinct hx hx'
    · exact absurd ha'.createExtension_eq.1 (Nat.ne_of_lt (h.pending hx).1)
    · exact absurd ha.createExtension_eq.1 (Nat.ne_of_lt (h.pending hx').1)
    · cases ha.createExtension_eq.2.symm.trans ha'.createExtension_eq.2
      rfl

theorem FreshOids.gone (h : FreshOids s) (hs : step s e = some s')
    (hx : x ∈ s.catalog.extensions) (hg : x ∉ s'.catalog.extensions) : GoneOid s' x := by
  have hm := move_of_step hs
  refine ⟨Nat.lt_of_lt_of_le (h.used hx) hm.nextExtensionId_le, hg, fun t hp => ?_⟩
  rcases hm.pending hp with ⟨hp, -⟩ | ha
  · exact (h.pending hp).2 hx
  · exact absurd ha.createExtension_eq.1 (Nat.ne_of_lt (h.used hx))

theorem GoneOid.of_step (h : GoneOid s x) (hs : step s e = some s') : GoneOid s' x := by
  have hm := move_of_step hs
  refine ⟨Nat.lt_of_lt_of_le h.used hm.nextExtensionId_le, fun hx => ?_, fun t hx => ?_⟩
  · rcases hm.mem_extensions hx with hx | ⟨t, -, hx⟩
    · exact h.gone hx
    · exact h.pending t hx
  · rcases hm.pending hx with ⟨hx, -⟩ | ha
    · exact h.pending t hx
    · exact absurd ha.createExtension_eq.1 (Nat.ne_of_lt h.used)

end Pending

/-! ## Workers about to go -/

/-- The worker has been killed, or will give up when it starts. -/
structure Doomed (s : State) (r : Registration) : Prop where
  entry : ∀ {e}, s.entries r.workerId = some e → e.state = .starting → e.needsRestart = true
  process : ∀ {q p}, s.processes q = some p → p.key = r.workerId →
    p.stage.extensionId.isSome = true → p.sigterm = true

section Doomed
variable {s s' : State} {e : Event} {r : Registration}

theorem Unused.doomed (h : Unused s r.workerId) : Doomed s r where
  entry he := nomatch h.entry.symm.trans he
  process hp hkey hext := by
    rw [h.dead _ _ hp hkey] at hext
    exact nomatch hext

theorem Doomed.same (h : Doomed s r) (hs : SameAt r.workerId s s') : Doomed s' r where
  entry he := h.entry (hs.entry ▸ he)
  process hp hkey := h.process ((hs.process hkey).mp hp) hkey

theorem Doomed.remove (h : Doomed s r) (hprs : s'.processes = s.processes)
    (hen : s'.entries r.workerId = none) : Doomed s' r where
  entry he := nomatch hen.symm.trans he
  process := hprs ▸ h.process

theorem Doomed.update (h : Doomed s r) {q : ℕ} {p : Process} (hp : s.processes q = some p)
    {stage : Stage}
    (hprs : s'.processes = Function.update s.processes q (some { p with stage }))
    (hes : ∀ k', k' ≠ p.key → s'.entries k' = s.entries k')
    (hen : p.key = r.workerId → ∀ e, s'.entries p.key = some e → e.state = .starting →
      e.needsRestart = true)
    (hext : p.key = r.workerId → stage.extensionId.isSome = true →
      p.stage.extensionId.isSome = true) : Doomed s' r := by
  by_cases hk : p.key = r.workerId
  · refine ⟨fun he => hen hk _ (hk ▸ he), ?_⟩
    intro q' p' hp' hk' hext'
    rw [hprs] at hp'
    by_cases hq : q' = q
    · rw [hq, update_self] at hp'
      cases hp'
      have hs : p.sigterm = true := h.process hp hk (hext hk hext')
      exact hs
    · rw [update_of_ne hq] at hp'
      exact h.process hp' hk' hext'
  · exact h.same (.update hp hk hprs (hes _ (Ne.symm hk)))

theorem Doomed.mark (h : Doomed s r) (selects : ℕ → BaseWorkerEntry → Bool)
    (hes : s'.entries = (s.mark selects).entries)
    (hprs : s'.processes = (s.mark selects).processes) : Doomed s' r := by
  constructor
  · intro e' he' hs
    obtain ⟨e, he, -, hs', -, hn⟩ := mark_entry (hes ▸ he')
    rw [hn, h.entry he (hs' ▸ hs), Bool.true_or]
  · intro q p' hp' hk hext
    obtain ⟨p, hp, hst, hk', hsi⟩ := mark_process (hprs ▸ hp')
    exact hsi (h.process hp (hk' ▸ hk) (hst ▸ hext))

theorem Held.doomed (h : Held s r) (selects : ℕ → BaseWorkerEntry → Bool)
    (hse : ∀ e, s.entries r.workerId = some e → selects r.workerId e = true)
    (hes : s'.entries = (s.mark selects).entries)
    (hprs : s'.processes = (s.mark selects).processes) : Doomed s' r := by
  constructor
  · intro e' he' hs
    obtain ⟨e, he, -, hs', -, hn⟩ := mark_entry (hes ▸ he')
    have hact : e.isActive = true := BaseWorkerEntry.isActive_iff.mpr (.inr (hs' ▸ hs))
    rw [hn, hse e he, hact, Bool.and_true, Bool.or_true]
  · intro q p' hp' hk hext
    rw [hprs] at hp'
    obtain ⟨p, hp, rfl⟩ := map_eq_some_iff.mp hp'
    split
    next => rfl
    next hm =>
      rw [if_neg hm] at hk hext
      -- the process has an entry, and the entry has its PID
      refine absurd ?_ hm
      cases he : s.entries r.workerId with
      | none =>
        rw [h.absent he q p hp hk] at hext
        exact nomatch hext
      | some e =>
        have hpid := (h.owned.tracked hp hk he).of_extensionId hext
        rw [hk, he, any_some, hse e he, hpid]
        exact decide_eq_true rfl

theorem Doomed.of_move (h : Doomed s r) (ho : Owned s r.workerId) (hpi : FreshPids s)
    (hsm : SmallIds s e)
    (hs : ∀ r', StartsBaseWorker s e r' → r'.workerId ≠ r.workerId) (hm : Move s e s') :
    Doomed s' r := by
  cases hm with
  | starterRemovesAll => exact h.remove rfl rfl
  | @starterRemoves _ regs hst =>
    by_cases hk : regs.any (·.workerId = r.workerId) = true
    · exact h.same ⟨if_pos hk, fun _ => Iff.rfl⟩
    · exact h.remove rfl (if_neg hk)
  | @starterLaunches r' _ _ _ hst =>
    have hstarts : StartsBaseWorker s (.starter true) r' := ⟨⟨_, rfl⟩, _, _, hst⟩
    exact h.same (.launch hpi (hsm r' hstarts) (hs r' hstarts).symm rfl rfl)
  | @starterLaunchFails r' _ _ _ hst =>
    have hne := hs r' ⟨⟨_, rfl⟩, _, _, hst⟩
    exact h.same ⟨update_of_ne hne.symm .., fun _ => Iff.rfl⟩
  | processMoves hp hm =>
    refine h.update hp rfl (fun _ _ => rfl) (fun hkey e he => h.entry (hkey ▸ he)) ?_
    intro _ hext
    obtain ⟨extensionId, hext⟩ := isSome_iff_exists.mp hext
    exact isSome_iff_exists.mpr ⟨extensionId, hm.extensionId hext⟩
  | @attaches q p e hp hst hen hpid hn =>
    -- the process finds its entry marked
    have hma : p.key = r.workerId → e.needsRestart = true := by
      intro hkey
      have ht := ho.tracked hp hkey (hkey ▸ hen)
      rw [hst] at ht
      exact h.entry (hkey ▸ hen) ht.2
    refine h.update hp rfl (fun k' hk' => update_of_ne hk' ..) ?_ ?_
    iterate 2
      intro hkey
      exact nomatch hn.symm.trans (hma hkey)
  | unregistered hp =>
    refine h.update hp rfl (fun k' hk' => update_of_ne hk' ..) ?_ nofun
    intro _ e' he'
    cases (update_self ..).symm.trans he'
  | asksForRestart hp =>
    refine h.update hp rfl (fun k' hk' => update_of_ne hk' ..) ?_ nofun
    intro _ e' he' _
    cases (update_self ..).symm.trans he'
    rfl
  | @exits q p code hp hst =>
    refine h.update hp (exits_processes ..)
      (fun k' hk' => (exitHandler_entries s p.key code k').trans (if_neg hk')) ?_ nofun
    intro _ e' he' hstate
    rw [exits_entries, exitHandler_entries, if_pos rfl] at he'
    obtain ⟨e, -, rfl⟩ := map_eq_some_iff.mp he'
    exact (exitEntry_starting hstate).2
  | dies hp | fails hp =>
    exact h.update hp rfl (fun _ _ => rfl) (fun hkey e he => h.entry (hkey ▸ he)) nofun
  | returns hp =>
    refine h.update hp rfl (fun _ _ => rfl) (fun hkey e he => h.entry (hkey ▸ he)) ?_
    intro _ hext
    split at hext <;> exact nomatch hext
  | @prepareForDrop _ extensionId => exact h.mark (selectsExtension extensionId) rfl rfl
  | @markDeregistered _ workerId => exact h.mark (selectsWorker workerId) rfl rfl
  | _ => exact h.same (.of_eq rfl rfl)

theorem Held.doomed_of_adds (h : Held s r) {t : ℕ} {change : Change} (ha : Adds s e t change)
    (hr : change.removes r = true) (hm : Move s e s') : Doomed s' r := by
  cases ha with
  | @prepareForDrop _ extensionId =>
    cases hm with
    | prepareForDrop =>
      refine h.doomed (selectsExtension extensionId) (fun e he => ?_) rfl rfl
      cases extensionId with
      | none => rfl
      | some extensionId =>
        have hext : r.extensionId = extensionId := of_decide_eq_true hr
        rw [selectsExtension, h.entry he, hext]
        exact decide_eq_true rfl
  | @markDeregistered _ workerId hw =>
    cases hm with
    | markDeregistered hw' =>
      cases hw.symm.trans hw'
      refine h.doomed (selectsWorker workerId) (fun e he => ?_) rfl rfl
      exact hr
  | register | createExtension | createBase => exact nomatch hr

end Doomed

/-! ## Processes in their entry point -/

section Running
variable {s s' : State} {e : Event} {q : ℕ} {p' : Process} {extensionId entryPointFunctionId : ℕ}

theorem Move.running (hm : Move s e s') (hp' : s'.processes q = some p')
    (hst' : p'.stage = .running extensionId entryPointFunctionId) :
    ∃ p, s.processes q = some p ∧ p.key = p'.key ∧ (p'.sigterm = false → p.sigterm = false) ∧
      (p.stage = p'.stage ∨ ProcessMove s p p'.stage ∧ s'.catalog = s.catalog) := by
  -- a process that goes anywhere else is another one
  have hu : ∀ {q' : ℕ} {p : Process} {stage : Stage},
      s'.processes = Function.update s.processes q' (some { p with stage }) →
      (∀ x f, stage ≠ .running x f) → s.processes q = some p' := by
    intro q' p stage hprs hne
    rw [hprs] at hp'
    by_cases hq : q = q'
    · rw [hq, update_self] at hp'
      cases hp'
      exact absurd hst' (hne _ _)
    · rw [update_of_ne hq] at hp'
      exact hp'
  have hma : ∀ selects, s'.processes = (s.mark selects).processes → ∃ p, s.processes q = some p ∧
      p.key = p'.key ∧ (p'.sigterm = false → p.sigterm = false) ∧ p.stage = p'.stage := by
    intro selects hprs
    obtain ⟨p, hp, hst, hk, hs⟩ := mark_process (hprs ▸ hp')
    refine ⟨p, hp, hk.symm, fun hf => ?_, hst.symm⟩
    exact eq_false_iff.mpr fun ht => nomatch hf.symm.trans (hs ht)
  cases hm with
  | starterLaunches =>
    have hp := hu (p := ⟨_, .launched, false⟩) rfl nofun
    exact ⟨p', hp, rfl, id, .inl rfl⟩
  | @processMoves q' p stage hp hm =>
    by_cases hq : q = q'
    · subst hq
      cases (setProcess_self ..).symm.trans hp'
      exact ⟨p, hp, rfl, id, .inr ⟨hm, rfl⟩⟩
    · exact ⟨p', (setProcess_other hq _).symm.trans hp', rfl, id, .inl rfl⟩
  | attaches | unregistered | asksForRestart | dies | fails =>
    exact ⟨p', hu rfl nofun, rfl, id, .inl rfl⟩
  | exits => exact ⟨p', hu (exits_processes ..) nofun, rfl, id, .inl rfl⟩
  | returns =>
    refine ⟨p', hu rfl (fun x f => ?_), rfl, id, .inl rfl⟩
    split <;> exact nofun
  | prepareForDrop =>
    obtain ⟨p, hp, hk, hs, hst⟩ := hma (selectsExtension _) rfl
    exact ⟨p, hp, hk, hs, .inl hst⟩
  | markDeregistered =>
    obtain ⟨p, hp, hk, hs, hst⟩ := hma (selectsWorker _) rfl
    exact ⟨p, hp, hk, hs, .inl hst⟩
  | _ => exact ⟨p', hp', rfl, id, .inl rfl⟩

end Running

/-! ## Runs -/

/-- Workers whose registration an open transaction takes away are doomed. -/
def Marked (s : State) : Prop :=
  ∀ r, s.catalog.IsValid r → ∀ t, ∀ change ∈ (s.txns t).changes, change.removes r = true →
    Doomed s r

def RunsRegistered (s : State) : Prop :=
  ∀ q p extensionId entryPointFunctionId, s.processes q = some p →
    p.stage = .running extensionId entryPointFunctionId → p.sigterm = false →
      ∃ r, s.catalog.IsValid r ∧ r.workerId = p.key ∧ r.extensionId = extensionId

section Runs
variable {s s' : State} {e : Event}

theorem Move.catalog_cases (hm : Move s e s') :
    s'.catalog = s.catalog ∨ ∃ t, e = .txn t .commit ∧ s'.catalog = s.committed t ∧
      ∀ k, SameAt k s s' := by
  cases hm with
  | commits => exact .inr ⟨_, rfl, rfl, fun _ => .of_eq rfl rfl⟩
  | exits => exact .inl (exitHandler_catalog ..)
  | _ => exact .inl rfl

theorem Marked.of_step (h : Marked s) (hreg : Registered s) (hsm : SmallIds s e)
    (hreuse : NoReuse s e) (hstart : NoDoomedStart s e) (hstep : step s e = some s') :
    Marked s' := by
  have hm := move_of_step hstep
  intro r hv' t change hch hre
  rcases hm.catalog_cases with hc | ⟨t', rfl, hc, hs⟩
  · have hv : s.catalog.IsValid r := hc ▸ hv'
    rcases hm.pending hch with ⟨hch, -⟩ | ha
    · refine (h r hv t change hch hre).of_move (hreg.held hv).owned hreg.pids
        hsm ?_ hm
      -- the worker that is started has another id
      rintro r' hstarts hid
      obtain ⟨-, rest, blk, hst⟩ := id hstarts
      obtain rfl := (hreg.listed hv).list r' (by rw [hst]; exact mem_cons_self) hid
      exact nomatch (hstart r' hstarts t change hch).symm.trans hre
    · exact (hreg.held hv).doomed_of_adds ha hre hm
  · rcases hm.pending hch with ⟨hch, -⟩ | ha
    · rw [hc] at hv'
      by_cases hv : s.catalog.IsValid r
      · exact (h r hv t change hch hre).same (hs _)
      · -- nothing is left of the worker id yet
        have hu : Unused s r.workerId := by
          rcases mem_committed hv'.worker with hregister | ⟨hr, -⟩
          · exact hreuse r hregister
          · exact hreg.unused hr hv
        exact hu.doomed.same (hs _)
    · exact nomatch ha

theorem RunsRegistered.of_step (h : RunsRegistered s) (hma : Marked s) (hreg : Registered s)
    (hstep : step s e = some s') : RunsRegistered s' := by
  have hm := move_of_step hstep
  intro q p' extensionId entryPointFunctionId hp' hst' hs'
  obtain ⟨p, hp, hk, hs, hst | ⟨hfinds, hc⟩⟩ := hm.running hp' hst'
  · -- the registration is still there, or the process would have been killed
    rw [hst'] at hst
    obtain ⟨r, hv, hid, hext⟩ :=
      h q p extensionId entryPointFunctionId hp hst (hs hs')
    refine ⟨r, ?_, hid.trans hk, hext⟩
    rcases hm.catalog_cases with hc | ⟨t, -, hc, -⟩
    · exact hc ▸ hv
    · rw [hc]
      refine hv.foldl fun change hch => eq_false_iff.mpr fun hremoves => ?_
      have hki := (hma r hv t change hch hremoves).process hp hid.symm
        (by rw [hst]; rfl)
      exact nomatch (hs hs').symm.trans hki
  · rw [hst'] at hfinds
    cases hfinds with
    | runs hst he hb hre =>
      obtain ⟨r, hr, hid⟩ := any_eq_true.mp hre
      have hid : r.workerId = p.key := of_decide_eq_true hid
      have hl : p.stage ≠ .exited := by
        rw [hst]
        exact nofun
      have hv : s.catalog.IsValid r := by
        by_contra hi
        exact hl ((hreg.unused hr hi).dead q p hp hid.symm)
      have hext := (hreg.held hv).process hp hid.symm (by rw [hst]; rfl)
      exact ⟨r, hc ▸ hv, hid.trans hk, hext.symm⟩

theorem freshOids_start {c : Catalog} {next : ℕ}
    (hwf : c.WellFormed next) (nw : ℕ) :
    FreshOids (start c nw next) :=
  ⟨hwf.used _, fun hx => (nomatch hx), fun hx => (nomatch hx)⟩

/-- What holds in every state of a run. -/
structure Tidy (s : State) : Prop where
  registered : Registered s
  oids : FreshOids s
  marked : Marked s
  runs : RunsRegistered s

theorem Tidy.of_step (h : Tidy s) (hsm : SmallIds s e) (hr : NoReuse s e)
    (hst : NoDoomedStart s e) (hs : step s e = some s') : Tidy s' where
  registered := h.registered.of_step hsm hr hs
  oids := h.oids.of_step hs
  marked := h.marked.of_step h.registered hsm hr hst hs
  runs := h.runs.of_step h.marked h.registered hs

theorem tidy_start {c : Catalog} {next : ℕ}
    (hwf : c.WellFormed next) (nw : ℕ) :
    Tidy (start c nw next) where
  registered := registered_start hwf.nodup ..
  oids := freshOids_start hwf nw
  marked := fun _ _ _ _ hc => (nomatch hc)
  runs := fun _ _ _ _ hp => (nomatch hp)

theorem Tidy.canMove (h : Tidy s) {q x : ℕ} {p : Process} (hg : GoneOid s x)
    (hp : s.processes q = some p) (hl : p.stage ≠ .exited)
    (hext : ∀ y, p.stage.extensionId = some y → y = x) : p.canMove = true := by
  unfold Process.canMove
  split
  next => rfl
  next => rfl
  next => rfl
  next => rfl
  next extensionId entryPointFunctionId hst =>
    by_contra hs
    obtain ⟨r, hv, -, hr⟩ := h.runs q p _ _ hp hst (not_eq_true _ ▸ hs)
    obtain rfl := hext extensionId (by rw [hst]; rfl)
    exact hg.gone (hr ▸ hv.extension)
  next hst => exact absurd hst hl

/-- The process is past its start, and if it is of an extension, then of this one. -/
def Leaving (s : State) (q x : ℕ) : Prop :=
  ∃ p, s.processes q = some p ∧ p.stage ≠ .launched ∧ p.stage ≠ .exited ∧
    ∀ y, p.stage.extensionId = some y → y = x

theorem Leaving.of_move {q x : ℕ} (h : Leaving s q x) (hpi : FreshPids s) (hm : Move s e s') :
    (∃ p, s'.processes q = some p ∧ p.stage = .exited) ∨ Leaving s' q x ∧
      (s'.weight q < s.weight q ∨ s'.weight q = s.weight q ∧ ¬ (Actor.process q).takes e) := by
  obtain ⟨p, hp, hla, hl, hext⟩ := h
  obtain ⟨p', hp', hpr⟩ := hm.process_cases hpi hp
  by_cases he : p'.stage = .exited
  · exact .inl ⟨p', hp', he⟩
  · refine .inr ⟨⟨p', hp', hpr.not_launched hla, he, ?_⟩, ?_⟩
    · exact fun y hy => hext y (hpr.extension hla hy)
    · rw [weight_of_some hp, weight_of_some hp']
      rcases hpr.stage with ⟨hst, ho⟩ | hlt
      · exact .inr ⟨by rw [hst], ho⟩
      · exact .inl hlt

/-- **Base workers do not outlive their extension** in a fair run in which worker ids are
    small and not reused too early, and no worker is started while an open transaction
    takes its registration away. -/
theorem workers_terminate {catalog : Catalog} {nextWorkerId nextExtensionId : ℕ}
    (hwf : catalog.WellFormed nextExtensionId)
    (ρ : Fairness.Path step (start catalog nextWorkerId nextExtensionId)) (hfair : Fair ρ)
    (hsmall : ∀ n, SmallIds (ρ.state n) (ρ.event n)) (hreuse : ∀ n, NoReuse (ρ.state n) (ρ.event n))
    (hstart : ∀ n, NoDoomedStart (ρ.state n) (ρ.event n)) : WorkersTerminate ρ := by
  have htidy : ∀ n, Tidy (ρ.state n) := by
    refine ρ.invariant (P := fun s e => SmallIds s e ∧ NoReuse s e ∧ NoDoomedStart s e) ?_
      (tidy_start hwf nextWorkerId) fun n => ⟨hsmall n, hreuse n, hstart n⟩
    rintro s s' e h ⟨hsmall, hreuse, hstart⟩ hstep
    exact h.of_step hsmall hreuse hstart hstep
  intro n x ⟨hx, hgone⟩ m hm q p hp hext
  have hgone : ∀ m, n < m → GoneOid (ρ.state m) x := by
    intro m hm
    induction m, hm using Nat.le_induction with
    | base => exact (htidy n).oids.gone (ρ.next n) hx hgone
    | succ m hm ih => exact ih.of_step (ρ.next m)
  -- the process goes forward, since it is always one that has something to do
  have hleaving : n < m ∧ Leaving (ρ.state m) q x := by
    refine ⟨hm, p, hp, ?_, ?_, fun y hy => Option.some.inj (hy.symm.trans hext)⟩ <;>
    · intro hstage
      rw [hstage] at hext
      exact nomatch hext
  have hexits : ∃ m', m ≤ m' ∧ ∃ p, (ρ.state m').processes q = some p ∧ p.stage = .exited := by
    refine ρ.eventually_of_rank hfair (P := fun m => n < m ∧ Leaving (ρ.state m) q x)
      (fun m => (ρ.state m).weight q) (fun _ => Actor.process q) ?_ ?_ hleaving
    · rintro m ⟨hm, p, hp, -, hlive, hext⟩
      exact ⟨p, hp, (htidy m).canMove (hgone m hm) hp hlive hext⟩
    · rintro m ⟨hm, hleaving⟩
      rcases hleaving.of_move (htidy m).registered.pids (move_of_step (ρ.next m)) with
        hexited | ⟨hleaving', hlt | ⟨hweight, hother⟩⟩
      · exact .inl hexited
      · exact .inr ⟨⟨by omega, hleaving'⟩, .inl hlt⟩
      · exact .inr ⟨⟨by omega, hleaving'⟩, .inr ⟨hweight, rfl, hother⟩⟩
  obtain ⟨m', hm', p', hp', hexited⟩ := hexits
  exact ⟨m', p', hm', hp', hexited⟩

theorem conditions_of_ne
    (hst : ∀ r rest blk, s.starter.stage ≠ .checked r rest blk)
    (hc : ∀ t, e ≠ .txn t .commit) : SmallIds s e ∧ NoReuse s e ∧ NoDoomedStart s e := by
  refine ⟨?_, ?_, ?_⟩
  · rintro r ⟨-, rest, blk, h⟩
    exact absurd h (hst r rest blk)
  · unfold NoReuse
    split
    next t => exact absurd rfl (hc t)
    next => trivial
  · rintro r ⟨-, rest, blk, h⟩
    exact absurd h (hst r rest blk)

def after (es : List Event) : State :=
  (run step (start oneWorker 2 6) es).getD (start oneWorker 2 6)

/-- The extension of the running worker is dropped, and the worker is killed. -/
def dropped : List Event :=
  startUp ++ [.starter true, .starter true, .starter true, .process 2, .process 2,
    .txn 0 (.prepareForDrop (some 5))]

/-- The worker exits, and another database starter removes its entry. -/
def cleanedUp : List Event :=
  [.die 2, .process 2, .startDatabaseStarter true, .starter true, .starter true, .starter true,
    .starter true, .starter true, .starter true]

theorem workers_terminate_one_drop : ∃ ρ : Fairness.Path step (start oneWorker 2 6),
      DroppedAt ρ dropped.length 5 ∧ WorkersTerminate ρ := by
  have hdrop : run step (start oneWorker 2 6) dropped = some (after dropped) := rfl
  have hcommit : step (after dropped) (.txn 0 .commit) =
      some (after (dropped ++ [.txn 0 .commit])) := rfl
  have hclean : run step (after (dropped ++ [.txn 0 .commit])) cleanedUp =
      some (after (dropped ++ .txn 0 .commit :: cleanedUp)) := rfl
  obtain ⟨ρ, hρ, hbefore, hafter⟩ := Fairness.Path.exists_split hdrop hcommit hclean (idle _)
  have halong : Transition.Along step (fun s e => SmallIds s e ∧ NoReuse s e ∧ NoDoomedStart s e)
      (start oneWorker 2 6) (dropped ++ .txn 0 .commit :: cleanedUp) := by
    iterate 6 refine .of_step (conditions_of_ne nofun nofun) rfl ?_
    refine .of_step ⟨?_, trivial, nofun⟩ rfl ?_
    · rintro r ⟨-, rest, hasBlocked, hstage⟩
      obtain ⟨rfl, -, -⟩ := StarterStage.checked.inj
        (show StarterStage.checked ⟨1, 5, 0⟩ [] false = _ from hstage)
      decide
    iterate 5 refine .of_step (conditions_of_ne nofun nofun) rfl ?_
    refine .of_step ⟨?_, ?_, ?_⟩ rfl ?_
    · rintro r ⟨⟨_, h⟩, -⟩
      exact nomatch h
    · intro r hr
      exact nomatch mem_singleton.mp hr
    · rintro r ⟨⟨_, h⟩, -⟩
      exact nomatch h
    iterate 9 refine .of_step (conditions_of_ne nofun nofun) rfl ?_
    trivial
  have hconditions := hρ.along _ halong fun n => by
    rw [idle_state]
    exact conditions_of_ne nofun nofun
  refine ⟨ρ, ⟨?_, ?_⟩, workers_terminate ⟨by decide, by decide⟩ ρ (Fair.follows ?_ hρ)
    (fun n => (hconditions n).1) (fun n => (hconditions n).2.1) fun n => (hconditions n).2.2⟩
  · rw [hbefore]
    exact mem_singleton_self 5
  · rw [hafter]
    exact nofun
  · refine fair_idle rfl rfl fun q p hp => ?_
    match q with
    | 2 =>
      cases hp
      rfl
    | 0 | 1 | _ + 3 => exact nomatch hp

/-- The worker is started when its extension is about to be dropped. -/
def startedLate : List Event :=
  startUp ++ [.txn 0 (.prepareForDrop (some 5)), .starter true, .process 2, .process 2]

/-- The database starter finishes, and another one removes the entry. -/
def forgotten : List Event :=
  [.starter true, .starter true, .startDatabaseStarter true, .starter true, .starter true,
    .starter true, .starter true, .starter true, .starter true]

theorem worker_outlives_extension :
    ∃ ρ : Fairness.Path step (start oneWorker 2 6), Fair ρ ∧ ¬ WorkersTerminate ρ := by
  have hlate : run step (start oneWorker 2 6) startedLate = some (after startedLate) := rfl
  have hcommit : step (after startedLate) (.txn 0 .commit) =
      some (after (startedLate ++ [.txn 0 .commit])) := rfl
  have hforgotten : run step (after (startedLate ++ [.txn 0 .commit])) forgotten =
      some (after (startedLate ++ .txn 0 .commit :: forgotten)) := rfl
  obtain ⟨ρ, hρ, hbefore, hafter⟩ :=
    Fairness.Path.exists_split hlate hcommit hforgotten (idle _)
  refine ⟨ρ, Fair.follows ?_ hρ, fun h => ?_⟩
  · refine fair_idle rfl rfl fun q p hp => ?_
    match q with
    | 2 =>
      cases hp
      rfl
    | 0 | 1 | _ + 3 => exact nomatch hp
  · have hdropped : DroppedAt ρ startedLate.length 5 := by
      constructor
      · rw [hbefore]
        exact mem_singleton_self 5
      · rw [hafter]
        exact nofun
    -- the worker is still there when nothing happens any more
    have hstate := fun n => (hρ.state n).trans (idle_state _ n)
    obtain ⟨m, p, hm, hp, hexited⟩ := h _ 5 hdropped _ (by decide) 2 _
      (congrArg (·.processes 2) (hstate 0)) rfl
    obtain ⟨n, rfl⟩ := Nat.exists_eq_add_of_le hm
    rw [Nat.add_zero, hstate] at hp
    cases hp
    exact nomatch hexited

end Runs

end PgLake.BaseWorkers
