/-
  The locks of the file cache (`file_cache_manager.cpp`, `caching_file_system.cpp`).

  Every operation on a cache file takes the mutex of a `FileCacheActivity` that the manager
  keeps in a map by cache path.  Whoever is done with a path calls
  `RemoveCacheFileActivityFromMapIfNeeded`, which drops the entry if nobody but the map
  references it.

  Main result: `run_safe`.
-/
import Mathlib.Data.Fintype.Card
import Mathlib.Data.List.AList
import PgLake.Lib.Transition

namespace PgLake.FileCache

open Transition

/-- Who takes the lock.  `removeCacheFile true` removes the staging file of the
    path and `removeCacheFile false` the cache file itself. -/
inductive CacheUser where
  | cacheFile
  | removeCacheFile (staged : Bool)
  | cacheOnWrite
  deriving DecidableEq

/-- Where a thread is.  Activities are numbered in the order of creation. -/
inductive Pc (Path : Type) where
  | idle
  /-- in `TryAcquireCachePathLock`, before `GetFileCacheActivity` -/
  | locating (p : Path) (u : CacheUser) (waitForLock : Bool)
  /-- has a `shared_ptr` to the activity, the mutex not yet locked -/
  | referencing (p : Path) (u : CacheUser) (waitForLock : Bool) (a : ℕ)
  /-- locked, the `shared_ptr` not yet released -/
  | acquired (p : Path) (u : CacheUser) (a : ℕ)
  /-- owns the lock and works on the file; for a write, the staging handle is open -/
  | holding (p : Path) (u : CacheUser) (a : ℕ)
  /-- a write handle whose staging handle is null but that owns the lock until it is destroyed -/
  | closed (p : Path) (a : ℕ)
  /-- the lock is released, `RemoveCacheFileActivityFromMapIfNeeded q` comes next -/
  | cleaning (q : Path)
  /-- the same call, made by the owner of the lock -/
  | cleaningHeld (p : Path) (a : ℕ)
  /-- the end of a scope is about to release the lock -/
  | unlocking (p : Path) (a : ℕ)
  deriving DecidableEq

/-- The steps of a thread in the code that uses the file locks. -/
inductive Event (Path : Type) where
  | call (p : Path) (u : CacheUser) (waitForLock : Bool)
  | getFileCacheActivity
  | lock
  | tryLockFails
  | lockReturned
  /-- the work ended, normally or by an exception; for a write, `CleanUpCacheOnWriteFile` -/
  | finish
  /-- `CacheFileInternal` returned `DIRECTORY_CANNOT_CREATED` -/
  | directoryFails
  /-- `Close` or `FileSync` of a write handle, or its staging file could not be opened -/
  | close
  /-- `~CachingFSFileHandle` -/
  | destroy
  | removeActivity
  | unlock
  deriving DecidableEq

variable {Thread Path : Type} [Fintype Thread] [DecidableEq Thread] [DecidableEq Path]

/-- The activity map and the position of every thread. -/
structure LockState (Thread Path : Type) where
  cacheActivityMap : AList (fun _ : Path => ℕ)
  nextActivity : ℕ
  pc : Thread → Pc Path

/-- The path and the activity whose mutex a thread has locked. -/
def Pc.holds : Pc Path → Option (Path × ℕ)
  | .acquired p _ a | .holding p _ a | .closed p a | .cleaningHeld p a | .unlocking p a =>
    some (p, a)
  | _ => none

/-- The activity a thread has a `shared_ptr` to. -/
def Pc.references : Pc Path → Option ℕ
  | .referencing _ _ _ a | .acquired _ _ a => some a
  | _ => none

/-- The path and the activity a thread has locked or is about to lock. -/
def Pc.uses : Pc Path → Option (Path × ℕ)
  | .referencing p _ _ a => some (p, a)
  | pc => pc.holds

/-- The path of the map cleanup a thread makes after releasing its lock. -/
def Pc.cleans : Pc Path → Option Path
  | .cleaning q => some q
  | _ => none

variable (s : LockState Thread Path)

/-- `use_count()` of an activity: the map and the threads with a `shared_ptr`. -/
def useCount (a : ℕ) : ℕ :=
  s.cacheActivityMap.entries.countP (fun entry => entry.2 = a) +
    (Finset.univ.filter fun t => (s.pc t).references = some a).card

/-- No thread has locked the mutex of `a`. -/
def mutexFree (a : ℕ) : Prop :=
  ∀ t, (s.pc t).holds.map Prod.snd ≠ some a

instance (s : LockState Thread Path) (a : ℕ) : Decidable (mutexFree s a) :=
  inferInstanceAs (Decidable (∀ t, (s.pc t).holds.map Prod.snd ≠ some a))

def LockState.goto (t : Thread) (pc : Pc Path) : LockState Thread Path :=
  { s with pc := Function.update s.pc t pc }

/-- `GetFileCacheActivity`, under the lock of the map. -/
def getFileCacheActivity (p : Path) : LockState Thread Path × ℕ :=
  match s.cacheActivityMap.lookup p with
  | some a => (s, a)
  | none =>
    ({ s with
        cacheActivityMap := s.cacheActivityMap.insert p s.nextActivity
        nextActivity := s.nextActivity + 1 }, s.nextActivity)

/-- `RemoveCacheFileActivityFromMapIfNeeded`, under the lock of the map. -/
def removeCacheFileActivityFromMapIfNeeded (q : Path) : LockState Thread Path :=
  match s.cacheActivityMap.lookup q with
  | some a =>
    if useCount s a = 1 then { s with cacheActivityMap := s.cacheActivityMap.erase q } else s
  | none => s

section
-- `staging p` is the path with the suffix `.pgl-stage`
variable (staging : Path → Path)

/-- The path whose entry a user cleans up.  `RemoveCacheFileInternal` passes
    the file it removed, which is not the path it locked for a staging file. -/
def CacheUser.cleanupPath (p : Path) : CacheUser → Path
  | .removeCacheFile true => staging p
  | _ => p

/-- One atomic action of thread `t`; `none` where it is not the next one. -/
def step (s : LockState Thread Path) : Thread × Event Path → Option (LockState Thread Path)
  | (t, e) =>
    match s.pc t, e with
    | .idle, .call p u waitForLock =>
      -- a write handle always waits
      if u = .cacheOnWrite ∧ waitForLock = false then none
      else some (s.goto t (.locating p u waitForLock))
    | .locating p u waitForLock, .getFileCacheActivity =>
      let (s', a) := getFileCacheActivity s p
      some (s'.goto t (.referencing p u waitForLock a))
    | .referencing p u _ a, .lock =>
      if mutexFree s a then some (s.goto t (.acquired p u a)) else none
    | .referencing _ _ false a, .tryLockFails =>
      if mutexFree s a then none else some (s.goto t .idle)
    | .acquired p u a, .lockReturned => some (s.goto t (.holding p u a))
    | .holding p u _, .finish => some (s.goto t (.cleaning (u.cleanupPath staging p)))
    | .holding p .cacheFile a, .directoryFails => some (s.goto t (.cleaningHeld p a))
    | .holding p .cacheOnWrite a, .close => some (s.goto t (.closed p a))
    | .holding p .cacheOnWrite a, .destroy => some (s.goto t (.cleaningHeld p a))
    | .closed _ _, .destroy => some (s.goto t .idle)
    | .cleaning q, .removeActivity =>
      some ((removeCacheFileActivityFromMapIfNeeded s q).goto t .idle)
    | .cleaningHeld p a, .removeActivity =>
      some ((removeCacheFileActivityFromMapIfNeeded s p).goto t (.unlocking p a))
    | .unlocking _ _, .unlock => some (s.goto t .idle)
    | _, _ => none

end

/-- No lock is in use. -/
def LockState.start : LockState Thread Path := ⟨∅, 0, fun _ => .idle⟩

/-! ## Safety -/

/-- One holder per cache path, and the mutex of everyone who has locked it or
    waits for it still exists. -/
structure Safe (s : LockState Thread Path) : Prop where
  exclusive : ∀ {t t' p a a'}, (s.pc t).holds = some (p, a) → (s.pc t').holds = some (p, a') →
    t = t'
  alive : ∀ {t p a}, (s.pc t).uses = some (p, a) → 0 < useCount s a

section
variable (staging : Path → Path)

/-- A step that keeps the locks safe: the path that is locked is not the
    staging path of another, no thread locks a path between the release of its
    lock and the map cleanup that follows, the cache directory can be created,
    and a write handle is destroyed only after it was closed or cleaned up. -/
def Careful (s : LockState Thread Path) : Thread × Event Path → Prop
  | (_, .call p _ _) => ∀ q, p ≠ staging q
  | (t, .lock) => ∀ p u w a, s.pc t = .referencing p u w a → ∀ t', (s.pc t').cleans ≠ some p
  | (_, .directoryFails) => False
  | (t, .destroy) => ∀ p a, s.pc t ≠ .holding p .cacheOnWrite a
  | _ => True

def Pc.target : Pc Path → Option Path
  | .locating p _ _ => some p
  | pc => pc.uses.map Prod.fst

structure LockInv (s : LockState Thread Path) : Prop where
  mapped : ∀ {t p a}, (s.pc t).uses = some (p, a) → s.cacheActivityMap.lookup p = some a
  exclusive : ∀ {t t' p a a'}, (s.pc t).holds = some (p, a) → (s.pc t').holds = some (p, a') →
    t = t'
  /-- nobody holds a path that is about to be cleaned up -/
  window : ∀ {t t' p a}, (s.pc t).cleans = some p → (s.pc t').holds ≠ some (p, a)
  not_staging : ∀ {t p}, (s.pc t).target = some p → ∀ q, p ≠ staging q
  cleans_unlocked : ∀ {t p a}, s.pc t ≠ .cleaningHeld p a

end

omit [Fintype Thread] [DecidableEq Path] in
@[simp] theorem goto_pc_self (t : Thread) (pc : Pc Path) :
    (s.goto t pc).pc t = pc := Function.update_self ..

omit [Fintype Thread] [DecidableEq Path] in
theorem goto_pc_of_ne {t t' : Thread} (h : t' ≠ t) (pc : Pc Path) :
    (s.goto t pc).pc t' = s.pc t' := Function.update_of_ne h ..

omit [Fintype Thread] [DecidableEq Path] in
theorem goto_pc_cases (t : Thread) (pc : Pc Path) (t' : Thread) :
    t' = t ∧ (s.goto t pc).pc t' = pc ∨ t' ≠ t ∧ (s.goto t pc).pc t' = s.pc t' := by
  by_cases ht : t' = t
  · subst ht
    exact Or.inl ⟨rfl, goto_pc_self s t' pc⟩
  · exact Or.inr ⟨ht, goto_pc_of_ne s ht pc⟩

variable {pc : Pc Path}

open Pc LockState

omit [DecidableEq Path] in
theorem Pc.uses_of_holds {x : Path × ℕ} (h : pc.holds = some x) : pc.uses = some x := by
  cases pc <;> simp_all [holds, uses]

variable {p : Path} {a : ℕ}

omit [DecidableEq Path] in
theorem Pc.target_of_uses (h : pc.uses = some (p, a)) : pc.target = some p := by
  cases pc <;> simp_all [holds, uses, target]

omit [DecidableEq Path] in
theorem Pc.holds_or_references (h : pc.uses = some (p, a)) :
    pc.holds = some (p, a) ∨ pc.references = some a := by
  cases pc <;> simp_all [holds, uses, references]

variable {s}

omit [Fintype Thread] [DecidableEq Thread] in
theorem countP_pos_of_lookup (h : s.cacheActivityMap.lookup p = some a) :
    0 < s.cacheActivityMap.entries.countP (fun e => e.2 = a) :=
  List.countP_pos_iff.mpr ⟨⟨p, a⟩, AList.mem_lookup_iff.mp h, by simp⟩

omit [DecidableEq Thread] in
theorem not_references_of_useCount
    (hl : s.cacheActivityMap.lookup p = some a) (hc : useCount s a = 1) (t : Thread) :
    (s.pc t).references ≠ some a := by
  intro href
  have hmap := countP_pos_of_lookup hl
  have hca : 0 < (Finset.univ.filter fun t => (s.pc t).references = some a).card :=
    Finset.card_pos.mpr ⟨t, by simp [href]⟩
  unfold useCount at hc
  omega

section
variable {staging : Path → Path}

omit [DecidableEq Thread] in
theorem LockInv.safe (h : LockInv staging s) : Safe s where
  exclusive := h.exclusive
  alive := fun huse => by
    have := countP_pos_of_lookup (h.mapped huse)
    unfold useCount
    omega

omit [Fintype Thread] [DecidableEq Thread] in
theorem LockInv.start : LockInv staging (start : LockState Thread Path) where
  mapped := nofun
  exclusive := fun h _ => by cases h
  window := nofun
  not_staging := nofun
  cleans_unlocked := nofun

omit [Fintype Thread] in
theorem LockInv.goto (h : LockInv staging s) (t : Thread) (pc : Pc Path)
    (hm : ∀ {p a}, pc.uses = some (p, a) → s.cacheActivityMap.lookup p = some a)
    (hh : ∀ {p a}, pc.holds = some (p, a) → ∀ t', t' ≠ t →
      (∀ a', (s.pc t').holds ≠ some (p, a')) ∧ (s.pc t').cleans ≠ some p)
    (hc : ∀ {p}, pc.cleans = some p → ∀ t' a, t' ≠ t → (s.pc t').holds ≠ some (p, a))
    (hstaging : ∀ {p}, pc.target = some p → ∀ q, p ≠ staging q)
    (hhe : ∀ {p a}, pc ≠ .cleaningHeld p a) : LockInv staging (s.goto t pc) := by
  refine ⟨?_, ?_, ?_, ?_, ?_⟩
  · intro t₁ p a h₁
    rcases goto_pc_cases s t pc t₁ with ⟨-, hpc⟩ | ⟨-, hpc⟩ <;> rw [hpc] at h₁
    · exact hm h₁
    · exact h.mapped h₁
  · intro t₁ t₂ p a a' h₁ h₂
    rcases goto_pc_cases s t pc t₁ with ⟨ht₁, hpc₁⟩ | ⟨ht₁, hpc₁⟩ <;>
      rcases goto_pc_cases s t pc t₂ with ⟨ht₂, hpc₂⟩ | ⟨ht₂, hpc₂⟩ <;>
      rw [hpc₁] at h₁ <;> rw [hpc₂] at h₂
    · rw [ht₁, ht₂]
    · exact absurd h₂ ((hh h₁ t₂ ht₂).1 a')
    · exact absurd h₁ ((hh h₂ t₁ ht₁).1 a)
    · exact h.exclusive h₁ h₂
  · intro t₁ t₂ p a h₁ h₂
    rcases goto_pc_cases s t pc t₁ with ⟨ht₁, hpc₁⟩ | ⟨ht₁, hpc₁⟩ <;>
      rcases goto_pc_cases s t pc t₂ with ⟨ht₂, hpc₂⟩ | ⟨ht₂, hpc₂⟩ <;>
      rw [hpc₁] at h₁ <;> rw [hpc₂] at h₂
    · -- only `cleaningHeld` cleans what it holds
      cases pc <;> simp_all [cleans, holds]
    · exact hc h₁ t₂ a ht₂ h₂
    · exact (hh h₂ t₁ ht₁).2 h₁
    · exact h.window h₁ h₂
  · intro t₁ p h₁
    rcases goto_pc_cases s t pc t₁ with ⟨-, hpc⟩ | ⟨-, hpc⟩ <;> rw [hpc] at h₁
    · exact hstaging h₁
    · exact h.not_staging h₁
  · intro t₁ p a h₁
    rcases goto_pc_cases s t pc t₁ with ⟨-, hpc⟩ | ⟨-, hpc⟩ <;> rw [hpc] at h₁
    · exact hhe h₁
    · exact h.cleans_unlocked h₁

omit [Fintype Thread] [DecidableEq Thread] in
theorem getFileCacheActivity_pc (s : LockState Thread Path) (p : Path) :
    (getFileCacheActivity s p).1.pc = s.pc := by
  unfold getFileCacheActivity
  split <;> rfl

omit [Fintype Thread] [DecidableEq Thread] in
theorem getFileCacheActivity_lookup (s : LockState Thread Path) (p : Path) :
    (getFileCacheActivity s p).1.cacheActivityMap.lookup p = some (getFileCacheActivity s p).2 := by
  unfold getFileCacheActivity
  split
  · assumption
  · exact AList.lookup_insert _

omit [Fintype Thread] [DecidableEq Thread] in
theorem getFileCacheActivity_lookup_of_some {p q : Path} {a : ℕ}
    (h : s.cacheActivityMap.lookup q = some a) :
    (getFileCacheActivity s p).1.cacheActivityMap.lookup q = some a := by
  unfold getFileCacheActivity
  split
  · exact h
  · next hn =>
    have hne : q ≠ p := by
      rintro rfl
      rw [hn] at h
      cases h
    simpa [AList.lookup_insert_ne hne] using h

variable {s s' : LockState Thread Path}

omit [Fintype Thread] [DecidableEq Thread] in
theorem LockInv.of_map (h : LockInv staging s) (hpc : s'.pc = s.pc)
    (hm : ∀ {t p a}, (s.pc t).uses = some (p, a) → s'.cacheActivityMap.lookup p = some a) :
    LockInv staging s' := by
  refine ⟨?_, ?_, ?_, ?_, ?_⟩ <;> rw [hpc]
  · exact hm
  · exact h.exclusive
  · exact h.window
  · exact h.not_staging
  · exact h.cleans_unlocked

omit [Fintype Thread] [DecidableEq Thread] in
theorem LockInv.getFileCacheActivity (h : LockInv staging s)
    (p : Path) : LockInv staging (getFileCacheActivity s p).1 :=
  h.of_map (getFileCacheActivity_pc s p)
    fun huse => getFileCacheActivity_lookup_of_some (h.mapped huse)

omit [DecidableEq Thread] in
theorem removeActivity_pc (s : LockState Thread Path) (q : Path) :
    (removeCacheFileActivityFromMapIfNeeded s q).pc = s.pc := by
  unfold removeCacheFileActivityFromMapIfNeeded
  split
  · split_ifs <;> rfl
  · rfl

omit [DecidableEq Thread] in
/-- The map cleanup keeps the invariant if nobody holds the path: a thread that
    only references the entry is seen by the count. -/
theorem LockInv.removeActivity (h : LockInv staging s) {q : Path}
    (hf : ∀ t a, (s.pc t).holds ≠ some (q, a)) :
    LockInv staging (removeCacheFileActivityFromMapIfNeeded s q) := by
  refine h.of_map (removeActivity_pc s q) fun {t p a} huse => ?_
  have hl := h.mapped huse
  unfold removeCacheFileActivityFromMapIfNeeded
  split
  · next b hb =>
    split_ifs with hc
    · have hne : p ≠ q := by
        rintro rfl
        obtain rfl : a = b := Option.some.inj (hl.symm.trans hb)
        rcases holds_or_references huse with hold | href
        · exact hf t a hold
        · exact not_references_of_useCount hb hc t href
      simpa [AList.lookup_erase_ne hne] using hl
    · exact hl
  · exact hl

omit [Fintype Thread] in
theorem LockInv.goto_holding (h : LockInv staging s) {t : Thread} {p : Path} {a : ℕ}
    (hold : (s.pc t).holds = some (p, a)) (huses : pc.uses = some (p, a))
    (hcl : pc.cleans = none) (hta : pc.target = some p)
    (hh : ∀ {p a}, pc ≠ .cleaningHeld p a) : LockInv staging (s.goto t pc) := by
  refine h.goto t pc ?_ ?_ ?_ ?_ hh
  · intro p' a' h'
    cases huses.symm.trans h'
    exact h.mapped (uses_of_holds hold)
  · intro p' a' h' t' ht'
    cases huses.symm.trans (uses_of_holds h')
    exact ⟨fun a' h' => ht' (h.exclusive h' hold), fun hc => h.window hc hold⟩
  · intro p' h'
    cases hcl.symm.trans h'
  · intro p' h'
    cases hta.symm.trans h'
    exact h.not_staging (target_of_uses (uses_of_holds hold))

omit [Fintype Thread] in
theorem LockInv.goto_idle (h : LockInv staging s) (t : Thread) : LockInv staging (s.goto t .idle) :=
  h.goto t .idle (nofun) (nofun) (nofun)
    (nofun) (nofun)

/-- **A careful step keeps the invariant.** -/
theorem LockInv.step {e : Thread × Event Path}
    (h : LockInv staging s) (hc : Careful staging s e)
    (hs : FileCache.step staging s e = some s') : LockInv staging s' := by
  obtain ⟨t, e⟩ := e
  unfold FileCache.step at hs
  dsimp only at hs
  split at hs
  · -- a call
    split_ifs at hs
    cases hs
    refine h.goto t _ (nofun) (nofun) (nofun) ?_
      (nofun)
    intro p hp
    cases hp
    exact hc
  · -- GetFileCacheActivity
    next p u w hpc =>
    cases hs
    refine (h.getFileCacheActivity p).goto t _ ?_ (nofun) (nofun) ?_
      (nofun)
    · intro p' a' h'
      cases h'
      exact getFileCacheActivity_lookup s p
    · intro p' h'
      cases h'
      exact h.not_staging (t := t) (by rw [hpc]; rfl)
  · -- lock
    next p u w a hpc =>
    split_ifs at hs with hf
    cases hs
    have huse : (s.pc t).uses = some (p, a) := by rw [hpc]; rfl
    refine h.goto t _ ?_ ?_ (nofun) ?_ (nofun)
    · intro p' a' h'
      cases h'
      exact h.mapped huse
    · intro p' a' h' t' ht'
      cases h'
      refine ⟨fun a' hold => hf t' ?_, hc p u w a hpc t'⟩
      have ha : a' = a :=
        Option.some.inj ((h.mapped (uses_of_holds hold)).symm.trans (h.mapped huse))
      simp [hold, ha]
    · intro p' h'
      cases h'
      exact h.not_staging (target_of_uses huse)
  · -- try_lock fails
    split_ifs at hs
    cases hs
    exact h.goto_idle t
  · next p u a hpc =>
    cases hs
    exact h.goto_holding (p := p) (a := a) (by rw [hpc]; rfl) rfl rfl rfl (nofun)
  · -- the lock is released, the map cleanup comes next
    next p u a hpc =>
    cases hs
    have hold : (s.pc t).holds = some (p, a) := by rw [hpc]; rfl
    refine h.goto t _ (nofun) (nofun) ?_ (nofun)
      (nofun)
    intro q hq t' a' ht' hold'
    have hq : u.cleanupPath staging p = q := Option.some.inj hq
    by_cases hp : q = p
    · subst hp
      exact ht' (h.exclusive hold' hold)
    · have hst : q = staging p := by
        rw [← hq] at hp ⊢
        unfold CacheUser.cleanupPath at hp ⊢
        split at hp
        · rfl
        · exact absurd rfl hp
      exact h.not_staging (target_of_uses (uses_of_holds hold')) p hst
  · exact absurd hc (by simp [Careful])
  · next p a hpc =>
    cases hs
    exact h.goto_holding (p := p) (a := a) (by rw [hpc]; rfl) rfl rfl rfl (nofun)
  · next p a hpc => exact absurd hpc (hc p a)
  · cases hs
    exact h.goto_idle t
  · -- the map cleanup after the release of the lock
    next q hpc =>
    cases hs
    exact (h.removeActivity fun t' a' => h.window (t := t) (by rw [hpc]; rfl)).goto_idle t
  · next p a hpc => exact absurd hpc h.cleans_unlocked
  · cases hs
    exact h.goto_idle t
  · cases hs

/-- **Every run of careful steps is safe.** -/
theorem run_safe (staging : Path → Path) (es : List (Thread × Event Path))
    (s : LockState Thread Path)
    (hcareful : Transition.Along (FileCache.step staging) (Careful staging) start es)
    (hrun : run (FileCache.step staging) start es = some s) : Safe s :=
  (run_invariant (fun (h : LockInv staging _) hc hs => h.step hc hs)
    LockInv.start hcareful hrun).safe

end

/-! ## Runs on one path -/

/-- The path a file is downloaded to. -/
def stagingPath (p : String) : String := p ++ ".pgl-stage"

/-- `GetCacheStatusWithLock` without interruption, up to holding the lock. -/
def lockCalls (t : Fin 2) (p : String) (u : CacheUser) : List (Fin 2 × Event String) :=
  [(t, .call p u true), (t, .getFileCacheActivity), (t, .lock), (t, .lockReturned)]

/-- One thread caches a file; the map is empty again at the end. -/
theorem run_safe_cacheFile : ∃ s, run (step stagingPath) start
      (lockCalls 0 "f" .cacheFile ++ [(0, .finish), (0, .removeActivity)]) = some s ∧ Safe s := by
  refine ⟨_, rfl, run_safe stagingPath
    (lockCalls 0 "f" .cacheFile ++ [(0, .finish), (0, .removeActivity)]) _ ?_ rfl⟩
  have hcall : ∀ q, "f" ≠ stagingPath q := by
    intro q h
    have hlen := congrArg String.length h
    rw [stagingPath, String.length_append] at hlen
    have hsuffix : "f".length < ".pgl-stage".length := by decide
    omega
  refine ⟨hcall, fun s hs => ⟨trivial, fun s' hs' => ⟨?_, fun _ _ => ⟨trivial, fun _ _ =>
    ⟨trivial, fun _ _ => ⟨trivial, fun _ _ => trivial⟩⟩⟩⟩⟩⟩
  cases hs
  cases hs'
  intro p u w a _ t' hcleans
  match t', hcleans with
  | 0, h => cases h
  | 1, h => cases h

/-- Thread 1 locks the path between the release of the lock by thread 0 and
    its map cleanup; the cleanup destroys the mutex under thread 1, and thread
    0 then locks a new one. -/
theorem two_holders_of_one_path : ∃ s, run (step stagingPath) start
      (lockCalls 0 "f" .cacheFile ++ [(0, .finish)] ++ lockCalls 1 "f" .cacheFile ++
        [(0, .removeActivity)] ++ lockCalls 0 "f" .cacheFile) = some s ∧
      (s.pc 0).holds = some ("f", 1) ∧ (s.pc 1).holds = some ("f", 0) ∧ useCount s 0 = 0 ∧
      ¬ Safe s := by
  obtain ⟨s, hrun, h0, h1, hcount⟩ : ∃ s, run (step stagingPath) start
      (lockCalls 0 "f" .cacheFile ++ [(0, .finish)] ++ lockCalls 1 "f" .cacheFile ++
        [(0, .removeActivity)] ++ lockCalls 0 "f" .cacheFile) = some s ∧
      (s.pc 0).holds = some ("f", 1) ∧ (s.pc 1).holds = some ("f", 0) ∧ useCount s 0 = 0 :=
    ⟨_, rfl, rfl, rfl, rfl⟩
  exact ⟨s, hrun, h0, h1, hcount, fun h => absurd (h.exclusive h0 h1) (by decide)⟩

omit [DecidableEq Thread] [DecidableEq Path] in
theorem not_safe_of_destroyed {t : Thread}
    (huse : (s.pc t).uses = some (p, a)) (hc : useCount s a = 0) : ¬ Safe s := by
  intro h
  have := h.alive huse
  omega

-- A write handle destroyed before it was closed drops the entry it has locked.
example : ∃ s, run (step stagingPath) LockState.start
    (lockCalls 0 "f" .cacheOnWrite ++ [(0, .destroy), (0, .removeActivity)]) = some s ∧
    ¬ Safe s :=
  ⟨_, rfl, not_safe_of_destroyed (t := 0) (p := "f") (a := 0) rfl rfl⟩

-- So does `CacheFile` when the cache directory cannot be created.
example : ∃ s, run (step stagingPath) LockState.start
    (lockCalls 0 "f" .cacheFile ++ [(0, .directoryFails), (0, .removeActivity)]) = some s ∧
    ¬ Safe s :=
  ⟨_, rfl, not_safe_of_destroyed (t := 0) (p := "f") (a := 0) rfl rfl⟩

-- The removal of a staging file of `f` drops the entry of the file `f.pgl-stage`.
example : ∃ s, run (step stagingPath) LockState.start
    (lockCalls 0 "f.pgl-stage" .cacheFile ++ lockCalls 1 "f" (.removeCacheFile true) ++
      [(1, .finish), (1, .removeActivity)]) = some s ∧ ¬ Safe s :=
  ⟨_, rfl, not_safe_of_destroyed (t := 0) (p := "f.pgl-stage") (a := 0) rfl rfl⟩

end PgLake.FileCache
