/-
  The contents of a cached URL (`caching_file_system.cpp`, `caching_file_system.hpp`,
  `file_cache_manager.cpp`).

  A write through the caching file system goes to the remote file and, while it stays below
  `pg_lake_cache_on_write_max_size`, also to a staging file, which `FileSync` or `Close`
  renames.  Reads of a URL that has a cache file never look at the remote file.

  Main result: `current_of_run`.
-/
import Mathlib.Data.Int.Basic
import PgLake.Lib.Transition

namespace PgLake.FileCache.Contents

open Transition

/-- The content of a file. -/
abbrev Bytes := List UInt8

/-- The parts of a `CachingFSFileHandle` opened for writing: whether
    `cacheOnWriteHandle` is set, the bytes forked to it, and what the remote
    handle has received. -/
structure WriteHandle where
  cacheOnWrite : Bool
  cacheOnWriteWrittenBytes : ℕ
  uploaded : Bytes
  synced : Bool
  deriving DecidableEq

/-- The files of one URL, its entry in the candidate queue, the open write
    handle, and the bytes of the last completed write. -/
structure UrlState where
  remote : Option Bytes
  cached : Option Bytes
  staged : Option Bytes
  candidate : Bool
  handle : Option WriteHandle
  lastWrite : Option Bytes
  deriving DecidableEq

/-- The operations on a URL.  The cache directory is configured and the URL
    cacheable; `noCache` is the `nocache` prefix. -/
inductive Op where
  | openForWriting (noCache : Bool)
  /-- one `Write`, with the value of `pg_lake_cache_on_write_max_size` -/
  | write (buffer : Bytes) (maxSize : Option UInt64)
  | fileSync
  | close
  /-- the handle is destroyed without `Close` -/
  | abandon
  | removeFile
  | removeCacheFile
  | cacheFile (force : Bool)
  /-- whether the size limit makes `ManageCache` evict the cache file or leaves
      room for the candidate depends on the other files of the directory -/
  | manageCache (evict fits : Bool)
  | read (noCache : Bool)
  deriving DecidableEq

/-- A sequential write at an offset of a file opened without truncation. -/
def overwriteAt (file : Bytes) (offset : ℕ) (buffer : Bytes) : Bytes :=
  file.take offset ++ buffer ++ file.drop (offset + buffer.length)

/-- `ShouldCacheOnWrite`; the setting is a `uint64_t` kept in an `int64_t`. -/
def shouldCacheOnWrite (handle : WriteHandle) (additionalByteCount : ℕ)
    (maxSize : Option UInt64) : Bool :=
  handle.cacheOnWrite &&
    match maxSize with
    | none => false
    | some setting =>
      !decide (setting.toInt64.toInt ≤ handle.cacheOnWriteWrittenBytes + additionalByteCount)

variable (s : UrlState)

/-- `OpenFile` for writing.  The staging file is opened with `FILE_CREATE`,
    which does not truncate it. -/
def openForWriting (noCache : Bool) : UrlState :=
  let requestCache := !noCache
  { s with
    staged := if requestCache then some (s.staged.getD []) else s.staged
    handle := some ⟨requestCache, 0, [], false⟩ }

/-- `Write`, with `CleanUpCacheOnWriteFile` when the fork is given up. -/
def write (handle : WriteHandle) (buffer : Bytes) (maxSize : Option UInt64) : UrlState :=
  let uploaded := handle.uploaded ++ buffer
  if shouldCacheOnWrite handle buffer.length maxSize then
    { s with
      staged := s.staged.map fun file =>
        overwriteAt file handle.cacheOnWriteWrittenBytes buffer
      handle := some { handle with
        cacheOnWriteWrittenBytes := handle.cacheOnWriteWrittenBytes + buffer.length
        uploaded := uploaded } }
  else if handle.cacheOnWrite then
    { s with
      staged := none
      handle := some { handle with cacheOnWrite := false, uploaded := uploaded } }
  else
    { s with handle := some { handle with uploaded := uploaded } }

/-- What `FileSync` and `Close` share: the remote file is complete, and the
    staging file, if still open, is renamed. -/
def complete (handle : WriteHandle) : UrlState :=
  { s with
    remote := some handle.uploaded
    lastWrite := some handle.uploaded
    cached := if handle.cacheOnWrite then s.staged else s.cached
    staged := if handle.cacheOnWrite then none else s.staged
    handle := some { handle with cacheOnWrite := false, synced := true } }

/-- `CacheFile`: copy the remote file to a new staging file and rename it.  A
    missing remote file raises an error before anything is created. -/
def cacheFile (force : Bool) : UrlState :=
  if !force && s.cached.isSome then s
  else
    match s.remote with
    | none => s
    | some bytes => { s with cached := some bytes, staged := none }

/-- `ManageCache`: staging files are removed, the cache file may be evicted, and
    a candidate that had no cache file is downloaded if there is room. -/
def manageCache (evict fits : Bool) : UrlState :=
  let needsDownload := s.candidate && s.cached.isNone && fits
  let s := { s with
    staged := none
    candidate := false
    cached := if evict then none else s.cached }
  if needsDownload then cacheFile s false else s

/-- `OpenFile` for reading: the bytes and whether they come from the cache. -/
def openForReading (noCache : Bool) : Option (Bytes × Bool) :=
  match noCache, s.cached with
  | false, some bytes => some (bytes, true)
  | _, _ => s.remote.map fun bytes => (bytes, false)

/-- A read that is not served from the cache records a cache candidate. -/
def read (noCache : Bool) : UrlState :=
  match openForReading s noCache with
  | some (_, false) => { s with candidate := s.candidate || !noCache }
  | _ => s

/-- One operation.  While a write handle is open it owns the lock of the cache
    path, so that only its own operations and reads can run; after `FileSync`
    the upload is final and takes no more bytes. -/
def step (op : Op) : Option UrlState :=
  match s.handle, op with
  | none, .openForWriting noCache => some (openForWriting s noCache)
  | none, .removeFile => some { s with remote := none, cached := none }
  | none, .removeCacheFile => some { s with cached := none }
  | none, .cacheFile force => some (cacheFile s force)
  | none, .manageCache evict fits => some (manageCache s evict fits)
  | some handle, .write buffer maxSize =>
    if handle.synced then none else some (write s handle buffer maxSize)
  | some handle, .fileSync => if handle.synced then none else some (complete s handle)
  | some handle, .close =>
    if handle.synced then some { s with handle := none }
    else some { complete s handle with handle := none }
  | some _, .abandon => some { s with handle := none }
  | _, .read noCache => some (read s noCache)
  | _, _ => none

/-- A URL before its first operation: no local file, and possibly a remote one. -/
def UrlState.start (remote : Option Bytes) : UrlState where
  remote := remote
  cached := none
  staged := none
  candidate := false
  handle := none
  lastWrite := remote

/-! ## The cache file and the last completed write -/

/-- A read served from the cache returns the last completed write. -/
def Current : Prop :=
  ∀ noCache bytes, openForReading s noCache = some (bytes, true) → s.lastWrite = some bytes

variable {s}

theorem current_iff : Current s ↔ ∀ bytes, s.cached = some bytes → s.lastWrite = some bytes := by
  constructor
  · intro h bytes hb
    exact h false bytes (by simp [openForReading, hb])
  · intro h noCache bytes hr
    apply h
    unfold openForReading at hr
    split at hr
    · next hb =>
      simp only [Option.some.injEq, Prod.mk.injEq, and_true] at hr
      rw [hb, hr]
    · simp at hr

/-- What an operation may find when it completes a write: the staging file has
    nothing behind the bytes of this write, or, once the fork was given up or
    never made, no cache file is left from an earlier one. -/
def Replaces (s : UrlState) : Op → Prop
  | .fileSync | .close => ∀ handle, s.handle = some handle → handle.synced = false →
    if handle.cacheOnWrite then
      ∀ file, s.staged = some file → file.length ≤ handle.cacheOnWriteWrittenBytes
    else s.cached = none ∨ s.cached = some handle.uploaded
  | _ => True

/-- The staging file of an open fork starts with the bytes written so far. -/
structure ForkInv (s : UrlState) : Prop where
  remote : ∀ bytes, s.remote = some bytes → s.lastWrite = some bytes
  staged : ∀ handle, s.handle = some handle → handle.cacheOnWrite = true →
    handle.cacheOnWriteWrittenBytes = handle.uploaded.length ∧
      ∃ rest, s.staged = some (handle.uploaded ++ rest)

theorem overwriteAt_append (w rest buffer : Bytes) :
    overwriteAt (w ++ rest) w.length buffer =
      w ++ buffer ++ rest.drop buffer.length := by
  simp [overwriteAt, List.drop_append]

variable {handle : WriteHandle}

theorem shouldCacheOnWrite_cacheOnWrite {n : ℕ} {maxSize : Option UInt64}
    (h : shouldCacheOnWrite handle n maxSize = true) : handle.cacheOnWrite = true := by
  exact (Bool.and_eq_true_iff.mp h).1

theorem write_frame (s : UrlState) (handle : WriteHandle) (buffer : Bytes)
    (maxSize : Option UInt64) :
    (write s handle buffer maxSize).remote = s.remote ∧
      (write s handle buffer maxSize).cached = s.cached ∧
      (write s handle buffer maxSize).lastWrite = s.lastWrite := by
  unfold write
  split_ifs <;> exact ⟨rfl, rfl, rfl⟩

theorem ForkInv.write (h : ForkInv s)
    (hh : s.handle = some handle) (buffer : Bytes) (maxSize : Option UInt64) :
    ForkInv (write s handle buffer maxSize) := by
  obtain ⟨hr, -, hl⟩ := write_frame s handle buffer maxSize
  refine ⟨by rw [hr, hl]; exact h.remote, ?_⟩
  intro handle' hh' hf
  unfold Contents.write at hh' ⊢
  split_ifs at hh' ⊢ with hshould hgive
  · cases hh'
    obtain ⟨hlen, rest, hs⟩ := h.staged handle hh (shouldCacheOnWrite_cacheOnWrite hshould)
    refine ⟨by simp [hlen], rest.drop buffer.length, ?_⟩
    simp [hs, hlen, overwriteAt_append]
  · cases hh'
    cases hf
  · cases hh'
    exact absurd hf hgive

/-- **A completed write leaves the cache current exactly when it replaces what
    an earlier write left.** -/
theorem complete_current_iff (h : ForkInv s)
    (hh : s.handle = some handle) (hsy : handle.synced = false) :
    Current (complete s handle) ↔ Replaces s .fileSync := by
  rw [current_iff]
  have hreplaces : Replaces s .fileSync ↔ if handle.cacheOnWrite then
      ∀ f, s.staged = some f → f.length ≤ handle.cacheOnWriteWrittenBytes
      else s.cached = none ∨ s.cached = some handle.uploaded := by
    constructor
    · intro hr
      exact hr handle hh hsy
    · intro hr handle' hh' _
      cases hh.symm.trans hh'
      exact hr
  rw [hreplaces]
  cases hf : handle.cacheOnWrite with
  | true =>
    obtain ⟨hlen, rest, hst⟩ := h.staged handle hh hf
    simp only [complete, hf, hst, if_true, Option.some.injEq, forall_eq', hlen]
    constructor
    · intro heq
      have := congrArg List.length heq
      omega
    · intro hle
      have hre : rest = [] := by
        rw [List.length_append] at hle
        exact List.length_eq_zero_iff.mp (by omega)
      simp [hre]
  | false =>
    simp only [complete, hf, Bool.false_eq_true, if_false, Option.some.injEq]
    constructor
    · intro hc
      cases hca : s.cached with
      | none => exact Or.inl rfl
      | some bs => exact Or.inr (by rw [hc bs hca])
    · rintro (hn | hs) bs hb
      · rw [hn] at hb
        cases hb
      · exact Option.some.inj (hs.symm.trans hb)

/-! ## Runs -/

/-- What every operation keeps that replaces what it completes. -/
structure ContentsInv (s : UrlState) : Prop extends ForkInv s where
  cached : ∀ bytes, s.cached = some bytes → s.lastWrite = some bytes

theorem ContentsInv.of_closed (hh : s.handle = none)
    (hr : ∀ bs, s.remote = some bs → s.lastWrite = some bs)
    (hc : ∀ bs, s.cached = some bs → s.lastWrite = some bs) : ContentsInv s where
  remote := hr
  staged := fun handle h => by rw [hh] at h; cases h
  cached := hc

theorem ContentsInv.cacheFile (h : ContentsInv s) (hh : s.handle = none)
    (force : Bool) : ContentsInv (cacheFile s force) := by
  unfold Contents.cacheFile
  split_ifs
  · exact h
  · split
    · exact h
    · next bs hr =>
      refine .of_closed hh h.remote ?_
      intro bs' hb
      cases hb
      exact h.remote bs hr

theorem ContentsInv.manageCache (h : ContentsInv s) (hh : s.handle = none)
    (evict fits : Bool) : ContentsInv (manageCache s evict fits) := by
  have hinv : ContentsInv { s with
      staged := none, candidate := false, cached := if evict then none else s.cached } := by
    refine .of_closed hh h.remote ?_
    intro bs hb
    cases evict with
    | true => cases hb
    | false => exact h.cached bs hb
  unfold Contents.manageCache
  cases s.candidate && s.cached.isNone && fits with
  | true => exact hinv.cacheFile hh false
  | false => exact hinv

theorem ContentsInv.read (h : ContentsInv s) (noCache : Bool) : ContentsInv (read s noCache) := by
  unfold Contents.read
  split
  · exact ⟨⟨h.remote, h.staged⟩, h.cached⟩
  · exact h

theorem ContentsInv.complete (h : ContentsInv s)
    (hh : s.handle = some handle) (hs : handle.synced = false)
    (hrep : Replaces s .fileSync) : ContentsInv (complete s handle) where
  remote := fun _ hb => hb
  staged := fun handle' hh' hf => by
    cases hh'
    cases hf
  cached := current_iff.mp ((complete_current_iff h.toForkInv hh hs).mpr hrep)

/-- **One operation keeps the invariant if it replaces what it completes.** -/
theorem ContentsInv.step {s s' : UrlState} {op : Op} (h : ContentsInv s) (hrep : Replaces s op)
    (hs : step s op = some s') : ContentsInv s' := by
  unfold Contents.step at hs
  split at hs
  · next noCache hh =>
    cases hs
    refine ⟨⟨h.remote, ?_⟩, h.cached⟩
    intro handle ho hf
    cases ho
    have hreq : (!noCache) = true := hf
    exact ⟨rfl, s.staged.getD [], by simp [openForWriting, hreq]⟩
  · next hh =>
    cases hs
    exact .of_closed hh (fun _ hb => by cases hb) (fun _ hb => by cases hb)
  · next hh =>
    cases hs
    exact .of_closed hh h.remote (fun _ hb => by cases hb)
  · next force hh =>
    cases hs
    exact h.cacheFile hh force
  · next evict fits hh =>
    cases hs
    exact h.manageCache hh evict fits
  · next handle buffer maxSize hh =>
    split_ifs at hs
    cases hs
    obtain ⟨-, hc, hl⟩ := write_frame s handle buffer maxSize
    exact ⟨h.toForkInv.write hh buffer maxSize, by rw [hc, hl]; exact h.cached⟩
  · next handle hh =>
    split_ifs at hs with hsy
    cases hs
    exact h.complete hh (by simpa using hsy) hrep
  · next handle hh =>
    split_ifs at hs with hsy
    · cases hs
      exact .of_closed rfl h.remote h.cached
    · cases hs
      have hd := h.complete hh (by simpa using hsy) hrep
      exact .of_closed rfl hd.remote hd.cached
  · cases hs
    exact .of_closed rfl h.remote h.cached
  · next noCache =>
    cases hs
    exact h.read noCache
  · cases hs

theorem ContentsInv.start (remote : Option Bytes) : ContentsInv (.start remote) :=
  .of_closed rfl (fun _ hb => hb) (fun _ hb => by cases hb)

/-- **Cached reads return the last completed write along every run in which
    each write replaces what earlier ones left.** -/
theorem current_of_run (remote : Option Bytes) (ops : List Op) (s : UrlState)
    (hrep : Transition.Along step Replaces (.start remote) ops)
    (hrun : run step (.start remote) ops = some s) : Current s :=
  current_iff.mpr (run_invariant (fun (h : ContentsInv _) hr hs => h.step hr hs)
    (ContentsInv.start remote) hrep hrun).cached

/-- A whole-file write of one buffer that is closed, under a limit of 10 bytes. -/
def wholeWrite (buffer : Bytes) : List Op := [.openForWriting false, .write buffer (some 10), .close]

/-- An abandoned write followed by one that is at least as long. -/
theorem current_of_run_longer : ∃ s, run step (.start none)
      ([.openForWriting false, .write [1, 2] (some 10), .abandon] ++ wholeWrite [7, 8, 9]) =
        some s ∧ Current s := by
  refine ⟨_, rfl, current_of_run none
    ([.openForWriting false, .write [1, 2] (some 10), .abandon] ++ wholeWrite [7, 8, 9]) _ ?_ rfl⟩
  refine ⟨trivial, fun _ h₁ => ⟨trivial, fun _ h₂ => ⟨trivial, fun _ h₃ => ⟨trivial, fun _ h₄ =>
    ⟨trivial, fun _ h₅ => ⟨?_, fun _ _ => trivial⟩⟩⟩⟩⟩⟩
  cases h₁
  cases h₂
  cases h₃
  cases h₄
  cases h₅
  rintro handle hhandle -
  cases hhandle
  intro file hfile
  cases hfile
  decide

/-- An abandoned write of three bytes leaves a staging file whose tail becomes
    part of the cache file of a one-byte write; and a write over the limit
    leaves the cache file of the write before it. -/
theorem stale_cache_reads : (∃ s, run step (.start none)
      ([.openForWriting false, .write [1, 2, 3] (some 10), .abandon] ++ wholeWrite [9]) = some s ∧
      openForReading s false = some ([9, 2, 3], true) ∧ s.lastWrite = some [9] ∧ ¬ Current s) ∧
    (∃ s, run step (.start none)
      (wholeWrite [1] ++ wholeWrite [0, 1, 2, 3, 4, 5, 6, 7, 8, 9]) = some s ∧
      openForReading s false = some ([1], true) ∧
      s.lastWrite = some [0, 1, 2, 3, 4, 5, 6, 7, 8, 9] ∧ ¬ Current s) := by
  refine ⟨⟨_, rfl, rfl, rfl, fun h => ?_⟩, ⟨_, rfl, rfl, rfl, fun h => ?_⟩⟩
  · exact absurd (h false [9, 2, 3] rfl) (by decide)
  · exact absurd (h false [1] rfl) (by decide)

end PgLake.FileCache.Contents
