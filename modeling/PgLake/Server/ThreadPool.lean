/-
  The client threads of pgduck_server and the cancellation of their queries
  (`pgserver/client_threadpool.c`, `pgserver.c`, `src/pgsession/pgsession.c`).

  Each client has a thread with a DuckDB connection and a slot in the pool.  The slot holds the
  keys that a cancel request has to give and a pointer to the connection.  The pool is read and
  written under a lock, but the connection is destroyed without it.

  Main results: `run_inv`, `interrupt_safe`.
-/
import Mathlib.Data.Finset.Erase
import Mathlib.Data.Finset.Insert
import PgLake.Lib.Transition

namespace PgLake.Server.ThreadPool

open Option Transition Finset

open Function (update update_of_ne update_self)

/-- `PgClientThreadState`.  A connection is named by its client. -/
structure PgClientThreadState (Client Token : Type) where
  threadIndex : ℕ
  isStarted : Bool
  cancellationProcId : ℤ
  cancellationToken : Option Token
  duckdbConnection : Option Client

/-- What `pgclient_threadpool_reserve_slot` stores in the `PGClient`. -/
structure PGClient (Token : Type) where
  threadIndex : ℕ
  cancellationProcId : ℤ
  cancellationToken : Token

inductive Stage (Client Token : Type) where
  /-- before `duckdb_connect` -/
  | reserved
  /-- the connection exists and the pool does not know it -/
  | connected
  | running
  /-- in `pgclient_threadpool_cancel_thread`, about to interrupt the connection of the slot
      that was found, if there is one -/
  | cancelling (procId : ℤ) (token : Token) (conn : Option Client)
  | cancelled
  /-- `pgsession_destroy` was called -/
  | destroyed

inductive Thread (Client Token : Type) where
  | idle
  | working (pgClient : PGClient Token) (stage : Stage Client Token)
  | gone

/-- The main thread in `pgclient_threadpool_cancel_all`. -/
inductive Shutdown (Client : Type) where
  | idle
  | visiting (i : ℕ)
  /-- about to interrupt the connection of slot `i` -/
  | interrupting (i : ℕ) (conn : Client)

/-- The pool, its lock, and where every thread is. -/
structure State (Client Token : Type) where
  clientThreadPool : ℕ → PgClientThreadState Client Token
  activeClientThreadCount : ℤ
  threadPoolAvailableIndexStart : ℕ
  /-- who holds the read lock; `none` is the main thread -/
  readers : Finset (Option Client)
  thread : Client → Thread Client Token
  shutdown : Shutdown Client

inductive ClientAction (Token : Type) where
  /-- `pgclient_threadpool_reserve_slot` for a client, with random keys -/
  | reserve (procId : ℤ) (token : Token)
  | createFails
  /-- `duckdb_connect` -/
  | connect
  | connectFails
  /-- `pgclient_threadpool_set_duckdb_conn` -/
  | publish
  /-- a cancel request: the search of `pgclient_threadpool_cancel_thread` -/
  | cancel (procId : ℤ) (token : Token)
  | interrupt
  | unlock
  /-- `pgsession_destroy` -/
  | destroy
  /-- `pgclient_thread_cleanup` -/
  | cleanup

inductive MainAction where
  | cancelAll
  | visit
  | interrupt
  deriving DecidableEq

/-- A step of a client thread or of the main thread. -/
inductive Action (Client Token : Type) where
  | client (c : Client) (e : ClientAction Token)
  | main (e : MainAction)

variable {Client Token : Type} [DecidableEq Client] [DecidableEq Token]

def State.setThread (s : State Client Token) (c : Client) (x : Thread Client Token) :
    State Client Token :=
  { s with thread := update s.thread c x }

omit [DecidableEq Token] in
theorem State.setThread_thread (s : State Client Token) (c : Client) (x : Thread Client Token) :
    (s.setThread c x).thread = update s.thread c x := rfl

def State.setSlot (s : State Client Token) (i : ℕ) (x : PgClientThreadState Client Token) :
    State Client Token :=
  { s with clientThreadPool := update s.clientThreadPool i x }

section Code
variable (maxAllowedClients : ℕ)

def maxThreads : ℕ := maxAllowedClients * 2

variable (s : State Client Token)

/-- The loop of `pgclient_threadpool_reserve_slot`: the first free slot. -/
def availableSlot : Option ℕ :=
  (List.range' s.threadPoolAvailableIndexStart
    (maxThreads maxAllowedClients - s.threadPoolAvailableIndexStart)).find?
      fun i => !(s.clientThreadPool i).isStarted

/-- `pgclient_threadpool_reserve_slot`; `none` for `InvalidThreadIndex`. -/
def reserveSlot (procId : ℤ) (token : Token) : Option (ℕ × State Client Token) :=
  if maxAllowedClients ≤ s.activeClientThreadCount then none
  else (availableSlot maxAllowedClients s).map fun i =>
    (i, { s.setSlot i { s.clientThreadPool i with
        threadIndex := i
        isStarted := true
        cancellationProcId := procId
        cancellationToken := some token } with
      activeClientThreadCount := s.activeClientThreadCount + 1
      threadPoolAvailableIndexStart :=
        if s.threadPoolAvailableIndexStart ≤ i then i + 1 else s.threadPoolAvailableIndexStart })

/-- `pgclient_threadpool_free_slot`; the server exits (`none`) if the slot is free. -/
def freeSlot (threadIndex : ℕ) : Option (State Client Token) :=
  if (s.clientThreadPool threadIndex).isStarted then
    some { s.setSlot threadIndex { s.clientThreadPool threadIndex with
        isStarted := false
        cancellationProcId := 0
        cancellationToken := none
        duckdbConnection := none } with
      activeClientThreadCount := s.activeClientThreadCount - 1
      threadPoolAvailableIndexStart :=
        if threadIndex ≤ s.threadPoolAvailableIndexStart then
          (s.clientThreadPool threadIndex).threadIndex
        else s.threadPoolAvailableIndexStart }
  else none

/-- The loop of `pgclient_threadpool_cancel_thread`. -/
def findSlot (procId : ℤ) (token : Token) : Option ℕ :=
  (List.range (maxThreads maxAllowedClients)).find? fun i =>
    (s.clientThreadPool i).isStarted && (s.clientThreadPool i).cancellationToken == some token &&
      (s.clientThreadPool i).cancellationProcId == procId

/-- One step of a client thread.  `none`: the thread is not there, or it has to wait for
    the lock. -/
def clientStep (c : Client) (e : ClientAction Token) : Option (State Client Token) :=
  match s.thread c, e with
  | .idle, .reserve procId token =>
    if s.readers.Nonempty then none
    else
      match reserveSlot maxAllowedClients s procId token with
      | none => some (s.setThread c .gone)
      | some (i, s') => some (s'.setThread c (.working ⟨i, procId, token⟩ .reserved))
  | .working pgClient .reserved, .createFails =>
    if s.readers.Nonempty then none
    else (freeSlot s pgClient.threadIndex).map fun s' => s'.setThread c .gone
  | .working pgClient .reserved, .connect => some (s.setThread c (.working pgClient .connected))
  | .working pgClient .reserved, .connectFails => some (s.setThread c (.working pgClient .destroyed))
  | .working pgClient .connected, .publish =>
    if s.readers.Nonempty then none
    else
      let threadState := s.clientThreadPool pgClient.threadIndex
      some ((s.setSlot pgClient.threadIndex { threadState with duckdbConnection := some c }).setThread
        c (.working pgClient .running))
  | .working pgClient .running, .cancel procId token =>
    let conn := (findSlot maxAllowedClients s procId token).bind fun i =>
      (s.clientThreadPool i).duckdbConnection
    some ({ s with readers := insert (some c) s.readers }.setThread c
      (.working pgClient (.cancelling procId token conn)))
  | .working pgClient (.cancelling _ _ _), .interrupt =>
    some (s.setThread c (.working pgClient .cancelled))
  | .working pgClient .cancelled, .unlock =>
    some ({ s with readers := s.readers.erase (some c) }.setThread c (.working pgClient .running))
  | .working pgClient .running, .destroy => some (s.setThread c (.working pgClient .destroyed))
  | .working pgClient .destroyed, .cleanup =>
    if s.readers.Nonempty then none
    else (freeSlot s pgClient.threadIndex).map fun s' => s'.setThread c .gone
  | _, _ => none

/-- One step of `pgclient_threadpool_cancel_all`. -/
def mainStep (e : MainAction) : Option (State Client Token) :=
  match s.shutdown, e with
  | .idle, .cancelAll => some { s with readers := insert none s.readers, shutdown := .visiting 0 }
  | .visiting i, .visit =>
    if i < maxThreads maxAllowedClients then
      match (s.clientThreadPool i).isStarted, (s.clientThreadPool i).duckdbConnection with
      | true, some conn => some { s with shutdown := .interrupting i conn }
      | _, _ => some { s with shutdown := .visiting (i + 1) }
    else some { s with readers := s.readers.erase none, shutdown := .idle }
  | .interrupting i _, .interrupt => some { s with shutdown := .visiting (i + 1) }
  | _, _ => none

/-- One step of the server. -/
def step : Action Client Token → Option (State Client Token)
  | .client c e => clientStep maxAllowedClients s c e
  | .main e => mainStep maxAllowedClients s e

end Code

/-- `pgclient_threadpool_init`. -/
def start : State Client Token where
  clientThreadPool _ := ⟨0, false, 0, none, none⟩
  activeClientThreadCount := 0
  threadPoolAvailableIndexStart := 0
  readers := ∅
  thread _ := .idle
  shutdown := .idle

/-! ## Safety -/

def Stage.hasConnection : Stage Client Token → Bool
  | .reserved | .destroyed => false
  | _ => true

/-- The pool was given the connection, which may be destroyed by now. -/
def Stage.published : Stage Client Token → Bool
  | .reserved | .connected => false
  | _ => true

def Stage.reads : Stage Client Token → Bool
  | .cancelling _ _ _ | .cancelled => true
  | _ => false

variable (s : State Client Token)

/-- The connection on which a step calls `duckdb_interrupt`; it ignores a null pointer. -/
def interrupted : Action Client Token → Option Client
  | .client c .interrupt =>
    match s.thread c with
    | .working _ (.cancelling _ _ conn) => conn
    | _ => none
  | .main .interrupt =>
    match s.shutdown with
    | .interrupting _ conn => some conn
    | _ => none
  | _ => none

def Exclusive : Prop :=
  ∀ {c d : Client} {g g' : PGClient Token} {st st' : Stage Client Token},
    s.thread c = .working g st → s.thread d = .working g' st' → g.threadIndex = g'.threadIndex →
      c = d

def HasKeys (d : Client) (procId : ℤ) (token : Token) : Prop :=
  ∃ g st, s.thread d = .working g st ∧ st.published = true ∧ g.cancellationProcId = procId ∧
    g.cancellationToken = token

/-- What a step must not do: interrupt a connection that does not exist or, on a cancel
    request, one of another client, and hand out a slot twice. -/
structure StepSafe (maxAllowedClients : ℕ) (s : State Client Token) (e : Action Client Token) :
    Prop where
  live : ∀ d, interrupted s e = some d → ∃ g st, s.thread d = .working g st ∧ st.hasConnection
  keys : ∀ c g procId token d, e = .client c .interrupt →
    s.thread c = .working g (.cancelling procId token (some d)) → HasKeys s d procId token
  exclusive : ∀ s', step maxAllowedClients s e = some s' → Exclusive s'

/-- The client has destroyed its session and not yet freed its slot. -/
def TearingDown (d : Client) : Prop := ∃ g, s.thread d = .working g .destroyed

def Targeted (d : Client) : Prop :=
  (∃ c g procId token, s.thread c = .working g (.cancelling procId token (some d))) ∨
    ∃ i, s.shutdown = .interrupting i d

/-- A step that keeps the connections that are about to be interrupted alive: a cancellation
    does not pick up the connection of a client that is tearing down, and no client destroys
    its session while a cancellation has picked up its connection. -/
def Careful (maxAllowedClients : ℕ) (s : State Client Token) : Action Client Token → Prop
  | .client _ (.cancel procId token) => ∀ i d, findSlot maxAllowedClients s procId token = some i →
    (s.clientThreadPool i).duckdbConnection = some d → ¬ TearingDown s d
  | .client c .destroy => ¬ Targeted s c
  | .main .visit => ∀ i d, s.shutdown = .visiting i →
    (s.clientThreadPool i).duckdbConnection = some d → ¬ TearingDown s d
  | _ => True

/-! ## The invariant of all runs -/

/-- What holds in every reachable state. -/
structure Inv (s : State Client Token) : Prop where
  slot : ∀ {c g st}, s.thread c = .working g st →
    (s.clientThreadPool g.threadIndex).isStarted = true ∧
      (s.clientThreadPool g.threadIndex).cancellationProcId = g.cancellationProcId ∧
      (s.clientThreadPool g.threadIndex).cancellationToken = some g.cancellationToken
  exclusive : Exclusive s
  conn : ∀ {i d}, (s.clientThreadPool i).duckdbConnection = some d →
    ∃ g st, s.thread d = .working g st ∧ st.published = true ∧ g.threadIndex = i
  reads : ∀ {c g st}, s.thread c = .working g st → st.reads = true → some c ∈ s.readers
  mainReads : s.shutdown ≠ .idle → none ∈ s.readers
  keys : ∀ {c g procId token d}, s.thread c = .working g (.cancelling procId token (some d)) →
    HasKeys s d procId token
  mainConn : ∀ {i d}, s.shutdown = .interrupting i d →
    ∃ g st, s.thread d = .working g st ∧ st.published = true

open State Thread

section Steps
variable {s s' : State Client Token} {c : Client} {g : PGClient Token} {st st' : Stage Client Token}

section

variable (h : Inv s)

include h

omit [DecidableEq Token] in
theorem Inv.setStage (hc : s.thread c = .working g st)
    (ht : s'.thread = update s.thread c (.working g st'))
    (hpo : s'.clientThreadPool = s.clientThreadPool) (hs : s'.shutdown = s.shutdown)
    (hp : st.published = true → st'.published = true)
    (hre : ∀ r, r ≠ some c → r ∈ s.readers → r ∈ s'.readers)
    (hreads : st'.reads = true → some c ∈ s'.readers)
    (hk : ∀ pid token d, st' = .cancelling pid token (some d) → HasKeys s d pid token) :
    Inv s' := by
  have hca := update_cases ht
  -- every client keeps its slot, and what was published stays so
  have hb : ∀ {d g' st''}, s'.thread d = .working g' st'' → ∃ st₀, s.thread d = .working g' st₀ := by
    intro d g' st'' hd
    obtain ⟨rfl, heq⟩ | ⟨-, heq⟩ := hca d
    · cases heq.symm.trans hd
      exact ⟨st, hc⟩
    · exact ⟨st'', heq ▸ hd⟩
  have hf : ∀ {d g' st₀}, s.thread d = .working g' st₀ → st₀.published = true →
      ∃ st'', s'.thread d = .working g' st'' ∧ st''.published = true := by
    intro d g' st₀ hd hpub
    obtain ⟨rfl, heq⟩ | ⟨-, heq⟩ := hca d
    · cases hc.symm.trans hd
      exact ⟨st', heq, hp hpub⟩
    · exact ⟨st₀, heq.trans hd, hpub⟩
  have hkeysForth : ∀ {d pid token}, HasKeys s d pid token → HasKeys s' d pid token := by
    rintro d pid token ⟨g', st₀, hd, hpub, hproc, hto⟩
    obtain ⟨st'', hd', hpub'⟩ := hf hd hpub
    exact ⟨g', st'', hd', hpub', hproc, hto⟩
  constructor
  · intro d g' st'' hd
    obtain ⟨st₀, hd₀⟩ := hb hd
    rw [hpo]
    exact h.slot hd₀
  · intro d d' g' g'' st₁ st₂ hd hd' heq
    obtain ⟨st₁', hd₁⟩ := hb hd
    obtain ⟨st₂', hd₂⟩ := hb hd'
    exact h.exclusive hd₁ hd₂ heq
  · intro i d hd
    rw [hpo] at hd
    obtain ⟨g', st₀, hd₀, hpub, hi⟩ := h.conn hd
    obtain ⟨st'', hd', hpub'⟩ := hf hd₀ hpub
    exact ⟨g', st'', hd', hpub', hi⟩
  · intro d g' st'' hd hr
    obtain ⟨rfl, heq⟩ | ⟨hdc, heq⟩ := hca d
    · cases heq.symm.trans hd
      exact hreads hr
    · exact hre _ (fun heq => hdc (Option.some.inj heq)) (h.reads (heq ▸ hd) hr)
  · intro hne
    exact hre _ nofun (h.mainReads (hs ▸ hne))
  · intro d g' pid token d' hd
    obtain ⟨rfl, heq⟩ | ⟨-, heq⟩ := hca d
    · cases heq.symm.trans hd
      exact hkeysForth (hk pid token d' rfl)
    · exact hkeysForth (h.keys (heq ▸ hd))
  · intro i d hd
    obtain ⟨g', st₀, hd₀, hpub⟩ := h.mainConn (hs ▸ hd)
    obtain ⟨st'', hd', hpub'⟩ := hf hd₀ hpub
    exact ⟨g', st'', hd', hpub'⟩

omit [DecidableEq Client] [DecidableEq Token] in
theorem Inv.setConn (hc : s.thread c = .working g st) (hpub : st.published = true) :
    Inv (s.setSlot g.threadIndex
      { s.clientThreadPool g.threadIndex with duckdbConnection := some c }) := by
  refine ⟨?_, h.exclusive, ?_, h.reads, h.mainReads, h.keys, h.mainConn⟩
  · intro d g' st' hd
    by_cases hi : g'.threadIndex = g.threadIndex
    · simp only [setSlot, hi, update_self]
      exact hi ▸ h.slot hd
    · simp only [setSlot, update_of_ne hi]
      exact h.slot hd
  · intro i d hd
    by_cases hi : i = g.threadIndex
    · simp only [setSlot, hi, update_self] at hd
      cases hd
      exact ⟨g, st, hc, hpub, hi.symm⟩
    · simp only [setSlot, update_of_ne hi] at hd
      exact h.conn hd

omit [DecidableEq Token] in
theorem Inv.reject (hc : s.thread c = .idle) : Inv (s.setThread c .gone) := by
  have ho : ∀ {d g' st'}, s.thread d = .working g' st' →
      (s.setThread c .gone).thread d = .working g' st' := by
    intro d g' st' hd
    have hdc : d ≠ c := by
      rintro rfl
      exact nomatch hc.symm.trans hd
    rw [setThread_thread, update_of_ne hdc, hd]
  have hb : ∀ {d g' st'}, (s.setThread c .gone).thread d = .working g' st' →
      s.thread d = .working g' st' := by
    intro d g' st' hd
    obtain ⟨rfl, heq⟩ | ⟨-, heq⟩ := update_cases (s.setThread_thread c .gone) d
    · cases heq.symm.trans hd
    · exact heq ▸ hd
  constructor
  · exact fun hd => h.slot (hb hd)
  · exact fun hd hd' heq => h.exclusive (hb hd) (hb hd') heq
  · intro i d hd
    obtain ⟨g', st', hd', hpub, hi⟩ := h.conn hd
    exact ⟨g', st', ho hd', hpub, hi⟩
  · exact fun hd hr => h.reads (hb hd) hr
  · exact h.mainReads
  · intro d g' pid token d' hd
    obtain ⟨g'', st', hd', hk⟩ := h.keys (hb hd)
    exact ⟨g'', st', ho hd', hk⟩
  · intro i d hd
    obtain ⟨g', st', hd', hpub⟩ := h.mainConn hd
    exact ⟨g', st', ho hd', hpub⟩

omit [DecidableEq Token] in
theorem Inv.reserve (hc : s.thread c = .idle) {i : ℕ} {pid : ℤ} {token : Token}
    (hfr : (s.clientThreadPool i).isStarted = false)
    (ht : s'.thread = update s.thread c (.working ⟨i, pid, token⟩ .reserved))
    (hp : s'.clientThreadPool = update s.clientThreadPool i
      ⟨i, true, pid, some token, (s.clientThreadPool i).duckdbConnection⟩)
    (hre : s'.readers = s.readers) (hs : s'.shutdown = s.shutdown) : Inv s' := by
  have hca := update_cases ht
  have hf : ∀ {d g' st'}, s.thread d = .working g' st' → s'.thread d = .working g' st' := by
    intro d g' st' hd
    obtain ⟨rfl, -⟩ | ⟨-, heq⟩ := hca d
    · cases hc.symm.trans hd
    · exact heq.trans hd
  -- no client had the slot
  have hne : ∀ {d g' st'}, s.thread d = .working g' st' → g'.threadIndex ≠ i := by
    rintro d g' st' hd rfl
    exact nomatch hfr.symm.trans (h.slot hd).1
  constructor
  · intro d g' st' hd
    obtain ⟨rfl, heq⟩ | ⟨-, heq⟩ := hca d
    · cases heq.symm.trans hd
      rw [hp, update_self]
      exact ⟨rfl, rfl, rfl⟩
    · rw [heq] at hd
      rw [hp, update_of_ne (hne hd)]
      exact h.slot hd
  · intro d d' g' g'' st₁ st₂ hd hd' heq
    obtain ⟨rfl, hx⟩ | ⟨-, hx⟩ := hca d <;> obtain ⟨hdc', hx'⟩ | ⟨-, hx'⟩ := hca d'
    · exact hdc'.symm
    · cases hx.symm.trans hd
      exact absurd heq.symm (hne (hx' ▸ hd'))
    · cases hx'.symm.trans hd'
      exact absurd heq (hne (hx ▸ hd))
    · exact h.exclusive (hx ▸ hd) (hx' ▸ hd') heq
  · intro j d hd
    have hold : (s.clientThreadPool j).duckdbConnection = some d := by
      by_cases hj : j = i
      · rwa [hp, hj, update_self, ← hj] at hd
      · rwa [hp, update_of_ne hj] at hd
    obtain ⟨g', st', hd', hpub, hj⟩ := h.conn hold
    exact ⟨g', st', hf hd', hpub, hj⟩
  · intro d g' st' hd hr
    obtain ⟨rfl, heq⟩ | ⟨-, heq⟩ := hca d
    · cases heq.symm.trans hd
      cases hr
    · rw [hre]
      exact h.reads (heq ▸ hd) hr
  · rw [hs, hre]
    exact h.mainReads
  · intro d g' pid' token' d' hd
    obtain ⟨rfl, heq⟩ | ⟨-, heq⟩ := hca d
    · cases heq.symm.trans hd
    · obtain ⟨g'', st', hd', hk⟩ := h.keys (heq ▸ hd)
      exact ⟨g'', st', hf hd', hk⟩
  · intro j d hd
    obtain ⟨g', st', hd', hpub⟩ := h.mainConn (hs ▸ hd)
    exact ⟨g', st', hf hd', hpub⟩

omit [DecidableEq Token] in
theorem Inv.free (hc : s.thread c = .working g st) (he : ¬ s.readers.Nonempty)
    (ht : s'.thread = update s.thread c .gone) {x : PgClientThreadState Client Token}
    (hp : s'.clientThreadPool = update s.clientThreadPool g.threadIndex x)
    (hx : x.duckdbConnection = none) (hs : s'.shutdown = s.shutdown) : Inv s' := by
  have hb : ∀ {d g' st'}, s'.thread d = .working g' st' → d ≠ c ∧ s.thread d = .working g' st' := by
    intro d g' st' hd
    obtain ⟨rfl, heq⟩ | ⟨hdc, heq⟩ := update_cases ht d
    · cases heq.symm.trans hd
    · exact ⟨hdc, heq ▸ hd⟩
  have hn : ∀ {r}, r ∉ s.readers := fun hr => he ⟨_, hr⟩
  constructor
  · intro d g' st' hd
    obtain ⟨hdc, hd⟩ := hb hd
    have hne : g'.threadIndex ≠ g.threadIndex := fun heq => hdc (h.exclusive hd hc heq)
    rw [hp, update_of_ne hne]
    exact h.slot hd
  · exact fun hd hd' heq => h.exclusive (hb hd).2 (hb hd').2 heq
  · intro i d hd
    by_cases hi : i = g.threadIndex
    · rw [hp, hi, update_self, hx] at hd
      exact nomatch hd
    · rw [hp, update_of_ne hi] at hd
      obtain ⟨g', st', hd', hpub, rfl⟩ := h.conn hd
      have hdc : d ≠ c := by
        rintro rfl
        obtain ⟨rfl, -⟩ := working.inj (hc.symm.trans hd')
        exact hi rfl
      refine ⟨g', st', ?_, hpub, rfl⟩
      rw [ht, update_of_ne hdc, hd']
  · exact fun hd hr => absurd (h.reads (hb hd).2 hr) hn
  · exact fun hne => absurd (h.mainReads (hs ▸ hne)) hn
  · exact fun hd => absurd (h.reads (hb hd).2 rfl) hn
  · intro i d hd
    refine absurd (h.mainReads ?_) hn
    rw [← hs, hd]
    nofun

omit [DecidableEq Client] [DecidableEq Token] in
theorem Inv.main (ht : s'.thread = s.thread) (hp : s'.clientThreadPool = s.clientThreadPool)
    (hre : ∀ d, some d ∈ s.readers → some d ∈ s'.readers)
    (hreads : s'.shutdown ≠ .idle → none ∈ s'.readers)
    (hc : ∀ i d, s'.shutdown = .interrupting i d →
      ∃ g st, s.thread d = .working g st ∧ st.published = true) : Inv s' := by
  refine ⟨?_, ?_, ?_, ?_, hreads, ?_, ?_⟩
  · rw [ht, hp]
    exact h.slot
  · unfold Exclusive
    rw [ht]
    exact h.exclusive
  · rw [ht, hp]
    exact h.conn
  · rw [ht]
    exact fun hd hr => hre _ (h.reads hd hr)
  · unfold HasKeys
    rw [ht]
    exact h.keys
  · rw [ht]
    exact hc _ _

end

omit [DecidableEq Client] [DecidableEq Token] in
theorem reserveSlot_eq_some {maxAllowedClients i : ℕ} {pid : ℤ} {token : Token}
    (h : reserveSlot maxAllowedClients s pid token = some (i, s')) :
    (s.clientThreadPool i).isStarted = false ∧ s'.thread = s.thread ∧ s'.readers = s.readers ∧
      s'.shutdown = s.shutdown ∧
      s'.clientThreadPool = update s.clientThreadPool i
        ⟨i, true, pid, some token, (s.clientThreadPool i).duckdbConnection⟩ := by
  unfold reserveSlot at h
  split_ifs at h
  obtain ⟨j, hf, heq⟩ := map_eq_some_iff.mp h
  obtain ⟨rfl, rfl⟩ := Prod.mk.inj heq
  exact ⟨by simpa using List.find?_some hf, rfl, rfl, rfl, rfl⟩

omit [DecidableEq Client] [DecidableEq Token] in
theorem freeSlot_eq_some {i : ℕ} (h : freeSlot s i = some s') :
    s'.thread = s.thread ∧ s'.shutdown = s.shutdown ∧ ∃ x : PgClientThreadState Client Token,
      x.duckdbConnection = none ∧ s'.clientThreadPool = update s.clientThreadPool i x := by
  by_cases hs : (s.clientThreadPool i).isStarted
  · rw [freeSlot, if_pos hs] at h
    cases h
    exact ⟨rfl, rfl, _, rfl, rfl⟩
  · rw [freeSlot, if_neg hs] at h
    cases h

omit [DecidableEq Client] in
theorem Inv.findSlot_keys (h : Inv s) {maxAllowedClients i : ℕ} {pid : ℤ} {token : Token}
    {d : Client} (hf : findSlot maxAllowedClients s pid token = some i)
    (hd : (s.clientThreadPool i).duckdbConnection = some d) : HasKeys s d pid token := by
  have hm := List.find?_some hf
  simp only [Bool.and_eq_true, beq_iff_eq] at hm
  obtain ⟨⟨-, hto⟩, hproc⟩ := hm
  obtain ⟨g, st, ht, hpub, rfl⟩ := h.conn hd
  obtain ⟨-, hproc', hto'⟩ := h.slot ht
  exact ⟨g, st, ht, hpub, hproc'.symm.trans hproc, Option.some.inj (hto'.symm.trans hto)⟩

omit [DecidableEq Token] in
theorem Inv.freeStep (h : Inv s) (hc : s.thread c = .working g st) (he : ¬ s.readers.Nonempty)
    (hf : ((freeSlot s g.threadIndex).map fun s₁ => s₁.setThread c .gone) = some s') : Inv s' := by
  obtain ⟨s₁, hs₁, rfl⟩ := map_eq_some_iff.mp hf
  obtain ⟨ht, hsh, x, hx, hp⟩ := freeSlot_eq_some hs₁
  exact h.free hc he (by rw [setThread_thread, ht]) hp hx hsh

variable {maxAllowedClients : ℕ}

theorem inv_clientStep {e : ClientAction Token} (h : Inv s)
    (hs : clientStep maxAllowedClients s c e = some s') : Inv s' := by
  unfold clientStep at hs
  split at hs
  · next pid token hc =>
    -- reserve
    split at hs
    · cases hs
    · split at hs
      · cases hs
        exact h.reject hc
      · next i s₁ hreserve =>
        cases hs
        obtain ⟨hfr, ht, hre, hsh, hp⟩ := reserveSlot_eq_some hreserve
        exact h.reserve hc hfr (by rw [setThread_thread, ht]) hp hre hsh
  · next g hc =>
    -- createFails
    split at hs
    · cases hs
    · next he => exact h.freeStep hc he hs
  iterate 2
    · next g hc =>
      -- connect, connectFails
      cases hs
      exact h.setStage hc rfl rfl rfl nofun (fun _ _ hr => hr) nofun nofun
  · next g hc =>
    -- publish
    split at hs
    · cases hs
    · cases hs
      have hru : Inv (s.setThread c (.working g .running)) :=
        h.setStage hc rfl rfl rfl nofun (fun _ _ hr => hr) nofun nofun
      have hse : (s.setThread c (.working g .running)).thread c = .working g .running := by
        rw [setThread_thread, update_self]
      exact hru.setConn hse rfl
  · next g pid token hc =>
    -- cancel
    cases hs
    refine h.setStage hc rfl rfl rfl (fun _ => rfl) ?_ ?_ ?_
    · exact fun _ _ hr => mem_insert_of_mem hr
    · exact fun _ => mem_insert_self _ _
    · intro pid' token' d heq
      obtain ⟨rfl, rfl, hco⟩ := Stage.cancelling.inj heq
      obtain ⟨i, hf, hd⟩ := bind_eq_some_iff.mp hco
      exact h.findSlot_keys hf hd
  · next g pid token conn hc =>
    -- interrupt
    cases hs
    exact h.setStage hc rfl rfl rfl (fun _ => rfl) (fun _ _ hr => hr) (fun _ => h.reads hc rfl) nofun
  · next g hc =>
    -- unlock
    cases hs
    exact h.setStage hc rfl rfl rfl (fun _ => rfl)
      (fun _ hne hr => mem_erase_of_ne_of_mem hne hr) nofun nofun
  · next g hc =>
    -- destroy
    cases hs
    exact h.setStage hc rfl rfl rfl (fun _ => rfl) (fun _ _ hr => hr) nofun nofun
  · next g hc =>
    -- cleanup
    split at hs
    · cases hs
    · next he => exact h.freeStep hc he hs
  · cases hs

omit [DecidableEq Token] in
theorem inv_mainStep {e : MainAction} (h : Inv s)
    (hs : mainStep maxAllowedClients s e = some s') : Inv s' := by
  unfold mainStep at hs
  split at hs
  · cases hs
    exact h.main rfl rfl (fun _ hd => mem_insert_of_mem hd)
      (fun _ => mem_insert_self _ _) nofun
  · next i hi =>
    have hr : none ∈ s.readers := h.mainReads (by rw [hi]; nofun)
    split at hs
    · split at hs
      · next conn _ hc =>
        cases hs
        refine h.main rfl rfl (fun _ hd => hd) (fun _ => hr) ?_
        intro j d hd
        obtain ⟨rfl, rfl⟩ := Shutdown.interrupting.inj hd
        obtain ⟨g, st, ht, hpub, -⟩ := h.conn hc
        exact ⟨g, st, ht, hpub⟩
      · cases hs
        exact h.main rfl rfl (fun _ hd => hd) (fun _ => hr) nofun
    · cases hs
      exact h.main rfl rfl (fun _ hd => mem_erase_of_ne_of_mem nofun hd)
        (fun hne => absurd rfl hne) nofun
  · next i conn hi =>
    cases hs
    exact h.main rfl rfl (fun _ hd => hd) (fun _ => h.mainReads (by rw [hi]; nofun)) nofun
  · cases hs

theorem inv_step {e : Action Client Token} (h : Inv s)
    (hs : step maxAllowedClients s e = some s') : Inv s' := by
  cases e with
  | client => exact inv_clientStep h hs
  | main e => exact inv_mainStep h hs

end Steps

omit [DecidableEq Client] [DecidableEq Token] in
theorem inv_start : Inv (start : State Client Token) :=
  ⟨nofun, nofun, nofun, nofun, fun h => absurd rfl h, nofun, nofun⟩

/-- **The lock does its part in every run**: no slot has two clients, and a cancel request
    finds only the client with its keys. -/
theorem run_inv (maxAllowedClients : ℕ) {s : State Client Token} {es : List (Action Client Token)}
    (h : run (step maxAllowedClients) start es = some s) : Inv s :=
  run_invariant (P := fun _ _ => True) (fun hinv _ => inv_step hinv) inv_start
    (along_of_forall fun _ _ => trivial) h

/-- A client gets a slot, a connection, and gives it to the pool. -/
def arrive (c : ℕ) (procId : ℤ) (token : ℕ) : List (Action ℕ ℕ) :=
  [.client c (.reserve procId token), .client c .connect, .client c .publish]

/-- Client 1 cancels the query of client 0, which then leaves. -/
def cancelledQuery : List (Action ℕ ℕ) :=
  arrive 0 7 9 ++ arrive 1 3 4 ++ [.client 1 (.cancel 7 9), .client 1 .interrupt,
    .client 1 .unlock, .client 0 .destroy, .client 0 .cleanup]

theorem run_inv_cancelled_query : ∃ s, run (step 2) start cancelledQuery = some s ∧ Inv s :=
  ⟨_, rfl, run_inv 2 (show run (step 2) start cancelledQuery = _ from rfl)⟩

/-! ## Connections that are about to be interrupted -/

def Alive (s : State Client Token) : Prop := ∀ d, Targeted s d → ¬ TearingDown s d

section Alive
variable {s s' : State Client Token} {c : Client} {x : Thread Client Token}

omit [DecidableEq Token] in
theorem Alive.update (h : Alive s) (hth : s'.thread = update s.thread c x)
    (hs : s'.shutdown = s.shutdown)
    (hca : ∀ g pid token d, x = .working g (.cancelling pid token (some d)) →
      ¬ TearingDown s d)
    (hdestroy : ∀ g, x = .working g .destroyed → ¬ Targeted s c) : Alive s' := by
  have hc := update_cases hth
  have hta : ∀ {d}, Targeted s' d →
      (∃ g pid token, x = .working g (.cancelling pid token (some d))) ∨ Targeted s d := by
    rintro d (⟨a, g, pid, token, ha⟩ | ⟨i, hi⟩)
    · obtain ⟨-, heq⟩ | ⟨-, heq⟩ := hc a
      · exact .inl ⟨g, pid, token, heq.symm.trans ha⟩
      · exact .inr (.inl ⟨a, g, pid, token, heq ▸ ha⟩)
    · exact .inr (.inr ⟨i, hs ▸ hi⟩)
  rintro d ht ⟨g, hd⟩
  obtain ⟨rfl, heq⟩ | ⟨-, heq⟩ := hc d
  · have hx : x = .working g .destroyed := heq.symm.trans hd
    rcases hta ht with ⟨g', pid, token, hx'⟩ | ht
    · exact nomatch (working.inj (hx'.symm.trans hx)).2
    · exact hdestroy g hx ht
  · have hte : TearingDown s d := ⟨g, heq ▸ hd⟩
    rcases hta ht with ⟨g', pid, token, hx'⟩ | ht
    · exact hca g' pid token d hx' hte
    · exact h d ht hte

omit [DecidableEq Client] [DecidableEq Token] in
theorem Inv.published_of_targeted (h : Inv s) {d : Client} (ht : Targeted s d) :
    ∃ g st, s.thread d = .working g st ∧ st.published = true := by
  rcases ht with ⟨a, g, pid, token, ha⟩ | ⟨i, hi⟩
  · obtain ⟨g', st, hd, hpub, -⟩ := h.keys ha
    exact ⟨g', st, hd, hpub⟩
  · exact h.mainConn hi

variable {maxAllowedClients : ℕ}

theorem alive_clientStep {e : ClientAction Token} (h : Inv s)
    (ha : Alive s) (hca : Careful maxAllowedClients s (.client c e))
    (hst : clientStep maxAllowedClients s c e = some s') : Alive s' := by
  have hfreeStep : ∀ {i : ℕ}, ((freeSlot s i).map fun s₁ => s₁.setThread c .gone) = some s' →
      Alive s' := by
    intro i hfr
    obtain ⟨s₁, hs₁, rfl⟩ := map_eq_some_iff.mp hfr
    obtain ⟨ht, hsh, -⟩ := freeSlot_eq_some hs₁
    have hg : (s₁.setThread c .gone).thread = update s.thread c .gone := by
      rw [setThread_thread, ht]
    exact ha.update hg hsh nofun nofun
  unfold clientStep at hst
  split at hst
  · next pid token _ =>
    split at hst
    · cases hst
    · split at hst
      · cases hst
        exact ha.update rfl rfl nofun nofun
      · next i s₁ hr =>
        cases hst
        obtain ⟨-, ht, -, hsh, -⟩ := reserveSlot_eq_some hr
        have hworking : (s₁.setThread c (.working ⟨i, pid, token⟩ .reserved)).thread =
            update s.thread c (.working ⟨i, pid, token⟩ .reserved) := by
          rw [setThread_thread, ht]
        exact ha.update hworking hsh nofun nofun
  · split at hst
    · cases hst
    · exact hfreeStep hst
  · cases hst
    exact ha.update rfl rfl nofun nofun
  · next g hc =>
    -- connectFails: the client has never been in the pool
    cases hst
    refine ha.update rfl rfl nofun ?_
    intro _ _ hta
    obtain ⟨g', st, hd, hpub⟩ := h.published_of_targeted hta
    obtain ⟨-, rfl⟩ := working.inj (hc.symm.trans hd)
    exact nomatch hpub
  · split at hst
    · cases hst
    · cases hst
      exact ha.update rfl rfl nofun nofun
  · -- cancel
    cases hst
    refine ha.update rfl rfl ?_ nofun
    intro g' pid' token' d heq
    obtain ⟨-, -, hco⟩ := Stage.cancelling.inj (working.inj heq).2
    obtain ⟨i, hf, hd⟩ := bind_eq_some_iff.mp hco
    exact hca i d hf hd
  iterate 2
    · cases hst
      exact ha.update rfl rfl nofun nofun
  · -- destroy
    cases hst
    exact ha.update rfl rfl nofun (fun _ _ => hca)
  · split at hst
    · cases hst
    · exact hfreeStep hst
  · cases hst

omit [DecidableEq Client] [DecidableEq Token] in
theorem Alive.main (h : Alive s) (ht : s'.thread = s.thread)
    (hs : ∀ i d, s'.shutdown = .interrupting i d → ¬ TearingDown s d) : Alive s' := by
  rintro d hta ⟨g, hd⟩
  have hte : TearingDown s d := ⟨g, ht ▸ hd⟩
  rcases hta with ⟨a, g', pid, token, ha⟩ | ⟨i, hi⟩
  · exact h d (.inl ⟨a, g', pid, token, ht ▸ ha⟩) hte
  · exact hs i d hi hte

theorem alive_mainStep {e : MainAction} (ha : Alive s)
    (hc : Careful maxAllowedClients s (.main e))
    (hs : mainStep maxAllowedClients s e = some s') : Alive s' := by
  unfold mainStep at hs
  split at hs
  · cases hs
    exact ha.main rfl nofun
  · next i hi =>
    split at hs
    · split at hs
      · next conn _ hco =>
        cases hs
        refine ha.main rfl ?_
        intro j d hd
        obtain ⟨rfl, rfl⟩ := Shutdown.interrupting.inj hd
        exact hc i conn hi hco
      · cases hs
        exact ha.main rfl nofun
    · cases hs
      exact ha.main rfl nofun
  · cases hs
    exact ha.main rfl nofun
  · cases hs

variable {e : Action Client Token}

theorem alive_step (h : Inv s) (ha : Alive s)
    (hc : Careful maxAllowedClients s e) (hs : step maxAllowedClients s e = some s') :
    Alive s' := by
  cases e with
  | client => exact alive_clientStep h ha hc hs
  | main e => exact alive_mainStep ha hc hs

omit [DecidableEq Client] [DecidableEq Token] in
theorem targeted_of_interrupted {d : Client} (h : interrupted s e = some d) : Targeted s d := by
  unfold interrupted at h
  split at h
  · split at h
    · next g pid token conn hc =>
      subst h
      exact .inl ⟨_, g, pid, token, hc⟩
    · cases h
  · split at h
    · next i conn hi =>
      cases h
      exact .inr ⟨i, hi⟩
    · cases h
  · cases h

theorem stepSafe (h : Inv s) (ha : Alive s) : StepSafe maxAllowedClients s e := by
  refine ⟨?_, ?_, ?_⟩
  · intro d hd
    have ht := targeted_of_interrupted hd
    obtain ⟨g, st, hth, hpub⟩ := h.published_of_targeted ht
    refine ⟨g, st, hth, ?_⟩
    cases st with
    | reserved | connected => cases hpub
    | running | cancelling | cancelled => rfl
    | destroyed => exact absurd ⟨g, hth⟩ (ha d ht)
  · intro c g pid token d _ hc
    exact h.keys hc
  · intro s' hs
    exact (inv_step h hs).exclusive

end Alive

/-- **Cancellation is safe in careful runs**: connections that are interrupted have not been
    destroyed, a cancel request interrupts only a client with its keys, and no slot is
    handed to two clients. -/
theorem interrupt_safe (maxAllowedClients : ℕ) (es : List (Action Client Token))
    (h : Transition.Along (step maxAllowedClients) (Careful maxAllowedClients) start es) :
    Transition.Along (step maxAllowedClients) (StepSafe maxAllowedClients) start es := by
  refine along_of_invariant (I := fun s => Inv s ∧ Alive s) ?_ ?_ ?_ h
  · rintro s s' e ⟨hinv, halive⟩ hcareful hstep
    exact ⟨inv_step hinv hstep, alive_step hinv halive hcareful hstep⟩
  · rintro s e ⟨hinv, halive⟩ -
    exact stepSafe hinv halive
  · refine ⟨inv_start, ?_⟩
    rintro d - ⟨g, hd⟩
    exact nomatch hd

/-! ## Runs -/

theorem interrupt_safe_one_cancel : Transition.Along (step 2) (StepSafe 2) start
      (arrive 0 7 9 ++ arrive 1 3 4 ++ [.client 1 (.cancel 7 9), .client 1 .interrupt,
        .client 1 .unlock, .client 0 .destroy, .client 0 .cleanup]) := by
  refine interrupt_safe 2 _ ?_
  refine .of_step trivial rfl (.of_step trivial rfl (.of_step trivial rfl ?_))
  refine .of_step trivial rfl (.of_step trivial rfl (.of_step trivial rfl ?_))
  refine .of_step ?_ rfl (.of_step trivial rfl (.of_step trivial rfl (.of_step ?_ rfl
    (.of_step trivial rfl trivial))))
  · rintro i d hi hd ⟨g, hg⟩
    cases show some 0 = some i from hi
    cases show some 0 = some d from hd
    exact nomatch hg
  · rintro (⟨c, g, procId, token, hc⟩ | ⟨i, hi⟩)
    · match c with
      | 0 | 1 | _ + 2 => exact nomatch hc
    · exact nomatch hi

/-- Client 1 cancels a query of client 0, whose session has been destroyed and whose slot has
    not been freed. -/
theorem destroyed_connection_interrupted : ¬ Transition.Along (step 2) (StepSafe 2) start
      (arrive 0 7 9 ++ arrive 1 3 4 ++ [.client 0 .destroy, .client 1 (.cancel 7 9)] ++
        [.client 1 .interrupt]) := by
  intro h
  obtain ⟨g, st, hthread, hconn⟩ := (h.of_append rfl).1.live 0 rfl
  obtain ⟨-, rfl⟩ := working.inj
    (show working ⟨0, 7, 9⟩ .destroyed = working g st from hthread)
  exact nomatch hconn

end PgLake.Server.ThreadPool
