/-
  The bytes of a session (`pgsession/pgsession_io.c`).

  What the server sends is collected in a buffer, of which `write` takes as much as it likes;
  what the client sends arrives in pieces of any size.  How the calls of `read` and `write` end
  is part of the state.

  Main results:
  * `messages_sent_in_order`: what is sent is what was put
  * `commands_read_in_order`: messages are read as the client sent them
  * `wire_buffers_preserve_streams`: both within the buffers, for a socket that blocks
-/
import PgLake.Lib.Fallible
import PgLake.Server.PqFormat

namespace PgLake.Server.SessionIo

open WireBytes List EStateM Fallible

/-- Why a function does not return OK: it returns EOF, or it waits for the socket. -/
inductive Stop where
  | eof
  | blocked

/-- The type and the body of a message. -/
abbrev Msg := UInt8 × Bytes

/-! ## Sending -/

inductive Write where
  /-- `n + 1` bytes are taken, or all if there are fewer -/
  | taken (n : ℕ)
  | eintr
  /-- EAGAIN or EWOULDBLOCK -/
  | eagain
  | fails (errno : ℕ)

/-- The send buffer and the socket behind it. -/
structure Sender where
  /-- the bytes of the buffer from `pqSendStart` to `pqSendPointer` -/
  pending : Bytes
  pqSendPointer : ℕ
  lastReportedSendErrno : ℕ
  clientConnectionLost : Bool
  sent : Bytes
  writes : List Write

/-- An operation on the send buffer. -/
abbrev Send := EStateM Stop Sender Unit

def pqSendBufferSize : ℕ := 8192

/-- All that was put. -/
def Sender.stream (s : Sender) : Bytes := s.sent ++ s.pending

/-- The loop of `pgsession_flush`. -/
def flushLoop (s : Sender) (writes : List Write) : Result Stop Sender Unit :=
  if s.pending = [] then .ok () { s with pqSendPointer := 0, writes }
  else match writes with
    | [] => .error .blocked { s with writes }
    | .taken n :: writes =>
      flushLoop { s with
        lastReportedSendErrno := 0
        sent := s.sent ++ s.pending.take (n + 1)
        pending := s.pending.drop (n + 1) } writes
    | .eintr :: writes => flushLoop s writes
    | .eagain :: writes => .ok () { s with writes }
    | .fails errno :: writes =>
      if errno ≠ s.lastReportedSendErrno then
        .error .eof { s with lastReportedSendErrno := errno, writes }
      else
        .error .eof { s with pending := [], pqSendPointer := 0, clientConnectionLost := true, writes }

/-- `pgsession_flush`. -/
def pgsessionFlush : Send := fun s => flushLoop s s.writes

/-- A full buffer is flushed before anything is stored. -/
def flushIfFull : Send := fun s =>
  if pqSendBufferSize ≤ s.pqSendPointer then pgsessionFlush s else .ok () s

theorem flushLoop_progress {s s' : Sender} {writes : List Write}
    (h : flushLoop s writes = .ok () s') : s'.writes.length < writes.length ∨
      s'.writes.length = writes.length ∧ s'.pqSendPointer < pqSendBufferSize := by
  fun_induction flushLoop s writes with
  | case1 =>
    cases h
    exact .inr ⟨rfl, Nat.succ_pos _⟩
  | case2 | case6 | case7 => cases h
  | case3 _ _ _ _ ih | case4 _ _ _ ih =>
    have := ih h
    rw [length_cons]
    omega
  | case5 =>
    cases h
    exact .inl (Nat.lt_succ_self _)

/-- After a round with EAGAIN the buffer is still full, and nothing is stored. -/
def pgsessionPutBytes (buf : Bytes) (s : Sender) : Result Stop Sender Unit :=
  if _hbuf : buf = [] then .ok () s
  else match _h : flushIfFull s with
    | .error e s' => .error e s'
    | .ok _ s' =>
      let amount := min (pqSendBufferSize - s'.pqSendPointer) buf.length
      pgsessionPutBytes (buf.drop amount) { s' with
        pending := s'.pending ++ buf.take amount
        pqSendPointer := s'.pqSendPointer + amount }
termination_by (s.writes.length, buf.length)
decreasing_by
  have hpos := length_pos_iff.mpr _hbuf
  have hprogress : s'.writes.length < s.writes.length ∨
      s'.writes.length = s.writes.length ∧ s'.pqSendPointer < pqSendBufferSize := by
    rw [flushIfFull] at _h
    split_ifs at _h with hfull
    · exact flushLoop_progress _h
    · cases _h
      exact .inr ⟨rfl, Nat.lt_of_not_le hfull⟩
  rw [Prod.lex_def, length_drop]
  dsimp only
  omega

def pgsessionPutMessage (messageType : UInt8) (buf : Bytes) : Send := do
  pgsessionPutBytes [messageType]
  pgsessionPutBytes (bigEndian 4 (buf.length + 4))
  pgsessionPutBytes buf

/-- Code that puts bytes: if it returns OK they follow what was put before, and in any case
    nothing else is sent. -/
def Puts (bytes : Bytes) (m : Send) : Prop :=
  ∀ s, match m s with
    | .ok _ s' => s'.stream = s.stream ++ bytes
    | .error _ s' => s'.sent <+: s.stream ++ bytes

theorem Puts.bind {bs bs' : Bytes} {m m' : Send} (h : Puts bs m)
    (h' : Puts bs' m') : Puts (bs ++ bs') (m >>= fun _ => m') := by
  intro s
  have hs := h s
  cases hm : m s with
  | error e s' =>
    rw [hm] at hs
    rw [bind_of_error hm, ← append_assoc]
    exact hs.trans (prefix_append _ _)
  | ok _ s' =>
    rw [hm] at hs
    rw [bind_of_ok hm, ← append_assoc, ← hs]
    exact h' s'

theorem flush_puts : Puts [] pgsessionFlush := by
  intro s
  rw [pgsessionFlush, append_nil]
  generalize s.writes = writes
  fun_induction flushLoop s writes with
  | case1 | case5 => rfl
  | case2 | case6 | case7 => exact prefix_append _ _
  | case3 s _ n _ ih =>
    rwa [Sender.stream, append_assoc, take_append_drop] at ih
  | case4 _ _ _ ih => exact ih

theorem flushIfFull_puts : Puts [] flushIfFull := by
  intro s
  rw [flushIfFull]
  split_ifs
  · exact flush_puts s
  · exact (append_nil _).symm

theorem putBytes_puts (buf : Bytes) : Puts buf (pgsessionPutBytes buf) := by
  intro s
  fun_induction pgsessionPutBytes buf s with
  | case1 => exact (append_nil _).symm
  | case2 buf s _ e s' hf =>
    have hs := flushIfFull_puts s
    rw [hf, append_nil] at hs
    exact hs.trans (prefix_append _ _)
  | case3 buf s _ _ s' hf amount ih =>
    have hs := flushIfFull_puts s
    rw [hf, append_nil] at hs
    have hstore : ∀ bytes pqSendPointer,
        { s' with pending := s'.pending ++ bytes, pqSendPointer }.stream = s'.stream ++ bytes :=
      fun _ _ => (append_assoc _ _ _).symm
    rwa [hstore, append_assoc, take_append_drop, hs] at ih

/-- A message on the wire. -/
def frame (message : Msg) : Bytes :=
  message.1 :: (bigEndian 4 (message.2.length + 4) ++ message.2)

theorem putMessage_puts (msg : Msg) :
    Puts (frame msg) (pgsessionPutMessage msg.1 msg.2) :=
  (putBytes_puts [msg.1]).bind ((putBytes_puts _).bind (putBytes_puts msg.2))

/-- Several messages, one after the other. -/
def putMessages (messages : List Msg) : Send :=
  messages.forM fun message => pgsessionPutMessage message.1 message.2

theorem putMessages_puts : (msgs : List Msg) →
    Puts (msgs.flatMap frame) (putMessages msgs)
  | [], _ => (append_nil _).symm
  | msg :: msgs, s => (putMessage_puts msg).bind (putMessages_puts msgs) s

/-- **Whatever the socket does, no byte is lost, repeated or reordered.** -/
theorem messages_sent_in_order (messages : List Msg) :
    Puts (messages.flatMap frame) (do putMessages messages; pgsessionFlush) := by
  rw [← append_nil (messages.flatMap frame)]
  exact (putMessages_puts messages).bind flush_puts

/-! ## Receiving -/

inductive Read where
  /-- `n + 1` bytes arrive, or all if there are fewer or there is no room for more -/
  | received (n : ℕ)
  | eintr
  | fails

/-- The receive buffer and the socket behind it. -/
structure Receiver where
  /-- the bytes of the buffer from `pqRecvPointer` to `pqRecvLength` -/
  available : Bytes
  /-- what the client sends and `read` has not returned, up to its end of file -/
  incoming : Bytes
  reads : List Read

abbrev Receive := EStateM Stop Receiver

def pqRecvBufferSize : ℕ := 8192

/-- What has not been read, in the buffer and behind it. -/
def Receiver.unread (s : Receiver) : Bytes := s.available ++ s.incoming

/-- The loop of `pgsession_receive`, after what is available was moved to the front. -/
def receiveLoop (s : Receiver) : List Read → Result Stop Receiver Unit
  | [] => .error .blocked { s with reads := [] }
  | .eintr :: reads => receiveLoop s reads
  | .fails :: reads => .error .eof { s with reads }
  | .received n :: reads =>
    let bytes := s.incoming.take (min (n + 1) (pqRecvBufferSize - s.available.length))
    if bytes = [] then .error .eof { s with reads }
    else .ok () { s with
      available := s.available ++ bytes
      incoming := s.incoming.drop bytes.length
      reads }

def pgsessionReceive : Receive Unit := fun s => receiveLoop s s.reads

/-- The loops that receive while nothing is available: once, since something is available then. -/
def receiveIfEmpty : Receive Unit := fun s =>
  if s.available = [] then pgsessionReceive s else .ok () s

theorem available_of_receiveIfEmpty {s s' : Receiver} (h : receiveIfEmpty s = .ok () s') :
    0 < s'.available.length := by
  rw [receiveIfEmpty] at h
  split_ifs at h with he
  · rw [pgsessionReceive] at h
    generalize s.reads = reads at h
    fun_induction receiveLoop s reads with
    | case1 | case3 | case4 => cases h
    | case2 _ ih => exact ih h
    | case5 n reads bs hbs =>
      cases h
      rw [length_append]
      exact Nat.add_pos_right _ (length_pos_iff.mpr hbs)
  · cases h
    exact length_pos_iff.mpr he

/-- The loop of `pgsession_get_bytes`. -/
def getBytesLoop (len : ℕ) (s : Receiver) : Result Stop Receiver Bytes :=
  if _hlen : len = 0 then .ok [] s
  else match _h : receiveIfEmpty s with
    | .error e s' => .error e s'
    | .ok _ s' =>
      let amount := min s'.available.length len
      EStateM.map (s'.available.take amount ++ ·) (getBytesLoop (len - amount))
        { s' with available := s'.available.drop amount }
termination_by len
decreasing_by
  have := available_of_receiveIfEmpty _h
  omega

def pgsessionGetBytes (len : ℕ) : Receive Bytes := getBytesLoop len

def pgsessionGetByte : Receive UInt8 := do
  receiveIfEmpty
  modifyGet fun s => (s.available.headD 0, { s with available := s.available.tail })

def pgsessionGetMessage (maxLength : ℤ) : Receive Bytes := do
  let messageLength := int32 (ofBigEndian (← pgsessionGetBytes 4))
  if messageLength < 4 ∨ messageLength > maxLength then throw .eof
  pgsessionGetBytes (messageLength - 4).toNat

def pqLargeMessageLimit : ℤ := 0x3ffffffe

def pqSmallMessageLimit : ℤ := 10000

/-- The limit for the messages of a type that is known. -/
def maxMessageLength (messageType : UInt8) : Option ℤ :=
  match Char.ofNat messageType.toNat with
  | 'Q' => some pqLargeMessageLimit
  | 'X' => some pqSmallMessageLimit
  | 'B' | 'P' | 'E' | 'D' | 'S' | 'C' | 'c' | 'd' | 'f' => some pqLargeMessageLimit
  | _ => none

def pgsessionReadCommand : Receive Msg := do
  let messageType ← pgsessionGetByte
  match maxMessageLength messageType with
  | none => throw .eof
  | some maxLength => return (messageType, ← pgsessionGetMessage maxLength)

/-- The next messages of the client. -/
def readCommands : ℕ → Receive (List Msg)
  | 0 => pure []
  | n + 1 => do
    let message ← pgsessionReadCommand
    return message :: (← readCommands n)

/-- No call of `read` fails, and there are enough of them for each byte and the end of file. -/
structure Ready (s : Receiver) : Prop where
  noFailure : .fails ∉ s.reads
  enough : s.incoming.length < s.reads.countP (· matches .received _)

/-- Code that reads bytes of the client as a value. -/
def Reads {α : Type} (bytes : Bytes) (a : α) (m : Receive α) : Prop :=
  ∀ s rest, Ready s → s.unread = bytes ++ rest →
    ∃ s', m s = .ok a s' ∧ s'.unread = rest ∧ Ready s'

theorem Reads.bind {α β : Type} {bs bs' : Bytes} {a : α} {b : β}
    {m : Receive α} {f : α → Receive β} (h : Reads bs a m)
    (h' : Reads bs' b (f a)) : Reads (bs ++ bs') b (m >>= f) := by
  intro s rest hr hu
  obtain ⟨s₁, hm, hu₁, hr₁⟩ := h s _ hr (hu.trans (append_assoc _ _ _))
  rw [bind_of_ok hm]
  exact h' s₁ rest hr₁ hu₁

theorem Reads.map {α β : Type} {bs : Bytes} {a : α} {m : Receive α} (g : α → β)
    (h : Reads bs a m) : Reads bs (g a) (do return g (← m)) := by
  rw [← append_nil bs]
  exact h.bind fun s _ hr hu => ⟨s, rfl, hu, hr⟩

theorem receiveIfEmpty_ready {s : Receiver} (h : Ready s) (hu : 0 < s.unread.length) :
    ∃ s', receiveIfEmpty s = .ok () s' ∧ s'.unread = s.unread ∧ Ready s' := by
  rw [receiveIfEmpty]
  split_ifs with hem
  · rw [Receiver.unread, hem, nil_append] at hu ⊢
    obtain ⟨hfail, he⟩ := h
    rw [pgsessionReceive]
    generalize s.reads = reads at hfail he ⊢
    fun_induction receiveLoop s reads with
    | case1 => exact absurd he (Nat.not_lt_zero _)
    | case2 reads ih => exact ih (fun h => hfail (mem_cons_of_mem _ h)) he
    | case3 => exact absurd mem_cons_self hfail
    | case4 n reads bs hbs =>
      rcases take_eq_nil_iff.mp hbs with hz | hnil
      · rw [hem, pqRecvBufferSize, length_nil] at hz
        omega
      · exact absurd hnil (length_pos_iff.mp hu)
    | case5 n reads bs hbs =>
      refine ⟨_, rfl, ?_, fun h => hfail (mem_cons_of_mem _ h), ?_⟩
      · rw [Receiver.unread, hem]
        exact prefix_iff_eq_append.mp <| take_prefix _ _
      · have hbs := length_pos_iff.mpr hbs
        rw [countP_cons_of_pos rfl] at he
        show (s.incoming.drop bs.length).length < reads.countP _
        rw [length_drop]
        omega
  · exact ⟨s, rfl, rfl, h⟩

theorem getBytes_reads (bs : Bytes) : Reads bs bs (pgsessionGetBytes bs.length) := by
  intro s rest hr hu
  rw [pgsessionGetBytes]
  generalize hlen : bs.length = len
  fun_induction getBytesLoop len s generalizing bs with
  | case1 s =>
    obtain rfl := length_eq_zero_iff.mp hlen
    exact ⟨s, rfl, hu, hr⟩
  | case2 len s hz e s₁ hreceive =>
    obtain ⟨s', hs', -⟩ := receiveIfEmpty_ready hr (by rw [hu, length_append]; omega)
    cases hreceive.symm.trans hs'
  | case3 len s hz _ s₁ hreceive amount ih =>
    obtain ⟨s', hs', hsa, hr₁⟩ :=
      receiveIfEmpty_ready hr (by rw [hu, length_append]; omega)
    cases hreceive.symm.trans hs'
    rw [hu, Receiver.unread] at hsa
    have ha : amount ≤ s₁.available.length := min_le_left _ _
    have hbs : amount ≤ bs.length := hlen ▸ min_le_right _ _
    have ht := congrArg (take amount) hsa
    have hd := congrArg (drop amount) hsa
    rw [take_append_of_le_length ha, take_append_of_le_length hbs] at ht
    rw [drop_append_of_le_length ha, drop_append_of_le_length hbs] at hd
    obtain ⟨s₂, hre, hu₂⟩ := ih { s₁ with available := s₁.available.drop amount } _
      ⟨hr₁.noFailure, hr₁.enough⟩ hd (by rw [length_drop, hlen])
    refine ⟨s₂, ?_, hu₂⟩
    simp only [EStateM.map, hre, ht, take_append_drop]

theorem getByte_reads (b : UInt8) : Reads [b] b pgsessionGetByte := by
  intro s rest hr hu
  obtain ⟨s₁, hreceive, hs, hr₁⟩ :=
    receiveIfEmpty_ready hr (by rw [hu]; exact Nat.succ_pos _)
  obtain ⟨b', available, ha⟩ :=
    exists_cons_of_length_pos (available_of_receiveIfEmpty hreceive)
  rw [hu, Receiver.unread, ha] at hs
  obtain ⟨rfl, hre⟩ := cons_eq_cons.mp hs
  refine ⟨{ s₁ with available }, ?_, hre, hr₁.noFailure, hr₁.enough⟩
  rw [pgsessionGetByte, bind_of_ok hreceive]
  show Result.ok (s₁.available.headD 0) { s₁ with available := s₁.available.tail } = _
  rw [ha]
  rfl

/-- The messages of the known types within their limits. -/
def Accepted (message : Msg) : Prop :=
  ∃ maxLength ∈ maxMessageLength message.1, (message.2.length : ℤ) + 4 ≤ maxLength

theorem maxMessageLength_le {messageType : UInt8} {maxLength : ℤ}
    (h : maxLength ∈ maxMessageLength messageType) : maxLength ≤ pqLargeMessageLimit := by
  unfold maxMessageLength at h
  split at h <;> cases h <;> decide

theorem getMessage_reads {maxLength : ℤ} {body : Bytes} (hmax : maxLength ≤ pqLargeMessageLimit)
    (hlen : (body.length : ℤ) + 4 ≤ maxLength) :
    Reads (bigEndian 4 (body.length + 4) ++ body) body (pgsessionGetMessage maxLength) := by
  have hs : body.length + 4 < 2 ^ 31 := by
    rw [pqLargeMessageLimit] at hmax
    omega
  have hint : int32 (ofBigEndian (bigEndian 4 (body.length + 4))) = body.length + 4 := by
    rw [ofBigEndian_bigEndian (hs.trans (by decide)), int32_of_lt hs]
    rfl
  refine (getBytes_reads (bigEndian 4 (body.length + 4))).bind ?_
  have hf : ¬ ((body.length : ℤ) + 4 < 4 ∨ (body.length : ℤ) + 4 > maxLength) := by omega
  simp only [hint, add_sub_cancel_right, Int.toNat_natCast]
  rw [if_neg hf]
  exact getBytes_reads body

theorem readCommand_reads {msg : Msg} (h : Accepted msg) :
    Reads (frame msg) msg pgsessionReadCommand := by
  obtain ⟨maxLength, hmax, hlen⟩ := h
  show Reads ([msg.1] ++ (bigEndian 4 _ ++ msg.2)) _ _
  refine (getByte_reads msg.1).bind ?_
  rw [Option.mem_def.mp hmax]
  exact (getMessage_reads (maxMessageLength_le hmax) hlen).map fun body => (msg.1, body)

theorem readCommands_reads : (msgs : List Msg) → (∀ msg ∈ msgs, Accepted msg) →
    Reads (msgs.flatMap frame) msgs (readCommands msgs.length)
  | [], _ => fun _ _ h h' => ⟨_, rfl, h', h⟩
  | msg :: msgs, h =>
    (readCommand_reads (h _ mem_cons_self)).bind
      ((readCommands_reads msgs fun _ hm => h _ (mem_cons_of_mem _ hm)).map (msg :: ·))

/-- **However the bytes of a client arrive, its messages are read as they were sent.** -/
theorem commands_read_in_order (messages : List Msg) (h : ∀ message ∈ messages, Accepted message) :
    Reads (messages.flatMap frame) messages (readCommands messages.length) :=
  readCommands_reads messages h

/-- A query whose bytes arrive one by one. -/
theorem query_read_byte_by_byte : ∃ s', readCommands 1
    ⟨[], frame (81, [49, 0]), replicate 8 (.received 0)⟩ = .ok [(81, [49, 0])] s' := by
  obtain ⟨s', h, -⟩ := commands_read_in_order [(81, [49, 0])]
    (forall_mem_singleton.mpr ⟨_, rfl, by decide⟩) ⟨[], _, replicate 8 (.received 0)⟩ []
    ⟨by simp, by decide⟩ rfl
  exact ⟨s', h⟩

/-! ## The buffers -/

/-- `pqSendStart` and `pqSendPointer` are in the buffer, and the socket blocks. -/
structure Sender.Blocking (s : Sender) : Prop where
  start : s.pending.length ≤ s.pqSendPointer
  pointer : s.pqSendPointer ≤ pqSendBufferSize
  noEagain : .eagain ∉ s.writes

theorem flush_preserves : Preserves Sender.Blocking pgsessionFlush := by
  rintro s ⟨hs, hp, hw⟩
  rw [pgsessionFlush]
  generalize s.writes = writes at hw
  fun_induction flushLoop s writes with
  | case1 s _ hpe => exact ⟨by simp [hpe], Nat.zero_le _, hw⟩
  | case2 => exact ⟨hs, hp, hw⟩
  | case3 s _ n _ ih =>
    refine ih ?_ hp fun h => hw (mem_cons_of_mem _ h)
    exact (drop_sublist _ _).length_le.trans hs
  | case4 _ _ _ ih => exact ih hs hp fun h => hw (mem_cons_of_mem _ h)
  | case5 => exact absurd mem_cons_self hw
  | case6 => exact ⟨hs, hp, fun h => hw (mem_cons_of_mem _ h)⟩
  | case7 => exact ⟨Nat.le_refl _, Nat.zero_le _, fun h => hw (mem_cons_of_mem _ h)⟩

/-- A flush of a socket that blocks sends all or fails. -/
theorem pending_of_flush {s s' : Sender} (hw : .eagain ∉ s.writes)
    (h : pgsessionFlush s = .ok () s') : s'.pending = [] := by
  rw [pgsessionFlush] at h
  generalize s.writes = writes at h hw
  fun_induction flushLoop s writes with
  | case1 s _ hp =>
    cases h
    exact hp
  | case2 | case6 | case7 => cases h
  | case3 _ _ _ _ ih | case4 _ _ _ ih => exact ih h fun h => hw (mem_cons_of_mem _ h)
  | case5 => exact absurd mem_cons_self hw

theorem flushIfFull_preserves : Preserves Sender.Blocking flushIfFull := by
  intro s hs
  rw [flushIfFull]
  split_ifs
  · exact flush_preserves s hs
  · exact hs

theorem putBytes_preserves (buf : Bytes) : Preserves Sender.Blocking (pgsessionPutBytes buf) := by
  intro s hs
  fun_induction pgsessionPutBytes buf s with
  | case1 => exact hs
  | case2 buf s _ e s' hf =>
    have hs' := flushIfFull_preserves s hs
    rwa [hf] at hs'
  | case3 buf s _ _ s' hf amount ih =>
    have hs' := flushIfFull_preserves s hs
    rw [hf] at hs'
    refine ih ⟨?_, ?_, hs'.noEagain⟩
    · rw [length_append, length_take]
      exact Nat.add_le_add hs'.start (min_le_left _ _)
    · have hp := hs'.pointer
      show s'.pqSendPointer + amount ≤ _
      omega

theorem putMessages_preserves : (msgs : List Msg) →
    Preserves Sender.Blocking (putMessages msgs)
  | [], _, hs => hs
  | _ :: msgs, s, hs =>
    ((putBytes_preserves _).bind fun _ => (putBytes_preserves _).bind fun _ =>
      putBytes_preserves _).bind (fun _ => putMessages_preserves msgs) s hs

/-- `pqRecvLength` is in the buffer: it is the number of available bytes once they are moved to
    the front, and `pqRecvPointer` never passes it. -/
def Receiver.InBuffer (s : Receiver) : Prop := s.available.length ≤ pqRecvBufferSize

theorem receiveIfEmpty_preserves : Preserves Receiver.InBuffer receiveIfEmpty := by
  intro s hs
  rw [receiveIfEmpty]
  split_ifs
  · rw [pgsessionReceive]
    generalize s.reads = reads
    fun_induction receiveLoop s reads with
    | case1 | case3 | case4 => exact hs
    | case2 _ ih => exact ih
    | case5 n reads bs =>
      show (s.available ++ bs).length ≤ _
      have hbs : bs.length ≤ pqRecvBufferSize - s.available.length :=
        (length_take_le _ _).trans (min_le_right _ _)
      rw [length_append]
      unfold Receiver.InBuffer at hs
      omega
  · exact hs

theorem getBytes_preserves (len : ℕ) : Preserves Receiver.InBuffer (pgsessionGetBytes len) := by
  intro s hs
  rw [pgsessionGetBytes]
  fun_induction getBytesLoop len s with
  | case1 => exact hs
  | case2 len s _ e s₁ hre =>
    have hs₁ := receiveIfEmpty_preserves s hs
    rwa [hre] at hs₁
  | case3 len s _ _ s₁ hre amount ih =>
    have hs₁ := receiveIfEmpty_preserves s hs
    rw [hre] at hs₁
    have hr := ih { s₁ with available := s₁.available.drop amount }
      ((drop_sublist _ _).length_le.trans hs₁)
    simp only [EStateM.map]
    split at hr <;> rename_i hl <;> simp only [hl] <;> exact hr

theorem getMessage_preserves (maxLength : ℤ) :
    Preserves Receiver.InBuffer (pgsessionGetMessage maxLength) := by
  refine (getBytes_preserves 4).bind fun bs => ?_
  generalize int32 (ofBigEndian bs) = messageLength
  by_cases hi : messageLength < 4 ∨ messageLength > maxLength
  · rw [if_pos hi]
    exact fun _ hs => hs
  · rw [if_neg hi]
    exact getBytes_preserves _

theorem readCommand_preserves : Preserves Receiver.InBuffer pgsessionReadCommand := by
  have hb : Preserves Receiver.InBuffer pgsessionGetByte :=
    receiveIfEmpty_preserves.bind fun _ s hs => by
      show (s.available.tail).length ≤ _
      rw [length_tail]
      exact (Nat.sub_le _ _).trans hs
  refine hb.bind fun messageType => ?_
  cases maxMessageLength messageType with
  | none => exact fun _ hs => hs
  | some maxLength => exact (getMessage_preserves maxLength).bind fun _ _ hs => hs

theorem readCommands_preserves : (n : ℕ) → Preserves Receiver.InBuffer (readCommands n)
  | 0, _, hs => hs
  | n + 1, s, hs => readCommand_preserves.bind (fun _ => (readCommands_preserves n).bind
    fun _ _ hs => hs) s hs

/-- After a flush a socket that blocks has taken everything. -/
theorem pending_of_put_flush {s s' : Sender} (msgs : List Msg) (hs : s.Blocking)
    (h : (putMessages msgs >>= fun _ => pgsessionFlush) s = .ok () s') : s'.pending = [] := by
  have hb := putMessages_preserves msgs s hs
  cases hput : putMessages msgs s with
  | error e s₁ => cases (bind_of_error hput).symm.trans h
  | ok _ s₁ =>
    rw [hput] at hb
    rw [bind_of_ok hput] at h
    exact pending_of_flush hb.noEagain h

/-- **The buffers preserve the byte streams**, and their indices stay in them.  What a socket that
    blocks was given is a prefix of the messages that were put, and all of it after a flush; however
    the bytes of a client arrive, its messages are read as they were sent. -/
theorem wire_buffers_preserve_streams (messages : List Msg) :
    (∀ s : Sender, s.Blocking → match putMessages messages s with
      | .ok _ s' | .error _ s' => s'.Blocking ∧ s'.sent <+: s.stream ++ messages.flatMap frame) ∧
    (∀ s : Sender, s.Blocking → match (do putMessages messages; pgsessionFlush : Send) s with
      | .ok _ s' => s'.Blocking ∧ s'.sent = s.stream ++ messages.flatMap frame
      | .error _ s' => s'.Blocking ∧ s'.sent <+: s.stream ++ messages.flatMap frame) ∧
    ∀ s : Receiver, s.InBuffer → Ready s → (∀ message ∈ messages, Accepted message) →
      ∀ rest, s.unread = messages.flatMap frame ++ rest →
        ∃ s', readCommands messages.length s = .ok messages s' ∧ s'.unread = rest ∧
          s'.InBuffer := by
  refine ⟨fun s hs => ?_, fun s hs => ?_, fun s hs hready haccepted rest hunread => ?_⟩
  · have hkept := putMessages_preserves messages s hs
    have hputs := putMessages_puts messages s
    cases hresult : putMessages messages s with
    | error e s' =>
      rw [hresult] at hkept hputs
      exact ⟨hkept, hputs⟩
    | ok _ s' =>
      rw [hresult] at hkept hputs
      refine ⟨hkept, ?_⟩
      rw [← hputs]
      exact prefix_append _ _
  · have hkept := ((putMessages_preserves messages).bind fun _ => flush_preserves) s hs
    have hputs := ((putMessages_puts messages).bind flush_puts) s
    rw [append_nil] at hputs
    cases hresult : (putMessages messages >>= fun _ => pgsessionFlush) s with
    | error e s' =>
      rw [hresult] at hkept hputs
      exact ⟨hkept, hputs⟩
    | ok _ s' =>
      rw [hresult] at hkept hputs
      have hsent : s'.sent ++ s'.pending = s.stream ++ messages.flatMap frame := hputs
      rw [pending_of_put_flush messages hs hresult, append_nil] at hsent
      exact ⟨hkept, hsent⟩
  · obtain ⟨s', hread, hrest, -⟩ := readCommands_reads messages haccepted s rest hready hunread
    have hkept := readCommands_preserves messages.length s hs
    rw [hread] at hkept
    exact ⟨s', hread, hrest, hkept⟩

/-- A query is put and the socket takes it in two pieces with an interruption in between; another
    one arrives byte by byte. -/
theorem query_through_the_buffers :
    (match (do putMessages [(81, [49, 0])]; pgsessionFlush : Send)
        ⟨[], 0, 0, false, [], [.taken 3, .eintr, .taken 9]⟩ with
      | .ok _ s' => s'.Blocking ∧ s'.sent = frame (81, [49, 0])
      | .error _ s' => s'.Blocking ∧ s'.sent <+: frame (81, [49, 0])) ∧
    ∃ s', readCommands 1 ⟨[], frame (81, [49, 0]), replicate 8 (.received 0)⟩ =
      .ok [(81, [49, 0])] s' ∧ s'.unread = [] ∧ s'.InBuffer := by
  obtain ⟨-, hsend, hreceive⟩ := wire_buffers_preserve_streams [(81, [49, 0])]
  refine ⟨hsend ⟨[], 0, 0, false, [], [.taken 3, .eintr, .taken 9]⟩
    ⟨Nat.le_refl _, Nat.zero_le _, by simp⟩, ?_⟩
  exact hreceive ⟨[], _, replicate 8 (.received 0)⟩ (Nat.zero_le _) ⟨by simp, by decide⟩
    (forall_mem_singleton.mpr ⟨_, rfl, by decide⟩) [] rfl

end PgLake.Server.SessionIo
