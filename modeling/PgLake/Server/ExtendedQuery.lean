/-
  The extended query protocol of pgduck_server (`pgsession/pgsession.c`).

  A session has one unnamed prepared statement.  Parse, Bind and Execute move it through the
  states of `PreparedStatement`, and a message whose turn it is not is ignored without an
  answer.

  Main result: `serve_safe`.
-/
import PgLake.Lib.Fallible
import PgLake.Lib.Transition
import PgLake.Server.PqFormat

namespace PgLake.Server

open WireBytes Fallible List

/-- What a call of `duckdb_session_execute_prepared` returns: `DUCKDB_SUCCESS`, an
    error that is reported to the client, or one after which the server exits. -/
inductive ExecuteStatus where
  | success
  | error (message : String)
  | fatal (message : String)
  deriving DecidableEq

/-- DuckDB: its state `σ`, prepared statements `π` and the messages `ρ` that carry a
    result.  A parameter that was never bound is `none`, SQL's NULL is `some none`. -/
structure DuckDB (σ π ρ : Type) where
  /-- `duckdb_prepare`, with the text of `duckdb_prepare_error` -/
  prepare : σ → Bytes → Except String π
  /-- `duckdb_nparams` -/
  nparams : π → ℕ
  /-- `duckdb_bind_varchar` and `duckdb_bind_null`: the error, if there is one -/
  bind : π → ℕ → Option Bytes → Option String
  /-- `duckdb_execute_prepared_streaming` and the loop that sends its result, in COPY
      format or as rows; an error can come after a part of the result -/
  execute : σ → π → Bool → List (Option (Option Bytes)) → σ × List ρ × ExecuteStatus

abbrev Bindings := ℕ → Option (Option Bytes)

/-- A statement that DuckDB has prepared, and the parameters bound so far. -/
structure Prepared (π : Type) where
  stmt : π
  isTransmit : Bool
  bindings : Bindings

/-- `PreparedStatementState`; only a statement that was parsed can be used. -/
inductive PreparedStatement (π : Type) where
  | invalid
  | allocated
  | parsed (p : Prepared π)
  | bound (p : Prepared π)

/-- The statement of a session in state `PARSED` or `BOUND`. -/
def PreparedStatement.usable {π : Type} : PreparedStatement π → Option (Prepared π)
  | .parsed p | .bound p => some p
  | _ => none

def PreparedStatement.setBindings {π : Type} (b : Bindings) :
    PreparedStatement π → PreparedStatement π
  | .parsed p => .parsed { p with bindings := b }
  | .bound p => .bound { p with bindings := b }
  | s => s

variable {π : Type}

@[simp] theorem PreparedStatement.usable_setBindings (b : Bindings) (s : PreparedStatement π) :
    (s.setBindings b).usable = s.usable.map fun p => { p with bindings := b } := by
  cases s <;> rfl

@[simp] theorem PreparedStatement.setBindings_setBindings (b b' : Bindings)
    (s : PreparedStatement π) : (s.setBindings b).setBindings b' = s.setBindings b' := by
  cases s <;> rfl

theorem PreparedStatement.setBindings_self {p : Prepared π} {s : PreparedStatement π}
    (h : s.usable = some p) : s.setBindings p.bindings = s := by
  cases s with
  | invalid | allocated => cases h
  | parsed | bound => cases h; rfl

structure Session (σ π : Type) where
  duck : σ
  statement : PreparedStatement π
  sendReadyForQuery : Bool

def Session.setBindings {σ π : Type} (s : Session σ π) (b : Bindings) : Session σ π :=
  { s with statement := s.statement.setBindings b }

open Session Message

@[simp] theorem Session.setBindings_setBindings {σ : Type} (s : Session σ π) (b b' : Bindings) :
    (s.setBindings b).setBindings b' = s.setBindings b' := by
  simp [setBindings]

theorem Session.setBindings_self {σ : Type} {s : Session σ π} {p : Prepared π}
    (h : s.statement.usable = some p) : s.setBindings p.bindings = s := by
  rw [setBindings, PreparedStatement.setBindings_self h]

theorem Session.usable_setBindings {σ : Type} {s : Session σ π} {p : Prepared π}
    (h : s.statement.usable = some p) (b : Bindings) :
    (s.setBindings b).statement.usable = some { p with bindings := b } := by
  rw [setBindings, PreparedStatement.usable_setBindings, h]
  rfl

/-- What the server sends, and the executions of a statement. -/
inductive Event (π ρ : Type) where
  | parseComplete
  | errorResponse (message : String)
  | executed (stmt : π) (isTransmit : Bool) (params : List (Option (Option Bytes)))
  | result (r : ρ)
  | readyForQuery

/-- A session at work on a message: the bytes still to be read and the events so far. -/
structure Work (σ π ρ : Type) where
  session : Session σ π
  message : Bytes
  events : List (Event π ρ)

/-- The value a handler returns before its end.  `exit` ends the process. -/
inductive Status where
  | ok
  | queryError
  | commError
  | exit
  deriving DecidableEq

variable {σ π ρ : Type}

abbrev Handler (σ π ρ : Type) := EStateM Status (Work σ π ρ)

/-- Read from the message; a failure ends the handler with `COMM_ERROR`. -/
def readMsg {α : Type} (read : Bytes → Option (α × Bytes)) : Handler σ π ρ α := fun w =>
  match read w.message with
  | some (a, rest) => .ok a { w with message := rest }
  | none => .error .commError w

def emit (es : List (Event π ρ)) : Handler σ π ρ Unit := fun w =>
  .ok () { w with events := w.events ++ es }

def getSession : Handler σ π ρ (Session σ π) := fun w => .ok w.session w

def setStatement (statement : PreparedStatement π) : Handler σ π ρ Unit := fun w =>
  .ok () { w with session := { w.session with statement } }

/-- `pgsession_send_postgres_error` and `return status`. -/
def failWith (message : String) (status : Status) : Handler σ π ρ Unit := do
  emit [.errorResponse message]
  throw status

def requireUnnamed (name : Bytes) : Handler σ π ρ Unit :=
  if name = [] then pure ()
  else failWith "named prepared statements not supported in pgduck_server" .queryError

/-- `TRANSMIT_PREFIX`, the bytes of "transmit ". -/
def transmitPrefix : Bytes := [116, 114, 97, 110, 115, 109, 105, 116, 32]

/-- `tolower` of `strncasecmp`. -/
def toLower (b : UInt8) : UInt8 := if 65 ≤ b ∧ b ≤ 90 then b + 32 else b

def isTransmitQuery (query : Bytes) : Bool :=
  (query.take transmitPrefix.length).map toLower = transmitPrefix

def queryString (query : Bytes) : Bytes :=
  if isTransmitQuery query then query.drop transmitPrefix.length else query

section Handlers
variable (db : DuckDB σ π ρ)

def processParseMessage : Handler σ π ρ Unit := do
  setStatement .invalid
  requireUnnamed (← readMsg pqGetMsgString)
  let fullQueryString ← readMsg pqGetMsgString
  let prepared := db.prepare (← getSession).duck (queryString fullQueryString)
  setStatement .allocated
  let nParams ← readMsg (pqGetMsgInt 2)
  readMsg (pqSkipInts 4 (int16 nParams).toNat)
  emit [.parseComplete]
  readMsg pqGetMsgEnd
  match prepared with
  | .error message => failWith message .ok
  | .ok stmt =>
    setStatement (.parsed ⟨stmt, isTransmitQuery fullQueryString, fun _ => none⟩)

/-- A parameter value as it is passed to DuckDB: a C string or a null pointer. -/
def readParam : Handler σ π ρ (Option Bytes) := do
  let paramLen := int32 (← readMsg (pqGetMsgInt 4))
  if paramLen = -1 then return none
  else return some (cString (← readMsg (pqGetMsgBytes paramLen)))

/-- `duckdb_session_bind_varchar`, whose error is reported to the client. -/
def bindVarchar (paramNumber : ℕ) (value : Option Bytes) : Handler σ π ρ Unit := do
  let statement := (← getSession).statement
  match statement.usable with
  | none => throw .queryError
  | some p =>
    match db.bind p.stmt paramNumber value with
    | some message => failWith message .ok
    | none =>
      setStatement (statement.setBindings (Function.update p.bindings paramNumber (some value)))

/-- The loop of `process_bind_message` over the parameters, from `paramIndex` on. -/
def bindParams : ℕ → ℕ → Handler σ π ρ Unit
  | 0, _ => pure ()
  | nParams + 1, paramIndex => do
    bindVarchar db (paramIndex + 1) (← readParam)
    bindParams nParams (paramIndex + 1)

/-- `ProcessBindMessage` after the loop over the parameters. -/
def bindEnd (p : Prepared π) (nParams : ℤ) : Handler σ π ρ Unit := do
  if nParams ≠ db.nparams p.stmt then failWith "incorrect number of parameters" .ok
  else
    let resultFormatCodeCount ← readMsg (pqGetMsgInt 2)
    readMsg (pqSkipInts 2 (int16 resultFormatCodeCount).toNat)
    readMsg pqGetMsgEnd
    match (← getSession).statement.usable with
    | none => throw .queryError
    | some p => setStatement (.bound p)

def processBindMessage : Handler σ π ρ Unit := do
  match (← getSession).statement.usable with
  | none => throw .queryError
  | some p =>
    requireUnnamed (← readMsg pqGetMsgString)
    requireUnnamed (← readMsg pqGetMsgString)
    let formatCodeCount ← readMsg (pqGetMsgInt 2)
    readMsg (pqSkipInts 2 (int16 formatCodeCount).toNat)
    let nParams := int16 (← readMsg (pqGetMsgInt 2))
    bindParams db nParams.toNat 0
    bindEnd db p nParams

def boundParams (p : Prepared π) : List (Option (Option Bytes)) :=
  (List.range (db.nparams p.stmt)).map fun i => p.bindings (i + 1)

def runEvents (stmt : π) (isTransmit : Bool) (params : List (Option (Option Bytes)))
    (results : List ρ) : List (Event π ρ) :=
  .executed stmt isTransmit params :: results.map .result

/-- `duckdb_session_execute_prepared`. -/
def executePrepared (p : Prepared π) : Handler σ π ρ ExecuteStatus := fun w =>
  let (duck, results, status) := db.execute w.session.duck p.stmt p.isTransmit (boundParams db p)
  .ok status
    { w with
      session := { w.session with duck }
      events := w.events ++ runEvents p.stmt p.isTransmit (boundParams db p) results }

def processExecuteMessage : Handler σ π ρ Unit := do
  match (← getSession).statement with
  | .bound p =>
    requireUnnamed (← readMsg pqGetMsgString)
    let executeExpectedRowCount := int32 (← readMsg (pqGetMsgInt 4))
    if executeExpectedRowCount ≠ 0 then throw .commError
    else
      match ← executePrepared db p with
      | .success => readMsg pqGetMsgEnd
      | .error message => failWith message .ok
      | .fatal message => failWith message .exit
  | _ => throw .queryError

/-- The case of Describe in the loop; the answer is left to Execute. -/
def processDescribeMessage : Handler σ π ρ Unit := do
  let _ ← readMsg pqGetMsgByte
  let preparedStmtName ← readMsg pqGetMsgString
  if preparedStmtName ≠ [] then throw .commError else readMsg pqGetMsgEnd

def processSyncMessage : Handler σ π ρ Unit := do
  readMsg pqGetMsgEnd
  modify fun w => { w with session := { w.session with sendReadyForQuery := true } }

def process : Message → Handler σ π ρ Unit
  | .parse _ _ => processParseMessage db
  | .bind _ _ _ => processBindMessage db
  | .describe _ => processDescribeMessage
  | .execute _ => processExecuteMessage db
  | .sync => processSyncMessage

/-- The macro `check`: the connection goes on after `OK` and `QUERY_ERROR`. -/
def check (handler : Handler σ π ρ Unit) : Handler σ π ρ Unit := fun w =>
  match handler w with
  | .error .ok w | .error .queryError w => .ok () w
  | r => r

def loopHead : Handler σ π ρ Unit := fun w =>
  if w.session.sendReadyForQuery then
    .ok () { w with
      session := { w.session with sendReadyForQuery := false }
      events := w.events ++ [.readyForQuery] }
  else .ok () w

/-- One message, up to the point at which the next one is read. -/
def iteration (m : Message) : Handler σ π ρ Unit := do
  check (process db m)
  loopHead

end Handlers

/-! ## What the handlers do -/

section Reading
variable {s : Session σ π} {msg : Bytes} {es : List (Event π ρ)}

theorem readMsg_ok {α : Type} {read : Bytes → Option (α × Bytes)} {a : α} {rest : Bytes}
    (h : read msg = some (a, rest)) : readMsg read ⟨s, msg, es⟩ = .ok a ⟨s, rest, es⟩ := by
  rw [readMsg, h]

theorem readMsg_end : readMsg pqGetMsgEnd ⟨s, [], es⟩ = .ok () ⟨s, [], es⟩ := rfl

theorem readMsg_unnamed : readMsg pqGetMsgString ⟨s, 0 :: msg, es⟩ = .ok [] ⟨s, msg, es⟩ :=
  readMsg_ok (pqGetMsgString_unnamed msg)

theorem requireUnnamed_nil : requireUnnamed [] ⟨s, msg, es⟩ = .ok () ⟨s, msg, es⟩ := rfl

theorem readMsg_count {b : ℕ} {codes : List ℕ} (hlen : codes.length < 2 ^ 15) :
    readMsg (pqGetMsgInt 2) ⟨s, codeBytes b codes ++ msg, es⟩ =
      .ok codes.length ⟨s, codes.flatMap (bigEndian b) ++ msg, es⟩ := by
  refine readMsg_ok ?_
  exact pqGetMsgInt_bigEndian (by omega) _

theorem readMsg_codes {b : ℕ} {codes : List ℕ} (hlen : codes.length < 2 ^ 15) :
    readMsg (pqSkipInts b (int16 codes.length).toNat) ⟨s, codes.flatMap (bigEndian b) ++ msg, es⟩ =
      .ok () ⟨s, msg, es⟩ := by
  refine readMsg_ok ?_
  rw [int16_of_lt hlen, Int.toNat_natCast]
  exact pqSkipInts_bigEndian b codes msg

theorem getSession_run : getSession ⟨s, msg, es⟩ = .ok s ⟨s, msg, es⟩ := rfl

theorem setStatement_run (statement : PreparedStatement π) :
    setStatement statement ⟨s, msg, es⟩ = .ok () ⟨{ s with statement }, msg, es⟩ := rfl

theorem emit_run (es' : List (Event π ρ)) :
    emit es' ⟨s, msg, es⟩ = .ok () ⟨s, msg, es ++ es'⟩ := rfl

end Reading

section Specs
variable (db : DuckDB σ π ρ)

/-- **Parse.** -/
theorem parse_spec (s : Session σ π) {query : Bytes} {paramTypes : List ℕ} (hq : 0 ∉ query)
    (ht : paramTypes.length < 2 ^ 15) :
    processParseMessage db ⟨s, (parse query paramTypes).body, []⟩ =
      match db.prepare s.duck (queryString query) with
      | .error message =>
        .error .ok ⟨{ s with statement := .allocated }, [], [.parseComplete, .errorResponse message]⟩
      | .ok stmt =>
        .ok () ⟨{ s with statement := .parsed ⟨stmt, isTransmitQuery query, fun _ => none⟩ }, [],
          [.parseComplete]⟩ := by
  have hbody : (parse query paramTypes).body =
      0 :: (query ++ 0 :: (codeBytes 4 paramTypes ++ [])) := by rw [append_nil]; rfl
  unfold processParseMessage
  rw [hbody, bind_of_ok (setStatement_run _), bind_of_ok readMsg_unnamed,
    bind_of_ok requireUnnamed_nil, bind_of_ok (readMsg_ok (pqGetMsgString_append hq)),
    bind_of_ok getSession_run, bind_of_ok (setStatement_run _), bind_of_ok (readMsg_count ht),
    bind_of_ok (readMsg_codes ht), bind_of_ok (emit_run _), bind_of_ok readMsg_end]
  cases db.prepare s.duck (queryString query) with
  | error => rfl
  | ok => rfl

/-! ### The parameters of a Bind -/

/-- The parameters as DuckDB has them after the ones from `paramIndex` on were bound. -/
def bindFrom (b : Bindings) : ℕ → List (Option Bytes) → Bindings
  | _, [] => b
  | paramIndex, v :: params =>
    bindFrom (Function.update b (paramIndex + 1) (some v)) (paramIndex + 1) params

variable {params : List (Option Bytes)}

theorem bindFrom_of_le :
    ∀ {b : Bindings} {paramIndex i : ℕ}, i ≤ paramIndex → bindFrom b paramIndex params i = b i := by
  induction params with
  | nil => intros; rfl
  | cons v params ih =>
    intro b paramIndex i hi
    rw [bindFrom, ih (by omega), Function.update_of_ne (by omega)]

theorem bindFrom_apply : ∀ {b : Bindings} {paramIndex i : ℕ} (hi : i < params.length),
      bindFrom b paramIndex params (paramIndex + i + 1) = some params[i] := by
  induction params with
  | nil => exact fun hi => absurd hi (Nat.not_lt_zero _)
  | cons v params ih =>
    intro b paramIndex i hi
    cases i with
    | zero => rw [bindFrom, bindFrom_of_le le_rfl]; exact Function.update_self ..
    | succ i =>
      have hshift : paramIndex + (i + 1) + 1 = paramIndex + 1 + i + 1 := by omega
      rw [bindFrom, hshift, ih (Nat.lt_of_succ_lt_succ hi)]
      rfl

theorem boundParams_bindFrom {p : Prepared π}
    (h : params.length = db.nparams p.stmt) (b : Bindings) :
    boundParams db { p with bindings := bindFrom b 0 params } = params.map some := by
  refine ext_getElem ?_ ?_
  · simp [boundParams, h]
  · intro i hi _
    have hi' : i < params.length := by simpa [boundParams, h] using hi
    simp only [boundParams, getElem_map, getElem_range]
    have ha : bindFrom b 0 params (0 + i + 1) = some params[i] := bindFrom_apply hi'
    rwa [Nat.zero_add] at ha

/-- DuckDB takes each of the parameters from `paramIndex` on. -/
def AcceptsFrom (stmt : π) (paramIndex : ℕ) : List (Option Bytes) → Prop
  | [] => True
  | v :: params => db.bind stmt (paramIndex + 1) v = none ∧ AcceptsFrom stmt (paramIndex + 1) params

def Accepts (stmt : π) (params : List (Option Bytes)) : Prop :=
  AcceptsFrom db stmt 0 params ∧ params.length = db.nparams stmt

section Bind
variable {s : Session σ π} {es : List (Event π ρ)}

theorem readParam_none {msg : Bytes} :
    readParam ⟨s, paramBytes none ++ msg, es⟩ = .ok none ⟨s, msg, es⟩ := by
  have hr : pqGetMsgInt 4 (paramBytes none ++ msg) = some (2 ^ 32 - 1, msg) :=
    pqGetMsgInt_bigEndian (by omega) msg
  rw [readParam, bind_of_ok (readMsg_ok hr)]
  rfl

theorem readParam_some {v msg : Bytes} (hv : v.length < 2 ^ 31) :
    readParam ⟨s, paramBytes (some v) ++ msg, es⟩ =
      .ok (some (cString (v ++ msg))) ⟨s, msg, es⟩ := by
  have hr : pqGetMsgInt 4 (paramBytes (some v) ++ msg) = some (v.length, v ++ msg) := by
    exact pqGetMsgInt_bigEndian (by omega) _
  have hne : ¬ ((v.length : ℤ) = -1) := by omega
  rw [readParam, bind_of_ok (readMsg_ok hr)]
  simp only [int32_of_lt hv]
  rw [if_neg hne, bind_of_ok (readMsg_ok (pqGetMsgBytes_append v msg))]
  rfl

variable {params : List (Option Bytes)}

theorem readParam_run {v : Option Bytes} {rest : Bytes}
    (hlen : ∀ x, some x ∈ v :: params → x.length < 2 ^ 31) :
    readParam ⟨s, (v :: params).flatMap paramBytes ++ rest, es⟩ =
      .ok (v.map fun v => cString (v ++ (params.flatMap paramBytes ++ rest)))
        ⟨s, params.flatMap paramBytes ++ rest, es⟩ := by
  rw [flatMap_cons, append_assoc]
  cases v with
  | none => exact readParam_none
  | some v => exact readParam_some (hlen v mem_cons_self)

variable {p : Prepared π}

theorem bindVarchar_run (hp : s.statement.usable = some p) (paramNumber : ℕ)
    (v : Option Bytes) (msg : Bytes) (es : List (Event π ρ)) :
    bindVarchar db paramNumber v ⟨s, msg, es⟩ = match db.bind p.stmt paramNumber v with
      | some message => .error .ok ⟨s, msg, es ++ [.errorResponse message]⟩
      | none =>
        .ok () ⟨s.setBindings (Function.update p.bindings paramNumber (some v)), msg, es⟩ := by
  rw [bindVarchar, bind_of_ok getSession_run]
  simp only [hp]
  cases db.bind p.stmt paramNumber v with
  | none => rfl
  | some => rfl

/-- The loop over the parameters: all of them are bound, or the first one that DuckDB
    does not take is reported and the ones before it stay bound. -/
theorem bindParams_spec {rest : Bytes} :
    ∀ (i : ℕ) {s : Session σ π} {p : Prepared π}, s.statement.usable = some p →
      (∀ v, some v ∈ params → v.length < 2 ^ 31) →
      (AcceptsFrom db p.stmt i (passed rest params) ∧
        bindParams db params.length i ⟨s, params.flatMap paramBytes ++ rest, es⟩ =
          .ok () ⟨s.setBindings (bindFrom p.bindings i (passed rest params)), rest, es⟩) ∨
      (¬ AcceptsFrom db p.stmt i (passed rest params) ∧ ∃ b msg message,
        bindParams db params.length i ⟨s, params.flatMap paramBytes ++ rest, es⟩ =
          .error .ok ⟨s.setBindings b, msg, es ++ [.errorResponse message]⟩) := by
  induction params with
  | nil =>
    intro i s p hp _
    refine .inl ⟨trivial, ?_⟩
    rw [passed, bindFrom, setBindings_self hp]
    rfl
  | cons v params ih =>
    intro i s p hp hlen
    rw [length_cons, bindParams, bind_of_ok (readParam_run hlen), passed]
    generalize v.map (fun v => cString (v ++ (params.flatMap paramBytes ++ rest))) = value
    have hrun := bindVarchar_run db hp (i + 1) value (params.flatMap paramBytes ++ rest) es
    cases hbind : db.bind p.stmt (i + 1) value with
    | some message =>
      simp only [hbind] at hrun
      refine .inr ⟨fun h => Option.some_ne_none _ (hbind.symm.trans h.1), p.bindings,
        params.flatMap paramBytes ++ rest, message, ?_⟩
      rw [bind_of_error hrun, setBindings_self hp]
    | none =>
      simp only [hbind] at hrun
      rw [bind_of_ok hrun]
      -- the rest of the loop starts from the statement with this parameter bound
      have hr := ih (i + 1)
        (s.usable_setBindings hp (Function.update p.bindings (i + 1) (some value)))
        fun x hx => hlen x (mem_cons_of_mem _ hx)
      simp only [setBindings_setBindings] at hr
      rcases hr with ⟨hacc, hok⟩ | ⟨hacc, b, msg, message, herr⟩
      · exact .inl ⟨⟨hbind, hacc⟩, hok⟩
      · exact .inr ⟨fun h => hacc h.2, b, msg, message, herr⟩

theorem processBindMessage_eq (hp : s.statement.usable = some p)
    {fcs codes : List ℕ} (hf : fcs.length < 2 ^ 15)
    (hpa : params.length < 2 ^ 16) :
    processBindMessage db ⟨s, (bind fcs params codes).body, []⟩ =
      (bindParams db (int16 params.length).toNat 0 >>= fun _ => bindEnd db p (int16 params.length))
        ⟨s, params.flatMap paramBytes ++ codeBytes 2 codes, []⟩ := by
  rw [processBindMessage, bind_of_ok getSession_run]
  simp only [hp]
  rw [body, bind_of_ok readMsg_unnamed, bind_of_ok requireUnnamed_nil,
    bind_of_ok readMsg_unnamed, bind_of_ok requireUnnamed_nil, bind_of_ok (readMsg_count hf),
    bind_of_ok (readMsg_codes hf),
    bind_of_ok (readMsg_ok (pqGetMsgInt_bigEndian (by omega) _))]

/-- **Bind**, of a statement that can be bound. -/
theorem bind_spec (hp : s.statement.usable = some p) {fcs : List ℕ}
    {codes : List ℕ} (hsi : Sized fcs params codes)
    (hlen : ∀ v, some v ∈ params → v.length < 2 ^ 31) :
    (Accepts db p.stmt params ∧
      processBindMessage db ⟨s, (bind fcs params codes).body, []⟩ =
        .ok () ⟨{ s with statement := .bound { p with bindings := bindFrom p.bindings 0 params } },
          [], []⟩) ∨
    (¬ Accepts db p.stmt params ∧ ∃ b rest msg,
      processBindMessage db ⟨s, (bind fcs params codes).body, []⟩ =
        .error .ok ⟨s.setBindings b, rest, [.errorResponse msg]⟩) := by
  obtain ⟨hf, hpa, hr, ht⟩ := hsi
  have hs := @bindParams_spec _ _ _ db [] _ (codeBytes 2 codes) 0 _ _ hp hlen
  rw [(passed_eq_iff hlen (by omega)).mpr ht] at hs
  rw [processBindMessage_eq db hp hf (by omega), int16_of_lt hpa, Int.toNat_natCast]
  rcases hs with ⟨hacc, hok⟩ | ⟨hacc, b, rest, msg, herr⟩
  · rw [bind_of_ok hok, bindEnd]
    simp only [Nat.cast_inj, ne_eq]
    by_cases hn : params.length = db.nparams p.stmt
    · refine .inl ⟨⟨hacc, hn⟩, ?_⟩
      rw [if_neg (not_not_intro hn), ← append_nil (codeBytes 2 codes),
        bind_of_ok (readMsg_count hr), bind_of_ok (readMsg_codes hr),
        bind_of_ok readMsg_end, bind_of_ok getSession_run]
      simp only [s.usable_setBindings hp]
      rfl
    · refine .inr ⟨fun h => hn h.2, bindFrom p.bindings 0 params, codeBytes 2 codes,
        "incorrect number of parameters", ?_⟩
      rw [if_pos hn]
      rfl
  · refine .inr ⟨fun h => hacc h.1, b, rest, msg, ?_⟩
    rw [bind_of_error herr]
    rfl

end Bind

/-- **Execute**, of a statement that is bound. -/
theorem execute_spec (s : Session σ π) {p : Prepared π} (hp : s.statement = .bound p) {duck : σ}
    {results : List ρ} {status : ExecuteStatus}
    (hexec : db.execute s.duck p.stmt p.isTransmit (boundParams db p) = (duck, results, status)) :
    processExecuteMessage db ⟨s, (execute 0).body, []⟩ =
      let es := runEvents p.stmt p.isTransmit (boundParams db p) results
      match status with
      | .success => .ok () ⟨{ s with duck }, [], es⟩
      | .error message => .error .ok ⟨{ s with duck }, [], es ++ [.errorResponse message]⟩
      | .fatal message => .error .exit ⟨{ s with duck }, [], es ++ [.errorResponse message]⟩ := by
  have hc : pqGetMsgInt 4 (bigEndian 4 0 ++ []) = some (0, []) :=
    pqGetMsgInt_bigEndian (by omega) _
  have hrun : executePrepared db p ⟨s, [], []⟩ = .ok status ⟨{ s with duck }, [],
      runEvents p.stmt p.isTransmit (boundParams db p) results⟩ := by
    rw [executePrepared, hexec]
    rfl
  rw [processExecuteMessage, bind_of_ok getSession_run]
  simp only [hp]
  rw [body, bind_of_ok readMsg_unnamed, bind_of_ok requireUnnamed_nil,
    ← append_nil (bigEndian 4 0), bind_of_ok (readMsg_ok hc)]
  show (executePrepared db p >>= _) _ = _
  rw [bind_of_ok hrun]
  cases status <;> rw [hp] <;> rfl

end Specs

/-! ## The connection -/

def Event.isError : Event π ρ → Bool
  | .errorResponse _ => true
  | _ => false

def Event.isReady : Event π ρ → Bool
  | .readyForQuery => true
  | _ => false

def Event.isOutput : Event π ρ → Bool
  | .executed _ _ _ | .result _ => true
  | _ => false

def Event.execution : Event π ρ → Option (π × Bool × List (Option (Option Bytes)))
  | .executed stmt isTransmit params => some (stmt, isTransmit, params)
  | _ => none

/-- A session and what happened on its connection before. -/
structure Connection (σ π : Type) where
  session : Session σ π
  closed : Bool
  /-- an ErrorResponse was sent since the last Sync -/
  errorSent : Bool
  lastParse : Option Bytes
  lastBind : Option (List (Option Bytes))
  /-- the last message was a Bind, Describe messages aside -/
  afterBind : Bool

def Connection.after (c : Connection σ π) (m : Message) (w : Work σ π ρ) (closed : Bool) :
    Connection σ π where
  session := w.session
  closed := closed
  errorSent := (c.errorSent && m ≠ .sync) || w.events.any Event.isError
  lastParse := match m with
    | .parse query _ => some query
    | _ => c.lastParse
  lastBind := match m with
    | .bind _ params _ => some params
    | _ => c.lastBind
  afterBind := match m with
    | .bind _ _ _ => true
    | .describe _ => c.afterBind
    | _ => false

/-- A connection that was established and has sent its first ReadyForQuery. -/
def Connection.start (duck : σ) : Connection σ π :=
  ⟨⟨duck, .invalid, false⟩, false, false, none, none, false⟩

section Serve
variable (db : DuckDB σ π ρ) (c : Connection σ π)

def serve (m : Message) : Connection σ π × List (Event π ρ) :=
  match iteration db m ⟨c.session, m.body, []⟩ with
  | .ok _ w => (c.after m w false, w.events)
  | .error _ w => (c.after m w true, w.events)

/-- A message whose lengths fit their fields. -/
abbrev WellFormedMessage := { m : Message // m.WellFormed }

/-- One message on an open connection. -/
def step (m : WellFormedMessage) : Option (Connection σ π) :=
  if c.closed then none else some (serve db c m).1

/-! ## The protocol -/

/-- After an ErrorResponse nothing is executed and no result is sent; `sent` says
    whether one was sent before the first of the events. -/
def QuietAfterError : Bool → List (Event π ρ) → Prop
  | _, [] => True
  | sent, e :: es => (sent = true → e.isOutput = false) ∧ QuietAfterError (sent || e.isError) es

/-- The one statement that is executed is the one of the last Parse, with the
    parameters of the last Bind. -/
def RunsLastBind (es : List (Event π ρ)) : Prop :=
  ∃ query params stmt, c.lastParse = some query ∧ c.lastBind = some params ∧
    (∃ duck, db.prepare duck (queryString query) = .ok stmt) ∧
    es.filterMap Event.execution = [(stmt, isTransmitQuery query, params.map some)]

/-- The server treats a message as the protocol wants it. -/
structure StepSafe (c : Connection σ π) (m : WellFormedMessage) : Prop where
  quiet : QuietAfterError (c.errorSent && m.1 ≠ .sync) (serve db c m).2
  executes : ∀ rowCount, m.1 = .execute rowCount → RunsLastBind db c (serve db c m).2 ∨
      ((serve db c m).2.filterMap Event.execution = [] ∧ c.errorSent = true)
  ready : (serve db c m).2.countP Event.isReady = if m.1 = .sync then 1 else 0

/-- A message at a point of the protocol at which the server treats it right.

    * Parse: no error was sent since the last Sync.
    * Bind: the last Parse succeeded and no error was sent; if the statement is bound
      already, DuckDB takes the new parameters.  Or an error was sent, and there is no
      statement to bind.
    * Execute follows its Bind and asks for all rows.
    * The values of a Bind are terminated by the bytes behind them, and there are fewer
      than `2 ^ 15` of everything. -/
def InOrder (m : WellFormedMessage) : Prop :=
  match m.1 with
  | .parse _ paramTypes => c.errorSent = false ∧ paramTypes.length < 2 ^ 15
  | .bind formatCodes params resultFormatCodes =>
    match c.session.statement with
    | .parsed _ =>
      c.errorSent = false ∧ Sized formatCodes params resultFormatCodes
    | .bound p =>
      c.errorSent = false ∧ Sized formatCodes params resultFormatCodes ∧ Accepts db p.stmt params
    | _ => c.errorSent = true
  | .describe _ => True
  | .execute rowCount => c.afterBind = true ∧ rowCount = 0
  | .sync => True

/-! ## Events -/

theorem quietAfterError_of_no_output {es : List (Event π ρ)} (h : ∀ e ∈ es, e.isOutput = false) :
    ∀ sent, QuietAfterError sent es := by
  induction es with
  | nil => exact fun _ => trivial
  | cons e es ih =>
    obtain ⟨he, hes⟩ := forall_mem_cons.mp h
    exact fun sent => ⟨fun _ => he, ih hes _⟩

theorem quietAfterError_append {es es' : List (Event π ρ)} (h : ∀ e ∈ es, e.isError = false)
    (h' : QuietAfterError false es') : QuietAfterError false (es ++ es') := by
  induction es with
  | nil => exact h'
  | cons e es ih =>
    obtain ⟨he, hes⟩ := forall_mem_cons.mp h
    refine ⟨nofun, ?_⟩
    rw [he]
    exact ih hes

section Run
variable (stmt : π) (isTransmit : Bool) (params : List (Option (Option Bytes))) (results : List ρ)

theorem runEvents_isError : ∀ e ∈ runEvents stmt isTransmit params results, e.isError = false := by
  refine forall_mem_cons.mpr ⟨rfl, ?_⟩
  simp [Event.isError]

theorem runEvents_isReady :
    (runEvents stmt isTransmit params results).countP Event.isReady = 0 := by
  refine countP_eq_zero.mpr (forall_mem_cons.mpr ⟨nofun, ?_⟩)
  simp [Event.isReady]

theorem runEvents_execution : (runEvents stmt isTransmit params results).filterMap Event.execution =
      [(stmt, isTransmit, params)] := by
  simp [runEvents, Event.execution, Function.comp_def]

end Run

/-! ## One message -/

/-- A connection that reads its next message. -/
structure Inv (c : Connection σ π) : Prop where
  noReady : c.session.sendReadyForQuery = false
  /-- the statement is the one of the last Parse, and once it is bound it has the
      parameters of the last Bind -/
  statement : ∀ p, c.session.statement.usable = some p → ∃ query, c.lastParse = some query ∧
    p.isTransmit = isTransmitQuery query ∧ ∃ duck, db.prepare duck (queryString query) = .ok p.stmt
  params : ∀ p, c.session.statement = .bound p → ∃ params, c.lastBind = some params ∧
    boundParams db p = params.map some
  /-- right after a Bind the statement is bound or an error was sent -/
  afterBind : c.afterBind = true → ((∃ p, c.session.statement = .bound p) ∧ c.errorSent = false) ∨
      ((∀ p, c.session.statement ≠ .bound p) ∧ c.errorSent = true)

variable {db} {c} {m : Message} {w : Work σ π ρ}

theorem serve_of_check (h : check (process db m) ⟨c.session, m.body, []⟩ = .ok () w)
    (hr : w.session.sendReadyForQuery = false) : serve db c m = (c.after m w false, w.events) := by
  have hiter : iteration db m ⟨c.session, m.body, []⟩ = .ok () w := by
    rw [iteration, bind_of_ok h, loopHead, hr]
    rfl
  rw [serve, hiter]

theorem serve_of_ok (h : process db m ⟨c.session, m.body, []⟩ = .ok () w)
    (hr : w.session.sendReadyForQuery = false) : serve db c m = (c.after m w false, w.events) :=
  serve_of_check (by rw [check, h]) hr

theorem serve_of_error {status : Status} (h : process db m ⟨c.session, m.body, []⟩ = .error status w)
    (hs : status = .ok ∨ status = .queryError) (hr : w.session.sendReadyForQuery = false) :
    serve db c m = (c.after m w false, w.events) := by
  refine serve_of_check ?_ hr
  rw [check, h]
  rcases hs with rfl | rfl <;> rfl

theorem serve_of_exit (h : process db m ⟨c.session, m.body, []⟩ = .error .exit w) :
    serve db c m = (c.after m w true, w.events) := by
  have hc : check (process db m) ⟨c.session, m.body, []⟩ = .error .exit w := by
    rw [check, h]
  rw [serve, iteration, bind_of_error hc]

theorem serve_sync (hr : c.session.sendReadyForQuery = false) :
    let w : Work σ π ρ := ⟨c.session, [], [.readyForQuery]⟩
    serve db c .sync = (c.after .sync w false, w.events) := by
  have hsession : { c.session with sendReadyForQuery := false } = c.session := by rw [← hr]
  have hiter : iteration db .sync ⟨c.session, body .sync, []⟩ =
      .ok () ⟨{ c.session with sendReadyForQuery := false }, [], [.readyForQuery]⟩ := rfl
  rw [serve, hiter, hsession]

/-- What the server can do with a message that comes in order. -/
inductive Handled (db : DuckDB σ π ρ) (c : Connection σ π) : Message → Work σ π ρ → Prop where
  | parse {query paramTypes stmt duck} (herr : c.errorSent = false)
    (hprep : db.prepare duck (queryString query) = .ok stmt) :
    Handled db c (.parse query paramTypes)
      ⟨{ c.session with statement := .parsed ⟨stmt, isTransmitQuery query, fun _ => none⟩ }, [],
        [.parseComplete]⟩
  | parseFails {query paramTypes message} :
    Handled db c (.parse query paramTypes)
      ⟨{ c.session with statement := .allocated }, [], [.parseComplete, .errorResponse message]⟩
  | bind {formatCodes params resultFormatCodes p b} (herr : c.errorSent = false)
    (hp : c.session.statement.usable = some p)
    (hb : boundParams db { p with bindings := b } = params.map some) :
    Handled db c (.bind formatCodes params resultFormatCodes)
      ⟨{ c.session with statement := .bound { p with bindings := b } }, [], []⟩
  | bindFails {formatCodes params resultFormatCodes p b rest message}
    (hp : c.session.statement = .parsed p) :
    Handled db c (.bind formatCodes params resultFormatCodes)
      ⟨c.session.setBindings b, rest, [.errorResponse message]⟩
  | bindIgnored {formatCodes params resultFormatCodes rest} (herr : c.errorSent = true)
    (hp : c.session.statement.usable = none) :
    Handled db c (.bind formatCodes params resultFormatCodes) ⟨c.session, rest, []⟩
  | describe {describeType} : Handled db c (.describe describeType) ⟨c.session, [], []⟩
  | execute {rowCount p duck results} (herr : c.errorSent = false)
    (hp : c.session.statement = .bound p) :
    Handled db c (.execute rowCount)
      ⟨{ c.session with duck }, [], runEvents p.stmt p.isTransmit (boundParams db p) results⟩
  | executeFails {rowCount p duck results message} (herr : c.errorSent = false)
    (hp : c.session.statement = .bound p) :
    Handled db c (.execute rowCount)
      ⟨{ c.session with duck }, [],
        runEvents p.stmt p.isTransmit (boundParams db p) results ++ [.errorResponse message]⟩
  | executeIgnored {rowCount rest} (herr : c.errorSent = true)
    (hp : ∀ p, c.session.statement ≠ .bound p) :
    Handled db c (.execute rowCount) ⟨c.session, rest, []⟩
  | sync : Handled db c .sync ⟨c.session, [], [.readyForQuery]⟩

theorem handled_parse (hinv : Inv db c) {query : Bytes} {paramTypes : List ℕ}
    (hwf : (parse query paramTypes).WellFormed)
    (h : InOrder db c ⟨.parse query paramTypes, hwf⟩) :
    ∃ w closed, serve db c (.parse query paramTypes) =
      (c.after (.parse query paramTypes) w closed, w.events) ∧
        Handled db c (.parse query paramTypes) w := by
  obtain ⟨herr, ht⟩ := h
  have hrun := parse_spec db c.session hwf.1 ht
  cases hp : db.prepare c.session.duck (queryString query) with
  | error =>
    simp only [hp] at hrun
    exact ⟨_, false, serve_of_error hrun (.inl rfl) hinv.noReady, .parseFails⟩
  | ok =>
    simp only [hp] at hrun
    exact ⟨_, false, serve_of_ok hrun hinv.noReady, .parse herr hp⟩

theorem handled_bind (hinv : Inv db c) {fcs : List ℕ} {params : List (Option Bytes)}
    {resultFormatCodes : List ℕ}
    (hwf : (bind fcs params resultFormatCodes).WellFormed)
    (h : InOrder db c ⟨.bind fcs params resultFormatCodes, hwf⟩) :
    ∃ w closed, serve db c (.bind fcs params resultFormatCodes) =
      (c.after (.bind fcs params resultFormatCodes) w closed, w.events) ∧
        Handled db c (.bind fcs params resultFormatCodes) w := by
  have hlen : ∀ v, some v ∈ params → v.length < 2 ^ 31 := hwf.2.2.2
  cases hst : c.session.statement with
  | invalid | allocated =>
    have hn : c.session.statement.usable = none := by rw [hst]; rfl
    have herr : c.errorSent = true := by simpa only [InOrder, hst] using h
    have hrun : processBindMessage db
        ⟨c.session, (bind fcs params resultFormatCodes).body, []⟩ =
        .error .queryError
          ⟨c.session, (bind fcs params resultFormatCodes).body, []⟩ := by
      rw [processBindMessage, bind_of_ok getSession_run]
      simp only [hn]
      rfl
    exact ⟨_, false, serve_of_error hrun (.inr rfl) hinv.noReady, .bindIgnored herr hn⟩
  | parsed p =>
    have hp : c.session.statement.usable = some p := by rw [hst]; rfl
    obtain ⟨herr, hs⟩ : c.errorSent = false ∧ Sized fcs params resultFormatCodes := by
      simpa only [InOrder, hst] using h
    rcases bind_spec db hp hs hlen with ⟨hacc, hok⟩ | ⟨-, b, rest, message, hrun⟩
    · exact ⟨_, false, serve_of_ok hok hinv.noReady,
        .bind herr hp (boundParams_bindFrom db hacc.2 p.bindings)⟩
    · exact ⟨_, false, serve_of_error hrun (.inl rfl) hinv.noReady, .bindFails hst⟩
  | bound p =>
    have hp : c.session.statement.usable = some p := by rw [hst]; rfl
    obtain ⟨herr, hs, hacc⟩ : c.errorSent = false ∧
        Sized fcs params resultFormatCodes ∧ Accepts db p.stmt params := by
      simpa only [InOrder, hst] using h
    rcases bind_spec db hp hs hlen with ⟨-, hok⟩ | ⟨hrefused, -⟩
    · exact ⟨_, false, serve_of_ok hok hinv.noReady,
        .bind herr hp (boundParams_bindFrom db hacc.2 p.bindings)⟩
    · exact absurd hacc hrefused

theorem handled_execute (hinv : Inv db c) {rowCount : ℕ}
    (hwf : (execute rowCount).WellFormed) (h : InOrder db c ⟨.execute rowCount, hwf⟩) :
    ∃ w closed, serve db c (.execute rowCount) = (c.after (.execute rowCount) w closed, w.events) ∧
      Handled db c (.execute rowCount) w := by
  obtain ⟨ha, rfl⟩ := h
  rcases hinv.afterBind ha with ⟨⟨p, hp⟩, herr⟩ | ⟨hp, herr⟩
  · rcases hexec : db.execute c.session.duck p.stmt p.isTransmit (boundParams db p) with
      ⟨duck, results, status⟩
    have hrun := execute_spec db c.session hp hexec
    cases status with
    | success => exact ⟨_, false, serve_of_ok hrun hinv.noReady, .execute herr hp⟩
    | error =>
      exact ⟨_, false, serve_of_error hrun (.inl rfl) hinv.noReady, .executeFails herr hp⟩
    | fatal => exact ⟨_, true, serve_of_exit hrun, .executeFails herr hp⟩
  · have hrun : processExecuteMessage db ⟨c.session, (execute 0).body, []⟩ =
        .error .queryError ⟨c.session, (execute 0).body, []⟩ := by
      rw [processExecuteMessage, bind_of_ok getSession_run]
      cases hst : c.session.statement with
      | bound p => exact absurd hst (hp p)
      | invalid | allocated | parsed => rfl
    exact ⟨_, false, serve_of_error hrun (.inr rfl) hinv.noReady, .executeIgnored herr hp⟩

theorem serve_handled (hinv : Inv db c) {m : WellFormedMessage} (h : InOrder db c m) :
    ∃ w closed, serve db c m.1 = (c.after m.1 w closed, w.events) ∧ Handled db c m.1 w := by
  obtain ⟨m, hwf⟩ := m
  cases m with
  | parse => exact handled_parse hinv hwf h
  | bind => exact handled_bind hinv hwf h
  | describe describeType =>
    have hrun : process db (.describe describeType)
        ⟨c.session, (describe describeType).body, []⟩ = .ok () ⟨c.session, [], []⟩ := rfl
    exact ⟨_, false, serve_of_ok hrun hinv.noReady, .describe⟩
  | execute => exact handled_execute hinv hwf h
  | sync => exact ⟨_, false, serve_sync hinv.noReady, .sync⟩

theorem Handled.quiet (h : Handled db c m w) : QuietAfterError (c.errorSent && m ≠ .sync) w.events := by
  cases h with
  | execute herr =>
    rw [herr, ← append_nil (runEvents ..)]
    exact quietAfterError_append (runEvents_isError _ _ _ _) trivial
  | executeFails herr =>
    rw [herr]
    exact quietAfterError_append (runEvents_isError _ _ _ _) ⟨nofun, trivial⟩
  | parse | parseFails | bind | bindFails | bindIgnored | describe | executeIgnored | sync =>
    refine quietAfterError_of_no_output ?_ _
    simp [Event.isOutput]

theorem Handled.ready (h : Handled db c m w) :
    w.events.countP Event.isReady = if m = .sync then 1 else 0 := by
  cases h with
  | execute => exact runEvents_isReady ..
  | executeFails =>
    rw [countP_append, runEvents_isReady]
    rfl
  | parse | parseFails | bind | bindFails | bindIgnored | describe | executeIgnored | sync => rfl

theorem Handled.executes {rowCount : ℕ} (hinv : Inv db c) (h : Handled db c (.execute rowCount) w) :
    RunsLastBind db c w.events ∨ (w.events.filterMap Event.execution = [] ∧ c.errorSent = true) := by
  have hr : ∀ {p : Prepared π} {es : List (Event π ρ)}, c.session.statement = .bound p →
      es.filterMap Event.execution = [(p.stmt, p.isTransmit, boundParams db p)] →
      RunsLastBind db c es := by
    intro p es hp hes
    obtain ⟨query, hq, ht, hpr⟩ := hinv.statement p (by rw [hp]; rfl)
    obtain ⟨params, hpa, hb⟩ := hinv.params p hp
    exact ⟨query, params, p.stmt, hq, hpa, hpr, by rw [hes, ht, hb]⟩
  cases h with
  | execute herr hp => exact .inl (hr hp (runEvents_execution ..))
  | executeFails herr hp =>
    refine .inl (hr hp ?_)
    rw [filterMap_append, runEvents_execution]
    rfl
  | executeIgnored herr => exact .inr ⟨rfl, herr⟩

theorem stepSafe {m : WellFormedMessage} (hinv : Inv db c) (h : InOrder db c m) : StepSafe db c m := by
  obtain ⟨w, closed, hs, hh⟩ := serve_handled hinv h
  refine ⟨?_, ?_, ?_⟩
  · rw [hs]
    exact hh.quiet
  · intro rowCount hm
    rw [hs]
    exact (hm ▸ hh).executes hinv
  · rw [hs]
    exact hh.ready

theorem Handled.inv (hinv : Inv db c) (h : Handled db c m w) (closed : Bool) :
    Inv db (c.after m w closed) := by
  have hr := hinv.noReady
  cases h with
  | @parse query _ stmt duck herr hpr =>
    refine ⟨hr, ?_, nofun, nofun⟩
    intro p hp
    cases hp
    exact ⟨query, rfl, rfl, duck, hpr⟩
  | parseFails => exact ⟨hr, nofun, nofun, nofun⟩
  | @bind _ params _ p b herr hp hb =>
    refine ⟨hr, ?_, ?_, ?_⟩
    · intro p' hp'
      cases hp'
      exact hinv.statement p hp
    · intro p' hp'
      obtain rfl := PreparedStatement.bound.inj hp'
      exact ⟨params, rfl, hb⟩
    · intro _
      refine .inl ⟨⟨_, rfl⟩, ?_⟩
      simp [Connection.after, herr]
  | @bindFails _ params _ p b rest msg hp =>
    have hset : (c.session.setBindings b).statement = .parsed { p with bindings := b } := by
      rw [setBindings, hp]
      rfl
    refine ⟨hr, ?_, ?_, ?_⟩
    · intro p' hp'
      have hp'' : (c.session.setBindings b).statement.usable = some p' := hp'
      rw [hset] at hp''
      cases hp''
      exact hinv.statement p (by rw [hp]; rfl)
    · intro p' hp'
      exact nomatch hset.symm.trans hp'
    · intro _
      refine .inr ⟨fun p' hp' => (nomatch hset.symm.trans hp'), ?_⟩
      simp [Connection.after, Event.isError]
  | bindIgnored herr hp =>
    have hne : ∀ p, c.session.statement ≠ .bound p := by
      intro p hp'
      rw [hp'] at hp
      exact nomatch hp
    refine ⟨hr, fun p hp' => (nomatch hp.symm.trans hp'), fun p hp' => absurd hp' (hne p), ?_⟩
    exact fun _ => .inr ⟨hne, by simp [Connection.after, herr]⟩
  | describe =>
    refine ⟨hr, hinv.statement, hinv.params, fun ha => ?_⟩
    simpa [Connection.after] using hinv.afterBind ha
  | execute | executeFails | executeIgnored | sync =>
    exact ⟨hr, hinv.statement, hinv.params, nofun⟩

theorem inv_step {m : WellFormedMessage} {c' : Connection σ π} (hinv : Inv db c)
    (h : InOrder db c m) (hs : step db c m = some c') : Inv db c' := by
  obtain ⟨w, closed, hse, hh⟩ := serve_handled hinv h
  have hc' : c.after m.1 w closed = c' := by
    rw [step, hse] at hs
    split at hs
    · cases hs
    · exact Option.some.inj hs
  exact hc' ▸ hh.inv hinv closed

end Serve

theorem inv_start (db : DuckDB σ π ρ) (duck : σ) : Inv db (Connection.start duck) :=
  ⟨rfl, nofun, nofun, nofun⟩

/-- **The protocol holds on a connection whose messages all come in order**: nothing is
    executed and no result is sent after an ErrorResponse until Sync, an Execute runs the
    statement of the last Parse with the parameters of the last Bind or comes after an
    error, and each Sync is answered by one ReadyForQuery. -/
theorem serve_safe (db : DuckDB σ π ρ) (duck : σ) (ms : List WellFormedMessage)
    (h : Transition.Along (step db) (InOrder db) (Connection.start duck) ms) :
    Transition.Along (step db) (StepSafe db) (Connection.start duck) ms :=
  Transition.along_of_invariant inv_step stepSafe (inv_start db duck) h

/-! ## Runs -/

/-- A DuckDB whose statements have one parameter and return their own text. -/
def oneParam : DuckDB Unit Bytes Bytes where
  prepare _ query := .ok query
  nparams _ := 1
  bind _ paramNumber _ := if paramNumber = 1 then none else some "Invalid Input Error"
  execute _ query _ _ := ((), [query], .success)

def parseMessage : WellFormedMessage := ⟨.parse [36, 49] [], by decide⟩

def bindMessage : WellFormedMessage := ⟨.bind [] [some [97]] [], by decide⟩

def emptyBindMessage : WellFormedMessage := ⟨.bind [] [] [], by decide⟩

def executeMessage : WellFormedMessage := ⟨.execute 0, by decide⟩

def syncMessage : WellFormedMessage := ⟨.sync, trivial⟩

theorem serve_safe_one_statement :
    Transition.Along (step oneParam) (StepSafe oneParam) (Connection.start ())
      [parseMessage, bindMessage, executeMessage, syncMessage] :=
  serve_safe oneParam () _ <|
    .of_step ⟨rfl, by decide⟩ rfl <|
    .of_step ⟨rfl, by decide, by decide, by decide, by decide, by decide, trivial⟩ rfl <|
    .of_step ⟨rfl, rfl⟩ rfl <|
    .of_step trivial rfl trivial

/-- The second Bind is refused and leaves the statement bound, so the Execute behind it
    runs with the parameters of the first Bind before any Sync. -/
theorem executed_after_error :
    ¬ Transition.Along (step oneParam) (StepSafe oneParam) (Connection.start ())
      ([parseMessage, bindMessage, emptyBindMessage] ++ [executeMessage, syncMessage]) := by
  intro h
  have hsafe := (h.of_append rfl).1
  have hquiet := hsafe.quiet.1 rfl
  exact nomatch hquiet

end PgLake.Server
