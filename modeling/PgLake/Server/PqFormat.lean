/-
  Messages of the extended query protocol and how pgduck_server reads them
  (`pgsession/pqformat.c`).

  A message is read from a `StringInfo` with a cursor; here it is the list of the bytes that are
  still to be read.  A parameter value is passed on as a pointer into the message, without its
  length.
-/
import PgLake.Lib.WireBytes

namespace PgLake.Server

open WireBytes List

/-- `pq_getmsgstring`: the string at the cursor, `none` (a null pointer) if it does
    not end inside the message. -/
def pqGetMsgString (msg : Bytes) : Option (Bytes × Bytes) :=
  let strLen := (cString msg).length
  if msg.length ≤ strLen then none else some (cString msg, msg.drop (strLen + 1))

/-- `pq_getmsgint` for `b` bytes, with `none` for `readFailed`. -/
def pqGetMsgInt (b : ℕ) (msg : Bytes) : Option (ℕ × Bytes) :=
  if msg.length < b then none else some (ofBigEndian (msg.take b), msg.drop b)

/-- `pq_getmsgbytes`: a pointer to the cursor, that is, all the bytes from there on.
    For a length that the message does not have the code logs an error and moves the
    cursor all the same; no message that is well formed gets there. -/
def pqGetMsgBytes (datalen : ℤ) (msg : Bytes) : Option (Bytes × Bytes) :=
  if datalen < 0 ∨ (msg.length : ℤ) < datalen then none else some (msg, msg.drop datalen.toNat)

def pqGetMsgByte : Bytes → Option (UInt8 × Bytes)
  | [] => none
  | b :: msg => some (b, msg)

def pqGetMsgEnd (msg : Bytes) : Option (Unit × Bytes) :=
  if msg = [] then some ((), msg) else none

/-- The loops that read numbers of `b` bytes and ignore them. -/
def pqSkipInts (b : ℕ) : ℕ → Bytes → Option (Unit × Bytes)
  | 0, msg => some ((), msg)
  | count + 1, msg => (pqGetMsgInt b msg).bind fun (_, msg) => pqSkipInts b count msg

/-- A number of two bytes in an `int16` variable. -/
def int16 (n : ℕ) : ℤ := (n : ℤ).bmod (2 ^ 16)

/-- A number of four bytes in an `int32` variable. -/
def int32 (n : ℕ) : ℤ := (n : ℤ).bmod (2 ^ 32)

/-! ## Messages -/

/-- The messages of the extended query protocol for the unnamed statement and
    portal.  A parameter is `none` for SQL's NULL. -/
inductive Message where
  | parse (query : Bytes) (paramTypes : List ℕ)
  | bind (formatCodes : List ℕ) (params : List (Option Bytes)) (resultFormatCodes : List ℕ)
  | describe (describeType : UInt8)
  | execute (rowCount : ℕ)
  | sync
  deriving DecidableEq

def Message.WellFormed : Message → Prop
  | .parse query paramTypes => 0 ∉ query ∧ paramTypes.length < 2 ^ 16
  | .bind formatCodes params resultFormatCodes =>
    formatCodes.length < 2 ^ 16 ∧ params.length < 2 ^ 16 ∧ resultFormatCodes.length < 2 ^ 16 ∧
      ∀ v, some v ∈ params → v.length < 2 ^ 31
  | .describe _ => True
  | .execute rowCount => rowCount < 2 ^ 32
  | .sync => True

instance : DecidablePred Message.WellFormed
  | .parse _ _ => inferInstanceAs (Decidable (_ ∧ _))
  | .bind _ params _ =>
    have : Decidable (∀ v, some v ∈ params → v.length < 2 ^ 31) :=
      decidable_of_iff (∀ o ∈ params, ∀ v, o = some v → v.length < 2 ^ 31)
        ⟨fun h v hv => h _ hv v rfl, fun h _ ho v heq => h v (heq ▸ ho)⟩
    inferInstanceAs (Decidable (_ ∧ _))
  | .describe _ => isTrue trivial
  | .execute _ => inferInstanceAs (Decidable (_ < _))
  | .sync => isTrue trivial

/-- A parameter value of a Bind message: its length, -1 for NULL, and its bytes. -/
def paramBytes : Option Bytes → Bytes
  | none => bigEndian 4 (2 ^ 32 - 1)
  | some v => bigEndian 4 v.length ++ v

/-- The bytes of the codes of a message, with their number in front. -/
def codeBytes (b : ℕ) (codes : List ℕ) : Bytes :=
  bigEndian 2 codes.length ++ codes.flatMap (bigEndian b)

def Message.body : Message → Bytes
  | .parse query paramTypes => 0 :: (query ++ 0 :: codeBytes 4 paramTypes)
  | .bind formatCodes params resultFormatCodes =>
    0 :: 0 :: (codeBytes 2 formatCodes ++ (bigEndian 2 params.length ++
      (params.flatMap paramBytes ++ codeBytes 2 resultFormatCodes)))
  | .describe describeType => [describeType, 0]
  | .execute rowCount => 0 :: bigEndian 4 rowCount
  | .sync => []

/-! ## Reading what was written -/

theorem pqGetMsgString_append {v msg : Bytes} (hv : 0 ∉ v) :
    pqGetMsgString (v ++ 0 :: msg) = some (v, msg) := by
  rw [pqGetMsgString]
  simp [cString_append hv, drop_append, drop_eq_nil_of_le (Nat.le_succ v.length)]

theorem pqGetMsgString_unnamed (msg : Bytes) : pqGetMsgString (0 :: msg) = some ([], msg) :=
  pqGetMsgString_append (v := []) not_mem_nil

theorem pqGetMsgInt_append {b : ℕ} {l msg : Bytes} (hl : l.length = b) :
    pqGetMsgInt b (l ++ msg) = some (ofBigEndian l, msg) := by
  have hlen : ¬ (l ++ msg).length < b := by
    rw [length_append]
    omega
  rw [pqGetMsgInt, if_neg hlen, ← hl, take_left, drop_left]

theorem pqGetMsgInt_bigEndian {b n : ℕ} (hn : n < 256 ^ b) (msg : Bytes) :
    pqGetMsgInt b (bigEndian b n ++ msg) = some (n, msg) := by
  rw [pqGetMsgInt_append (length_bigEndian b n), ofBigEndian_bigEndian hn]

theorem pqSkipInts_bigEndian (b : ℕ) (codes : List ℕ) (msg : Bytes) :
    pqSkipInts b codes.length (codes.flatMap (bigEndian b) ++ msg) = some ((), msg) := by
  induction codes with
  | nil => rfl
  | cons code codes ih =>
    rw [flatMap_cons, append_assoc, length_cons, pqSkipInts,
      pqGetMsgInt_append (length_bigEndian b code), Option.bind_some]
    exact ih

theorem pqGetMsgBytes_append (v msg : Bytes) :
    pqGetMsgBytes v.length (v ++ msg) = some (v ++ msg, msg) := by
  have hlen : ¬ ((v.length : ℤ) < 0 ∨ ((v ++ msg).length : ℤ) < v.length) := by
    rw [length_append]
    omega
  rw [pqGetMsgBytes, if_neg hlen, Int.toNat_natCast, drop_left]

theorem int16_of_lt {n : ℕ} (h : n < 2 ^ 15) : int16 n = n := by
  exact Int.bmod_eq_of_le (by omega) (by omega)

theorem int32_of_lt {n : ℕ} (h : n < 2 ^ 31) : int32 n = n := by
  exact Int.bmod_eq_of_le (by omega) (by omega)

/-! ## Parameter values -/

/-- The byte behind every value of a Bind message is a zero: the next parameter is not
    NULL and shorter than `2 ^ 24`, or the values are followed by fewer than 256 result
    format codes.  No value has a zero inside. -/
def Terminated (resultFormatCodes : List ℕ) : List (Option Bytes) → Prop
  | [] => True
  | none :: params => Terminated resultFormatCodes params
  | some v :: params =>
    0 ∉ v ∧ (match params with
        | [] => resultFormatCodes.length < 256
        | none :: _ => False
        | some w :: _ => w.length < 2 ^ 24) ∧
      Terminated resultFormatCodes params

/-- A Bind whose counts are not negative as `int16` and whose values are terminated. -/
structure Sized (formatCodes : List ℕ) (params : List (Option Bytes))
    (resultFormatCodes : List ℕ) : Prop where
  formatCount : formatCodes.length < 2 ^ 15
  paramCount : params.length < 2 ^ 15
  resultCount : resultFormatCodes.length < 2 ^ 15
  terminated : Terminated resultFormatCodes params

/-- The values as they are passed on, when `rest` follows the last one in the message. -/
def passed (rest : Bytes) : List (Option Bytes) → List (Option Bytes)
  | [] => []
  | v :: params =>
    v.map (fun v => cString (v ++ (params.flatMap paramBytes ++ rest))) :: passed rest params

variable {params : List (Option Bytes)} {resultFormatCodes : List ℕ}

theorem length_passed (rest : Bytes) : (passed rest params).length = params.length := by
  induction params with
  | nil => rfl
  | cons v params ih => rw [passed, length_cons, ih, length_cons]

theorem passed_eq_iff (hlen : ∀ v, some v ∈ params → v.length < 2 ^ 31)
    (hc : resultFormatCodes.length < 2 ^ 16) :
    passed (codeBytes 2 resultFormatCodes) params = params ↔
      Terminated resultFormatCodes params := by
  induction params with
  | nil => simp [passed, Terminated]
  | cons v params ih =>
    have hr := ih fun w hw => hlen w (mem_cons_of_mem _ hw)
    rw [passed, cons.injEq, hr]
    cases v with
    | none => simp [Terminated]
    | some v =>
      rw [Option.map_some, Option.some.injEq]
      match params with
      | [] =>
        rw [flatMap_nil, nil_append, codeBytes, bigEndian, cons_append, cString_append_cons_iff,
          head_bigEndian_eq_zero_iff hc]
        exact and_assoc
      | none :: params =>
        rw [flatMap_cons, paramBytes, bigEndian, cons_append, cons_append, cString_append_cons_iff]
        exact iff_of_false (fun h => absurd h.1.2 (by decide)) fun h => h.2.1
      | some w :: params =>
        have hw := hlen w (by simp)
        rw [flatMap_cons, paramBytes, bigEndian, cons_append, cons_append, cons_append,
          cString_append_cons_iff, head_bigEndian_eq_zero_iff (by omega)]
        exact and_assoc

end PgLake.Server
