/-
  The values a Bind message passes to DuckDB (`process_bind_message`, `pgsession.c`).

  A value is passed as a pointer into the message, without its length, and DuckDB reads a C string
  from there.

  Main result: `bindsExactly_iff`.
-/
import PgLake.Server.ExtendedQuery

namespace PgLake.Server

open WireBytes Fallible List

variable {σ π ρ : Type}

/-- The format codes that the protocol allows: none, one for all parameters, or one for each; they
    are 0 (text) or 1 (binary). -/
def AllowedFormats (formatCodes : List ℕ) (params : List (Option Bytes)) : Prop :=
  (formatCodes.length ≤ 1 ∨ formatCodes.length = params.length) ∧ ∀ code ∈ formatCodes, code ≤ 1

/-- The state in which a handler leaves a session, whether or not it fails. -/
def workAfter {α : Type} : EStateM.Result Status (Work σ π ρ) α → Work σ π ρ
  | .ok _ w | .error _ w => w

/-- What a parameter is bound to, if it is bound. -/
def Work.binding (w : Work σ π ρ) (paramNumber : ℕ) : Option (Option Bytes) :=
  w.session.statement.usable.bind fun p => p.bindings paramNumber

/-- Whatever was bound before, each parameter is bound to the value that the message has for it. -/
def BindsExactly (db : DuckDB σ π ρ) (s : Session σ π) (formatCodes : List ℕ)
    (params : List (Option Bytes)) (resultFormatCodes : List ℕ) : Prop :=
  ∀ (b : Bindings) (k : ℕ) (hk : k < params.length), (workAfter (processBindMessage db
    ⟨s.setBindings b, (Message.bind formatCodes params resultFormatCodes).body, []⟩)).binding
      (k + 1) = some params[k]

variable {params : List (Option Bytes)} {formatCodes resultFormatCodes : List ℕ}

/-! ## What the handler leaves alone -/

def Keeps {α : Type} (k : ℕ) (handler : Handler σ π ρ α) : Prop :=
  ∀ w, (workAfter (handler w)).binding k = w.binding k

section Keeps
variable {α β : Type} {k : ℕ}

theorem Keeps.bind {x : Handler σ π ρ α} {f : α → Handler σ π ρ β} (hx : Keeps k x)
    (hf : ∀ a, Keeps k (f a)) : Keeps k (x >>= f) := by
  intro w
  have hk := hx w
  cases h : x w with
  | ok a w' =>
    rw [h] at hk
    rw [bind_of_ok h]
    exact (hf a w').trans hk
  | error =>
    rw [h] at hk
    rw [bind_of_error h]
    exact hk

theorem keeps_readMsg (read : Bytes → Option (α × Bytes)) :
    Keeps k (readMsg read : Handler σ π ρ α) := by
  intro w
  rw [readMsg]
  cases read w.message <;> rfl

theorem keeps_failWith (msg : String) (status : Status) :
    Keeps k (failWith msg status : Handler σ π ρ Unit) := fun _ => rfl

theorem keeps_readParam : Keeps k (readParam : Handler σ π ρ (Option Bytes)) := by
  refine .bind (keeps_readMsg _) fun n => ?_
  dsimp only
  split_ifs
  · exact fun _ => rfl
  · exact .bind (keeps_readMsg _) fun _ _ => rfl

variable (db : DuckDB σ π ρ)

theorem keeps_bindVarchar {paramNumber : ℕ} (hk : k ≠ paramNumber) (v : Option Bytes) :
    Keeps k (bindVarchar db paramNumber v) := by
  rintro ⟨s, msg, es⟩
  cases hp : s.statement.usable with
  | none =>
    rw [bindVarchar, bind_of_ok getSession_run]
    simp only [hp]
    rfl
  | some p =>
    rw [bindVarchar_run db hp]
    cases db.bind p.stmt paramNumber v with
    | some => rfl
    | none =>
      simp [workAfter, Work.binding, s.usable_setBindings hp, hp, Function.update_of_ne hk]

theorem keeps_bindParams {n i : ℕ} (hk : i + n < k) :
    Keeps k (bindParams db n i) := by
  induction n generalizing i with
  | zero => exact fun _ => rfl
  | succ n ih =>
    refine .bind keeps_readParam fun v => .bind (keeps_bindVarchar db (by omega) v) fun _ => ih ?_
    omega

end Keeps

/-! ## The message -/

theorem int16_toNat_of_le {n : ℕ} (hle : 2 ^ 15 ≤ n) (hlt : n < 2 ^ 16) : (int16 n).toNat = 0 := by
  have hneg : int16 n < 0 := by
    unfold int16
    rw [Int.bmod_neg_iff]
    all_goals push_cast; omega
  exact Int.toNat_of_nonpos hneg.le

section
variable (db : DuckDB σ π ρ) {s : Session σ π} {p : Prepared π} {es : List (Event π ρ)}

theorem keeps_bindEnd (k : ℕ) (nParams : ℤ) : Keeps k (bindEnd db p nParams) := by
  rw [bindEnd]
  split_ifs
  · exact keeps_failWith _ _
  refine .bind (keeps_readMsg _) fun _ => .bind (keeps_readMsg _) fun _ =>
    .bind (keeps_readMsg _) fun _ => ?_
  rintro ⟨s, msg, es⟩
  rw [bind_of_ok getSession_run]
  cases hp : s.statement.usable with
  | none => rfl
  | some p =>
    rw [Work.binding, Work.binding, hp]
    rfl

/-- A count that is negative as an `int16` ends the loops before it, so at most one parameter is
    bound: if the negative count is that of the format codes, the first code is taken for the
    number of the parameters. -/
theorem processBindMessage_of_many (hp : s.statement.usable = some p)
    (hwf : (Message.bind formatCodes params resultFormatCodes).WellFormed)
    (hformats : AllowedFormats formatCodes params) (hc : ¬ params.length < 2 ^ 15) :
    ∃ n msg, (int16 n).toNat ≤ 1 ∧
      processBindMessage db ⟨s, (Message.bind formatCodes params resultFormatCodes).body, []⟩ =
        (bindParams db (int16 n).toNat 0 >>= fun _ => bindEnd db p (int16 n)) ⟨s, msg, []⟩ := by
  obtain ⟨hco, hpa, -, -⟩ := hwf
  by_cases hfew : formatCodes.length < 2 ^ 15
  · refine ⟨_, _, ?_, processBindMessage_eq db hp hfew hpa⟩
    rw [int16_toNat_of_le (by omega) hpa]
    exact Nat.zero_le 1
  · obtain ⟨hnum, hle⟩ := hformats
    cases formatCodes with
    | nil => exact absurd (by decide) hfew
    | cons code =>
      have hcode : code ≤ 1 := hle code mem_cons_self
      rw [processBindMessage, bind_of_ok getSession_run]
      simp only [hp]
      rw [Message.body, bind_of_ok readMsg_unnamed, bind_of_ok requireUnnamed_nil,
        bind_of_ok readMsg_unnamed, bind_of_ok requireUnnamed_nil, codeBytes, append_assoc,
        bind_of_ok (readMsg_ok (pqGetMsgInt_bigEndian (by omega) _)),
        int16_toNat_of_le (by omega) hco, bind_of_ok (readMsg_ok rfl), flatMap_cons,
        append_assoc, bind_of_ok (readMsg_ok (pqGetMsgInt_bigEndian (by omega) _))]
      refine ⟨code, _, ?_, rfl⟩
      rw [int16_of_lt (by omega)]
      omega

theorem acceptsFrom_of_takes {stmt : π} {i : ℕ}
    (ht : ∀ k ≤ i + params.length, ∀ v, db.bind stmt k v = none) :
    AcceptsFrom db stmt i params := by
  induction params generalizing i with
  | nil => trivial
  | cons v params ih =>
    rw [length_cons] at ht
    exact ⟨ht _ (by omega) v, ih fun k hk => ht k (by omega)⟩

section
variable (hp : s.statement.usable = some p)
  (hwf : (Message.bind formatCodes params resultFormatCodes).WellFormed)
  (hformats : AllowedFormats formatCodes params)
include hp hwf hformats

theorem binding_of_few (hc : params.length < 2 ^ 15)
    (ht : ∀ k ≤ params.length, ∀ v, db.bind p.stmt k v = none) {k : ℕ}
    (hk : k < (passed (codeBytes 2 resultFormatCodes) params).length) :
    (workAfter (processBindMessage db ⟨s, (Message.bind formatCodes params resultFormatCodes).body,
      []⟩)).binding (k + 1) = some (passed (codeBytes 2 resultFormatCodes) params)[k] := by
  have hfew : formatCodes.length < 2 ^ 15 := by
    obtain ⟨hnum, -⟩ := hformats
    omega
  have haccepts : AcceptsFrom db p.stmt 0 (passed (codeBytes 2 resultFormatCodes) params) :=
    acceptsFrom_of_takes db (by simpa [length_passed] using ht)
  have ha : bindFrom p.bindings 0 (passed (codeBytes 2 resultFormatCodes) params) (0 + k + 1) =
      some _ := bindFrom_apply hk
  obtain ⟨-, hrun⟩ := (bindParams_spec db 0 hp hwf.2.2.2).resolve_right fun h => h.1 haccepts
  rw [processBindMessage_eq db hp hfew hwf.2.1, int16_of_lt hc, Int.toNat_natCast,
    bind_of_ok hrun, keeps_bindEnd, Work.binding, s.usable_setBindings hp, Option.bind_some,
    ← ha, Nat.zero_add]

theorem binding_of_many (hc : ¬ params.length < 2 ^ 15) :
    (workAfter (processBindMessage db ⟨s, (Message.bind formatCodes params resultFormatCodes).body,
      []⟩)).binding 2 = p.bindings 2 := by
  obtain ⟨n, msg, hn, hrun⟩ := processBindMessage_of_many db hp hwf hformats hc
  rw [hrun, (keeps_bindParams db (by omega)).bind fun _ => keeps_bindEnd db 2 _, Work.binding, hp]
  rfl

/-- **What a Bind passes.**  Every parameter is bound to its value exactly if there are fewer than
    32768 of them and the byte behind every value is a zero. -/
theorem bindsExactly_iff (htakes : ∀ k ≤ params.length, ∀ v, db.bind p.stmt k v = none) :
    BindsExactly db s formatCodes params resultFormatCodes ↔
      params.length < 2 ^ 15 ∧ Terminated resultFormatCodes params := by
  by_cases hcount : params.length < 2 ^ 15
  · rw [and_iff_right hcount, ← passed_eq_iff hwf.2.2.2 hwf.2.2.1]
    constructor
    · intro h
      refine ext_getElem (length_passed _) fun k hk hk' => ?_
      have hbound := h (fun _ => none) k hk'
      rw [binding_of_few db (s.usable_setBindings hp fun _ => none) hwf hformats hcount htakes
        hk] at hbound
      exact Option.some.inj hbound
    · intro h b k hk
      rw [binding_of_few db (s.usable_setBindings hp b) hwf hformats hcount htakes
        (by rwa [length_passed])]
      simp [h]
  · refine iff_of_false (fun h => ?_) fun h => hcount h.1
    have hbound := h (fun _ => none) 1 (by omega)
    rw [binding_of_many db (s.usable_setBindings hp fun _ => none) hwf hformats hcount] at hbound
    cases hbound

end

end

/-- A DuckDB that takes every value. -/
def anyParams : DuckDB Unit Bytes Bytes where
  prepare _ query := .ok query
  nparams _ := 2
  bind _ _ _ := none
  execute _ query _ _ := ((), [query], .success)

/-- A session after Parse. -/
def parsedSession : Session Unit Bytes := ⟨(), .parsed ⟨[], false, fun _ => none⟩, false⟩

theorem bindsExactly_two : BindsExactly anyParams parsedSession [] [some [97], some []] [] :=
  (bindsExactly_iff anyParams rfl (by decide) ⟨.inl (by decide), by simp⟩ fun _ _ _ => rfl).2
    ⟨by decide, by decide, by decide, by decide, by decide, trivial⟩

/-- The value in front of a NULL is read on into the length of the NULL. -/
theorem value_before_null_runs_on :
    ¬ BindsExactly anyParams parsedSession [] [some [97], none] [] := by
  intro h
  have hbound := h (fun _ => none) 0 (by decide)
  revert hbound
  decide +kernel

end PgLake.Server
