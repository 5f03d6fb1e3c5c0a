/-
  Scanners: machines that read a text from left to right, one character at a
  time, emit tokens on the way and may refuse a character.
-/
import Mathlib.Data.List.Basic

namespace PgLake.Lib

/-- A scanner over characters `α` with states `σ` and tokens `β`. -/
structure Scanner (σ α β : Type*) where
  /-- Reads one character: the next state and the tokens completed by it. -/
  step : σ → α → Option (σ × List β)
  /-- The tokens that are completed by the end of the text. -/
  finish : σ → Option (List β)

namespace Scanner

variable {σ α β : Type*} (S : Scanner σ α β)

/-- Reads a text from the state `s`. -/
def run : σ → List α → Option (σ × List β)
  | s, [] => some (s, [])
  | s, c :: cs => (S.step s c).bind fun p => (run p.1 cs).map fun q => (q.1, p.2 ++ q.2)

def scan (s : σ) (text : List α) : Option (List β) :=
  (S.run s text).bind fun p => (S.finish p.1).map (p.2 ++ ·)

variable (s : σ)

@[simp] theorem run_nil : S.run s [] = some (s, []) := rfl

theorem run_cons (c : α) (cs : List α) :
    S.run s (c :: cs) = (S.step s c).bind fun p => (S.run p.1 cs).map fun q => (q.1, p.2 ++ q.2) :=
  rfl

theorem run_append (a b : List α) :
    S.run s (a ++ b) = (S.run s a).bind fun p => (S.run p.1 b).map fun q => (q.1, p.2 ++ q.2) := by
  induction a generalizing s with
  | nil => simp
  | cons c cs ih =>
    rw [List.cons_append, run_cons, run_cons]
    cases S.step s c with
    | none => rfl
    | some p =>
      simp only [Option.bind_some, ih]
      cases S.run p.1 cs with
      | none => rfl
      | some q => simp [Function.comp_def]

theorem scan_append (a b : List α) :
    S.scan s (a ++ b) = (S.run s a).bind fun p => (S.scan p.1 b).map (p.2 ++ ·) := by
  rw [scan, run_append]
  cases S.run s a with
  | none => rfl
  | some p =>
    simp only [Option.bind_some, scan]
    cases S.run p.1 b with
    | none => rfl
    | some q => simp [Function.comp_def]

theorem scan_cons (c : α) (cs : List α) :
    S.scan s (c :: cs) = (S.step s c).bind fun p => (S.scan p.1 cs).map (p.2 ++ ·) := by
  rw [← List.singleton_append, scan_append, run_cons]
  cases S.step s c <;> simp

theorem scan_append_of_run {s s' : σ} {a : List α} {out : List β}
    (h : S.run s a = some (s', out)) (b : List α) :
    S.scan s (a ++ b) = (S.scan s' b).map (out ++ ·) := by
  rw [scan_append, h, Option.bind_some]

theorem scan_cons_of_step {s s' : σ} {c : α} {out : List β}
    (h : S.step s c = some (s', out)) (cs : List α) :
    S.scan s (c :: cs) = (S.scan s' cs).map (out ++ ·) := by
  rw [scan_cons, h, Option.bind_some]

theorem run_append_of_run {s s' : σ} {a : List α} {out : List β}
    (h : S.run s a = some (s', out)) (b : List α) :
    S.run s (a ++ b) = (S.run s' b).map fun q => (q.1, out ++ q.2) := by
  rw [run_append, h, Option.bind_some]

end Scanner

end PgLake.Lib
