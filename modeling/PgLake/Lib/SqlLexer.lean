/-
  The lexer of Postgres, as far as it tells literals, identifiers, parameters and comments apart.
  Operators, numbers and punctuation are read character by character.
-/
import PgLake.Lib.Json

namespace PgLake.Lib

open List

inductive SqlToken where
  | literal (value : Text)
  | escapeLiteral (raw : Text)
  | identifier (name : Text)
  | parameter (digits : Text)
  | other (c : Char)
  deriving DecidableEq

namespace SqlLexer

inductive Mode where
  | start
  | word (acc : Text)
  | quoted (acc : Text)
  | quotedEnd (acc : Text)
  | literal (acc : Text)
  | literalEnd (acc : Text)
  | escape (acc : Text)
  | escapeNext (acc : Text)
  | escapeEnd (acc : Text)
  | dollarStart (tag : Text)
  /-- within a dollar-quoted literal, `pending` being what follows the last dollar sign -/
  | dollar (tag value : Text) (pending : Option Text)
  | parameter (digits : Text)
  | dash
  | lineComment
  | slash
  | blockComment (depth : ℕ) (last : Option Char)
  deriving DecidableEq

def isSpace (c : Char) : Bool :=
  c = ' ' || c = '\t' || c = '\n' || c = '\r' || c = '\x0b' || c = '\x0c'

/-- The start of an identifier and of the tag of a dollar-quoted literal. -/
def isIdentStart (c : Char) : Bool := c.isAlpha || c = '_' || decide (128 ≤ c.toNat)

def isTagPart (tag : Text) (c : Char) : Bool := isIdentStart c || (!tag.isEmpty && c.isDigit)

def isIdentPart (c : Char) : Bool := isIdentStart c || c.isDigit || c = '$'

def stepStart (c : Char) : Mode × List SqlToken :=
  if isSpace c then (.start, [])
  else if c = '\'' then (.literal [], [])
  else if c = '"' then (.quoted [], [])
  else if c = '$' then (.dollarStart [], [])
  else if c = '-' then (.dash, [])
  else if c = '/' then (.slash, [])
  else if isIdentStart c then (.word [c], [])
  else (.start, [.other c])

/-- The tokens that end before the character, and what the character begins. -/
def stepAfter (tokens : List SqlToken) (c : Char) : Mode × List SqlToken :=
  ((stepStart c).1, tokens ++ (stepStart c).2)

def stepWord (acc : Text) (c : Char) : Mode × List SqlToken :=
  if isIdentPart c then (.word (acc ++ [c]), [])
  else if c = '\'' ∧ (acc = ['e'] ∨ acc = ['E']) then (.escape [], [])
  else stepAfter [.identifier acc] c

def stepDollarStart (tag : Text) (c : Char) : Mode × List SqlToken :=
  if c = '$' then (.dollar tag [] none, [])
  else if isTagPart tag c then (.dollarStart (tag ++ [c]), [])
  else if tag = [] then
    if c.isDigit then (.parameter [c], []) else stepAfter [.other '$'] c
  -- not the start of a literal: the dollar sign alone, then an identifier
  else ((stepWord tag c).1, .other '$' :: (stepWord tag c).2)

def stepDollar (tag value : Text) (pending : Option Text) (c : Char) : Mode × List SqlToken :=
  match pending with
  | none => if c = '$' then (.dollar tag value (some []), []) else (.dollar tag (value ++ [c]) none, [])
  | some w =>
    if c = '$' then
      if w = tag then (.start, [.literal value]) else (.dollar tag (value ++ '$' :: w) (some []), [])
    else if isTagPart w c then (.dollar tag value (some (w ++ [c])), [])
    else (.dollar tag (value ++ '$' :: w ++ [c]) none, [])

def stepBlockComment (depth : ℕ) (last : Option Char) (c : Char) : Mode × List SqlToken :=
  if last = some '/' ∧ c = '*' then (.blockComment (depth + 1) none, [])
  else if last = some '*' ∧ c = '/' then
    match depth with
    | 0 => (.start, [])
    | depth + 1 => (.blockComment depth none, [])
  else (.blockComment depth (some c), [])

def step (mode : Mode) (c : Char) : Mode × List SqlToken :=
  match mode with
  | .start => stepStart c
  | .word acc => stepWord acc c
  | .quoted acc => if c = '"' then (.quotedEnd acc, []) else (.quoted (acc ++ [c]), [])
  | .quotedEnd acc =>
    if c = '"' then (.quoted (acc ++ [c]), []) else stepAfter [.identifier acc] c
  | .literal acc => if c = '\'' then (.literalEnd acc, []) else (.literal (acc ++ [c]), [])
  | .literalEnd acc =>
    if c = '\'' then (.literal (acc ++ [c]), []) else stepAfter [.literal acc] c
  | .escape acc =>
    if c = '\'' then (.escapeEnd acc, [])
    else if c = '\\' then (.escapeNext (acc ++ [c]), [])
    else (.escape (acc ++ [c]), [])
  | .escapeNext acc => (.escape (acc ++ [c]), [])
  | .escapeEnd acc =>
    if c = '\'' then (.escape (acc ++ [c]), []) else stepAfter [.escapeLiteral acc] c
  | .dollarStart tag => stepDollarStart tag c
  | .dollar tag value pending => stepDollar tag value pending c
  | .parameter digits =>
    if c.isDigit then (.parameter (digits ++ [c]), []) else stepAfter [.parameter digits] c
  | .dash => if c = '-' then (.lineComment, []) else stepAfter [.other '-'] c
  | .lineComment => if c = '\n' ∨ c = '\r' then (.start, []) else (.lineComment, [])
  | .slash => if c = '*' then (.blockComment 0 none, []) else stepAfter [.other '/'] c
  | .blockComment depth last => stepBlockComment depth last c

/-- The end of the text; `none` for a literal, identifier or comment that is not closed. -/
def finish : Mode → Option (List SqlToken)
  | .start | .lineComment => some []
  | .word acc | .quotedEnd acc => some [.identifier acc]
  | .literalEnd acc => some [.literal acc]
  | .escapeEnd acc => some [.escapeLiteral acc]
  | .dollarStart [] => some [.other '$']
  | .dollarStart tag => some [.other '$', .identifier tag]
  | .parameter digits => some [.parameter digits]
  | .dash => some [.other '-']
  | .slash => some [.other '/']
  | .quoted _ | .literal _ | .escape _ | .escapeNext _ | .dollar _ _ _ | .blockComment _ _ => none

end SqlLexer

open SqlLexer

def sqlLexer : Scanner Mode Char SqlToken := ⟨fun mode c => some (step mode c), finish⟩

def lexSql (t : Text) : Option (List SqlToken) := sqlLexer.scan .start t

/-! ## Two adjacent characters -/

section Twice

variable {α : Type*} {c : α}

theorem exists_first_twice {t : List α} (h : [c, c] <:+: t) :
    ∃ u w, t = u ++ c :: c :: w ∧ ¬[c, c] <:+: u ++ [c] := by
  induction t with
  | nil => simp at h
  | cons d t ih =>
    by_cases hpre : [c, c] <+: d :: t
    · obtain ⟨w, hw⟩ := hpre
      refine ⟨[], w, hw.symm, fun hin => ?_⟩
      have := hin.length_le
      simp at this
    · have ht : [c, c] <:+: t := (infix_cons_iff.mp h).resolve_left hpre
      obtain ⟨u, w, rfl, hf⟩ := ih ht
      refine ⟨d :: u, w, rfl, fun hin => ?_⟩
      rcases infix_cons_iff.mp hin with hh | hr
      · -- the first two characters are the same before the end of the text
        refine hpre (cons_prefix_cons.mpr ⟨(cons_prefix_cons.mp hh).1, ?_⟩)
        have hsecond := (cons_prefix_cons.mp hh).2
        cases u with
        | nil => exact prefix_append [c] _
        | cons => exact cons_prefix_cons.mpr ⟨(cons_prefix_cons.mp hsecond).1, by simp⟩
      · exact hf hr

theorem twice_append_cons_iff {d : α} (hd : d ≠ c) {a b : List α} :
    [c, c] <:+: a ++ d :: b ↔ [c, c] <:+: a ∨ [c, c] <:+: b := by
  induction a with
  | nil =>
    rw [nil_append, infix_cons_iff]
    constructor
    · rintro (hpre | hb)
      · exact absurd (cons_prefix_cons.mp hpre).1.symm hd
      · exact .inr hb
    · rintro (ha | hb)
      · simp at ha
      · exact .inr hb
  | cons e a ih =>
    rw [cons_append, infix_cons_iff, infix_cons_iff, ih, or_assoc]
    refine or_congr_left ?_
    cases a with
    | nil => simp [Ne.symm hd]
    | cons => simp

theorem twice_cons_iff {d : α} (hd : d ≠ c) {b : List α} : [c, c] <:+: d :: b ↔ [c, c] <:+: b := by
  rw [← nil_append (d :: b), twice_append_cons_iff hd]
  exact or_iff_right (by simp)

theorem twice_append_singleton_iff {a : List α} :
    [c, c] <:+: a ++ [c] ↔ [c, c] <:+: a ∨ a.getLast? = some c := by
  have hs : ∀ d : α, ¬[c, c] <:+: [d] := fun d h => by simpa using h.length_le
  induction a with
  | nil => simpa using hs c
  | cons d a ih =>
    cases a with
    | nil =>
      rw [singleton_append, infix_cons_iff]
      simp [hs, eq_comm]
    | cons =>
      rw [cons_append, infix_cons_iff, infix_cons_iff, getLast?_cons_cons, or_assoc]
      refine or_congr ?_ ih
      simp

theorem twice_append_of_not_mem {e b : List α} (h : c ∉ e) :
    [c, c] <:+: e ++ b ↔ [c, c] <:+: b := by
  induction e with
  | nil => rfl
  | cons d e ih =>
    rw [mem_cons, not_or] at h
    rw [cons_append, infix_cons_iff, ih h.2]
    exact or_iff_right fun hpre => h.1 (cons_prefix_cons.mp hpre).1

theorem twice_flatMap_iff {f : α → List α} (hk : f c = [c]) (ho : ∀ d, d ≠ c → c ∉ f d ∧ f d ≠ [])
    {s : List α} : [c, c] <:+: s.flatMap f ↔ [c, c] <:+: s := by
  have hh : ∀ s : List α, [c] <+: s.flatMap f ↔ [c] <+: s := by
    intro s
    cases s with
    | nil => rfl
    | cons d s =>
      rcases Classical.em (d = c) with rfl | hd
      · simp [hk]
      · obtain ⟨hm, hne⟩ := ho d hd
        cases hfd : f d with
        | nil => exact absurd hfd hne
        | cons e l =>
          have he : c ≠ e := fun h => hm (by rw [hfd, h]; exact mem_cons_self)
          simp [hfd, he, Ne.symm hd]
  induction s with
  | nil => rfl
  | cons d s ih =>
    rcases Classical.em (d = c) with rfl | hd
    · rw [flatMap_cons, hk, singleton_append, infix_cons_iff,
        infix_cons_iff, cons_prefix_cons, cons_prefix_cons, hh]
      exact or_congr_right ih
    · rw [flatMap_cons, twice_append_of_not_mem (ho d hd).1, infix_cons_iff]
      refine ih.trans (or_iff_right fun hpre => ?_).symm
      exact hd (cons_prefix_cons.mp hpre).1.symm

end Twice

/-! ## Dollar-quoted literals -/

/-- The dollar sign that may begin the end of a literal, and what follows it. -/
def pendingText : Option Text → Text
  | none => []
  | some w => '$' :: w

theorem run_dollar {u v : Text} {pending : Option Text}
    (h : ¬['$', '$'] <:+: pendingText pending ++ u) :
    ∃ v' pending', sqlLexer.run (.dollar [] v pending) u =
        some (.dollar [] v' pending', []) ∧
      v' ++ pendingText pending' = v ++ (pendingText pending ++ u) := by
  induction u generalizing v pending with
  | nil => exact ⟨v, pending, rfl, by rw [append_nil]⟩
  | cons c u ih =>
    -- one character is read, and the rest from there
    have hn : ∀ v₁ pending₁, step (.dollar [] v pending) c =
          (.dollar [] v₁ pending₁, []) →
        v₁ ++ (pendingText pending₁ ++ u) = v ++ (pendingText pending ++ c :: u) →
        pendingText pending₁ ++ u <:+ pendingText pending ++ c :: u →
        ∃ v' pending', sqlLexer.run (.dollar [] v pending) (c :: u) =
            some (.dollar [] v' pending', []) ∧
          v' ++ pendingText pending' = v ++ (pendingText pending ++ c :: u) := by
      intro v₁ pending₁ hs hr hsu
      obtain ⟨v', pending', hrun, heq⟩ :=
        @ih v₁ pending₁ fun hin => h (hin.trans hsu.isInfix)
      refine ⟨v', pending', ?_, heq.trans hr⟩
      show (some (step (.dollar [] v pending) c)).bind _ = _
      rw [hs, Option.bind_some, hrun]
      rfl
    cases pending with
    | none =>
      by_cases hc : c = '$'
      · subst hc
        exact hn v (some []) rfl rfl (suffix_refl _)
      · exact hn (v ++ [c]) none (by simp [step, stepDollar, hc])
          (by simp [pendingText]) (suffix_cons c u)
    | some w =>
      by_cases hc : c = '$'
      · subst hc
        have hw : w ≠ [] := by
          rintro rfl
          exact h (prefix_append ['$', '$'] u).isInfix
        exact hn (v ++ '$' :: w) (some []) (by simp [step, stepDollar, hw])
          (by simp [pendingText]) (suffix_append ('$' :: w) _)
      · by_cases htag : isTagPart w c = true
        · exact hn v (some (w ++ [c])) (by simp [step, stepDollar, hc, htag])
            (by simp [pendingText]) (by simp [pendingText])
        · exact hn (v ++ '$' :: w ++ [c]) none (by simp [step, stepDollar, hc, htag])
            (by simp [pendingText])
            ((suffix_cons c u).trans (suffix_append ('$' :: w) _))

/-- **A literal that begins with two dollar signs ends at the next two.** -/
theorem scan_dollar {u : Text} (h : ¬['$', '$'] <:+: u ++ ['$']) (rest : Text) :
    sqlLexer.scan (.dollar [] [] none) (u ++ '$' :: '$' :: rest) =
      (sqlLexer.scan .start rest).map (.literal u :: ·) := by
  have hu : ¬['$', '$'] <:+: pendingText none ++ u := fun hin =>
    h (hin.trans (prefix_append u ['$']).isInfix)
  obtain ⟨v, pending, hrun, heq⟩ := @run_dollar u [] none hu
  rw [Scanner.scan_append_of_run _ hrun]
  -- the first of the two signs
  have hs : step (.dollar [] v pending) '$' = (.dollar [] u (some []), []) := by
    cases pending with
    | none =>
      obtain rfl : v = u := by simpa [pendingText] using heq
      rfl
    | some w =>
      have hw : w ≠ [] := by
        rintro rfl
        refine h ?_
        rw [show u = v ++ ['$'] from heq.symm, append_assoc]
        exact (suffix_append v ['$', '$']).isInfix
      rw [show u = v ++ '$' :: w from heq.symm]
      simp [step, stepDollar, hw]
  have hend : step (.dollar [] u (some [])) '$' = (.start, [.literal u]) := rfl
  rw [Scanner.scan_cons_of_step _ (congrArg some hs),
    Scanner.scan_cons_of_step _ (congrArg some hend)]
  cases sqlLexer.scan .start rest <;> rfl

end PgLake.Lib
