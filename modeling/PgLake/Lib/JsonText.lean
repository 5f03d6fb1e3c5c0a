/-
  JSON texts: the scanner from characters to tokens, the printing of values, and texts that
  denote a value.

  A number ends at the next character that can not continue it,
  so the lemmas `lex_*` need a `Delimited` rest.
-/
import PgLake.Lib.Json

namespace PgLake.Lib

open List

/-! ## The scanner -/

namespace JsonLexer

/-- Where the scanner stands: between tokens, or in a string, after its
backslash, in a `\u` escape (after a first half of a surrogate pair or not),
between the two halves of a pair, in a number or in a word. -/
inductive Mode where
  | between
  | string (acc : Text)
  | escape (acc : Text)
  | unicode (acc : Text) (high : Option Nat) (digits : List Nat)
  | pair (acc : Text) (high : Nat)
  | pairEscape (acc : Text) (high : Nat)
  | number (acc : Text)
  | word (acc : Text)
deriving DecidableEq

def isSpace (c : Char) : Bool := c = ' ' || c = '\t' || c = '\n' || c = '\r'

def isNumberPart (c : Char) : Bool :=
  c.isDigit || c = '.' || c = 'e' || c = 'E' || c = '+' || c = '-'

def punctuation (c : Char) : Option JsonToken :=
  if c = '{' then some .lbrace else if c = '}' then some .rbrace
  else if c = '[' then some .lbracket else if c = ']' then some .rbracket
  else if c = ':' then some .colon else if c = ',' then some .comma
  else none

def keyword (w : Text) : Option JsonToken :=
  if w = "true".toList then some (.bool true)
  else if w = "false".toList then some (.bool false)
  else if w = "null".toList then some .null
  else none

def hexValue (c : Char) : Option Nat :=
  if c.isDigit then some (c.toNat - '0'.toNat)
  else if 'a' ≤ c ∧ c ≤ 'f' then some (c.toNat - 'a'.toNat + 10)
  else if 'A' ≤ c ∧ c ≤ 'F' then some (c.toNat - 'A'.toNat + 10)
  else none

def stepBetween (c : Char) : Option (Mode × List JsonToken) :=
  match punctuation c with
  | some t => some (.between, [t])
  | none =>
    if isSpace c then some (.between, [])
    else if c = '"' then some (.string [], [])
    else if c.isDigit || c = '-' then some (.number [c], [])
    else if c.isAlpha then some (.word [c], [])
    else none

def stepString (acc : Text) (c : Char) : Option (Mode × List JsonToken) :=
  if c = '"' then some (.between, [.str acc])
  else if c = '\\' then some (.escape acc, [])
  else if c.toNat < 32 then none
  else some (.string (acc ++ [c]), [])

def escaped (c : Char) : Option Char :=
  if c = '"' ∨ c = '\\' ∨ c = '/' then some c
  else if c = 'b' then some '\x08'
  else if c = 'f' then some '\x0c'
  else if c = 'n' then some '\n'
  else if c = 'r' then some '\r'
  else if c = 't' then some '\t'
  else none

def stepEscape (acc : Text) (c : Char) : Option (Mode × List JsonToken) :=
  if c = 'u' then some (.unicode acc none [], [])
  else (escaped c).map fun d => (.string (acc ++ [d]), [])

/-- The four digits of a `\u` escape are complete. -/
def codeUnit (acc : Text) (high : Option Nat) (u : Nat) : Option Mode :=
  match high with
  | none =>
    if 0xD800 ≤ u ∧ u < 0xDC00 then some (.pair acc u)
    else if 0xDC00 ≤ u ∧ u < 0xE000 then none
    else some (.string (acc ++ [Char.ofNat u]))
  | some h =>
    if 0xDC00 ≤ u ∧ u < 0xE000 then
      some (.string (acc ++ [Char.ofNat (0x10000 + (h - 0xD800) * 0x400 + (u - 0xDC00))]))
    else none

def stepUnicode (acc : Text) (high : Option Nat) (digits : List Nat) (c : Char) :
    Option (Mode × List JsonToken) :=
  (hexValue c).bind fun d =>
    if digits.length < 3 then some (.unicode acc high (digits ++ [d]), [])
    else (codeUnit acc high ((digits ++ [d]).foldl (fun n d => 16 * n + d) 0)).map (·, [])

def step (mode : Mode) (c : Char) : Option (Mode × List JsonToken) :=
  match mode with
  | .between => stepBetween c
  | .string acc => stepString acc c
  | .escape acc => stepEscape acc c
  | .unicode acc high digits => stepUnicode acc high digits c
  | .pair acc high => if c = '\\' then some (.pairEscape acc high, []) else none
  | .pairEscape acc high => if c = 'u' then some (.unicode acc (some high) [], []) else none
  | .number acc =>
    if isNumberPart c then some (.number (acc ++ [c]), [])
    else (Decimal.parse acc).bind fun d => (stepBetween c).map fun p => (p.1, .num d :: p.2)
  | .word acc =>
    if c.isAlpha then some (.word (acc ++ [c]), [])
    else (keyword acc).bind fun t => (stepBetween c).map fun p => (p.1, t :: p.2)

def finish : Mode → Option (List JsonToken)
  | .between => some []
  | .number acc => (Decimal.parse acc).map ([.num ·])
  | .word acc => (keyword acc).map ([·])
  | _ => none

end JsonLexer

open JsonLexer

def jsonLexer : Scanner Mode Char JsonToken := ⟨step, finish⟩

def lex (t : Text) : Option (List JsonToken) := jsonLexer.scan .between t

def parseJson (t : Text) : Option Json := (lex t).bind JsonParser.parseTokens

def Delimited (rest : Text) : Prop := ∀ c ∈ rest.head?, isNumberPart c = false ∧ c.isAlpha = false

theorem delimited_nil : Delimited [] := by simp [Delimited]

variable {c : Char} {rest : Text}

theorem delimited_cons (h : isNumberPart c = false ∧ c.isAlpha = false) :
    Delimited (c :: rest) := by simpa [Delimited] using h

@[simp] theorem lex_nil : lex [] = some [] := rfl

theorem lex_space_of (h : punctuation c = none ∧ isSpace c = true) (rest : Text) :
    lex (c :: rest) = lex rest := by
  have hs : jsonLexer.step .between c = some (.between, []) := by
    simp [jsonLexer, step, stepBetween, h]
  rw [lex, jsonLexer.scan_cons_of_step hs rest]
  simp [lex]

theorem lex_punctuation {t : JsonToken} (h : punctuation c = some t) (rest : Text) :
    lex (c :: rest) = (lex rest).map (t :: ·) := by
  have hs : jsonLexer.step .between c = some (.between, [t]) := by
    simp [jsonLexer, step, stepBetween, h]
  exact jsonLexer.scan_cons_of_step hs rest

@[simp] theorem lex_space (rest : Text) : lex (' ' :: rest) = lex rest :=
  lex_space_of (by decide) rest

@[simp] theorem lex_newline (rest : Text) : lex ('\n' :: rest) = lex rest :=
  lex_space_of (by decide) rest

@[simp] theorem lex_lbrace (rest : Text) : lex ('{' :: rest) = (lex rest).map (.lbrace :: ·) :=
  lex_punctuation rfl rest

@[simp] theorem lex_rbrace (rest : Text) : lex ('}' :: rest) = (lex rest).map (.rbrace :: ·) :=
  lex_punctuation rfl rest

@[simp] theorem lex_lbracket (rest : Text) : lex ('[' :: rest) = (lex rest).map (.lbracket :: ·) :=
  lex_punctuation rfl rest

@[simp] theorem lex_rbracket (rest : Text) : lex (']' :: rest) = (lex rest).map (.rbracket :: ·) :=
  lex_punctuation rfl rest

@[simp] theorem lex_colon (rest : Text) : lex (':' :: rest) = (lex rest).map (.colon :: ·) :=
  lex_punctuation rfl rest

@[simp] theorem lex_comma (rest : Text) : lex (',' :: rest) = (lex rest).map (.comma :: ·) :=
  lex_punctuation rfl rest

/-! ## Strings -/

def escapeChar (c : Char) : Text :=
  if c = '"' then "\\\"".toList
  else if c = '\\' then "\\\\".toList
  else if c = '\x08' then "\\b".toList
  else if c = '\x0c' then "\\f".toList
  else if c = '\n' then "\\n".toList
  else if c = '\r' then "\\r".toList
  else if c = '\t' then "\\t".toList
  else if c.toNat < 32 then
    "\\u00".toList ++ [Nat.digitChar (c.toNat / 16), Nat.digitChar (c.toNat % 16)]
  else [c]

/-- The quoted string (`escape_json`). -/
def escapeJson (s : Text) : Text := '"' :: (s.flatMap escapeChar ++ ['"'])

def isPlain (c : Char) : Bool := c ≠ '"' && c ≠ '\\' && !(decide (c.toNat < 32))

theorem isPlain_iff : isPlain c = true ↔ c ≠ '"' ∧ c ≠ '\\' ∧ 32 ≤ c.toNat := by
  simp [isPlain, and_assoc]

theorem stepString_of_isPlain (h : isPlain c = true) (acc : Text) :
    stepString acc c = some (.string (acc ++ [c]), []) := by
  obtain ⟨hq, hb, hc⟩ := isPlain_iff.mp h
  rw [stepString, if_neg hq, if_neg hb, if_neg (by omega)]

theorem escapeChar_of_isPlain (h : isPlain c = true) : escapeChar c = [c] := by
  obtain ⟨hq, hb, hc⟩ := isPlain_iff.mp h
  have hne : ∀ d : Char, d.toNat < 32 → c ≠ d := by
    rintro d hd rfl
    omega
  simp [escapeChar, hq, hb, hne '\x08' (by decide), hne '\x0c' (by decide),
    hne '\n' (by decide), hne '\r' (by decide), hne '\t' (by decide), hc]

def quoted (s : Text) : Text := '"' :: (s ++ ['"'])

theorem escapeJson_of_isPlain {s : Text} (h : ∀ c ∈ s, isPlain c = true) :
    escapeJson s = quoted s := by
  have hmap : s.flatMap escapeChar = s := by
    induction s with
    | nil => rfl
    | cons c s ih =>
      rw [forall_mem_cons] at h
      rw [flatMap_cons, escapeChar_of_isPlain h.1, ih h.2, singleton_append]
  rw [escapeJson, hmap, quoted]

theorem escapeChar_cases {motive : Char → Prop} (plain : ∀ c, isPlain c = true → motive c)
    (control : ∀ n < 32, motive (Char.ofNat n)) (quote : motive '"') (backslash : motive '\\')
    (c : Char) : motive c := by
  by_cases hp : isPlain c = true
  · exact plain c hp
  · by_cases hlow : c.toNat < 32
    · rw [← Char.ofNat_toNat c]
      exact control c.toNat hlow
    · rw [isPlain_iff] at hp
      rcases Classical.em (c = '"') with rfl | hq
      · exact quote
      · obtain rfl : c = '\\' := by
          by_contra hb
          exact hp ⟨hq, hb, by omega⟩
        exact backslash

theorem run_escapeChar (acc : Text) (c : Char) :
    jsonLexer.run (.string acc) (escapeChar c) = some (.string (acc ++ [c]), []) := by
  induction c using escapeChar_cases with
  | plain c hp =>
    rw [escapeChar_of_isPlain hp, jsonLexer.run_cons]
    show (stepString acc c).bind _ = _
    rw [stepString_of_isPlain hp]
    rfl
  | control n => interval_cases n <;> rfl
  | quote => rfl
  | backslash => rfl

theorem run_flatMap_escapeChar (acc s : Text) :
    jsonLexer.run (.string acc) (s.flatMap escapeChar) = some (.string (acc ++ s), []) := by
  induction s generalizing acc with
  | nil => simp
  | cons c s ih =>
    rw [flatMap_cons, jsonLexer.run_append_of_run (run_escapeChar acc c), ih]
    simp

@[simp] theorem lex_escapeJson (s rest : Text) :
    lex (escapeJson s ++ rest) = (lex rest).map (.str s :: ·) := by
  have hrun : jsonLexer.run .between (escapeJson s) = some (.between, [.str s]) := by
    show (jsonLexer.run (.string []) (s.flatMap escapeChar ++ ['"'])).map _ = _
    rw [jsonLexer.run_append_of_run (run_flatMap_escapeChar [] s)]
    rfl
  exact jsonLexer.scan_append_of_run hrun rest

theorem lex_quoted {s : Text} (h : ∀ c ∈ s, isPlain c = true) (rest : Text) :
    lex (quoted s ++ rest) = (lex rest).map (.str s :: ·) := by
  rw [← escapeJson_of_isPlain h, lex_escapeJson]

theorem lex_append_of_run {t : Text} {ts : List JsonToken}
    (h : jsonLexer.run .between t = some (.between, ts)) (rest : Text) :
    lex (t ++ rest) = (lex rest).map (ts ++ ·) :=
  jsonLexer.scan_append_of_run h rest

/-! ## Numbers and words -/

theorem run_number {acc ds : Text} (h : ∀ c ∈ ds, isNumberPart c = true) :
    jsonLexer.run (.number acc) ds = some (.number (acc ++ ds), []) := by
  induction ds generalizing acc with
  | nil => simp
  | cons c ds ih =>
    rw [List.forall_mem_cons] at h
    have hs : jsonLexer.step (.number acc) c = some (.number (acc ++ [c]), []) := by
      simp [jsonLexer, step, h.1]
    rw [jsonLexer.run_cons, hs, Option.bind_some, ih h.2]
    simp

theorem scan_number {acc : Text} {d : Decimal} (hd : Decimal.parse acc = some d)
    (hr : Delimited rest) :
    jsonLexer.scan (.number acc) rest = (lex rest).map (.num d :: ·) := by
  rcases rest with _ | ⟨c, cs⟩
  · simp [Scanner.scan, jsonLexer, finish, hd]
  · have hc : isNumberPart c = false := (hr c rfl).1
    rw [lex, jsonLexer.scan_cons, jsonLexer.scan_cons]
    simp only [jsonLexer, step, hc, hd, Option.bind_some, Bool.false_eq_true, if_false]
    cases stepBetween c with
    | none => rfl
    | some p => simp [Function.comp_def]

theorem stepBetween_of_number (h : c.isDigit = true ∨ c = '-') :
    stepBetween c = some (.number [c], []) := by
  have hne : ∀ d : Char, (d.isDigit || decide (d = '-')) = false → c ≠ d := by
    rintro d hd rfl
    rcases h with h | rfl
    · simp [h] at hd
    · exact absurd hd (by decide)
  have hpunct : punctuation c = none := by
    simp [punctuation, hne '{' (by decide), hne '}' (by decide), hne '[' (by decide),
      hne ']' (by decide), hne ':' (by decide), hne ',' (by decide)]
  have hs : isSpace c = false := by
    simp [isSpace, hne ' ' (by decide), hne '\t' (by decide), hne '\n' (by decide),
      hne '\r' (by decide)]
  have hf : (c.isDigit || decide (c = '-')) = true := by simpa using h
  simp [stepBetween, hpunct, hs, hne '"' (by decide), hf]

open Decimal Function Json

theorem lex_number {t : Text} {d : Decimal} (hd : parse t = some d)
    (hp : ∀ c ∈ t, isNumberPart c = true) (hh : ∀ c ∈ t.head?, c.isDigit = true ∨ c = '-')
    (hr : Delimited rest) :
    lex (t ++ rest) = (lex rest).map (.num d :: ·) := by
  rcases t with _ | ⟨c, cs⟩
  · cases hd
  · rw [forall_mem_cons] at hp
    have hs : jsonLexer.step .between c = some (.number [c], []) :=
      stepBetween_of_number (hh c rfl)
    have hrun : jsonLexer.run .between (c :: cs) = some (.number (c :: cs), []) := by
      rw [jsonLexer.run_cons, hs, Option.bind_some, run_number hp.2]
      rfl
    rw [lex, jsonLexer.scan_append_of_run hrun, scan_number hd hr]
    simp [comp_def]

theorem isNumberPart_of_isDigit (h : c.isDigit = true) : isNumberPart c = true := by
  simp [isNumberPart, h]

theorem head_toDigits_append {n : Nat} {t : Text}
    (h : c ∈ (Nat.toDigits 10 n ++ t).head?) : c.isDigit = true := by
  rw [head?_append_of_ne_nil _ Nat.toDigits_ne_nil] at h
  exact isDigit_of_mem_toDigits (mem_of_mem_head? h)

theorem lex_decimal (d : Decimal) (hr : Delimited rest) :
    lex (d.text ++ rest) = (lex rest).map (.num d :: ·) := by
  refine lex_number d.parse_text ?_ ?_ hr
  · have hd : ∀ n, ∀ c ∈ Nat.toDigits 10 n, isNumberPart c = true :=
      fun n c hc => isNumberPart_of_isDigit (isDigit_of_mem_toDigits hc)
    have hpad : ∀ n s, ∀ c ∈ (Nat.toDigits 10 n).leftpad s '0', isNumberPart c = true := by
      intro n s
      refine forall_mem_append.mpr ⟨fun c hc => ?_, hd n⟩
      rw [(mem_replicate.mp hc).2]
      rfl
    have hpoint : ∀ n m s, ∀ c ∈ Nat.toDigits 10 n ++ '.' :: (Nat.toDigits 10 m).leftpad s '0',
        isNumberPart c = true := fun n m s =>
      forall_mem_append.mpr ⟨hd n, forall_mem_cons.mpr ⟨rfl, hpad m s⟩⟩
    rw [text, intText]
    split_ifs
    · exact forall_mem_cons.mpr ⟨rfl, hd _⟩
    · exact hd _
    · exact forall_mem_cons.mpr ⟨rfl, hpoint _ _ _⟩
    · exact hpoint _ _ _
  · intro c hc
    simp only [text, intText] at hc
    split_ifs at hc
    · exact .inr (by simpa using hc.symm)
    · exact .inl (isDigit_of_mem_toDigits (mem_of_mem_head? hc))
    · exact .inr (by simpa using hc.symm)
    · exact .inl (head_toDigits_append hc)

theorem lex_intText (n : Int) (hr : Delimited rest) :
    lex (intText n ++ rest) = (lex rest).map (.num ⟨n, 0⟩ :: ·) :=
  lex_decimal ⟨n, 0⟩ hr

def boolText (b : Bool) : Text := if b then "true".toList else "false".toList

@[simp] theorem delimited_comma (rest : Text) : Delimited (',' :: rest) :=
  delimited_cons (by decide)

@[simp] theorem delimited_rbrace (rest : Text) : Delimited ('}' :: rest) :=
  delimited_cons (by decide)

@[simp] theorem delimited_rbracket (rest : Text) : Delimited (']' :: rest) :=
  delimited_cons (by decide)

/-! ## Printing -/

namespace Json

mutual

/-- The text of a value, with a space after each colon and each comma. -/
def text : Json → Text
  | .null => "null".toList
  | .bool b => boolText b
  | .num d => d.text
  | .str s => escapeJson s
  | .arr [] => "[]".toList
  | .arr (v :: rest) => '[' :: (text v ++ (itemsTailText rest ++ [']']))
  | .obj [] => ['{', '}']
  | .obj ((k, v) :: rest) =>
    '{' :: (escapeJson k ++ (": ".toList ++ (text v ++ (membersTailText rest ++ ['}']))))

def itemsTailText : List Json → Text
  | [] => []
  | v :: rest => ", ".toList ++ (text v ++ itemsTailText rest)

def membersTailText : List (Text × Json) → Text
  | [] => []
  | (k, v) :: rest =>
    ", ".toList ++ (escapeJson k ++ (": ".toList ++ (text v ++ membersTailText rest)))

end

end Json

/-! ## Texts put together -/

/-- The text denotes the value, wherever a delimiter follows it. -/
def Denotes (t : Text) (v : Json) : Prop :=
  ∀ rest, Delimited rest → lex (t ++ rest) = (lex rest).map (v.tokens ++ ·)

def DenotesMember (t : Text) (m : Text × Json) : Prop :=
  ∀ rest, Delimited rest →
    lex (t ++ rest) = (lex rest).map fun ts => .str m.1 :: .colon :: (m.2.tokens ++ ts)

structure Separator (sep : Text) : Prop where
  lex_append : ∀ rest, lex (sep ++ rest) = (lex rest).map (.comma :: ·)
  delimited : ∀ rest, Delimited (sep ++ rest)

theorem separator_comma : Separator ",".toList :=
  ⟨fun rest => by simp, fun rest => by simp⟩

variable {α : Type*} {sep : Text} {f : α → Text}

theorem lex_items (hsep : Separator sep) {g : α → Json} {xs : List α}
    (h : ∀ x ∈ xs, Denotes (f x) (g x)) (rest : Text) :
    lex (sep.intercalate (xs.map f) ++ ']' :: rest) =
      (lex rest).map fun ts => itemsTokens (xs.map g) ++ .rbracket :: ts := by
  induction xs with
  | nil => simp [itemsTokens]
  | cons x xs ih =>
    rw [forall_mem_cons] at h
    rcases xs with _ | ⟨y, ys⟩
    · simp [itemsTokens, itemsTail, h.1 _ (delimited_rbracket rest), comp_def]
    · have hr := ih h.2
      rw [map_cons] at hr ⊢
      rw [map_cons, intercalate_cons_cons, append_assoc, append_assoc,
        h.1 _ (hsep.delimited _), hsep.lex_append, hr]
      simp [itemsTokens, itemsTail, comp_def]

theorem lex_members (hsep : Separator sep) {g : α → Text × Json} {xs : List α}
    (h : ∀ x ∈ xs, DenotesMember (f x) (g x)) (rest : Text) :
    lex (sep.intercalate (xs.map f) ++ '}' :: rest) =
      (lex rest).map fun ts => membersTokens (xs.map g) ++ .rbrace :: ts := by
  induction xs with
  | nil => simp [membersTokens]
  | cons x xs ih =>
    rw [forall_mem_cons] at h
    rcases xs with _ | ⟨y, ys⟩
    · simp [membersTokens, membersTail, h.1 _ (delimited_rbrace rest), comp_def]
    · have hr := ih h.2
      rw [map_cons] at hr ⊢
      rw [map_cons, intercalate_cons_cons, append_assoc, append_assoc,
        h.1 _ (hsep.delimited _), hsep.lex_append, hr]
      simp [membersTokens, membersTail, comp_def]

theorem denotes_object (hsep : Separator sep) {g : α → Text × Json} {xs : List α}
    (h : ∀ x ∈ xs, DenotesMember (f x) (g x)) :
    Denotes ('{' :: (sep.intercalate (xs.map f) ++ ['}'])) (.obj (xs.map g)) := by
  intro rest _
  rw [tokens_obj, cons_append, lex_lbrace, append_assoc, singleton_append, lex_members hsep h]
  simp [comp_def]

theorem Denotes.parseJson {t : Text} {v : Json} (h : Denotes t v) (hd : v.KeysDistinct) :
    parseJson t = some v := by
  have hlex := h [] delimited_nil
  rw [append_nil, lex_nil, Option.map_some, append_nil] at hlex
  rw [PgLake.Lib.parseJson, hlex]
  exact JsonParser.parseTokens_tokens hd

namespace Json

/-- A value as text: a string is its characters, `null` is none. -/
def asText : Json → Option Text
  | .null => none
  | .str s => some s
  | v => some v.text

end Json

end PgLake.Lib
