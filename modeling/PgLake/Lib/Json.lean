/-
  JSON: values, their tokens, and the text that denotes them.

  `Parser.step` is the pushdown machine from tokens to values.  It reads the tokens of a
  value, in any context, as that value (`run_tokens`).  An object keeps its last member of
  a name.
-/
import PgLake.Lib.Scanner
import Mathlib.Data.List.TakeWhile
import Mathlib.Tactic

namespace PgLake.Lib

open List

abbrev Text := List Char

/-! ## Numbers -/

/-- The number `mantissa / 10 ^ scale`, printed with `scale` digits after the point. -/
structure Decimal where
  mantissa : Int
  scale : Nat
deriving DecidableEq

/-- The text of an integer (`%d`). -/
def intText (n : Int) : Text :=
  if n < 0 then '-' :: Nat.toDigits 10 n.natAbs else Nat.toDigits 10 n.natAbs

namespace Decimal

def text (d : Decimal) : Text :=
  if d.scale = 0 then intText d.mantissa
  else
    (if d.mantissa < 0 then ['-'] else []) ++ (Nat.toDigits 10 (d.mantissa.natAbs / 10 ^ d.scale) ++
        '.' :: (Nat.toDigits 10 (d.mantissa.natAbs % 10 ^ d.scale)).leftpad d.scale '0')

def splitSign : Text → Bool × Text
  | [] => (false, [])
  | c :: rest => if c = '-' then (true, rest) else (false, c :: rest)

def digits (ds : Text) : Option Nat :=
  if ds ≠ [] ∧ ds.all Char.isDigit = true then some (Nat.ofDigitChars 10 ds 0) else none

def wholePart (ds : Text) : Option Nat :=
  if 2 ≤ ds.length ∧ ds.head? = some '0' then none else digits ds

/-- The digits after the point, if there is one, and what follows them. -/
def fractionPart : Text → Option (Text × Text)
  | [] => some ([], [])
  | c :: rest =>
    if c = '.' then
      (digits (rest.takeWhile Char.isDigit)).map fun _ =>
        (rest.takeWhile Char.isDigit, rest.dropWhile Char.isDigit)
    else some ([], c :: rest)

def exponentPart : Text → Option Int
  | [] => some 0
  | c :: rest =>
    if c = 'e' ∨ c = 'E' then
      match rest with
      | [] => none
      | s :: ds =>
        if s = '-' then (digits ds).map fun n => -(n : Int)
        else if s = '+' then (digits ds).map fun n => (n : Int)
        else (digits (s :: ds)).map fun n => (n : Int)
    else none

/-- Reads `-? digits (. digits)? ([eE] [+-]? digits)?`. -/
def parse (t : Text) : Option Decimal :=
  let unsigned := (splitSign t).2
  let whole := unsigned.takeWhile Char.isDigit
  (wholePart whole).bind fun _ =>
    (fractionPart (unsigned.dropWhile Char.isDigit)).bind fun frac =>
      (exponentPart frac.2).map fun e =>
        let m : Int := Nat.ofDigitChars 10 (whole ++ frac.1) 0 * 10 ^ Int.toNat (e - frac.1.length)
        ⟨if (splitSign t).1 then -m else m, Int.toNat (frac.1.length - e)⟩

theorem isDigit_of_mem_toDigits {n : Nat} {c : Char} (h : c ∈ Nat.toDigits 10 n) :
    c.isDigit = true :=
  Nat.isDigit_of_mem_toDigits (by omega) (by omega) h

theorem digits_eq_some_iff {ds : Text} {n : Nat} :
    digits ds = some n ↔ ds ≠ [] ∧ (∀ c ∈ ds, c.isDigit = true) ∧ Nat.ofDigitChars 10 ds 0 = n := by
  simp [digits, and_assoc]

theorem digits_toDigits (n : Nat) : digits (Nat.toDigits 10 n) = some n :=
  digits_eq_some_iff.mpr
    ⟨Nat.toDigits_ne_nil, fun _ => isDigit_of_mem_toDigits, Nat.ofDigitChars_ten_toDigits⟩

theorem head_toDigits_ne_zero {n : Nat} (h : 0 < n) : (Nat.toDigits 10 n).head? ≠ some '0' := by
  induction n using Nat.strongRecOn with
  | _ n ih =>
    rw [Nat.toDigits_eq_if (by omega)]
    split
    · next hlt => interval_cases n <;> decide
    · next hge =>
      have hh := ih (n / 10) (by omega) (by omega)
      rwa [head?_append_of_ne_nil _ Nat.toDigits_ne_nil]

theorem wholePart_toDigits (n : Nat) : wholePart (Nat.toDigits 10 n) = some n := by
  have hlead : ¬(2 ≤ (Nat.toDigits 10 n).length ∧ (Nat.toDigits 10 n).head? = some '0') := by
    rintro ⟨hlen, hh⟩
    rcases Nat.eq_zero_or_pos n with rfl | hpos
    · simp at hlen
    · exact head_toDigits_ne_zero hpos hh
  rw [wholePart, if_neg hlead, digits_toDigits]

theorem takeWhile_toDigits_append (n : Nat) {rest : Text}
    (h : rest.head?.all (fun c => !c.isDigit) = true) :
    (Nat.toDigits 10 n ++ rest).takeWhile Char.isDigit = Nat.toDigits 10 n ∧
      (Nat.toDigits 10 n ++ rest).dropWhile Char.isDigit = rest := by
  rw [takeWhile_append_of_pos fun _ => isDigit_of_mem_toDigits,
    dropWhile_append_of_pos fun _ => isDigit_of_mem_toDigits]
  cases rest with
  | nil => simp
  | cons c =>
    have hc : c.isDigit = false := by simpa using h
    simp [hc]

theorem splitSign_append_toDigits (neg : Bool) (n : Nat) (rest : Text) :
    splitSign ((if neg then ['-'] else []) ++ (Nat.toDigits 10 n ++ rest)) =
      (neg, Nat.toDigits 10 n ++ rest) := by
  cases neg with
  | true => rfl
  | false =>
    rcases hd : Nat.toDigits 10 n with _ | ⟨c, cs⟩
    · exact absurd hd Nat.toDigits_ne_nil
    · have hc : c ≠ '-' := by
        rintro rfl
        have := isDigit_of_mem_toDigits (n := n) (c := '-') (by rw [hd]; simp)
        exact absurd this (by decide)
      simp [splitSign, hc]

theorem parse_sign_digits {neg : Bool} {n : Nat} {rest frac : Text}
    (hr : rest.head?.all (fun c => !c.isDigit) = true)
    (hfrac : fractionPart rest = some (frac, [])) :
    parse ((if neg then ['-'] else []) ++ (Nat.toDigits 10 n ++ rest)) =
      some ⟨if neg then -(Nat.ofDigitChars 10 (Nat.toDigits 10 n ++ frac) 0 : Int)
        else Nat.ofDigitChars 10 (Nat.toDigits 10 n ++ frac) 0, frac.length⟩ := by
  obtain ⟨ht, hd⟩ := takeWhile_toDigits_append n hr
  simp [parse, splitSign_append_toDigits, ht, hd, wholePart_toDigits, hfrac, exponentPart]

theorem signed_natAbs (m : Int) :
    (if decide (m < 0) = true then -(m.natAbs : Int) else m.natAbs) = m := by
  by_cases h : m < 0
  · rw [if_pos (decide_eq_true h)]
    omega
  · rw [if_neg (by simpa using h)]
    omega

theorem parse_intText (n : Int) : parse (intText n) = some ⟨n, 0⟩ := by
  have heq : intText n =
      (if decide (n < 0) = true then ['-'] else []) ++ (Nat.toDigits 10 n.natAbs ++ []) := by
    by_cases h : n < 0 <;> simp [intText, h]
  rw [heq, parse_sign_digits rfl rfl, append_nil, Nat.ofDigitChars_ten_toDigits, signed_natAbs]
  rfl

theorem digits_leftpad {n s : Nat} (hs : 0 < s) (h : n < 10 ^ s) :
    digits ((Nat.toDigits 10 n).leftpad s '0') = some n ∧
      ((Nat.toDigits 10 n).leftpad s '0').length = s := by
  have hlen : (Nat.toDigits 10 n).length ≤ s := (Nat.length_toDigits_le_iff (by omega) hs).mpr h
  refine ⟨digits_eq_some_iff.mpr ⟨by simp, ?_, ?_⟩, ?_⟩
  · intro c hc
    rw [List.leftpad, mem_append, mem_replicate] at hc
    rcases hc with ⟨-, rfl⟩ | hc
    · decide
    · exact isDigit_of_mem_toDigits hc
  · rw [List.leftpad, Nat.ofDigitChars_append, Nat.ofDigitChars_replicate_zero, Nat.mul_zero,
      Nat.ofDigitChars_ten_toDigits]
  · simp
    omega

theorem fractionPart_point {ds : Text} {n : Nat} (h : digits ds = some n) :
    fractionPart ('.' :: ds) = some (ds, []) := by
  have hall := (digits_eq_some_iff.mp h).2.1
  have ht : ds.takeWhile Char.isDigit = ds := takeWhile_eq_self_iff.mpr hall
  have hd : ds.dropWhile Char.isDigit = [] := dropWhile_eq_nil_iff.mpr hall
  simp [fractionPart, ht, hd, h]

theorem parse_text (d : Decimal) : parse d.text = some d := by
  obtain ⟨m, s⟩ := d
  rcases Nat.eq_zero_or_pos s with rfl | hs
  · exact parse_intText m
  · set whole := m.natAbs / 10 ^ s with hw
    set frac := m.natAbs % 10 ^ s with hfrac
    obtain ⟨hd, hlen⟩ :=
      digits_leftpad hs (n := frac) (Nat.mod_lt _ (Nat.pow_pos (by omega)))
    have ht : text ⟨m, s⟩ = (if decide (m < 0) = true then ['-'] else []) ++
        (Nat.toDigits 10 whole ++ '.' :: (Nat.toDigits 10 frac).leftpad s '0') := by
      simp [text, hs.ne', hw, hfrac]
    have hv : Nat.ofDigitChars 10
        (Nat.toDigits 10 whole ++ (Nat.toDigits 10 frac).leftpad s '0') 0 = m.natAbs := by
      rw [Nat.ofDigitChars_append, Nat.ofDigitChars_eq_ofDigitChars_zero,
        Nat.ofDigitChars_ten_toDigits, hlen, (digits_eq_some_iff.mp hd).2.2]
      exact Nat.div_add_mod _ _
    rw [ht, parse_sign_digits rfl (fractionPart_point hd), hv, hlen, signed_natAbs]

end Decimal

/-! ## Values and tokens -/

inductive Json where
  | null
  | bool (b : Bool)
  | num (d : Decimal)
  | str (s : Text)
  | arr (items : List Json)
  | obj (members : List (Text × Json))

inductive JsonToken where
  | lbrace | rbrace | lbracket | rbracket | colon | comma
  | null
  | bool (b : Bool)
  | num (d : Decimal)
  | str (s : Text)
deriving DecidableEq

namespace Json

mutual

def tokens : Json → List JsonToken
  | .null => [.null]
  | .bool b => [.bool b]
  | .num d => [.num d]
  | .str s => [.str s]
  | .arr [] => [.lbracket, .rbracket]
  | .arr (v :: rest) => .lbracket :: (tokens v ++ (itemsTail rest ++ [.rbracket]))
  | .obj [] => [.lbrace, .rbrace]
  | .obj ((k, v) :: rest) =>
    .lbrace :: .str k :: .colon :: (tokens v ++ (membersTail rest ++ [.rbrace]))

def itemsTail : List Json → List JsonToken
  | [] => []
  | v :: rest => .comma :: (tokens v ++ itemsTail rest)

def membersTail : List (Text × Json) → List JsonToken
  | [] => []
  | (k, v) :: rest => .comma :: .str k :: .colon :: (tokens v ++ membersTail rest)

end

def itemsTokens : List Json → List JsonToken
  | [] => []
  | v :: rest => tokens v ++ itemsTail rest

def membersTokens : List (Text × Json) → List JsonToken
  | [] => []
  | (k, v) :: rest => .str k :: .colon :: (tokens v ++ membersTail rest)

theorem tokens_arr (items : List Json) :
    tokens (.arr items) = .lbracket :: (itemsTokens items ++ [.rbracket]) := by
  cases items <;> simp [tokens, itemsTokens]

theorem tokens_obj (members : List (Text × Json)) :
    tokens (.obj members) = .lbrace :: (membersTokens members ++ [.rbrace]) := by
  rcases members with _ | ⟨⟨_, _⟩, _⟩ <;> simp [tokens, membersTokens]

mutual

def KeysDistinct : Json → Prop
  | .arr items => ItemsDistinct items
  | .obj members => (members.map Prod.fst).Nodup ∧ MembersDistinct members
  | _ => True

def ItemsDistinct : List Json → Prop
  | [] => True
  | v :: rest => KeysDistinct v ∧ ItemsDistinct rest

def MembersDistinct : List (Text × Json) → Prop
  | [] => True
  | (_, v) :: rest => KeysDistinct v ∧ MembersDistinct rest

end

theorem itemsDistinct_iff {items : List Json} :
    ItemsDistinct items ↔ ∀ v ∈ items, KeysDistinct v := by
  induction items with
  | nil => simp [ItemsDistinct]
  | cons v rest ih => simp [ItemsDistinct, ih]


def get? (key : String) : Json → Option Json
  | .obj members => (members.find? fun m => m.1 = key.toList).map Prod.snd
  | _ => none

def item? (n : Nat) : Json → Option Json
  | .arr items => items[n]?
  | _ => none

end Json

/-! ## The parser -/

namespace JsonParser

/-- An array or an object that is not closed yet. -/
inductive Frame where
  | arr (items : List Json)
  | obj (members : List (Text × Json))
  | member (members : List (Text × Json)) (key : Text)

/-- What the machine waits for: a value, a value or `]`, a name, a name or `}`, a colon, a comma
or the end of the innermost container, or nothing more. -/
inductive Phase where
  | value | first | key | firstKey | colon | next
  | done (v : Json)

structure State where
  stack : List Frame
  phase : Phase

def setMember (members : List (Text × Json)) (k : Text) (v : Json) : List (Text × Json) :=
  members.filter (fun m => m.1 ≠ k) ++ [(k, v)]

/-- A value is complete: it goes into the innermost container. -/
def deliver (v : Json) : List Frame → Option State
  | [] => some ⟨[], .done v⟩
  | .arr items :: stack => some ⟨.arr (items ++ [v]) :: stack, .next⟩
  | .member members k :: stack => some ⟨.obj (setMember members k v) :: stack, .next⟩
  | .obj _ :: _ => none

def openValue (stack : List Frame) : JsonToken → Option State
  | .lbrace => some ⟨.obj [] :: stack, .firstKey⟩
  | .lbracket => some ⟨.arr [] :: stack, .first⟩
  | .null => deliver .null stack
  | .bool b => deliver (.bool b) stack
  | .num d => deliver (.num d) stack
  | .str s => deliver (.str s) stack
  | _ => none

def close : JsonToken → List Frame → Option State
  | .rbracket, .arr items :: stack => deliver (.arr items) stack
  | .rbrace, .obj members :: stack => deliver (.obj members) stack
  | _, _ => none

def readKey : JsonToken → List Frame → Option State
  | .str k, .obj members :: stack => some ⟨.member members k :: stack, .colon⟩
  | _, _ => none

def afterComma : List Frame → Option State
  | .arr items :: stack => some ⟨.arr items :: stack, .value⟩
  | .obj members :: stack => some ⟨.obj members :: stack, .key⟩
  | _ => none

variable (s : State)

def step (t : JsonToken) : Option State :=
  match s.phase with
  | .value => openValue s.stack t
  | .first => if t = .rbracket then close t s.stack else openValue s.stack t
  | .key => readKey t s.stack
  | .firstKey => if t = .rbrace then close t s.stack else readKey t s.stack
  | .colon => if t = .colon then some ⟨s.stack, .value⟩ else none
  | .next => if t = .comma then afterComma s.stack else close t s.stack
  | .done _ => none

def run (ts : List JsonToken) : Option State := ts.foldlM step s

@[simp] theorem run_nil : run s [] = some s := rfl

@[simp] theorem run_cons (t : JsonToken) (ts : List JsonToken) :
    run s (t :: ts) = (step s t).bind fun s' => run s' ts := rfl

@[simp] theorem run_append (a b : List JsonToken) :
    run s (a ++ b) = (run s a).bind fun s' => run s' b := by
  simp [run]

open Json

theorem head_tokens_ne_rbracket (v : Json) : v.tokens.head? ≠ some .rbracket := by
  rcases v with _ | _ | _ | _ | ⟨_ | ⟨_, _⟩⟩ | ⟨_ | ⟨⟨_, _⟩, _⟩⟩ <;> simp [tokens]

theorem tokens_ne_nil (v : Json) : v.tokens ≠ [] := by
  rcases v with _ | _ | _ | _ | ⟨_ | ⟨_, _⟩⟩ | ⟨_ | ⟨⟨_, _⟩, _⟩⟩ <;> simp [tokens]

theorem run_first_tokens (stack : List Frame) (v : Json) :
    run ⟨stack, .first⟩ v.tokens = run ⟨stack, .value⟩ v.tokens := by
  have hh := head_tokens_ne_rbracket v
  rcases hto : v.tokens with _ | ⟨t, ts⟩
  · exact absurd hto (tokens_ne_nil v)
  · have ht : t ≠ .rbracket := by simpa [hto] using hh
    simp [step, ht]

theorem setMember_of_notMem {members : List (Text × Json)} {k : Text} {v : Json}
    (h : k ∉ members.map Prod.fst) : setMember members k v = members ++ [(k, v)] := by
  rw [setMember, filter_eq_self.mpr]
  intro m hm
  simp only [ne_eq, decide_not, Bool.not_eq_true', decide_eq_false_iff_not]
  rintro rfl
  exact h (mem_map_of_mem hm)

mutual

theorem run_tokens : ∀ (v : Json) (_ : v.KeysDistinct) (stack : List Frame),
    run ⟨stack, .value⟩ v.tokens = deliver v stack
  | .null, _, stack => by cases h : deliver .null stack <;> simp [tokens, step, openValue, h]
  | .bool b, _, stack => by
    cases h : deliver (.bool b) stack <;> simp [tokens, step, openValue, h]
  | .num d, _, stack => by
    cases h : deliver (.num d) stack <;> simp [tokens, step, openValue, h]
  | .str s, _, stack => by
    cases h : deliver (.str s) stack <;> simp [tokens, step, openValue, h]
  | .arr [], _, stack => by
    cases h : deliver (.arr []) stack <;> simp [tokens, step, openValue, close, h]
  | .arr (v :: rest), hd, stack => by
    have hv := run_tokens v hd.1 (.arr [] :: stack)
    have hr := run_itemsTail rest hd.2 [v] stack
    show run ⟨.arr [] :: stack, .first⟩ (v.tokens ++ (itemsTail rest ++ [.rbracket])) = _
    rw [run_append, run_first_tokens, hv]
    exact hr
  | .obj [], _, stack => by
    cases h : deliver (.obj []) stack <;> simp [tokens, step, openValue, close, h]
  | .obj ((k, v) :: rest), hd, stack => by
    have hv := run_tokens v hd.2.1 (.member [] k :: stack)
    have hr := run_membersTail rest hd.2.2 [(k, v)] hd.1 stack
    show run ⟨.member [] k :: stack, .value⟩ (v.tokens ++ (membersTail rest ++ [.rbrace])) = _
    rw [run_append, hv]
    exact hr

theorem run_itemsTail : ∀ (items : List Json) (_ : Json.ItemsDistinct items)
    (before : List Json) (stack : List Frame),
    run ⟨.arr before :: stack, .next⟩ (itemsTail items ++ [.rbracket]) =
      deliver (.arr (before ++ items)) stack
  | [], _, before, stack => by
    cases h : deliver (.arr before) stack <;> simp [itemsTail, step, close, h]
  | v :: rest, hd, before, stack => by
    have hv := run_tokens v hd.1 (.arr before :: stack)
    have hr := run_itemsTail rest hd.2 (before ++ [v]) stack
    rw [append_assoc, singleton_append] at hr
    rw [itemsTail, cons_append, append_assoc]
    show run ⟨.arr before :: stack, .value⟩ (v.tokens ++ (itemsTail rest ++ [.rbracket])) = _
    rw [run_append, hv]
    exact hr

theorem run_membersTail : ∀ (members : List (Text × Json)) (_ : Json.MembersDistinct members)
    (before : List (Text × Json)) (_ : ((before ++ members).map Prod.fst).Nodup)
    (stack : List Frame),
    run ⟨.obj before :: stack, .next⟩ (membersTail members ++ [.rbrace]) =
      deliver (.obj (before ++ members)) stack
  | [], _, before, _, stack => by
    cases h : deliver (.obj before) stack <;> simp [membersTail, step, close, h]
  | (k, v) :: rest, hd, before, hn, stack => by
    have hv := run_tokens v hd.1 (.member before k :: stack)
    have hk : k ∉ before.map Prod.fst := by
      rw [map_append, nodup_append] at hn
      intro hk
      exact hn.2.2 k hk k (by simp) rfl
    have hr := run_membersTail rest hd.2 (before ++ [(k, v)]) (by simpa using hn) stack
    rw [append_assoc, singleton_append] at hr
    rw [membersTail, cons_append, cons_append, cons_append, append_assoc]
    show run ⟨.member before k :: stack, .value⟩
      (v.tokens ++ (membersTail rest ++ [.rbrace])) = _
    rw [run_append, hv, deliver, setMember_of_notMem hk]
    exact hr

end

def parseTokens (ts : List JsonToken) : Option Json :=
  match run ⟨[], .value⟩ ts with
  | some ⟨_, .done v⟩ => some v
  | _ => none

theorem parseTokens_tokens {v : Json} (h : v.KeysDistinct) : parseTokens v.tokens = some v := by
  rw [parseTokens, run_tokens v h []]
  rfl

/-! ### What a run keeps -/

/-! ### Strings -/

variable (x : Text)

end JsonParser

end PgLake.Lib
