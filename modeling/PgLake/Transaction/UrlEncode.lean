/-
  Names in the paths of REST requests (`utils/url_encode.c`).

  Main result: `faithful_iff`.
-/
import Mathlib.Data.List.Infix
import Mathlib.Tactic.Common

namespace PgLake.Transaction.UrlEncode

open List

/-- The bytes of a C string, without its NUL. -/
abbrev Bytes := List UInt8

/-- The bytes of an ASCII text. -/
def ascii (s : String) : Bytes := s.toList.map fun c => .ofNat c.toNat

def uriReserved : Bytes := ascii " !~*'();/?:@&=+$,#"

/-- In the C locale; others differ above 127, where every byte is kept. -/
def isalnum (b : UInt8) : Bool := (Char.ofNat b.toNat).isAlphanum

def toHexChar (value : UInt8) : UInt8 := (ascii "0123456789abcdef").getD (value &&& 15).toNat 0

/-- `%` and the digits of the high and the low nibble. -/
def escaped (b : UInt8) : Bytes := [37, toHexChar (b >>> 4 &&& 15), toHexChar (b &&& 15)]

/-- `URLEncodePath`. -/
def urlEncodePath (input : Bytes) : Bytes :=
  input.flatMap fun b => if isalnum b || !uriReserved.contains b then [b] else escaped b

/-! ## Percent-decoding -/

def hexValue (b : UInt8) : Option UInt8 :=
  if 48 ≤ b ∧ b ≤ 57 then some (b - 48)
  else if 65 ≤ b ∧ b ≤ 70 then some (b - 55)
  else if 97 ≤ b ∧ b ≤ 102 then some (b - 87)
  else none

/-- What two hex digits at the front stand for. -/
def hexPair : Bytes → Option UInt8
  | hi :: lo :: _ => do return 16 * (← hexValue hi) + (← hexValue lo)
  | _ => none

def percentDecode : Bytes → Bytes
  | b :: hi :: lo :: rest =>
    match b == 37, hexPair [hi, lo] with
    | true, some value => value :: percentDecode rest
    | _, _ => b :: percentDecode (hi :: lo :: rest)
  | short => short

/-- The encoded name has no reserved byte and decodes to the name. -/
def Faithful (name : Bytes) : Prop :=
  (∀ b ∈ urlEncodePath name, b ∉ uriReserved) ∧ percentDecode (urlEncodePath name) = name

variable {b hi lo value : UInt8} {name rest : Bytes}

theorem decode_cons (h : b = 37 → hexPair rest = none) :
    percentDecode (b :: rest) = b :: percentDecode rest := by
  rcases rest with _ | ⟨hi, _ | ⟨lo, rest⟩⟩
  · rfl
  · rfl
  · by_cases hb : b = 37
    · simp [percentDecode, show hexPair [hi, lo] = none from h hb]
    · simp [percentDecode, hb]

theorem decode_escape (h : hexPair [hi, lo] = some value) :
    percentDecode (37 :: hi :: lo :: rest) = value :: percentDecode rest := by
  simp [percentDecode, h]

theorem reserved_facts : ∀ b ∈ uriReserved, isalnum b = false ∧ hexValue b = none ∧
    hexPair (escaped b).tail = some b ∧ ∀ c ∈ escaped b, c ∉ uriReserved := by
  decide +kernel

theorem encode_reserved (h : b ∈ uriReserved) :
    urlEncodePath (b :: name) = escaped b ++ urlEncodePath name := by
  simp [urlEncodePath, h, (reserved_facts b h).1]

theorem encode_kept (h : b ∉ uriReserved) :
    urlEncodePath (b :: name) = b :: urlEncodePath name := by
  simp [urlEncodePath, h]

theorem not_reserved_encode : ∀ b ∈ urlEncodePath name, b ∉ uriReserved := by
  induction name with
  | nil => exact nofun
  | cons b name ih =>
    by_cases hb : b ∈ uriReserved
    · rw [encode_reserved hb]
      exact forall_mem_append.mpr ⟨(reserved_facts b hb).2.2.2, ih⟩
    · rw [encode_kept hb]
      exact forall_mem_cons.mpr ⟨hb, ih⟩

theorem hexPair_of_none (h : hexValue b = none) : hexPair (b :: rest) = none := by
  cases rest <;> simp [hexPair, h]

theorem hexPair_cons_of_none (h : hexValue lo = none) : hexPair (hi :: lo :: rest) = none := by
  simp [hexPair, h]

/-- A hex digit is kept, and what is not one does not become one. -/
theorem hexPair_encode : hexPair (urlEncodePath name) = hexPair name := by
  rcases name with _ | ⟨b, name⟩
  · rfl
  by_cases hb : b ∈ uriReserved
  · rw [encode_reserved hb, hexPair_of_none (reserved_facts b hb).2.1]
    exact hexPair_of_none rfl
  rw [encode_kept hb]
  rcases name with _ | ⟨c, name⟩
  · rfl
  by_cases hc : c ∈ uriReserved
  · rw [encode_reserved hc, hexPair_cons_of_none (reserved_facts c hc).2.1]
    exact hexPair_cons_of_none rfl
  · rw [encode_kept hc]
    rfl

theorem decode_encode_cons (h : b = 37 → hexPair name = none) :
    percentDecode (urlEncodePath (b :: name)) = b :: percentDecode (urlEncodePath name) := by
  by_cases hb : b ∈ uriReserved
  · rw [encode_reserved hb]
    exact decode_escape (reserved_facts b hb).2.2.1
  · rw [encode_kept hb, decode_cons]
    rwa [hexPair_encode]

/-- The digits of an escape in the name are kept, so it is decoded as well. -/
theorem decode_encode_escape (h : ¬ (b = 37 → hexPair name = none)) :
    ∃ value rest, name.length = rest.length + 2 ∧
      percentDecode (urlEncodePath (b :: name)) = value :: percentDecode (urlEncodePath rest) := by
  obtain ⟨rfl, hp⟩ := Classical.not_imp.mp h
  rcases name with _ | ⟨hi, _ | ⟨lo, rest⟩⟩
  · exact absurd rfl hp
  · exact absurd rfl hp
  obtain ⟨value, hv⟩ := Option.ne_none_iff_exists'.mp hp
  have hhi : hi ∉ uriReserved := fun h => hp (hexPair_of_none (reserved_facts hi h).2.1)
  have hlo : lo ∉ uriReserved := fun h => hp (hexPair_cons_of_none (reserved_facts lo h).2.1)
  refine ⟨value, rest, rfl, ?_⟩
  rw [encode_kept (by decide +kernel), encode_kept hhi, encode_kept hlo]
  exact decode_escape hv

theorem decode_encode_spec : ∀ name : Bytes,
    (percentDecode (urlEncodePath name)).length ≤ name.length ∧
      (percentDecode (urlEncodePath name) = name ↔
        ∀ rest, 37 :: rest <:+ name → hexPair rest = none)
  | [] => ⟨le_rfl, iff_of_true rfl (by simp)⟩
  | b :: name => by
    by_cases h : b = 37 → hexPair name = none
    · obtain ⟨hle, hiff⟩ := decode_encode_spec name
      rw [decode_encode_cons h]
      refine ⟨Nat.succ_le_succ hle, ?_⟩
      grind [suffix_cons_iff]
    · obtain ⟨value, rest, hlen, heq⟩ := decode_encode_escape h
      have hle := (decode_encode_spec rest).1
      rw [heq, length_cons, length_cons]
      refine ⟨by omega, iff_of_false (fun hs => ?_) fun hn => h fun hb => ?_⟩
      · have := congrArg length hs
        simp only [length_cons] at this
        omega
      · exact hn name (hb ▸ suffix_rfl)
termination_by name => name.length

/-- **A name is encoded faithfully iff no `%` in it is followed by two hex digits.** -/
theorem faithful_iff (name : Bytes) :
    Faithful name ↔ ∀ rest, 37 :: rest <:+ name → hexPair rest = none :=
  (and_iff_right not_reserved_encode).trans (decode_encode_spec name).2

theorem not_faithful_escape : ¬ Faithful (ascii "a%20b") ∧
    urlEncodePath (ascii "a%20b") = urlEncodePath (ascii "a b") := by
  unfold Faithful
  decide +kernel

end PgLake.Transaction.UrlEncode
