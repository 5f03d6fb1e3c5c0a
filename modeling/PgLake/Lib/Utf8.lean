/-
  Bytes of texts and their order.
-/
import Mathlib.Data.List.Basic
import PgLake.Lib.WireBytes

namespace Utf8

open WireBytes List

/-! ## Order -/

/-- The last byte other than `max` is incremented, the bytes behind it stay. -/
def incrementLast (max : UInt8) : Bytes → Option Bytes
  | [] => none
  | b :: p =>
    match incrementLast max p with
    | some q => some (b :: q)
    | none => if b ≠ max then some ((b + 1) :: p) else none

variable {max : UInt8} {p : Bytes}

theorem incrementLast_eq_none_iff : incrementLast max p = none ↔ ∀ b ∈ p, b = max := by
  induction p with
  | nil => simp [incrementLast]
  | cons b p ih =>
    rw [incrementLast, forall_mem_cons, ← ih]
    cases incrementLast max p <;> simp

theorem incrementLast_append (max : UInt8) (p q : Bytes) :
    incrementLast max (p ++ q) = match incrementLast max q with
      | some r => some (p ++ r)
      | none => (incrementLast max p).map (· ++ q) := by
  induction p with
  | nil => cases h : incrementLast max q <;> simp [incrementLast, h]
  | cons b p ih =>
    rw [cons_append, incrementLast, ih]
    cases incrementLast max q with
    | some r => simp
    | none =>
      rw [incrementLast]
      cases incrementLast max p with
      | some r => simp
      | none => split_ifs <;> simp

theorem toNat_add_one {b : UInt8} (h : b.toNat < 255) : (b + 1).toNat = b.toNat + 1 := by
  rw [UInt8.toNat_add, Nat.mod_eq_of_lt (by simp; omega)]
  rfl

variable {q : Bytes}

section

variable (h : incrementLast max p = some q)

include h

/-- What is incremented, and what stands around it. -/
theorem exists_of_incrementLast :
    ∃ front b back, p = front ++ b :: back ∧ q = front ++ (b + 1) :: back ∧ b ≠ max := by
  induction p generalizing q with
  | nil => cases h
  | cons b p ih =>
    rw [incrementLast] at h
    cases hr : incrementLast max p with
    | some r =>
      rw [hr] at h
      cases h
      obtain ⟨front, c, back, rfl, rfl, hc⟩ := ih hr
      exact ⟨b :: front, c, back, rfl, rfl, hc⟩
    | none =>
      simp only [hr] at h
      split_ifs at h with hne
      cases h
      exact ⟨[], b, p, rfl, rfl, hne⟩

theorem length_incrementLast : q.length = p.length := by
  obtain ⟨front, b, back, rfl, rfl, -⟩ := exists_of_incrementLast h
  simp

theorem append_lt_of_incrementLast
    (hmax : ∀ b ∈ p, b ≠ max → b ≠ 255) (rest rest' : Bytes) : p ++ rest < q ++ rest' := by
  obtain ⟨front, b, back, rfl, rfl, hb⟩ := exists_of_incrementLast h
  rw [append_assoc, append_assoc]
  have hne : b.toNat ≠ 255 := fun heq => hmax b (by simp) hb (UInt8.toNat_inj.mp heq)
  refine append_left_lt (cons_lt_cons_iff.mpr (.inl (UInt8.lt_iff_toNat_lt.mpr ?_)))
  rw [toNat_add_one (by have := b.toNat_lt; omega)]
  exact Nat.lt_succ_self _

end

/-! ## Texts -/

def encode (text : List Char) : Bytes := text.flatMap String.utf8EncodeChar

def Valid (p : Bytes) : Prop := ∃ text, p = encode text

@[simp] theorem encode_cons (c : Char) (text : List Char) :
    encode (c :: text) = String.utf8EncodeChar c ++ encode text := rfl

def isContinuation (b : UInt8) : Bool := 128 ≤ b.toNat && b.toNat < 192

/-- The number of bytes of a character that begins with a byte. -/
def size (b : UInt8) : ℕ :=
  if b.toNat < 128 then 1 else if b.toNat < 224 then 2 else if b.toNat < 240 then 3 else 4

structure IsCharacter (first : UInt8) (others : Bytes) : Prop where
  first_continuation : isContinuation first = false
  length : others.length + 1 = size first
  others_continuation : ∀ b ∈ others, isContinuation b = true
  first_le : first.toNat ≤ 244
  first_ne : first ≠ 192

theorem toNat_ofNat {n : ℕ} (h : n < 256) : (UInt8.ofNat n).toNat = n := by
  rw [UInt8.toNat_ofNat', Nat.mod_eq_of_lt h]

theorem isCharacter_ofNat {n : ℕ} (os : List ℕ) (hn : n ≤ 244) (hgap : n < 128 ∨ 194 ≤ n)
    (hlen : os.length + 1 =
      if n < 128 then 1 else if n < 224 then 2 else if n < 240 then 3 else 4)
    (ho : ∀ m ∈ os, 128 ≤ m ∧ m < 192) :
    IsCharacter (UInt8.ofNat n) (os.map UInt8.ofNat) where
  first_continuation := by
    simp only [isContinuation, toNat_ofNat (show n < 256 by omega), Bool.and_eq_false_iff,
      decide_eq_false_iff_not]
    omega
  length := by rw [length_map, hlen, size, toNat_ofNat (by omega)]
  others_continuation b hb := by
    obtain ⟨m, hm, rfl⟩ := mem_map.mp hb
    obtain ⟨hlo, hhi⟩ := ho m hm
    simp [isContinuation, toNat_ofNat (show m < 256 by omega), hlo, hhi]
  first_le := by rwa [toNat_ofNat (by omega)]
  first_ne h := by
    have hnat := congrArg UInt8.toNat h
    rw [toNat_ofNat (by omega)] at hnat
    change n = 192 at hnat
    omega

theorem exists_isCharacter (c : Char) :
    ∃ first others, String.utf8EncodeChar c = first :: others ∧ IsCharacter first others := by
  have hv : c.val.toNat < 0x110000 := by
    rcases c.valid with h | h
    · exact h.trans (by decide)
    · exact h.2
  rw [String.utf8EncodeChar]
  generalize c.val.toNat = v at hv
  split_ifs
  · exact ⟨_, _, rfl, isCharacter_ofNat [] (by omega) (by omega) (by grind) (by simp)⟩
  · exact ⟨_, _, rfl, isCharacter_ofNat [v % 64 + 128] (by omega) (by omega) (by grind)
      (by simp; omega)⟩
  · exact ⟨_, _, rfl, isCharacter_ofNat [v / 64 % 64 + 128, v % 64 + 128] (by omega) (by omega)
      (by grind) (by simp; omega)⟩
  · exact ⟨_, _, rfl, isCharacter_ofNat [v / 4096 % 64 + 128, v / 64 % 64 + 128, v % 64 + 128]
      (by omega) (by omega) (by grind) (by simp; omega)⟩

theorem exists_of_valid_cons {first : UInt8} (h : Valid (first :: p)) :
    ∃ os text, IsCharacter first os ∧ p = os ++ encode text := by
  obtain ⟨text, ht⟩ := h
  cases text with
  | nil => cases ht
  | cons c text =>
    obtain ⟨first', os, hc, hch⟩ := exists_isCharacter c
    rw [encode_cons, hc] at ht
    obtain ⟨rfl, rfl⟩ := List.cons.inj ht
    exact ⟨os, text, hch, rfl⟩

theorem valid_append_iff (c : Char) (p : Bytes) : Valid (String.utf8EncodeChar c ++ p) ↔ Valid p := by
  constructor
  · intro h
    obtain ⟨first, os, hc, hch⟩ := exists_isCharacter c
    rw [hc] at h
    obtain ⟨os', text, hch', ht⟩ := exists_of_valid_cons h
    have hlen := hch.length.trans hch'.length.symm
    exact ⟨text, append_inj_right ht (by omega)⟩
  · rintro ⟨text, rfl⟩
    exact ⟨c :: text, rfl⟩

theorem not_valid_of_short {first : UInt8} (h : p.length + 1 < size first) :
    ¬ Valid (first :: p) := by
  intro hv
  obtain ⟨os, text, hc, rfl⟩ := exists_of_valid_cons hv
  rw [← hc.length, length_append] at h
  omega

theorem valid_nil : Valid [] := ⟨[], rfl⟩

variable (text : List Char)

/-- **A text can be cut in front of any byte that begins a character.** -/
theorem take_valid_iff (n : ℕ) :
    Valid ((encode text).take n) ↔ ∀ b ∈ ((encode text).drop n).head?, isContinuation b = false := by
  induction text generalizing n with
  | nil => exact iff_of_true (by simpa [encode] using valid_nil) (by simp [encode])
  | cons c text ih =>
    obtain ⟨first, os, hc, hch⟩ := exists_isCharacter c
    have hlen : (String.utf8EncodeChar c).length = os.length + 1 := by rw [hc]; rfl
    by_cases hn : n ≤ os.length
    · rw [encode_cons, hc]
      cases n with
      | zero => exact iff_of_true valid_nil (by simpa using hch.first_continuation)
      | succ n =>
        have hco := hch.others_continuation _ (getElem_mem hn)
        refine iff_of_false ?_ fun h => ?_
        · rw [cons_append, take_succ_cons]
          refine not_valid_of_short ?_
          rw [← hch.length, length_take, length_append]
          omega
        · have hh : ((first :: os ++ encode text).drop (n + 1)).head? = some os[n] := by
            rw [cons_append, drop_succ_cons, head?_drop, getElem?_append_left hn,
              getElem?_eq_getElem hn]
          rw [h _ hh] at hco
          cases hco
    · obtain ⟨m, rfl⟩ := Nat.exists_eq_add_of_le (show (String.utf8EncodeChar c).length ≤ n by omega)
      rw [encode_cons, take_length_add_append, drop_length_add_append, valid_append_iff, ih]

theorem toNat_val_ofNat {n : ℕ} (h : n.isValidChar) : (Char.ofNat n).val.toNat = n := by
  rw [Char.ofNat, dif_pos h]
  rfl

theorem valid_of_ascii (h : ∀ b ∈ p, b.toNat < 128) :
    ∃ text, text.length = p.length ∧ p = encode text := by
  induction p with
  | nil => exact ⟨[], rfl, rfl⟩
  | cons b p ih =>
    obtain ⟨hb, hp⟩ := forall_mem_cons.mp h
    obtain ⟨text, hlen, rfl⟩ := ih hp
    have hval := toNat_val_ofNat (n := b.toNat) (.inl (by omega))
    refine ⟨Char.ofNat b.toNat :: text, by simp [hlen], ?_⟩
    rw [encode_cons, String.utf8EncodeChar, if_pos (by omega), hval]
    simp

theorem valid_of_delete (h : ∀ b ∈ p, b = 127) : Valid p := by
  obtain ⟨text, -, ht⟩ := valid_of_ascii fun b hb => show b.toNat < 128 by rw [h b hb]; decide
  exact ⟨text, ht⟩

theorem exists_init {c : Char} (hc : 127 < c.val.toNat) :
    ∃ init, ∀ d : Char, d.val.toNat / 64 = c.val.toNat / 64 →
      String.utf8EncodeChar d = init ++ [UInt8.ofNat (d.val.toNat % 64 + 128)] := by
  refine ⟨(String.utf8EncodeChar c).dropLast, fun d hd => ?_⟩
  rw [String.utf8EncodeChar, String.utf8EncodeChar]
  generalize c.val.toNat = v at hc hd
  generalize d.val.toNat = w at hd
  have h₁ : v / 4096 = w / 4096 := by omega
  have h₂ : v / 262144 = w / 262144 := by omega
  rw [← hd, h₁, h₂]
  split_ifs <;> first | omega | rfl

/-- The bytes of a text continue or begin a character. -/
theorem byte_of_mem_encode {text : List Char} {b : UInt8} (h : b ∈ encode text) :
    isContinuation b = true ∨ b.toNat ≤ 244 ∧ b ≠ 192 := by
  obtain ⟨c, -, hc⟩ := mem_flatMap.mp h
  obtain ⟨first, os, heq, hch⟩ := exists_isCharacter c
  rw [heq] at hc
  rcases mem_cons.mp hc with rfl | ho
  · exact .inr ⟨hch.first_le, hch.first_ne⟩
  · exact .inl (hch.others_continuation _ ho)

theorem notMem_encode : 192 ∉ encode text := fun h =>
  absurd (byte_of_mem_encode h) (by decide)

theorem ne_of_mem_encode {text : List Char} {b : UInt8} (h : b ∈ encode text) : b ≠ 255 := by
  rintro rfl
  exact absurd (byte_of_mem_encode h) (by decide)

theorem length_le_length_encode : text.length ≤ (encode text).length := by
  induction text with
  | nil => exact le_rfl
  | cons c =>
    obtain ⟨first, os, heq, -⟩ := exists_isCharacter c
    rw [encode_cons, heq, length_append, length_cons, length_cons]
    omega

theorem ascii_of_length {text : List Char} (h : (encode text).length = text.length) :
    ∀ b ∈ encode text, b.toNat < 128 := by
  induction text with
  | nil => simp [encode]
  | cons c text ih =>
    obtain ⟨first, os, heq, hc⟩ := exists_isCharacter c
    have hle := length_le_length_encode text
    rw [encode_cons, heq, length_append, length_cons, length_cons] at h
    have hnil : os = [] := length_eq_zero_iff.mp (by omega)
    subst hnil
    have hf : first.toNat < 128 := by
      by_contra hge
      have hs := hc.length
      rw [size, if_neg hge] at hs
      split_ifs at hs <;> simp at hs
    rw [encode_cons, heq, singleton_append]
    exact forall_mem_cons.mpr ⟨hf, ih (by simp at h; omega)⟩

theorem ascii_incrementLast (h : incrementLast 127 p = some q)
    (hp : ∀ b ∈ p, b.toNat < 128) : ∀ b ∈ q, b.toNat < 128 := by
  obtain ⟨front, b, back, rfl, rfl, hb⟩ := exists_of_incrementLast h
  have hnat : b.toNat ≠ 127 := fun heq => hb (UInt8.toNat_inj.mp heq)
  have hlt : b.toNat < 128 := hp b (by simp)
  have hn := toNat_add_one (b := b) (by omega)
  grind

theorem not_valid_incrementLast_of_short {first : UInt8} {os : Bytes}
    (hc : IsCharacter first os) (hsh : p.length < os.length)
    (h : incrementLast 127 (first :: p) = some q) : ¬ Valid q := by
  rw [incrementLast] at h
  cases hr : incrementLast 127 p with
  | some r =>
    rw [hr] at h
    cases h
    exact not_valid_of_short (by rw [length_incrementLast hr, ← hc.length]; omega)
  | none =>
    simp only [hr] at h
    split_ifs at h
    cases h
    refine not_valid_of_short ?_
    have hs := hc.length
    have hle := hc.first_le
    have hsum := toNat_add_one (b := first) (by omega)
    unfold size at hs ⊢
    split_ifs at hs ⊢ <;> omega

theorem valid_incrementLast_char_iff {c : Char} (hp : ∀ b ∈ p, b = 127)
    (h : incrementLast 127 (String.utf8EncodeChar c) = some q) :
    Valid (q ++ p) ↔ ∀ b ∈ ((String.utf8EncodeChar c).filter (· ≠ 127)).getLast?, b ≠ 191 := by
  have hv := valid_of_delete hp
  by_cases hc : 127 < c.val.toNat
  · obtain ⟨init, hinit⟩ := exists_init hc
    have hl : (UInt8.ofNat (c.val.toNat % 64 + 128)).toNat = c.val.toNat % 64 + 128 :=
      toNat_ofNat (by omega)
    have hne : UInt8.ofNat (c.val.toNat % 64 + 128) ≠ 127 := fun heq => by
      rw [heq] at hl
      change 127 = _ at hl
      omega
    have hn : UInt8.ofNat (c.val.toNat % 64 + 128) + 1 =
        UInt8.ofNat (c.val.toNat % 64 + 1 + 128) := by
      rw [← UInt8.toNat_inj, toNat_add_one (by omega), hl, toNat_ofNat (by omega)]
    rw [hinit c rfl, incrementLast_append] at h
    simp only [incrementLast, ne_eq, hne, not_false_eq_true, if_true, Option.some.injEq] at h
    rw [← h, hinit c rfl, filter_append, filter_cons_of_pos (by simpa using hne),
      filter_nil, getLast?_concat]
    simp only [Option.mem_def, Option.some.injEq, forall_eq']
    by_cases hmax : c.val.toNat % 64 = 63
    · refine iff_of_false ?_ fun hnot => hnot (by rw [hmax]; rfl)
      rintro ⟨text, hte⟩
      rw [hn, hmax] at hte
      refine notMem_encode text (hte ▸ ?_)
      exact mem_append_left _ (mem_append_right _ (mem_singleton.mpr rfl))
    · have hch : (c.val.toNat + 1).isValidChar := by
        rcases c.valid with hlow | hh
        · exact .inl (by omega)
        · exact .inr (by omega)
      have hd := hinit (Char.ofNat (c.val.toNat + 1)) (by rw [toNat_val_ofNat hch]; omega)
      rw [toNat_val_ofNat hch, show (c.val.toNat + 1) % 64 = c.val.toNat % 64 + 1 by omega,
        ← hn] at hd
      rw [← hd, valid_append_iff]
      refine iff_of_true hv fun heq => hmax ?_
      have hnat := congrArg UInt8.toNat heq
      change _ = 191 at hnat
      omega
  · have hb : (UInt8.ofNat c.val.toNat).toNat = c.val.toNat := toNat_ofNat (by omega)
    rw [String.utf8EncodeChar, if_pos (by omega)] at h ⊢
    simp only [incrementLast] at h
    split_ifs at h with hne
    cases h
    have hlt : c.val.toNat ≠ 127 := fun heq => hne (by rw [heq]; rfl)
    refine iff_of_true ?_ ?_
    · obtain ⟨t, -, ht⟩ := valid_of_ascii (p := [UInt8.ofNat c.val.toNat + 1] ++ p) fun b hb' => by
        rcases mem_append.mp hb' with hb' | hb'
        · rw [mem_singleton.mp hb', toNat_add_one (by omega), hb]
          omega
        · rw [hp b hb']
          decide
      exact ⟨t, ht⟩
    · rintro b hb' rfl
      have hm := mem_of_getLast? hb'
      simp only [mem_filter, mem_singleton] at hm
      rw [← hm.1] at hb
      change 191 = _ at hb
      omega

/-- **A text whose last byte below DEL is incremented stays a text** exactly if it was not cut
    within a character, and the byte is not the last one that can end a character. -/
theorem incrementLast_valid_iff (n : ℕ) (h : incrementLast 127 ((encode text).take n) = some q) :
    Valid q ↔ Valid ((encode text).take n) ∧
      ∀ b ∈ (((encode text).take n).filter (· ≠ 127)).getLast?, b ≠ 191 := by
  induction text generalizing n q with
  | nil => simp [encode, incrementLast] at h
  | cons c text ih =>
    obtain ⟨first, os, hc, hch⟩ := exists_isCharacter c
    have hlen : (String.utf8EncodeChar c).length = os.length + 1 := by rw [hc]; rfl
    by_cases hn : n ≤ os.length
    · rw [encode_cons, hc, cons_append] at h ⊢
      cases n with
      | zero => cases h
      | succ n =>
        rw [take_succ_cons, take_append_of_le_length (by omega)] at h ⊢
        have hs : (os.take n).length < os.length := by rw [length_take]; omega
        refine iff_of_false (not_valid_incrementLast_of_short hch hs h)
          fun hv => not_valid_of_short ?_ hv.1
        rw [← hch.length]
        omega
    · obtain ⟨m, rfl⟩ := Nat.exists_eq_add_of_le (show (String.utf8EncodeChar c).length ≤ n by omega)
      rw [encode_cons, take_length_add_append] at h ⊢
      rw [incrementLast_append] at h
      rw [valid_append_iff, filter_append]
      cases hr : incrementLast 127 ((encode text).take m) with
      | some r =>
        rw [hr] at h
        cases h
        have hne : ((encode text).take m).filter (· ≠ 127) ≠ [] := fun hnil => by
          have hall := filter_eq_nil_iff.mp hnil
          rw [incrementLast_eq_none_iff.mpr fun b hb => by simpa using hall b hb] at hr
          cases hr
        rw [valid_append_iff, ih m hr, getLast?_append_of_ne_nil _ hne]
      | none =>
        have hall := incrementLast_eq_none_iff.mp hr
        have hnil : ((encode text).take m).filter (· ≠ 127) = [] :=
          filter_eq_nil_iff.mpr fun b hb => by simp [hall b hb]
        rw [hr] at h
        obtain ⟨r, hr', rfl⟩ := Option.map_eq_some_iff.mp h
        rw [hnil, append_nil, valid_incrementLast_char_iff hall hr']
        exact (and_iff_right (valid_of_delete hall)).symm

end Utf8
