/-
  Looking up a key of a map (`map_extract` in `pg_map/src/map.c`).

  A map is an array of pairs, any part of which may be NULL.

  Main result: `mapExtract_iff`.
-/

namespace PgLake.Types.MapExtract

/-- An element of the map array; it and its parts may be NULL. -/
abbrev Pair (K V : Type) := Option (Option K × Option V)

section

-- `zero` is the datum 0 as a key, if the type is passed by value
variable {K V : Type} (zero : Option K) (cmp : K → K → Int) (key : K)

/-- The loop, with `tupleHeader` and `arrayPos` at its end, unless it reads through the datum 0: it
    does so for a pair that is NULL, and takes it for a key that is NULL. -/
def scan : List (Pair K V) → Option (Option K × Option V) → Nat →
    Option (Option (Option K × Option V) × Nat)
  | [], tupleHeader, arrayPos => some (tupleHeader, arrayPos)
  | none :: _, _, _ => none
  | some pair :: rest, _, arrayPos =>
    match pair.1 <|> zero with
    | none => none
    | some keyDatum =>
      if cmp key keyDatum = 0 then some (some pair, arrayPos)
      else scan rest (some pair) (arrayPos + 1)

/-- `map_extract`; `none` when it reads through the datum 0. -/
def mapExtract (elements : List (Pair K V)) : Option (Option V) :=
  (scan zero cmp key elements none 0).bind fun (tupleHeader, arrayPos) =>
    if arrayPos ≥ elements.length then some none else tupleHeader.map Prod.snd

/-- The value of the first pair with this key. -/
def lookup : List (Pair K V) → Option V
  | [] => none
  | some (some k, v) :: rest => if cmp key k = 0 then v else lookup rest
  | _ :: rest => lookup rest

/-- No NULL is read before the key is found, or it is a key passed by value that does not matter. -/
def Harmless : List (Pair K V) → Prop
  | [] => True
  | none :: _ => False
  | some (some k, _) :: rest => cmp key k = 0 ∨ Harmless rest
  | some (none, v) :: rest => ∃ k, zero = some k ∧
      if cmp key k = 0 then v = lookup cmp key rest else Harmless rest

theorem scan_iff (elements : List (Pair K V)) (tupleHeader : Option (Option K × Option V))
    (arrayPos : Nat) :
    ((scan zero cmp key elements tupleHeader arrayPos).bind fun found =>
        if found.2 ≥ elements.length + arrayPos then some none else found.1.map Prod.snd) =
      some (lookup cmp key elements) ↔ Harmless zero cmp key elements := by
  induction elements generalizing tupleHeader arrayPos with
  | nil => simp [scan, lookup, Harmless]
  | cons pair rest ih =>
    have hr (pair) := ih (some pair) (arrayPos + 1)
    have hlen : rest.length + 1 + arrayPos = rest.length + (arrayPos + 1) := by omega
    have hpos : ¬ rest.length + (arrayPos + 1) ≤ arrayPos := by omega
    match pair with
    | none => simp [scan, Harmless]
    | some (some k, v) =>
      by_cases h : cmp key k = 0
      · simp [scan, lookup, Harmless, h, hlen, hpos]
      · simpa [scan, lookup, Harmless, h, hlen] using hr _
    | some (none, v) =>
      cases zero with
      | none => simp [scan, Harmless]
      | some k =>
        by_cases h : cmp key k = 0
        · simp [scan, lookup, Harmless, h, hlen, hpos]
        · simpa [scan, lookup, Harmless, h, hlen] using hr _

/-- **The value of the first pair with this key**, or NULL. -/
theorem mapExtract_iff (elements : List (Pair K V)) :
    mapExtract zero cmp key elements = some (lookup cmp key elements) ↔
      Harmless zero cmp key elements :=
  scan_iff zero cmp key elements none 0

end

/-- A NULL is compared as the key 0. -/
theorem mapExtract_null_key : mapExtract (some 0) (· - ·) 0 [some (none, some 'a')] ≠
      some (lookup (· - ·) 0 [some (none, some 'a')]) := by
  decide

end PgLake.Types.MapExtract
