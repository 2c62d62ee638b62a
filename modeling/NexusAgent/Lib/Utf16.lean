import Mathlib.Init

/-!
# UTF-16

A character is one code unit, or two surrogates. `decode_encode`: decoding takes back what encoding gives, and
`decodeLe_encodeLe` is the same for little-endian bytes.
-/

namespace Utf16

def high (u : Nat) : Bool := 0xD800 ≤ u && u < 0xDC00

def low (u : Nat) : Bool := 0xDC00 ≤ u && u < 0xE000

def units (c : Char) : List Nat :=
  if c.toNat < 0x10000 then [c.toNat]
  else [0xD800 + (c.toNat - 0x10000) / 0x400, 0xDC00 + (c.toNat - 0x10000) % 0x400]

def encode (cs : List Char) : List Nat := cs.flatMap units

/-- The character of two surrogates. -/
def paired (u v : Nat) : Char := Char.ofNat (0x10000 + (u - 0xD800) * 0x400 + (v - 0xDC00))

def decode : List Nat → Option (List Char)
  | [] => some []
  | [u] => if high u || low u || 0x10000 ≤ u then none else some [Char.ofNat u]
  | u :: v :: us =>
    if high u then (if low v then (decode us).map (paired u v :: ·) else none)
    else if low u || 0x10000 ≤ u then none
    else (decode (v :: us)).map (Char.ofNat u :: ·)

/-! ### Code units -/

theorem toNat_lt (c : Char) : c.toNat < 0x110000 := by
  rcases c.valid with h | h
  · have : c.toNat < 0xD800 := h
    omega
  · exact h.2

theorem not_surrogate (c : Char) : high c.toNat = false ∧ low c.toNat = false := by
  rcases c.valid with h | h
  · have : c.toNat < 0xD800 := h
    simp only [high, low, Bool.and_eq_false_iff, decide_eq_false_iff_not]
    omega
  · have : 0xDFFF < c.toNat := h.1
    simp only [high, low, Bool.and_eq_false_iff, decide_eq_false_iff_not]
    omega

theorem decode_single {c : Char} (h : c.toNat < 0x10000) (us : List Nat) :
    decode (c.toNat :: us) = (decode us).map (c :: ·) := by
  obtain ⟨hhigh, hlow⟩ := not_surrogate c
  have hsmall : ¬ 0x10000 ≤ c.toNat := by omega
  rcases us with _ | ⟨v, us⟩
  · simp [decode, hhigh, hlow, hsmall]
  · simp [decode, hhigh, hlow, hsmall]

theorem decode_units (c : Char) (us : List Nat) : decode (units c ++ us) = (decode us).map (c :: ·) := by
  rw [units]
  split
  next h => exact decode_single h us
  next h =>
    have hlt := toNat_lt c
    have hhigh : high (0xD800 + (c.toNat - 0x10000) / 0x400) = true := by
      simp only [high, Bool.and_eq_true, decide_eq_true_eq]
      omega
    have hlow : low (0xDC00 + (c.toNat - 0x10000) % 0x400) = true := by
      simp only [low, Bool.and_eq_true, decide_eq_true_eq]
      omega
    have hpaired : paired (0xD800 + (c.toNat - 0x10000) / 0x400) (0xDC00 + (c.toNat - 0x10000) % 0x400) = c := by
      rw [paired]
      have hvalue : 0x10000 + (0xD800 + (c.toNat - 0x10000) / 0x400 - 0xD800) * 0x400 +
          (0xDC00 + (c.toNat - 0x10000) % 0x400 - 0xDC00) = c.toNat := by omega
      rw [hvalue, Char.ofNat_toNat]
    show (if _ then (if _ then _ else _) else _) = _
    rw [if_pos hhigh, if_pos hlow, hpaired]
    rfl

theorem decode_encode (cs : List Char) : decode (encode cs) = some cs := by
  induction cs with
  | nil => rfl
  | cons c cs ih =>
    show decode (units c ++ encode cs) = _
    rw [decode_units, ih]
    rfl

/-! ### Bytes -/

def le (u : Nat) : List UInt8 := [UInt8.ofNat (u % 256), UInt8.ofNat (u / 256)]

def encodeLe (cs : List Char) : List UInt8 := (encode cs).flatMap le

def unitsLe : List UInt8 → Option (List Nat)
  | [] => some []
  | [_] => none
  | a :: b :: bytes => (unitsLe bytes).map ((a.toNat + 256 * b.toNat) :: ·)

def decodeLe (bytes : List UInt8) : Option (List Char) := (unitsLe bytes).bind decode

theorem unit_lt {cs : List Char} {u : Nat} (h : u ∈ encode cs) : u < 0x10000 := by
  obtain ⟨c, -, hu⟩ := List.mem_flatMap.1 h
  have hlt := toNat_lt c
  rw [units] at hu
  split at hu
  · rw [List.mem_singleton.1 hu]
    omega
  · simp only [List.mem_cons, List.not_mem_nil, or_false] at hu
    rcases hu with hu | hu <;> omega

theorem unitsLe_le {us : List Nat} (h : ∀ u ∈ us, u < 0x10000) : unitsLe (us.flatMap le) = some us := by
  induction us with
  | nil => rfl
  | cons u us ih =>
    obtain ⟨hu, hus⟩ := List.forall_mem_cons.1 h
    have hvalue : (UInt8.ofNat (u % 256)).toNat + 256 * (UInt8.ofNat (u / 256)).toNat = u := by
      rw [UInt8.toNat_ofNat', UInt8.toNat_ofNat']
      omega
    show (unitsLe (us.flatMap le)).map (_ :: ·) = _
    rw [ih hus, Option.map_some, hvalue]

theorem decodeLe_encodeLe (cs : List Char) : decodeLe (encodeLe cs) = some cs := by
  rw [decodeLe, encodeLe, unitsLe_le fun u => unit_lt]
  exact decode_encode cs

end Utf16
