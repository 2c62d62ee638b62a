import NexusAgent.Lib.Text

/-!
# Base64

The standard alphabet with padding. `decode` takes only what `encode` gives: complete groups of four, padding
at the end only, no bits set that are not part of a byte.
-/

namespace Base64
open Text

def alphabet : List Char := "ABCDEFGHIJKLMNOPQRSTUVWXYZabcdefghijklmnopqrstuvwxyz0123456789+/".toList

/-- The character for six bits. -/
def symbol (n : Nat) : Char := alphabet.getD n '='

/-- The six bits a character stands for. -/
def bits (c : Char) : Option Nat := alphabet.findIdx? (· == c)

def byte (n : Nat) : UInt8 := UInt8.ofNat n

def encode : Bytes → List Char
  | [] => []
  | [a] => [symbol (a.toNat / 4), symbol (a.toNat % 4 * 16), '=', '=']
  | [a, b] => [symbol (a.toNat / 4), symbol (a.toNat % 4 * 16 + b.toNat / 16), symbol (b.toNat % 16 * 4), '=']
  | a :: b :: c :: rest =>
    symbol (a.toNat / 4) :: symbol (a.toNat % 4 * 16 + b.toNat / 16) ::
      symbol (b.toNat % 16 * 4 + c.toNat / 64) :: symbol (c.toNat % 64) :: encode rest

/-- A last group with one byte or two. -/
def decodeLast (p q r : Char) : Option Bytes :=
  match bits p, bits q, bits r with
  | some i, some j, some k => if k % 4 = 0 then some [byte (i * 4 + j / 16), byte (j % 16 * 16 + k / 4)] else none
  | some i, some j, none => if r = '=' ∧ j % 16 = 0 then some [byte (i * 4 + j / 16)] else none
  | _, _, _ => none

def decodeGroup (p q r s : Char) : Option Bytes :=
  match bits p, bits q, bits r, bits s with
  | some i, some j, some k, some l =>
    some [byte (i * 4 + j / 16), byte (j % 16 * 16 + k / 4), byte (k % 4 * 64 + l)]
  | _, _, _, _ => none

def decode : List Char → Option Bytes
  | [] => some []
  | p :: q :: r :: s :: rest =>
    if s = '=' then (if rest = [] then decodeLast p q r else none)
    else match decodeGroup p q r s, decode rest with
      | some group, some bs => some (group ++ bs)
      | _, _ => none
  | _ => none

/-! ### Symbols -/

theorem bits_symbol {n : Nat} (h : n < 64) : bits (symbol n) = some n := by
  have hall : ∀ i : Fin 64, bits (symbol i) = some i.val := by decide +kernel
  exact hall ⟨n, h⟩

theorem symbol_mem_alphabet {n : Nat} (h : n < 64) : symbol n ∈ alphabet := by
  have hlen : n < alphabet.length := h
  rw [symbol, List.getD_eq_getElem?_getD, List.getElem?_eq_getElem hlen, Option.getD_some]
  exact List.getElem_mem hlen

theorem symbol_ne_pad {n : Nat} (h : n < 64) : symbol n ≠ '=' := by
  intro he
  have hmem := symbol_mem_alphabet h
  rw [he] at hmem
  revert hmem
  decide

theorem byte_eq {n : Nat} {a : UInt8} (h : n = a.toNat) : byte n = a := by
  rw [byte, h, UInt8.ofNat_toNat]

/-! ### Reading back -/

theorem decode_encode (bs : Bytes) : decode (encode bs) = some bs := by
  induction bs using encode.induct with
  | case1 => rfl
  | case2 a =>
    have ha := a.toNat_lt
    rw [encode, decode, if_pos rfl, if_pos rfl, decodeLast, bits_symbol (by omega), bits_symbol (by omega)]
    show (if _ then _ else _) = _
    rw [if_pos ⟨rfl, by omega⟩, byte_eq (a := a) (by omega)]
  | case3 a b =>
    have ha := a.toNat_lt
    have hb := b.toNat_lt
    rw [encode, decode, if_pos rfl, if_pos rfl, decodeLast, bits_symbol (by omega), bits_symbol (by omega),
      bits_symbol (by omega)]
    show (if _ then _ else _) = _
    rw [if_pos (by omega), byte_eq (a := a) (by omega), byte_eq (a := b) (by omega)]
  | case4 a b c rest ih =>
    have ha := a.toNat_lt
    have hb := b.toNat_lt
    have hc := c.toNat_lt
    rw [encode, decode, if_neg (symbol_ne_pad (by omega)), decodeGroup, bits_symbol (by omega),
      bits_symbol (by omega), bits_symbol (by omega), bits_symbol (by omega), ih]
    show some (byte _ :: byte _ :: byte _ :: rest) = _
    rw [byte_eq (a := a) (by omega), byte_eq (a := b) (by omega), byte_eq (a := c) (by omega)]

theorem mem_encode {bs : Bytes} {c : Char} (h : c ∈ encode bs) : c ∈ alphabet ∨ c = '=' := by
  have hsymbol {n : Nat} (hn : n < 64) (hc : c = symbol n) : c ∈ alphabet ∨ c = '=' :=
    .inl (hc ▸ symbol_mem_alphabet hn)
  induction bs using encode.induct with
  | case1 => cases h
  | case2 a =>
    have ha := a.toNat_lt
    simp only [encode, List.mem_cons, List.not_mem_nil, or_false, or_self] at h
    rcases h with h | h | h
    · exact hsymbol (by omega) h
    · exact hsymbol (by omega) h
    · exact .inr h
  | case3 a b =>
    have ha := a.toNat_lt
    have hb := b.toNat_lt
    simp only [encode, List.mem_cons, List.not_mem_nil, or_false] at h
    rcases h with h | h | h | h
    · exact hsymbol (by omega) h
    · exact hsymbol (by omega) h
    · exact hsymbol (by omega) h
    · exact .inr h
  | case4 a b d rest ih =>
    have ha := a.toNat_lt
    have hb := b.toNat_lt
    have hd := d.toNat_lt
    simp only [encode, List.mem_cons] at h
    rcases h with h | h | h | h | h
    · exact hsymbol (by omega) h
    · exact hsymbol (by omega) h
    · exact hsymbol (by omega) h
    · exact hsymbol (by omega) h
    · exact ih h

end Base64
