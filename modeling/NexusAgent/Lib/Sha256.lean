import NexusAgent.Lib.Text

/-!
# SHA-256

The hash of FIPS 180-4 on byte lists: pad to 64-byte blocks, expand each block to a schedule of 64
words, fold 64 rounds into the eight-word state. Written by structural recursion, so that a digest
can be computed in a proof. `hexEncode` is the lower-case hexadecimal text of a digest.
-/

namespace Sha256
open Text

def k : List UInt32 :=
  [0x428a2f98, 0x71374491, 0xb5c0fbcf, 0xe9b5dba5, 0x3956c25b, 0x59f111f1, 0x923f82a4, 0xab1c5ed5,
   0xd807aa98, 0x12835b01, 0x243185be, 0x550c7dc3, 0x72be5d74, 0x80deb1fe, 0x9bdc06a7, 0xc19bf174,
   0xe49b69c1, 0xefbe4786, 0x0fc19dc6, 0x240ca1cc, 0x2de92c6f, 0x4a7484aa, 0x5cb0a9dc, 0x76f988da,
   0x983e5152, 0xa831c66d, 0xb00327c8, 0xbf597fc7, 0xc6e00bf3, 0xd5a79147, 0x06ca6351, 0x14292967,
   0x27b70a85, 0x2e1b2138, 0x4d2c6dfc, 0x53380d13, 0x650a7354, 0x766a0abb, 0x81c2c92e, 0x92722c85,
   0xa2bfe8a1, 0xa81a664b, 0xc24b8b70, 0xc76c51a3, 0xd192e819, 0xd6990624, 0xf40e3585, 0x106aa070,
   0x19a4c116, 0x1e376c08, 0x2748774c, 0x34b0bcb5, 0x391c0cb3, 0x4ed8aa4a, 0x5b9cca4f, 0x682e6ff3,
   0x748f82ee, 0x78a5636f, 0x84c87814, 0x8cc70208, 0x90befffa, 0xa4506ceb, 0xbef9a3f7, 0xc67178f2]

structure State where
  (a b c d e f g h : UInt32)

def initial : State :=
  ⟨0x6a09e667, 0xbb67ae85, 0x3c6ef372, 0xa54ff53a, 0x510e527f, 0x9b05688c, 0x1f83d9ab, 0x5be0cd19⟩

def rotr (x : UInt32) (n : UInt32) : UInt32 := (x >>> n) ||| (x <<< (32 - n))

/-- The schedule with its newest word first: `n` more words on top of `ws`. -/
def expand : Nat → List UInt32 → List UInt32
  | 0, ws => ws
  | n + 1, ws =>
    let w2 := ws.getD 1 0
    let w15 := ws.getD 14 0
    let s0 := rotr w15 7 ^^^ rotr w15 18 ^^^ (w15 >>> 3)
    let s1 := rotr w2 17 ^^^ rotr w2 19 ^^^ (w2 >>> 10)
    expand n ((ws.getD 15 0 + s0 + ws.getD 6 0 + s1) :: ws)

def round (s : State) (kw : UInt32 × UInt32) : State :=
  let s1 := rotr s.e 6 ^^^ rotr s.e 11 ^^^ rotr s.e 25
  let ch := (s.e &&& s.f) ^^^ ((~~~ s.e) &&& s.g)
  let t1 := s.h + s1 + ch + kw.1 + kw.2
  let s0 := rotr s.a 2 ^^^ rotr s.a 13 ^^^ rotr s.a 22
  let maj := (s.a &&& s.b) ^^^ (s.a &&& s.c) ^^^ (s.b &&& s.c)
  ⟨t1 + (s0 + maj), s.a, s.b, s.c, s.d + t1, s.e, s.f, s.g⟩

def State.add (s t : State) : State :=
  ⟨s.a + t.a, s.b + t.b, s.c + t.c, s.d + t.d, s.e + t.e, s.f + t.f, s.g + t.g, s.h + t.h⟩

/-- The big-endian words of a byte list whose length is a multiple of four. -/
def words : Bytes → List UInt32
  | b₀ :: b₁ :: b₂ :: b₃ :: bs =>
    ((b₀.toUInt32 <<< 24) ||| (b₁.toUInt32 <<< 16) ||| (b₂.toUInt32 <<< 8) ||| b₃.toUInt32) :: words bs
  | _ => []

def compress (s : State) (block : List UInt32) : State :=
  s.add ((k.zip (expand 48 block.reverse).reverse).foldl round s)

/-- `n` bytes, big-endian. -/
def bigEndian : Nat → Nat → Bytes
  | 0, _ => []
  | n + 1, x => UInt8.ofNat (x / 256 ^ n) :: bigEndian n x

def pad (bs : Bytes) : Bytes :=
  bs ++ 0x80 :: (List.replicate ((119 - bs.length % 64) % 64) 0 ++ bigEndian 8 (8 * bs.length))

/-- Fold the blocks; the fuel bounds their number. -/
def blocks : Nat → State → List UInt32 → State
  | 0, s, _ => s
  | _ + 1, s, [] => s
  | n + 1, s, ws => blocks n (compress s (ws.take 16)) (ws.drop 16)

def wordBytes (w : UInt32) : Vector UInt8 4 :=
  #v[(w >>> 24).toUInt8, (w >>> 16).toUInt8, (w >>> 8).toUInt8, w.toUInt8]

def digest (bs : Bytes) : Vector UInt8 32 :=
  let s := blocks (bs.length + 2) initial (words (pad bs))
  wordBytes s.a ++ wordBytes s.b ++ wordBytes s.c ++ wordBytes s.d ++ wordBytes s.e ++
    wordBytes s.f ++ wordBytes s.g ++ wordBytes s.h

/-! ### Hexadecimal -/

def hexByte (b : UInt8) : List Char :=
  [Nat.digitChar (b.toNat / 16), Nat.digitChar (b.toNat % 16)]

/-- `hex::encode`. -/
def hexEncode {n : Nat} (bs : Vector UInt8 n) : String := String.ofList (bs.toList.flatMap hexByte)

example : hexEncode (digest (utf8 "abc")) =
    "ba7816bf8f01cfea414140de5dae2223b00361a396177a9cb410ff61f20015ad" := by decide +kernel

theorem digitChar_injective : ∀ m < 16, ∀ n < 16, Nat.digitChar m = Nat.digitChar n → m = n := by
  decide

theorem hexByte_injective {a b : UInt8} (h : hexByte a = hexByte b) : a = b := by
  have ha := a.toNat_lt
  have hb := b.toNat_lt
  simp only [hexByte, List.cons.injEq, and_true] at h
  have h1 := digitChar_injective _ (by omega) _ (by omega) h.1
  have h2 := digitChar_injective _ (by omega) _ (by omega) h.2
  exact UInt8.toNat_inj.1 (by omega)

theorem hexEncode_injective {n : Nat} {u v : Vector UInt8 n} (h : hexEncode u = hexEncode v) :
    u = v := by
  have h := String.ofList_injective h
  have key : ∀ xs ys : Bytes, xs.flatMap hexByte = ys.flatMap hexByte → xs = ys := by
    intro xs
    induction xs with
    | nil =>
      intro ys h
      cases ys with
      | nil => rfl
      | cons y ys => simp [hexByte] at h
    | cons x xs ih =>
      intro ys h
      cases ys with
      | nil => simp [hexByte] at h
      | cons y ys =>
        rw [List.flatMap_cons, List.flatMap_cons] at h
        obtain ⟨hxy, h⟩ := List.append_inj h rfl
        rw [hexByte_injective hxy, ih ys h]
  exact Vector.toList_inj.1 (key _ _ h)

theorem length_hexEncode {n : Nat} (v : Vector UInt8 n) : (hexEncode v).toList.length = 2 * n := by
  have hbytes : ∀ bs : Bytes, (bs.flatMap hexByte).length = 2 * bs.length := fun bs => by
    induction bs with
    | nil => rfl
    | cons b bs ih => rw [List.flatMap_cons, List.length_append, ih, List.length_cons]; simp [hexByte]; omega
  rw [hexEncode, String.toList_ofList, hbytes, Vector.length_toList]

theorem newline_not_mem_hexEncode {n : Nat} (v : Vector UInt8 n) : '\n' ∉ (hexEncode v).toList := by
  rw [hexEncode, String.toList_ofList, List.mem_flatMap]
  rintro ⟨b, -, h⟩
  have hb := b.toNat_lt
  have hne : ∀ d < 16, '\n' ≠ Nat.digitChar d := by decide
  simp only [hexByte, List.mem_cons, List.not_mem_nil, or_false] at h
  rcases h with h | h
  · exact hne _ (by omega) h
  · exact hne _ (by omega) h

end Sha256
