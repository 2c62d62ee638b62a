import NexusAgent.Wire
import NexusAgent.Lib.Base64

/-!
# Serialized secrets (`crypto.rs`)
-/

namespace NexusAgent
open Text

def ivSize : Nat := 12

def algorithm : String := "AES-256-GCM"

/-- The random bytes an encryption uses. -/
structure Iv where
  bytes : Bytes
  size : bytes.length = ivSize

/-- An AES-256 key and the name it goes by. -/
structure Cipher where
  key : Bytes
  size : key.length = 32
  keyId : String

/-- The library functions that encrypt. -/
structure Sealing where
  base64Encode : Bytes → String
  /-- key, nonce, plaintext -/
  aesEncrypt : Bytes → Bytes → Bytes → Option Bytes

/-- A key of zeros. -/
def Cipher.zero (keyId : String) : Cipher := ⟨List.replicate 32 0, rfl, keyId⟩

variable (x : Externals)

namespace Cipher

def fromBase64Key (base64Key keyId : String) : Except AgentError Cipher :=
  match x.base64Decode (trim base64Key) with
  | .error e => .error (.crypto s!"invalid base64 key: {e}")
  | .ok bytes =>
    if h : bytes.length = 32 then .ok ⟨bytes, h, keyId⟩
    else .error (.crypto s!"key must be 32 bytes (256-bit); got {bytes.length}")

def decryptB64 (c : Cipher) (b64 : String) : Except AgentError String :=
  match x.base64Decode (trim b64) with
  | .error e => .error (.crypto s!"invalid base64 ciphertext: {e}")
  | .ok combined =>
    if combined.length ≤ ivSize then .error (.crypto "ciphertext too short")
    else match x.aesDecrypt c.key (combined.take ivSize) (combined.drop ivSize) with
      | none => .error (.crypto "decryption failed (bad key or tampered data)")
      | some plain =>
        match fromUtf8 plain with
        | some text => .ok text
        | none => .error (.crypto ("plaintext not UTF-8: " ++ x.utf8Error plain))

def decryptSerialized (c : Cipher) (serialized : String) : Except AgentError String :=
  match rsplitNext '|' serialized with
  | none => .error (.crypto "malformed serialized secret")
  | some b64 => c.decryptB64 x b64

def encryptSerialized (k : Sealing) (c : Cipher) (iv : Iv) (plaintext : String) : Except AgentError String :=
  match k.aesEncrypt c.key iv.bytes (utf8 plaintext) with
  | none => .error (.crypto "encryption failed")
  | some ct => .ok s!"{algorithm}|{c.keyId}|{k.base64Encode (iv.bytes ++ ct)}"

end Cipher

/-! ### What a base64 text holds -/

/-- `b64` is the base64 of a nonce and a ciphertext. -/
def HoldsCiphertext (b64 : String) (iv : Iv) (ct : Bytes) : Prop :=
  x.base64Decode (trim b64) = .ok (iv.bytes ++ ct) ∧ ct ≠ []

variable {x} {c : Cipher} {b64 : String} {combined : Bytes}

theorem exists_holdsCiphertext (hdecode : x.base64Decode (trim b64) = .ok combined)
    (hlen : ¬ combined.length ≤ ivSize) : ∃ iv ct, HoldsCiphertext x b64 iv ct := by
  have hsize : (combined.take ivSize).length = ivSize := by rw [List.length_take]; omega
  refine ⟨⟨combined.take ivSize, hsize⟩, combined.drop ivSize, ?_, ?_⟩
  · rw [List.take_append_drop, hdecode]
  · intro hnil
    exact hlen (List.drop_eq_nil_iff.1 hnil)

theorem HoldsCiphertext.cut {iv : Iv} {ct : Bytes} (h : HoldsCiphertext x b64 iv ct) :
    ¬ (iv.bytes ++ ct).length ≤ ivSize ∧ (iv.bytes ++ ct).take ivSize = iv.bytes ∧
      (iv.bytes ++ ct).drop ivSize = ct := by
  have hpos : 0 < ct.length := List.length_pos_iff.2 h.2
  refine ⟨?_, ?_, ?_⟩
  · rw [List.length_append, iv.size]
    omega
  · rw [← iv.size]
    exact List.take_left
  · rw [← iv.size]
    exact List.drop_left

namespace Cipher

theorem decryptB64_undecoded {e : String} (hdecode : x.base64Decode (trim b64) = .error e) :
    c.decryptB64 x b64 = .error (.crypto s!"invalid base64 ciphertext: {e}") := by
  rw [decryptB64, hdecode]

theorem decryptB64_short (hdecode : x.base64Decode (trim b64) = .ok combined) (hlen : combined.length ≤ ivSize) :
    c.decryptB64 x b64 = .error (.crypto "ciphertext too short") := by
  rw [decryptB64, hdecode]
  exact if_pos hlen

section
variable {iv : Iv} {ct : Bytes} (hholds : HoldsCiphertext x b64 iv ct)
include hholds

theorem decryptB64_unopened (hopen : x.aesDecrypt c.key iv.bytes ct = none) :
    c.decryptB64 x b64 = .error (.crypto "decryption failed (bad key or tampered data)") := by
  obtain ⟨hsize, htake, hdrop⟩ := hholds.cut
  rw [decryptB64, hholds.1]
  show (if _ then _ else _) = _
  rw [if_neg hsize, htake, hdrop, hopen]

theorem decryptB64_not_utf8 {plain : Bytes} (hopen : x.aesDecrypt c.key iv.bytes ct = some plain)
    (htext : fromUtf8 plain = none) :
    c.decryptB64 x b64 = .error (.crypto ("plaintext not UTF-8: " ++ x.utf8Error plain)) := by
  obtain ⟨hsize, htake, hdrop⟩ := hholds.cut
  rw [decryptB64, hholds.1]
  show (if _ then _ else _) = _
  rw [if_neg hsize, htake, hdrop, hopen]
  dsimp only
  rw [htext]

theorem decryptB64_opened {plaintext : String} (hopen : x.aesDecrypt c.key iv.bytes ct = some (utf8 plaintext)) :
    c.decryptB64 x b64 = .ok plaintext := by
  obtain ⟨hsize, htake, hdrop⟩ := hholds.cut
  have htext : fromUtf8 (utf8 plaintext) = some plaintext := fromUtf8_eq_some.2 rfl
  rw [decryptB64, hholds.1]
  show (if _ then _ else _) = _
  rw [if_neg hsize, htake, hdrop, hopen]
  dsimp only
  rw [htext]

end

/-- What becomes of a base64 text: one lemma above for each case. -/
theorem decryptB64_cases (x : Externals) (c : Cipher) (b64 : String) :
    (∃ e, x.base64Decode (trim b64) = .error e) ∨
    (∃ combined, x.base64Decode (trim b64) = .ok combined ∧ combined.length ≤ ivSize) ∨
    ∃ iv ct, HoldsCiphertext x b64 iv ct ∧
      (x.aesDecrypt c.key iv.bytes ct = none ∨
        (∃ plain, x.aesDecrypt c.key iv.bytes ct = some plain ∧ fromUtf8 plain = none) ∨
        ∃ plaintext, x.aesDecrypt c.key iv.bytes ct = some (utf8 plaintext)) := by
  rcases hdecode : x.base64Decode (trim b64) with e | combined
  · exact .inl ⟨e, rfl⟩
  refine .inr ?_
  by_cases hlen : combined.length ≤ ivSize
  · exact .inl ⟨combined, rfl, hlen⟩
  refine .inr ?_
  obtain ⟨iv, ct, hholds⟩ := exists_holdsCiphertext hdecode hlen
  refine ⟨iv, ct, hholds, ?_⟩
  rcases hopen : x.aesDecrypt c.key iv.bytes ct with _ | plain
  · exact .inl rfl
  refine .inr ?_
  rcases htext : fromUtf8 plain with _ | plaintext
  · exact .inl ⟨plain, rfl, htext⟩
  · exact .inr ⟨plaintext, congrArg some (fromUtf8_eq_some.1 htext).symm⟩

theorem decryptB64_eq_ok {plaintext : String} : c.decryptB64 x b64 = .ok plaintext ↔
    ∃ iv ct, HoldsCiphertext x b64 iv ct ∧ x.aesDecrypt c.key iv.bytes ct = some (utf8 plaintext) := by
  constructor
  · intro hok
    rcases decryptB64_cases x c b64 with ⟨e, hdecode⟩ | ⟨combined, hdecode, hlen⟩ | ⟨iv, ct, hholds, hopen⟩
    · rw [decryptB64_undecoded hdecode] at hok
      cases hok
    · rw [decryptB64_short hdecode hlen] at hok
      cases hok
    · refine ⟨iv, ct, hholds, ?_⟩
      rcases hopen with hopen | ⟨plain, hopen, htext⟩ | ⟨text, hopen⟩
      · rw [decryptB64_unopened hholds hopen] at hok
        cases hok
      · rw [decryptB64_not_utf8 hholds hopen htext] at hok
        cases hok
      · rw [decryptB64_opened hholds hopen] at hok
        rw [hopen, Except.ok.inj hok]
  · rintro ⟨iv, ct, hholds, hopen⟩
    exact decryptB64_opened hholds hopen

end Cipher

end NexusAgent
