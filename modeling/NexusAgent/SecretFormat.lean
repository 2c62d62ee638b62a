import NexusAgent.Secrets

/-!
# The format of a sealed secret

`decrypt_serialized` is for `<alg>|<keyId>|<b64>` and keeps an error for what is malformed, but it reads the last
field only, and a text without separators is its own last field. `onlyFormat_iff` says which texts this
lets through.
-/

namespace NexusAgent
open Text

/-- The fields of a sealed secret. The name of the key may hold separators, the last field holds none. -/
structure SealedFields where
  keyId : String
  b64 : String
  last : '|' ∉ b64.toList

def SealedFields.text (p : SealedFields) : String := algorithm ++ "|" ++ p.keyId ++ "|" ++ p.b64

/-- `s` is algorithm, key and base64. -/
def WellSealed (s : String) : Prop := ∃ p : SealedFields, s = p.text

/-- `b64` is what stands after the last separator of `s`, the whole of `s` if it has none. -/
def LastField (s b64 : String) : Prop :=
  '|' ∉ b64.toList ∧ (s = b64 ∨ ∃ front, s = front ++ String.singleton '|' ++ b64)

theorem SealedFields.lastField (p : SealedFields) : LastField p.text p.b64 :=
  ⟨p.last, .inr ⟨algorithm ++ "|" ++ p.keyId, rfl⟩⟩

theorem LastField.unique {s b64 b64' : String} (h : LastField s b64) (h' : LastField s b64') : b64 = b64' := by
  have hsome := rsplitNext_eq_some.2 h
  rw [rsplitNext_eq_some.2 h'] at hsome
  exact (Option.some.inj hsome).symm

theorem exists_lastField (s : String) : ∃ b64, LastField s b64 := ⟨_, rsplitNext_eq_some.1 rfl⟩

section
variable (x : Externals)

/-- `decrypt_serialized` keeps to its format at `s`: what it opens is a sealed secret, and what is none it
refuses whatever the key would make of it. -/
structure Cipher.OnlyFormat (c : Cipher) (s : String) : Prop where
  opened : ∀ plaintext, c.decryptSerialized x s = .ok plaintext → ∃ (p : SealedFields) (iv : Iv) (ct : Bytes),
    s = p.text ∧ HoldsCiphertext x p.b64 iv ct ∧ x.aesDecrypt c.key iv.bytes ct = some (utf8 plaintext)
  refused : ¬ WellSealed s → ∃ e, ∀ aes, c.decryptSerialized { x with aesDecrypt := aes } s = .error e

variable {x} {c : Cipher} {b64 s : String}

namespace Cipher

/-- Where no ciphertext is found the cipher is not asked. -/
theorem decryptB64_of_not_holds (h : ∀ iv ct, ¬ HoldsCiphertext x b64 iv ct) :
    ∃ e, ∀ aes, c.decryptB64 { x with aesDecrypt := aes } b64 = .error e := by
  rcases decryptB64_cases x c b64 with ⟨e, hdecode⟩ | ⟨combined, hdecode, hlen⟩ | ⟨iv, ct, hholds, -⟩
  · exact ⟨_, fun aes => decryptB64_undecoded hdecode⟩
  · exact ⟨_, fun aes => decryptB64_short hdecode hlen⟩
  · exact absurd hholds (h iv ct)

theorem decryptSerialized_of_lastField (x : Externals) (h : LastField s b64) :
    c.decryptSerialized x s = c.decryptB64 x b64 := by
  rw [decryptSerialized, rsplitNext_eq_some.2 h]

/-- The cipher decides about a last field with a ciphertext in it, whatever stands before. -/
theorem not_refused {iv : Iv} {ct : Bytes} (hlast : LastField s b64) (hholds : HoldsCiphertext x b64 iv ct) :
    ¬ ∃ e, ∀ aes, c.decryptSerialized { x with aesDecrypt := aes } s = .error e := by
  rintro ⟨e, herror⟩
  have hempty : c.decryptB64 { x with aesDecrypt := fun _ _ _ => some (utf8 "") } b64 = .ok "" :=
    decryptB64_eq_ok.2 ⟨iv, ct, hholds, rfl⟩
  have h := herror fun _ _ _ => some (utf8 "")
  rw [decryptSerialized_of_lastField _ hlast, hempty] at h
  cases h

/-- The format is kept at the sealed secrets and at the texts whose last field holds no ciphertext, and at
no other text. -/
theorem onlyFormat_iff (x : Externals) (c : Cipher) (s : String) : c.OnlyFormat x s ↔
    WellSealed s ∨ ∀ b64, LastField s b64 → ∀ iv ct, ¬ HoldsCiphertext x b64 iv ct := by
  constructor
  · intro h
    by_cases hform : WellSealed s
    · exact .inl hform
    · refine .inr fun b64 hlast iv ct hholds => ?_
      exact not_refused hlast hholds (h.refused hform)
  · intro hcond
    obtain ⟨b64, hlast⟩ := exists_lastField s
    constructor
    · intro plaintext hok
      rw [decryptSerialized_of_lastField x hlast] at hok
      obtain ⟨iv, ct, hholds, hopen⟩ := decryptB64_eq_ok.1 hok
      rcases hcond with ⟨p, rfl⟩ | hnone
      · rw [hlast.unique p.lastField] at hholds
        exact ⟨p, iv, ct, rfl, hholds, hopen⟩
      · exact absurd hholds (hnone b64 hlast iv ct)
    · intro hform
      have hnone := hcond.resolve_left hform
      obtain ⟨e, herror⟩ := decryptB64_of_not_holds (c := c) (hnone b64 hlast)
      refine ⟨e, fun aes => ?_⟩
      rw [decryptSerialized_of_lastField _ hlast]
      exact herror aes

end Cipher
end

theorem not_wellSealed {s : String} (h : startsWith algorithm s = false) : ¬ WellSealed s := by
  rintro ⟨p, rfl⟩
  rw [SealedFields.text, String.append_assoc, String.append_assoc, String.append_assoc, startsWith_append] at h
  cases h

/-! ### `hunter2` under no name and under another -/

def bareHunter2 : String := Sealing.sample.base64Encode (List.replicate 12 0 ++ sealedHunter2)

theorem decryptSerialized_bareHunter2 {x : Externals} {env : String → Option String} {c : Cipher}
    (hkey : c.key = List.replicate 32 0) {s : String}
    (h : s = bareHunter2 ∨ ∃ front, s = front ++ String.singleton '|' ++ bareHunter2) :
    c.decryptSerialized (x.sample env) s = .ok "hunter2" := by
  have hlen : 0 < sealedHunter2.length := by decide
  have hopen := Cipher.decryptB64_encode (sample_lawful x env) hlen (sample_opens hkey)
  have hsep := (sample_lawful x env).separator_not_mem (List.replicate 12 0 ++ sealedHunter2)
  change '|' ∉ bareHunter2.toList at hsep
  rw [Cipher.decryptSerialized_of_lastField _ ⟨hsep, h⟩]
  unfold bareHunter2
  exact hopen

/-- A bare ciphertext is opened, and so is one that names another algorithm. -/
theorem format_not_kept :
    ¬ (Cipher.zero "k1").OnlyFormat .zeroVault bareHunter2 ∧
      ¬ (Cipher.zero "k1").OnlyFormat .zeroVault ("AES-128-CBC|k1" ++ String.singleton '|' ++ bareHunter2) := by
  have hbare : startsWith algorithm bareHunter2 = false := by decide +kernel
  have hother : startsWith algorithm ("AES-128-CBC|k1" ++ String.singleton '|' ++ bareHunter2) = false := by
    rw [String.append_assoc, startsWith, String.toList_append]
    rfl
  constructor
  · intro h
    obtain ⟨p, iv, ct, hp, -⟩ := h.opened "hunter2" (decryptSerialized_bareHunter2 rfl (.inl rfl))
    exact not_wellSealed hbare ⟨p, hp⟩
  · intro h
    obtain ⟨p, iv, ct, hp, -⟩ := h.opened "hunter2" (decryptSerialized_bareHunter2 rfl (.inr ⟨_, rfl⟩))
    exact not_wellSealed hother ⟨p, hp⟩

end NexusAgent
