import Mathlib.Data.Bool.AllAny
import NexusAgent.Setup
import NexusAgent.Lib.Toml.Strings

/-!
# Sealed secrets

What `encrypt_serialized` makes of a text, `decrypt_serialized` reads back, and what `harden_secret` stores in
sealed form, `Config::resolve` maps to the trimmed secret (`secrets_round_trip`).
-/

namespace NexusAgent
open Text

variable (k : Sealing) (x : Externals)

/-- The AES-GCM of the two libraries seals with a tag of 16 bytes and opens what was sealed, and their base64
is that of the standard alphabet. -/
structure Sealing.Lawful : Prop where
  opens : ∀ (c : Cipher) (iv : Iv) (plaintext : Bytes), ∃ ct, k.aesEncrypt c.key iv.bytes plaintext = some ct ∧
    ct.length = plaintext.length + 16 ∧ x.aesDecrypt c.key iv.bytes ct = some plaintext
  decodes : ∀ bs, x.base64Decode (k.base64Encode bs) = .ok bs
  standard : ∀ bs, ∀ c ∈ (k.base64Encode bs).toList, c ∈ Base64.alphabet ∨ c = '='

/-- The characters of a sealed secret. -/
def isSealed (c : Char) : Bool := c ∈ Base64.alphabet || c ∈ ['=', '-', '|', ':']

theorem isBasic_of_isSealed {c : Char} (h : isSealed c = true) : Toml.isBasic c = true := by
  have hall : ∀ c ∈ Base64.alphabet ++ ['=', '-', '|', ':'], Toml.isBasic c = true :=
    List.all_eq_true.1 (by decide +kernel)
  refine hall c (List.mem_append.2 ?_)
  simpa [isSealed] using h

/-! ### The fields of a sealed secret -/

theorem trim_eq_self {s : String} (h : ∀ c ∈ s.toList, isWhitespace c = false) : trim s = s := by
  have hdrop (l : List Char) (hl : ∀ c ∈ l, isWhitespace c = false) : l.dropWhile isWhitespace = l := by
    cases l with
    | nil => rfl
    | cons c l => rw [List.dropWhile_cons_of_neg (by simp [hl c (List.mem_cons_self ..)])]
  rw [trim, hdrop _ h, hdrop _ (fun c hc => h c (List.mem_reverse.1 hc)), List.reverse_reverse,
    String.ofList_toList]

variable {k x}

theorem not_isWhitespace_of_standard {c : Char} (h : c ∈ Base64.alphabet ∨ c = '=') : isWhitespace c = false := by
  have hall : ∀ c ∈ Base64.alphabet ++ ['='], isWhitespace c = false :=
    List.all_iff_forall_prop.1 (by decide +kernel)
  exact hall c (List.mem_append.2 (h.imp_right List.mem_singleton.2))

theorem Sealing.Lawful.trim_encode (h : k.Lawful x) (bs : Bytes) : trim (k.base64Encode bs) = k.base64Encode bs :=
  trim_eq_self fun c hc => not_isWhitespace_of_standard (h.standard bs c hc)

theorem Sealing.Lawful.separator_not_mem (h : k.Lawful x) (bs : Bytes) : '|' ∉ (k.base64Encode bs).toList := by
  intro hmem
  have hstandard := h.standard bs '|' hmem
  revert hstandard
  decide

namespace Cipher

variable {c : Cipher} {iv : Iv}

theorem decryptB64_encode (h : k.Lawful x) {plaintext : String} {ct : Bytes} (hlen : 0 < ct.length)
    (hopen : x.aesDecrypt c.key iv.bytes ct = some (utf8 plaintext)) :
    c.decryptB64 x (k.base64Encode (iv.bytes ++ ct)) = .ok plaintext := by
  refine decryptB64_eq_ok.2 ⟨iv, ct, ⟨?_, List.length_pos_iff.1 hlen⟩, hopen⟩
  rw [h.trim_encode, h.decodes]

/-- The fields before the last one do not matter. -/
theorem decryptSerialized_encode (h : k.Lawful x) (fields : String) {plaintext : String} {ct : Bytes}
    (hlen : 0 < ct.length) (hopen : x.aesDecrypt c.key iv.bytes ct = some (utf8 plaintext)) :
    c.decryptSerialized x (fields ++ "|" ++ k.base64Encode (iv.bytes ++ ct)) = .ok plaintext := by
  have hsplit : rsplitNext '|' (fields ++ "|" ++ k.base64Encode (iv.bytes ++ ct)) =
      some (k.base64Encode (iv.bytes ++ ct)) :=
    rsplitNext_eq_some.2 ⟨h.separator_not_mem (iv.bytes ++ ct), .inr ⟨fields, rfl⟩⟩
  rw [decryptSerialized, hsplit]
  exact decryptB64_encode h hlen hopen

theorem exists_sealed (h : k.Lawful x) (c : Cipher) (iv : Iv) (plaintext : String) :
    ∃ b64, c.encryptSerialized k iv plaintext = .ok (algorithm ++ "|" ++ c.keyId ++ "|" ++ b64) ∧
      c.decryptSerialized x (algorithm ++ "|" ++ c.keyId ++ "|" ++ b64) = .ok plaintext ∧
      ∀ ch ∈ b64.toList, ch ∈ Base64.alphabet ∨ ch = '=' := by
  obtain ⟨ct, hseal, hlen, hopen⟩ := h.opens c iv (utf8 plaintext)
  refine ⟨k.base64Encode (iv.bytes ++ ct), ?_, decryptSerialized_encode h _ (by omega) hopen, h.standard _⟩
  rw [encryptSerialized, hseal]
  simp [toString]

end Cipher

/-! ### Secrets of the setup -/

theorem stripPrefix_append (p s : String) : stripPrefix p (p ++ s) = some s := by
  have hp : p.toList.isPrefixOf (p ++ s).toList = true := by
    rw [List.isPrefixOf_iff_prefix, String.toList_append]
    exact List.prefix_append ..
  rw [stripPrefix, if_pos hp, String.toList_append, List.drop_left, String.ofList_toList]

theorem stripPrefix_eq_none {p s : String} (h : startsWith p s = false) : stripPrefix p s = none := by
  unfold startsWith at h
  rw [stripPrefix, h]
  rfl

theorem Config.keyId_of_vault {c : Cipher} (h : Config.vault x = .ok (some c)) : c.keyId = "local" := by
  unfold Config.vault at h
  split at h
  · split at h
    · cases h
    · unfold Cipher.fromBase64Key at h
      split at h
      · cases h
      · split at h
        · cases h
          rfl
        · cases h
  · cases h

/-- A raw secret: not blank and no reference. -/
def Raw (value : String) : Prop :=
  (trim value).isEmpty = false ∧ startsWith "env:" (trim value) = false ∧ startsWith "enc:" (trim value) = false

instance (value : String) : Decidable (Raw value) := inferInstanceAs (Decidable (_ ∧ _ ∧ _))

theorem hardenSecret_raw {value envName : String} {vault : Option Cipher} (h : Raw value) :
    hardenSecret k value vault envName =
      match vault with
      | some c => do
        let iv ← Prog.perform Call.fillBytes
        match c.encryptSerialized k iv (trim value) with
        | .ok enc => return (s!"enc:{enc}", none)
        | .error _ =>
          return (s!"env:{envName}", some s!"encryption failed — set the env var {envName} on the host instead")
      | none => return (s!"env:{envName}", some (envNote envName)) := by
  have hkept : isKept (trim value) = false := by
    obtain ⟨hempty, henv, henc⟩ := h
    rw [isKept, hempty, henv, henc]
    rfl
  unfold hardenSecret
  simp only [hkept]
  rfl

theorem startsWith_append (p s : String) : startsWith p (p ++ s) = true :=
  List.isPrefixOf_iff_prefix.2 ⟨_, String.toList_append.symm⟩

theorem enc_not_env (serialized : String) : startsWith "env:" ("enc:" ++ serialized) = false := by
  rw [startsWith, String.toList_append]
  rfl

theorem resolve_enc {c : Cipher} (hvault : Config.vault x = .ok (some c)) (serialized : String) :
    Config.resolve x ("enc:" ++ serialized) = c.decryptSerialized x serialized := by
  rw [Config.resolve, stripPrefix_eq_none (enc_not_env serialized), stripPrefix_append, hvault]

/-- The stored form has sealed characters only. -/
theorem isSealed_stored {b64 : String} (h : ∀ c ∈ b64.toList, c ∈ Base64.alphabet ∨ c = '=') :
    ∀ c ∈ ("enc:" ++ (algorithm ++ "|" ++ "local" ++ "|" ++ b64)).toList, isSealed c = true := by
  have hfixed : ∀ c ∈ "enc:".toList ++ (algorithm ++ "|" ++ "local" ++ "|").toList, isSealed c = true :=
    List.all_eq_true.1 (by decide +kernel)
  intro c hc
  rw [String.toList_append, String.toList_append, ← List.append_assoc] at hc
  rcases List.mem_append.1 hc with hc | hc
  · exact hfixed c hc
  · rcases h c hc with hc | rfl
    · simp [isSealed, hc]
    · rfl

/-- What is encrypted can be decrypted, and a raw secret is stored in a form that stands in a basic string
as it is and resolves to it. -/
theorem secrets_round_trip (k : Sealing) (x : Externals) (h : k.Lawful x) :
    (∀ (c : Cipher) (iv : Iv) (plaintext : String), ∃ serialized,
      c.encryptSerialized k iv plaintext = .ok serialized ∧ c.decryptSerialized x serialized = .ok plaintext) ∧
    ∀ (c : Cipher) (value envName : String), Config.vault x = .ok (some c) → Raw value →
      ∀ tr r, (hardenSecret k value (some c) envName).Runs tr r →
        r.2 = none ∧ startsWith "enc:" r.1 = true ∧ (∀ ch ∈ r.1.toList, Toml.isBasic ch = true) ∧
          Config.resolve x r.1 = .ok (trim value) := by
  constructor
  · intro c iv plaintext
    obtain ⟨b64, hseal, hopen, -⟩ := Cipher.exists_sealed h c iv plaintext
    exact ⟨_, hseal, hopen⟩
  · intro c value envName hvault hraw tr r hrun
    rw [hardenSecret_raw hraw] at hrun
    obtain ⟨iv, tr', rfl, hrun⟩ := hrun
    obtain ⟨b64, hseal, hopen, hb64⟩ := Cipher.exists_sealed h c iv (trim value)
    change (match c.encryptSerialized k iv (trim value) with | .ok enc => _ | .error _ => _ :
      Task (String × Option String)).Runs _ _ at hrun
    rw [hseal] at hrun
    obtain ⟨rfl, rfl⟩ := hrun
    rw [Config.keyId_of_vault hvault] at hopen ⊢
    refine ⟨rfl, startsWith_append .., fun ch hch => isBasic_of_isSealed (isSealed_stored hb64 ch hch), ?_⟩
    exact (resolve_enc hvault _).trans hopen

/-! ### Libraries that know one sealed text -/

/-- `hunter2` sealed under a key and a nonce of zeros. -/
def sealedHunter2 : Bytes :=
  [0xa6, 0xd2, 0x2e, 0x49, 0x28, 0x12, 0x59] ++
    [0x8b, 0x70, 0xa2, 0xf8, 0xa3, 0xba, 0xec, 0x42, 0x58, 0xce, 0x5c, 0x69, 0xd0, 0xfc, 0xaa, 0x08]

def Sealing.sample : Sealing where
  base64Encode bs := String.ofList (Base64.encode bs)
  aesEncrypt key nonce plaintext :=
    if key = List.replicate 32 0 ∧ nonce = List.replicate 12 0 ∧ plaintext = utf8 "hunter2" then some sealedHunter2
    else some (plaintext ++ List.replicate 16 0)

/-- The same libraries with the opposite direction of `Sealing.sample`. -/
def Externals.sample (x : Externals) (env : String → Option String) : Externals :=
  { x with
    env
    base64Decode := fun s =>
      match Base64.decode s.toList with
      | some bs => .ok bs
      | none => .error "Invalid padding"
    aesDecrypt := fun key nonce ct =>
      if key = List.replicate 32 0 ∧ nonce = List.replicate 12 0 ∧ ct = sealedHunter2 then some (utf8 "hunter2")
      else if ct.drop (ct.length - 16) = List.replicate 16 0 then some (ct.take (ct.length - 16))
      else none }

theorem sample_lawful (x : Externals) (env : String → Option String) : Sealing.sample.Lawful (x.sample env) where
  opens c iv plaintext := by
    by_cases h : c.key = List.replicate 32 0 ∧ iv.bytes = List.replicate 12 0 ∧ plaintext = utf8 "hunter2"
    · obtain ⟨hkey, hiv, rfl⟩ := h
      exact ⟨sealedHunter2, if_pos ⟨hkey, hiv, rfl⟩, rfl, if_pos ⟨hkey, hiv, rfl⟩⟩
    · refine ⟨plaintext ++ List.replicate 16 0, if_neg h, by simp, ?_⟩
      have hne : plaintext ++ List.replicate 16 0 ≠ sealedHunter2 := by
        intro he
        have hlast := (List.append_inj' he rfl).2
        revert hlast
        decide
      show (if _ then _ else _) = _
      rw [if_neg fun h' => hne h'.2.2]
      simp
  decodes bs := by
    show (match Base64.decode _ with | some bs => _ | none => _) = _
    rw [Sealing.sample, String.toList_ofList, Base64.decode_encode]
  standard bs c hc := by
    rw [Sealing.sample, String.toList_ofList] at hc
    exact Base64.mem_encode hc

/-- The text of `hunter2`, sealed. -/
def serializedHunter2 : String :=
  "AES-256-GCM|k1" ++ "|" ++ Sealing.sample.base64Encode (List.replicate 12 0 ++ sealedHunter2)

theorem sample_opens {x : Externals} {env : String → Option String} {c : Cipher}
    (hkey : c.key = List.replicate 32 0) :
    (x.sample env).aesDecrypt c.key (⟨List.replicate 12 0, rfl⟩ : Iv).bytes sealedHunter2 = some (utf8 "hunter2") :=
  if_pos ⟨hkey, rfl, rfl⟩

theorem decryptSerialized_hunter2 {x : Externals} {env : String → Option String} {c : Cipher}
    (hkey : c.key = List.replicate 32 0) : c.decryptSerialized (x.sample env) serializedHunter2 = .ok "hunter2" := by
  have hlen : 0 < sealedHunter2.length := by decide
  have h := Cipher.decryptSerialized_encode (sample_lawful x env) "AES-256-GCM|k1" hlen (sample_opens hkey)
  unfold serializedHunter2
  exact h

/-- Libraries that also decode and decrypt. -/
def Externals.sampled : Externals := Externals.plain.sample fun _ => none

/-- Libraries with a vault whose key is zeros. -/
def Externals.zeroVault : Externals :=
  Externals.plain.sample fun name =>
    if name = "NEXUS_AGENT_KEY" then some (String.ofList (Base64.encode (List.replicate 32 0))) else none

theorem secrets_round_trip_hunter2 :
    (∃ serialized, Cipher.encryptSerialized .sample ⟨List.replicate 32 0, rfl, "a|b"⟩ ⟨List.replicate 12 0, rfl⟩
        "hunter2" = .ok serialized ∧
      Cipher.decryptSerialized .zeroVault ⟨List.replicate 32 0, rfl, "a|b"⟩ serialized = .ok "hunter2") ∧
    ∀ tr r, (hardenSecret .sample " hunter2\n" (some ⟨List.replicate 32 0, rfl, "local"⟩)
        "SECRET_ENCRYPTION_KEY").Runs tr r →
      r.2 = none ∧ startsWith "enc:" r.1 = true ∧ (∀ ch ∈ r.1.toList, Toml.isBasic ch = true) ∧
        Config.resolve .zeroVault r.1 = .ok "hunter2" := by
  have h := secrets_round_trip .sample .zeroVault (sample_lawful ..)
  refine ⟨h.1 _ _ _, ?_⟩
  exact h.2 _ " hunter2\n" _ (by rfl) (by decide +kernel)

end NexusAgent
