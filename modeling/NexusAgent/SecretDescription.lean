import NexusAgent.Config
import NexusAgent.Secrets

/-!
# What the log learns of a secret

`describe` is to name the source of a secret and whether it resolved, and never the value. It repeats the error
of `resolve`, and four of these errors repeat what a library says about the bytes it was given:
`describe_leaks_nothing_iff`.
-/

namespace NexusAgent
open Text

/-- What can be wrong with the bytes of a sealed secret or of its key. -/
inductive Flaw where
  | key
  | keyLength
  | ciphertext
  | plaintext
  deriving DecidableEq

def Flaw.message : Flaw → String
  | .key => "invalid base64 key: "
  | .keyLength => "key must be 32 bytes (256-bit); got "
  | .ciphertext => "invalid base64 ciphertext: "
  | .plaintext => "plaintext not UTF-8: "

/-- Why a secret does not resolve. -/
inductive Failure where
  | unset (var : String)
  | noVault
  | flawed (flaw : Flaw) (complaint : String)
  | short
  | unopened
  deriving DecidableEq

namespace Failure

def error : Failure → AgentError
  | .unset var => .config s!"env var '{var}' not set"
  | .noVault => .config "an enc: secret requires NEXUS_AGENT_KEY to be set"
  | .flawed flaw complaint => .crypto (flaw.message ++ complaint)
  | .short => .crypto "ciphertext too short"
  | .unopened => .crypto "decryption failed (bad key or tampered data)"

/-- The kind of a failure, without the library's complaint. -/
def kind : Failure → Failure
  | .flawed flaw _ => .flawed flaw ""
  | f => f

end Failure

/-- What the log is meant to learn of a resolution. -/
inductive Resolution where
  | blank
  | success (chars : Nat)
  | failed (kind : Failure)
  deriving DecidableEq

def Resolution.of : Except Failure String → Resolution
  | .ok v => if isBlank v then .blank else .success v.length
  | .error f => .failed f.kind

section
variable (x : Externals)

/-- The key of the vault. -/
def VaultKey (key : String) : Prop := x.env "NEXUS_AGENT_KEY" = some key ∧ isBlank key = false

/-- `b64` is the last field of a sealed secret that the vault with the key of `c` reads. -/
def Sealed (c : Cipher) (serialized b64 : String) : Prop :=
  Config.vault x = .ok (some c) ∧ rsplitNext '|' serialized = some b64

/-- The bytes behind a raw setting that a library complains about. -/
inductive Flawed : String → Flaw → String → Prop
  | key {key serialized complaint} : VaultKey x key → x.base64Decode (trim key) = .error complaint →
    Flawed ("enc:" ++ serialized) .key complaint
  | keyLength {key serialized bytes} : VaultKey x key → x.base64Decode (trim key) = .ok bytes →
    bytes.length ≠ 32 → Flawed ("enc:" ++ serialized) .keyLength (toString bytes.length)
  | ciphertext {c serialized b64 complaint} : Sealed x c serialized b64 →
    x.base64Decode (trim b64) = .error complaint → Flawed ("enc:" ++ serialized) .ciphertext complaint
  | plaintext {c serialized b64 iv ct plain} : Sealed x c serialized b64 → HoldsCiphertext x b64 iv ct →
    x.aesDecrypt c.key iv.bytes ct = some plain → fromUtf8 plain = none →
    Flawed ("enc:" ++ serialized) .plaintext (x.utf8Error plain)

/-- What becomes of a raw setting. -/
inductive Resolves : String → Except Failure String → Prop
  | found {var v} : x.env var = some v → Resolves ("env:" ++ var) (.ok v)
  | unset {var} : x.env var = none → Resolves ("env:" ++ var) (.error (.unset var))
  | inline {raw} : startsWith "env:" raw = false → startsWith "enc:" raw = false → Resolves raw (.ok raw)
  | noVault {serialized} : (∀ key, ¬ VaultKey x key) → Resolves ("enc:" ++ serialized) (.error .noVault)
  | flawed {raw flaw complaint} : Flawed x raw flaw complaint → Resolves raw (.error (.flawed flaw complaint))
  | short {c serialized b64 combined} : Sealed x c serialized b64 → x.base64Decode (trim b64) = .ok combined →
    combined.length ≤ ivSize → Resolves ("enc:" ++ serialized) (.error .short)
  | unopened {c serialized b64 iv ct} : Sealed x c serialized b64 → HoldsCiphertext x b64 iv ct →
    x.aesDecrypt c.key iv.bytes ct = none → Resolves ("enc:" ++ serialized) (.error .unopened)
  | opened {c serialized b64 iv ct plaintext} : Sealed x c serialized b64 → HoldsCiphertext x b64 iv ct →
    x.aesDecrypt c.key iv.bytes ct = some (utf8 plaintext) → Resolves ("enc:" ++ serialized) (.ok plaintext)

end

section
variable {x : Externals} {raw : String} {r : Except Failure String}

/-! ### The vault -/

theorem vault_of_none (h : ∀ key, ¬ VaultKey x key) : Config.vault x = .ok none := by
  rw [Config.vault]
  rcases hkey : x.env "NEXUS_AGENT_KEY" with _ | key
  · rfl
  · have hblank : isBlank key = true := by
      by_contra hb
      exact h key ⟨hkey, Bool.eq_false_iff.2 hb⟩
    exact if_pos hblank

theorem vault_of_key {key : String} (h : VaultKey x key) :
    Config.vault x = (Cipher.fromBase64Key x key "local").map some := by
  rw [Config.vault, h.1]
  exact if_neg (Bool.eq_false_iff.1 h.2)

theorem vault_undecoded {key complaint : String} (h : VaultKey x key)
    (hdecode : x.base64Decode (trim key) = .error complaint) :
    Config.vault x = .error (Failure.flawed .key complaint).error := by
  rw [vault_of_key h, Cipher.fromBase64Key, hdecode]
  rfl

theorem vault_wrong_length {key : String} {bytes : Bytes} (h : VaultKey x key)
    (hdecode : x.base64Decode (trim key) = .ok bytes) (hlen : bytes.length ≠ 32) :
    Config.vault x = .error (Failure.flawed .keyLength (toString bytes.length)).error := by
  rw [vault_of_key h, Cipher.fromBase64Key, hdecode]
  dsimp only
  rw [dif_neg hlen]
  rfl

theorem vault_cases (x : Externals) : (∀ key, ¬ VaultKey x key) ∨
    (∃ key complaint, VaultKey x key ∧ x.base64Decode (trim key) = .error complaint) ∨
    (∃ key bytes, VaultKey x key ∧ x.base64Decode (trim key) = .ok bytes ∧ bytes.length ≠ 32) ∨
    ∃ c, Config.vault x = .ok (some c) := by
  by_cases hkey : ∃ key, VaultKey x key
  · obtain ⟨key, hkey⟩ := hkey
    rcases hdecode : x.base64Decode (trim key) with complaint | bytes
    · exact .inr (.inl ⟨key, complaint, hkey, hdecode⟩)
    by_cases hlen : bytes.length = 32
    · refine .inr (.inr (.inr ⟨⟨bytes, hlen, "local"⟩, ?_⟩))
      rw [vault_of_key hkey, Cipher.fromBase64Key, hdecode]
      dsimp only
      rw [dif_pos hlen]
      rfl
    · exact .inr (.inr (.inl ⟨key, bytes, hkey, hdecode, hlen⟩))
  · exact .inl fun key h => hkey ⟨key, h⟩

/-! ### Every setting has an outcome -/

theorem startsWith_eq_true {p s : String} : startsWith p s = true ↔ ∃ t, s = p ++ t := by
  constructor
  · intro h
    obtain ⟨t, ht⟩ := List.isPrefixOf_iff_prefix.1 h
    refine ⟨String.ofList t, String.toList_inj.1 ?_⟩
    rw [String.toList_append, String.toList_ofList, ht]
  · rintro ⟨t, rfl⟩
    exact startsWith_append p t

theorem resolve_enc_error {e : AgentError} (hvault : Config.vault x = .error e) (serialized : String) :
    Config.resolve x ("enc:" ++ serialized) = .error e := by
  rw [Config.resolve, stripPrefix_eq_none (enc_not_env serialized), stripPrefix_append, hvault]

theorem resolve_enc_none (hvault : Config.vault x = .ok none) (serialized : String) :
    Config.resolve x ("enc:" ++ serialized) = .error Failure.noVault.error := by
  rw [Config.resolve, stripPrefix_eq_none (enc_not_env serialized), stripPrefix_append, hvault]
  rfl

theorem resolve_sealed {c : Cipher} {serialized b64 : String} (h : Sealed x c serialized b64) :
    Config.resolve x ("enc:" ++ serialized) = c.decryptB64 x b64 := by
  rw [resolve_enc h.1, Cipher.decryptSerialized, h.2]

theorem exists_resolves (x : Externals) (raw : String) : ∃ r, Resolves x raw r := by
  by_cases henv : startsWith "env:" raw = true
  · obtain ⟨var, rfl⟩ := startsWith_eq_true.1 henv
    rcases hvar : x.env var with _ | v
    · exact ⟨_, .unset hvar⟩
    · exact ⟨_, .found hvar⟩
  by_cases henc : startsWith "enc:" raw = true
  · obtain ⟨serialized, rfl⟩ := startsWith_eq_true.1 henc
    rcases vault_cases x with hnone | ⟨key, complaint, hkey, hdecode⟩ | ⟨key, bytes, hkey, hdecode, hlen⟩ | ⟨c, hc⟩
    · exact ⟨_, .noVault hnone⟩
    · exact ⟨_, .flawed (.key hkey hdecode)⟩
    · exact ⟨_, .flawed (.keyLength hkey hdecode hlen)⟩
    obtain ⟨b64, hlast⟩ : ∃ b64, rsplitNext '|' serialized = some b64 := ⟨_, rfl⟩
    have hsealed : Sealed x c serialized b64 := ⟨hc, hlast⟩
    rcases Cipher.decryptB64_cases x c b64 with ⟨e, hdecode⟩ | ⟨combined, hdecode, hlen⟩ | ⟨iv, ct, hholds, hopen⟩
    · exact ⟨_, .flawed (.ciphertext hsealed hdecode)⟩
    · exact ⟨_, .short hsealed hdecode hlen⟩
    · rcases hopen with hopen | ⟨plain, hopen, htext⟩ | ⟨text, hopen⟩
      · exact ⟨_, .unopened hsealed hholds hopen⟩
      · exact ⟨_, .flawed (.plaintext hsealed hholds hopen htext)⟩
      · exact ⟨_, .opened hsealed hholds hopen⟩
  · exact ⟨_, .inline (Bool.eq_false_iff.2 henv) (Bool.eq_false_iff.2 henc)⟩

theorem resolve_of_flawed {flaw : Flaw} {complaint : String} (h : Flawed x raw flaw complaint) :
    Config.resolve x raw = .error (Failure.flawed flaw complaint).error := by
  cases h with
  | key hkey hdecode => exact resolve_enc_error (vault_undecoded hkey hdecode) _
  | keyLength hkey hdecode hlen => exact resolve_enc_error (vault_wrong_length hkey hdecode hlen) _
  | ciphertext hsealed hdecode =>
    rw [resolve_sealed hsealed, Cipher.decryptB64_undecoded hdecode]
    rfl
  | plaintext hsealed hholds hopen htext =>
    rw [resolve_sealed hsealed, Cipher.decryptB64_not_utf8 hholds hopen htext]
    rfl

theorem resolve_of_resolves (h : Resolves x raw r) : Config.resolve x raw = r.mapError Failure.error := by
  cases h with
  | found hvar =>
    rw [Config.resolve, stripPrefix_append]
    dsimp only
    rw [hvar]
    rfl
  | unset hvar =>
    rw [Config.resolve, stripPrefix_append]
    dsimp only
    rw [hvar]
    rfl
  | inline henv henc =>
    rw [Config.resolve, stripPrefix_eq_none henv, stripPrefix_eq_none henc]
    rfl
  | noVault hnone => exact resolve_enc_none (vault_of_none hnone) _
  | flawed hflawed => exact resolve_of_flawed hflawed
  | short hsealed hdecode hlen =>
    rw [resolve_sealed hsealed, Cipher.decryptB64_short hdecode hlen]
    rfl
  | unopened hsealed hholds hopen =>
    rw [resolve_sealed hsealed, Cipher.decryptB64_unopened hholds hopen]
    rfl
  | opened hsealed hholds hopen =>
    rw [resolve_sealed hsealed, Cipher.decryptB64_opened hholds hopen]
    rfl

/-! ### The description -/

/-- The description, from the source and the outcome. -/
def report (source : Config.Source) : Except Failure String → String
  | .ok v => if isBlank v then s!"[{source.text}] -> EMPTY/unresolved" else s!"[{source.text}] -> ok ({v.length} chars)"
  | .error f => s!"[{source.text}] -> ERROR: {f.error.display}"

theorem describe_of_resolves (h : Resolves x raw r) : Config.describe x raw = report (Config.source raw) r := by
  rw [Config.describe, resolve_of_resolves h]
  cases r <;> rfl

theorem Failure.eq_of_kind {f f' : Failure} (h : f.kind = f'.kind)
    (hflaw : ∀ flaw e e', f = .flawed flaw e → f' = .flawed flaw e' → e = e') : f = f' := by
  cases f with
  | flawed flaw e =>
    cases f' with
    | flawed flaw' e' =>
      obtain rfl : flaw = flaw' := (Failure.flawed.inj h).1
      rw [hflaw flaw e e' rfl rfl]
    | _ => cases h
  | _ =>
    cases f' <;> cases h
    rfl

/-- Outcomes of one kind are reported alike unless a library complains differently. -/
theorem report_eq {source : Config.Source} {r r' : Except Failure String} (hkind : Resolution.of r = Resolution.of r')
    (hflaw : ∀ flaw e e', r = .error (.flawed flaw e) → r' = .error (.flawed flaw e') → e = e') :
    report source r = report source r' := by
  rcases r with f | v <;> rcases r' with f' | v'
  · obtain rfl : f = f' := by
      refine Failure.eq_of_kind (Resolution.failed.inj hkind) ?_
      intro flaw e e' hf hf'
      exact hflaw flaw e e' (congrArg _ hf) (congrArg _ hf')
    rfl
  · unfold Resolution.of at hkind
    dsimp only at hkind
    split at hkind <;> cases hkind
  · unfold Resolution.of at hkind
    dsimp only at hkind
    split at hkind <;> cases hkind
  · unfold Resolution.of at hkind
    unfold report
    dsimp only at hkind ⊢
    by_cases hb : isBlank v = true <;> by_cases hb' : isBlank v' = true
    · rw [if_pos hb, if_pos hb']
    · rw [if_pos hb, if_neg hb'] at hkind
      cases hkind
    · rw [if_neg hb, if_pos hb'] at hkind
      cases hkind
    · rw [if_neg hb, if_neg hb'] at hkind ⊢
      rw [Resolution.success.inj hkind]

/-- The complaint stands at the end of the report. -/
theorem complaint_of_report {source : Config.Source} {flaw : Flaw} {e e' : String}
    (h : report source (.error (.flawed flaw e)) = report source (.error (.flawed flaw e'))) : e = e' := by
  have hreport (e : String) : report source (.error (.flawed flaw e)) =
      "[" ++ source.text ++ "] -> ERROR: " ++ ("crypto error: " ++ (flaw.message ++ e)) := rfl
  rw [hreport, hreport, String.append_right_inj, String.append_right_inj, String.append_right_inj] at h
  exact h

theorem flawed_of_resolves {flaw : Flaw} {e : String} (h : Resolves x raw (.error (.flawed flaw e))) :
    Flawed x raw flaw e := by
  cases h
  assumption

theorem source_of_flawed {flaw : Flaw} {e : String} (h : Flawed x raw flaw e) : Config.source raw = .vault := by
  have hsource (serialized : String) : Config.source ("enc:" ++ serialized) = .vault := by
    rw [Config.source, stripPrefix_eq_none (enc_not_env serialized)]
    exact if_pos (startsWith_append ..)
  cases h <;> exact hsource _

end

/-! ### Two runs -/

/-- The two settings have the same source, and what the log is meant to learn of them is the same. -/
structure SameForLog (x y : Externals) (raw raw' : String) : Prop where
  source : Config.source raw = Config.source raw'
  outcome : ∃ r r', Resolves x raw r ∧ Resolves y raw' r' ∧ Resolution.of r = Resolution.of r'

/-- The libraries in another environment. -/
def Externals.inEnv (x : Externals) (env : String → Option String) : Externals := { x with env }

def LeaksNothing (x : Externals) (env env' : String → Option String) (raw raw' : String) : Prop :=
  SameForLog (x.inEnv env) (x.inEnv env') raw raw' →
    Config.describe (x.inEnv env) raw = Config.describe (x.inEnv env') raw'

/-- Two settings the log is not meant to tell apart are told apart exactly where both have the same flaw and
the library complains about them in different words. -/
theorem describe_leaks_nothing_iff (x : Externals) (env env' : String → Option String) (raw raw' : String) :
    LeaksNothing x env env' raw raw' ↔ ∀ flaw complaint complaint', Flawed (x.inEnv env) raw flaw complaint →
      Flawed (x.inEnv env') raw' flaw complaint' → complaint = complaint' := by
  constructor
  · intro hleak flaw e e' hflawed hflawed'
    have hsource : Config.source raw = Config.source raw' :=
      (source_of_flawed hflawed).trans (source_of_flawed hflawed').symm
    have heq := hleak ⟨hsource, _, _, .flawed hflawed, .flawed hflawed', rfl⟩
    rw [describe_of_resolves (.flawed hflawed), describe_of_resolves (.flawed hflawed'), hsource] at heq
    exact complaint_of_report heq
  · rintro hcond ⟨hsource, r, r', hr, hr', hkind⟩
    rw [describe_of_resolves hr, describe_of_resolves hr', hsource]
    refine report_eq hkind ?_
    rintro flaw e e' rfl rfl
    exact hcond flaw e e' (flawed_of_resolves hr) (flawed_of_resolves hr')

/-! ### A decoder that names the byte it stumbles over -/

/-- Libraries whose base64 decoder names the first byte that is no symbol, and where it stands. -/
def Externals.stumbling : Externals :=
  { Externals.zeroVault with
    base64Decode := fun s =>
      match Base64.decode s.toList with
      | some bs => .ok bs
      | none =>
        match s.toList.zipIdx.find? (fun e => (Base64.bits e.1).isNone) with
        | some (c, i) => .error s!"Invalid symbol {c.toNat}, offset {i}."
        | none => .error "Invalid padding" }

/-- An environment that sets the key of the vault. -/
def keyEnv (key : String) : String → Option String := fun name => if name = "NEXUS_AGENT_KEY" then some key else none

theorem flawed_keyEnv {x : Externals} {key complaint : String} (hblank : isBlank key = false)
    (hdecode : x.base64Decode (trim key) = .error complaint) (serialized : String) :
    Flawed (x.inEnv (keyEnv key)) ("enc:" ++ serialized) .key complaint := by
  have henv : keyEnv key "NEXUS_AGENT_KEY" = some key := by
    rw [keyEnv, if_pos rfl]
  have hkey : VaultKey (x.inEnv (keyEnv key)) key := ⟨henv, hblank⟩
  exact .key hkey hdecode

/-- Two vault keys that differ in the last character give descriptions that differ. -/
theorem describe_leaks_key :
    ¬ LeaksNothing .stumbling (keyEnv "hunter2!") (keyEnv "hunter2?") ("enc:" ++ serializedHunter2)
      ("enc:" ++ serializedHunter2) := by
  have hfirst : Flawed (Externals.stumbling.inEnv (keyEnv "hunter2!")) ("enc:" ++ serializedHunter2) .key
      "Invalid symbol 33, offset 7." := flawed_keyEnv (by decide +kernel) (by decide +kernel) _
  have hsecond : Flawed (Externals.stumbling.inEnv (keyEnv "hunter2?")) ("enc:" ++ serializedHunter2) .key
      "Invalid symbol 63, offset 7." := flawed_keyEnv (by decide +kernel) (by decide +kernel) _
  intro hleak
  have heq := hleak ⟨rfl, _, _, .flawed hfirst, .flawed hsecond, rfl⟩
  rw [describe_of_resolves (.flawed hfirst), describe_of_resolves (.flawed hsecond)] at heq
  have hsame := complaint_of_report heq
  revert hsame
  decide

end NexusAgent
