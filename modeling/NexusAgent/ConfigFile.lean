import NexusAgent.Config
import NexusAgent.Lib.Toml.Document

/-!
# What the configuration file says (`config.rs`)

`Sections.ofTable` is what the derived `Deserialize` makes of a document. A struct is read by the names of its
fields from a table, and by their positions from an array.
-/

namespace NexusAgent
open Toml

/-- What a struct is read from. -/
inductive Fields where
  | named (es : Entries)
  | positional (vs : List Value)

namespace Fields

def ofValue : Value → Option Fields
  | .table _ es => some (.named es)
  | .arr vs => some (.positional vs)
  | .tables elems => some (.positional (elems.map (.table .header)))
  | _ => none

def get? (f : Fields) (i : Nat) (name : String) : Option Value :=
  match f with
  | .named es => es.lookup name
  | .positional vs => vs[i]?

variable {α : Type} (f : Fields) (i : Nat) (name : String) (read : Value → Option α)

def required : Option α := (f.get? i name).bind read

/-- `#[serde(default)]` -/
def withDefault (d : α) : Option α :=
  match f.get? i name with
  | some v => read v
  | none => some d

def optional : Option (Option α) := f.withDefault i name (fun v => (read v).map some) none

end Fields

def readString : Value → Option String
  | .str s => some s
  | _ => none

def readBool : Value → Option Bool
  | .bool b => some b
  | _ => none

def readU64 : Value → Option Nat
  | .int n => if 0 ≤ n then some n.toNat else none
  | _ => none

def modeOf (name : String) : Option Mode :=
  if name = "ad" then some .ad else if name = "db" then some .db else none

/-- A variant by its name, or as a table with its name and nothing in it. -/
def readMode : Value → Option Mode
  | .str s => modeOf s
  | .table _ [(name, .table _ [])] | .table _ [(name, .arr [])] | .table _ [(name, .tables [])] => modeOf name
  | _ => none

def readEntries : Entries → Option (SortedMap String String)
  | [] => some .empty
  | (k, v) :: es =>
    match readString v, readEntries es with
    | some s, some m => some (m.insert k s)
    | _, _ => none

def readMap : Value → Option (SortedMap String String)
  | .table _ es => readEntries es
  | _ => none

def AgentSection.ofFields (f : Fields) : Option AgentSection := do
  let id ← f.required 0 "id" readString
  let mode ← f.required 1 "mode" readMode
  let pollIntervalSecs ← f.withDefault 2 "poll_interval_secs" readU64 30
  let auditLog ← f.withDefault 3 "audit_log" readString "./nexus-agent.audit.jsonl"
  let directoryIntegrationId ← f.optional 4 "directory_integration_id" readString
  some { id, mode, pollIntervalSecs, auditLog, directoryIntegrationId }

def ServerSection.ofFields (f : Fields) : Option ServerSection := do
  let baseUrl ← f.required 0 "base_url" readString
  let agentToken ← f.required 1 "agent_token" readString
  let secretKey ← f.required 2 "secret_key" readString
  let verifyTls ← f.withDefault 3 "verify_tls" readBool true
  some { baseUrl, agentToken, secretKey, verifyTls }

def AdSection.ofFields (f : Fields) : Option AdSection := do
  let url ← f.required 0 "url" readString
  let bindDn ← f.required 1 "bind_dn" readString
  let bindPassword ← f.required 2 "bind_password" readString
  let baseDn ← f.required 3 "base_dn" readString
  let useKerberos ← f.withDefault 4 "use_kerberos" readBool false
  let passwordWriteback ← f.withDefault 5 "password_writeback" readBool true
  some { url, bindDn, bindPassword, baseDn, useKerberos, passwordWriteback }

def DbSection.ofFields (f : Fields) : Option DbSection := do
  let url ← f.required 0 "url" readString
  let driver ← f.required 1 "driver" readString
  let table ← f.required 2 "table" readString
  let keyColumn ← f.required 3 "key_column" readString
  let fields ← f.required 4 "fields" readMap
  let pushPath ← f.required 5 "push_path" readString
  let pushSecret ← f.required 6 "push_secret" readString
  let writeback ← f.withDefault 7 "writeback" readBool false
  let writebackPullPath ← f.optional 8 "writeback_pull_path" readString
  some { url, driver, table, keyColumn, fields, pushPath, pushSecret, writeback, writebackPullPath }

def Sections.ofTable (es : Entries) : Option Sections := do
  let top := Fields.named es
  let agent ← top.required 0 "agent" fun v => (Fields.ofValue v).bind AgentSection.ofFields
  let server ← top.required 1 "server" fun v => (Fields.ofValue v).bind ServerSection.ofFields
  let ad ← top.optional 2 "ad" fun v => (Fields.ofValue v).bind AdSection.ofFields
  let db ← top.optional 3 "db" fun v => (Fields.ofValue v).bind DbSection.ofFields
  some { agent, server, ad, db }

/-- `toml::from_str` reads TOML 1.0. -/
def ReadsToml (fromStr : String → Except String Sections) : Prop :=
  ∀ text, (fromStr text).toOption = (Toml.parse text).bind Sections.ofTable

/-! ### Strings of the document -/

section
variable {es : Entries} {s : Sections}

/-- What is read under a section and a key, if a string stands there. -/
theorem exists_lookup_of_strAt {k k' u : String} (h : strAt [k, k'] es = some u) :
    ∃ kind es', es.lookup k = some (.table kind es') ∧ es'.lookup k' = some (.str u) := by
  unfold strAt at h
  split at h
  next kind es' heq =>
    unfold strAt at h
    split at h
    next heq' => cases h; exact ⟨kind, es', heq, heq'⟩
    next => cases h
  next => cases h

/-- A field of a struct, if a string stands under its name. -/
theorem required_named {α : Type} {read : Value → Option α} {i : Nat} {name u : String}
    (h : es.lookup name = some (.str u)) : (Fields.named es).required i name read = read (.str u) := by
  show (es.lookup name).bind read = _
  rw [h]
  rfl

theorem eq_of_required {i : Nat} {name u v : String} (hread : (Fields.named es).required i name readString = some v)
    (h : es.lookup name = some (.str u)) : u = v := by
  rw [required_named h] at hread
  exact Option.some.inj hread

theorem eq_of_withDefault {i : Nat} {name u v d : String}
    (hread : (Fields.named es).withDefault i name readString d = some v) (h : es.lookup name = some (.str u)) :
    u = v := by
  change (match es.lookup name with | some v => readString v | none => some d) = _ at hread
  rw [h] at hread
  exact Option.some.inj hread

theorem eq_ad_of_modeOf {u : String} (h : modeOf u = some .ad) : u = "ad" := by
  unfold modeOf at h
  split at h
  next heq => exact heq
  next => split at h <;> cases h

theorem AgentSection.of_ofFields {a : AgentSection} (h : ofFields (.named es) = some a) :
    (∀ u, es.lookup "id" = some (.str u) → u = a.id) ∧
      (∀ u, es.lookup "mode" = some (.str u) → modeOf u = some a.mode) ∧
      ∀ u, es.lookup "audit_log" = some (.str u) → u = a.auditLog := by
  simp only [ofFields, bind, Option.bind_eq_some_iff] at h
  obtain ⟨_, hid, _, hmode, _, -, _, haudit, _, -, h⟩ := h
  cases h
  refine ⟨fun u => eq_of_required hid, fun u hu => ?_, fun u => eq_of_withDefault haudit⟩
  rwa [required_named hu] at hmode

theorem ServerSection.of_ofFields {a : ServerSection} (h : ofFields (.named es) = some a) :
    (∀ u, es.lookup "base_url" = some (.str u) → u = a.baseUrl) ∧
      (∀ u, es.lookup "agent_token" = some (.str u) → u = a.agentToken) ∧
        ∀ u, es.lookup "secret_key" = some (.str u) → u = a.secretKey := by
  simp only [ofFields, bind, Option.bind_eq_some_iff] at h
  obtain ⟨_, hurl, _, htoken, _, hkey, _, -, h⟩ := h
  cases h
  exact ⟨fun u => eq_of_required hurl, fun u => eq_of_required htoken, fun u => eq_of_required hkey⟩

theorem AdSection.of_ofFields {a : AdSection} (h : ofFields (.named es) = some a) :
    (∀ u, es.lookup "url" = some (.str u) → u = a.url) ∧
      (∀ u, es.lookup "bind_dn" = some (.str u) → u = a.bindDn) ∧
        (∀ u, es.lookup "bind_password" = some (.str u) → u = a.bindPassword) ∧
          ∀ u, es.lookup "base_dn" = some (.str u) → u = a.baseDn := by
  simp only [ofFields, bind, Option.bind_eq_some_iff] at h
  obtain ⟨_, hurl, _, hdn, _, hpassword, _, hbase, _, -, _, -, h⟩ := h
  cases h
  exact ⟨fun u => eq_of_required hurl, fun u => eq_of_required hdn, fun u => eq_of_required hpassword,
    fun u => eq_of_required hbase⟩

/-- The sections that are tables are read by the names of their fields. -/
theorem Sections.of_ofTable (h : ofTable es = some s) :
    (∀ kind es', es.lookup "agent" = some (.table kind es') → AgentSection.ofFields (.named es') = some s.agent) ∧
      (∀ kind es', es.lookup "server" = some (.table kind es') → ServerSection.ofFields (.named es') = some s.server) ∧
        ∀ kind es', es.lookup "ad" = some (.table kind es') → ∀ ad, s.ad = some ad →
          AdSection.ofFields (.named es') = some ad := by
  simp only [ofTable, bind, Option.bind_eq_some_iff, Fields.required, Fields.optional, Fields.withDefault,
    Fields.get?] at h
  obtain ⟨_, ⟨va, hva, hagent⟩, _, ⟨vs, hvs, hserver⟩, _, had, _, -, h⟩ := h
  cases h
  refine ⟨fun kind es' hlookup => ?_, fun kind es' hlookup => ?_, fun kind es' hlookup ad hsome => ?_⟩
  · rw [hlookup] at hva
    cases hva
    obtain ⟨f, hf, hread⟩ := hagent
    cases hf
    exact hread
  · rw [hlookup] at hvs
    cases hvs
    obtain ⟨f, hf, hread⟩ := hserver
    cases hf
    exact hread
  · rw [hlookup] at had
    obtain ⟨ad', hread, hsome'⟩ := Option.map_eq_some_iff.1 had
    cases hsome.symm.trans hsome'.symm
    exact hread

end

end NexusAgent
