import NexusAgent.SetupFile
import NexusAgent.ConfigFile

/-!
# The file a setup writes is the one the agent reads

`setup_loads_iff`: the stored text loads with the values it was written from exactly if these are free of
quotes, backslashes and control characters.
-/

namespace NexusAgent
open Text Toml

/-- The lines of the template before the last one. -/
def setupItems (v : SetupValues) (secretKey bindPassword : String) : List Item :=
  [.header "agent", .quoted "id" v.agentId, .quoted "mode" v.mode, .token "poll_interval_secs" "30",
    .quoted "audit_log" "./nexus-agent.audit.jsonl", .blank,
    .header "server", .quoted "base_url" v.baseUrl, .quoted "agent_token" v.agentToken,
    .quoted "secret_key" secretKey, .token "verify_tls" "true", .blank,
    .header "ad", .quoted "url" v.adUrl, .quoted "bind_dn" v.bindDn, .quoted "bind_password" bindPassword,
    .quoted "base_dn" v.baseDn, .token "use_kerberos" "false"]

/-- The lines of the template. -/
def setupLines (v : SetupValues) (secretKey bindPassword : String) : List Item :=
  setupItems v secretKey bindPassword ++ [.token "password_writeback" "true"]

variable {v : SetupValues} {secretKey bindPassword : String}

/-- The beginning of a line with a quoted text. -/
def openQuote (k : String) : List Char := k.toList ++ [' ', '=', ' ', '"']

theorem text_quoted (k s : String) : (Item.quoted k s).text = openQuote k ++ (s.toList ++ ['"', '\n']) := by
  simp [Item.text, openQuote]

theorem setupToml_eq :
    setupToml v secretKey bindPassword = String.ofList (text (setupLines v secretKey bindPassword)) := by
  have hagent : "[agent]\nid = \"".toList = (Item.header "agent").text ++ openQuote "id" := by decide +kernel
  have hmode : "\"\nmode = \"".toList = '"' :: '\n' :: openQuote "mode" := by decide +kernel
  have hpoll : "\"\npoll_interval_secs = 30\naudit_log = \"./nexus-agent.audit.jsonl\"\n\n".toList =
      '"' :: '\n' :: ((Item.token "poll_interval_secs" "30").text ++
        ((Item.quoted "audit_log" "./nexus-agent.audit.jsonl").text ++ ['\n'])) := by decide +kernel
  have hserver : "[server]\nbase_url = \"".toList = (Item.header "server").text ++ openQuote "base_url" := by
    decide +kernel
  have htoken : "\"\nagent_token = \"".toList = '"' :: '\n' :: openQuote "agent_token" := by decide +kernel
  have hkey : "\"\nsecret_key = \"".toList = '"' :: '\n' :: openQuote "secret_key" := by decide +kernel
  have htls : "\"\nverify_tls = true\n\n".toList =
      '"' :: '\n' :: ((Item.token "verify_tls" "true").text ++ ['\n']) := by decide +kernel
  have had : "[ad]\nurl = \"".toList = (Item.header "ad").text ++ openQuote "url" := by decide +kernel
  have hdn : "\"\nbind_dn = \"".toList = '"' :: '\n' :: openQuote "bind_dn" := by decide +kernel
  have hpassword : "\"\nbind_password = \"".toList = '"' :: '\n' :: openQuote "bind_password" := by decide +kernel
  have hbase : "\"\nbase_dn = \"".toList = '"' :: '\n' :: openQuote "base_dn" := by decide +kernel
  have hlast : "\"\nuse_kerberos = false\npassword_writeback = true\n".toList =
      '"' :: '\n' :: ((Item.token "use_kerberos" "false").text ++ (Item.token "password_writeback" "true").text) := by
    decide +kernel
  apply String.toList_injective
  unfold setupToml
  simp only [String.toList_ofList, String.toList_append, hagent, hmode, hpoll, hserver, htoken, hkey, htls, had, hdn,
    hpassword, hbase, hlast, setupLines, setupItems, text, text_quoted, Item.text.eq_1, List.flatMap_cons,
    List.flatMap_nil, List.cons_append, List.nil_append, List.append_nil, List.append_assoc]

theorem plain_setupLines : ∀ i ∈ setupLines v secretKey bindPassword, i.Plain := by
  have hbare : ∀ k ∈ ["agent", "id", "mode", "poll_interval_secs", "audit_log", "server", "base_url", "agent_token",
      "secret_key", "verify_tls", "ad", "url", "bind_dn", "bind_password", "base_dn", "use_kerberos",
      "password_writeback"], Bare k := by decide +kernel
  have htoken : ∀ t ∈ ["30", "true", "false"], Token t := by decide +kernel
  simp only [setupLines, setupItems, List.cons_append, List.nil_append, List.forall_mem_cons, Item.Plain]
  simp [hbare, htoken]

theorem dropMark_setupLines :
    dropMark (text (setupLines v secretKey bindPassword)) = text (setupLines v secretKey bindPassword) := by
  rfl

/-- The document that the template says. -/
def setupTable (v : SetupValues) (secretKey bindPassword : String) : Entries :=
  [("agent", .table .header [("id", .str v.agentId), ("mode", .str v.mode), ("poll_interval_secs", .int 30),
      ("audit_log", .str "./nexus-agent.audit.jsonl")]),
    ("server", .table .header [("base_url", .str v.baseUrl), ("agent_token", .str v.agentToken),
      ("secret_key", .str secretKey), ("verify_tls", .bool true)]),
    ("ad", .table .header [("url", .str v.adUrl), ("bind_dn", .str v.bindDn), ("bind_password", .str bindPassword),
      ("base_dn", .str v.baseDn), ("use_kerberos", .bool false), ("password_writeback", .bool true)])]

theorem run_setupLines : run ⟨[], []⟩ ((setupLines v secretKey bindPassword).flatMap Item.stmts) =
    some ⟨setupTable v secretKey bindPassword, ["ad"]⟩ := by
  have h30 : bare ['3', '0'] = some (.int 30) := by rfl
  have htrue : bare ['t', 'r', 'u', 'e'] = some (.bool true) := by rfl
  have hfalse : bare ['f', 'a', 'l', 's', 'e'] = some (.bool false) := by rfl
  simp [setupLines, setupItems, Item.stmts, h30, htrue, hfalse, run, step, descend, alter, assign, openTable,
    setupTable]

/-- The configuration that the template stands for. -/
def setupSections (v : SetupValues) (secretKey bindPassword : String) : Sections where
  agent := ⟨v.agentId, .ad, 30, "./nexus-agent.audit.jsonl", none⟩
  server := ⟨v.baseUrl, v.agentToken, secretKey, true⟩
  ad := some ⟨v.adUrl, v.bindDn, bindPassword, v.baseDn, false, true⟩
  db := none

theorem ofTable_setupTable (hmode : v.mode = "ad") :
    Sections.ofTable (setupTable v secretKey bindPassword) = some (setupSections v secretKey bindPassword) := by
  simp [Sections.ofTable, setupTable, Fields.required, Fields.optional, Fields.withDefault, Fields.get?, Fields.ofValue,
    AgentSection.ofFields, ServerSection.ofFields, AdSection.ofFields, readString, readMode, readU64, readBool, modeOf,
    hmode, setupSections, List.lookup_cons]

/-- The strings of the template. -/
def SetupValues.strings (v : SetupValues) : List String :=
  [v.agentId, v.baseUrl, v.agentToken, v.secretKey, v.adUrl, v.bindDn, v.bindPassword, v.baseDn]

/-- What the lines of the template quote. -/
theorem basic_setupLines (hmode : v.mode = "ad") :
    (∀ i ∈ setupLines v v.secretKey v.bindPassword, i.Basic) ↔
      ∀ s ∈ v.strings, ∀ c ∈ s.toList, isBasic c = true := by
  have had : ∀ c ∈ "ad".toList, isBasic c = true := List.all_eq_true.1 (by decide)
  have haudit : ∀ c ∈ "./nexus-agent.audit.jsonl".toList, isBasic c = true := List.all_eq_true.1 (by decide)
  simp only [setupLines, setupItems, SetupValues.strings, List.cons_append, List.nil_append, List.forall_mem_cons,
    List.not_mem_nil, IsEmpty.forall_iff, implies_true, Item.Basic, hmode, true_and, and_true]
  constructor
  · rintro ⟨hid, -, -, hurl, htoken, hkey, had, hdn, hpassword, hbase⟩
    exact ⟨hid, hurl, htoken, hkey, had, hdn, hpassword, hbase⟩
  · rintro ⟨hid, hurl, htoken, hkey, hadUrl, hdn, hpassword, hbase⟩
    exact ⟨hid, had, haudit, hurl, htoken, hkey, hadUrl, hdn, hpassword, hbase⟩

/-- The document says the values at their keys, and nothing else if it loads as what the template stands for. -/
theorem eq_of_ofTable {es : Entries} (hmode : v.mode = "ad")
    (h : Sections.ofTable es = some (setupSections v secretKey bindPassword)) :
    ∀ p ∈ quotedAt [] (setupItems v secretKey bindPassword), ∀ u, strAt p.1 es = some u → u = p.2 := by
  obtain ⟨hagent, hserver, had⟩ := Sections.of_ofTable h
  have hquoted : quotedAt [] (setupItems v secretKey bindPassword) =
      [(["agent", "id"], v.agentId), (["agent", "mode"], v.mode), (["agent", "audit_log"], "./nexus-agent.audit.jsonl"),
        (["server", "base_url"], v.baseUrl), (["server", "agent_token"], v.agentToken),
        (["server", "secret_key"], secretKey), (["ad", "url"], v.adUrl), (["ad", "bind_dn"], v.bindDn),
        (["ad", "bind_password"], bindPassword), (["ad", "base_dn"], v.baseDn)] := rfl
  have hof {k k' u : String} {P : Prop} (hu : strAt [k, k'] es = some u)
      (hread : ∀ kind es', es.lookup k = some (.table kind es') → es'.lookup k' = some (.str u) → P) : P := by
    obtain ⟨kind, es', hes, hu'⟩ := exists_lookup_of_strAt hu
    exact hread kind es' hes hu'
  rw [hquoted]
  simp only [List.forall_mem_cons, List.not_mem_nil, IsEmpty.forall_iff, implies_true, and_true]
  refine ⟨fun u hu => ?_, fun u hu => ?_, fun u hu => ?_, fun u hu => ?_, fun u hu => ?_, fun u hu => ?_,
    fun u hu => ?_, fun u hu => ?_, fun u hu => ?_, fun u hu => ?_⟩
  · exact hof hu fun kind es' hes => (AgentSection.of_ofFields (hagent kind es' hes)).1 u
  · rw [hmode]
    exact hof hu fun kind es' hes hu' => eq_ad_of_modeOf ((AgentSection.of_ofFields (hagent kind es' hes)).2.1 u hu')
  · exact hof hu fun kind es' hes => (AgentSection.of_ofFields (hagent kind es' hes)).2.2 u
  · exact hof hu fun kind es' hes => (ServerSection.of_ofFields (hserver kind es' hes)).1 u
  · exact hof hu fun kind es' hes => (ServerSection.of_ofFields (hserver kind es' hes)).2.1 u
  · exact hof hu fun kind es' hes => (ServerSection.of_ofFields (hserver kind es' hes)).2.2 u
  · exact hof hu fun kind es' hes => (AdSection.of_ofFields (had kind es' hes _ rfl)).1 u
  · exact hof hu fun kind es' hes => (AdSection.of_ofFields (had kind es' hes _ rfl)).2.1 u
  · exact hof hu fun kind es' hes => (AdSection.of_ofFields (had kind es' hes _ rfl)).2.2.1 u
  · exact hof hu fun kind es' hes => (AdSection.of_ofFields (had kind es' hes _ rfl)).2.2.2 u

theorem parse_setupToml_iff (hmode : v.mode = "ad") :
    (Toml.parse (setupToml v v.secretKey v.bindPassword)).bind Sections.ofTable =
        some (setupSections v v.secretKey v.bindPassword) ↔
      ∀ s ∈ v.strings, ∀ c ∈ s.toList, isBasic c = true := by
  rw [← basic_setupLines hmode, setupToml_eq]
  constructor
  · intro h
    obtain ⟨es, hes, hof⟩ := Option.bind_eq_some_iff.1 h
    have hitems := basic_of_parse plain_setupLines dropMark_setupLines hes (eq_of_ofTable hmode hof)
    intro i hi
    rcases List.mem_append.1 hi with hi | hi
    · exact hitems i hi
    · rw [List.mem_singleton.1 hi]
      trivial
  · intro h
    rw [parse_text (fun i hi => ⟨plain_setupLines i hi, h i hi⟩) dropMark_setupLines, run_setupLines]
    exact ofTable_setupTable hmode

/-! ### Storing and loading -/

/-- A trimmed reference. -/
structure Reference (value : String) : Prop where
  trimmed : trim value = value
  reference : startsWith "env:" value = true ∨ startsWith "enc:" value = true

section
variable {x : Externals} {k : Sealing} {fromStr : String → Except String Sections} {configPath text : String}
  {vault : Option Cipher}

theorem hardens_reference {value envName stored : String} (h : Reference value) :
    Hardens k value vault envName stored ↔ stored = value := by
  have hkept : isKept value = true := by
    rw [isKept]
    rcases h.reference with henv | henc
    · rw [henv]; simp
    · rw [henc]; simp
  have hharden : hardenSecret k value vault envName = pure (value, none) := by
    unfold hardenSecret
    simp only [h.trimmed, hkept]
    rfl
  unfold Hardens
  rw [hharden]
  constructor
  · rintro ⟨tr, note, -, hr⟩
    exact (Prod.mk.inj hr).1
  · rintro rfl
    exact ⟨[], none, rfl, rfl⟩

theorem stores_references (hvault : Config.vault x = .ok vault) (hkey : Reference v.secretKey)
    (hpassword : Reference v.bindPassword) :
    Stores x k fromStr configPath v text ↔ text = setupToml v v.secretKey v.bindPassword := by
  rw [stores_iff]
  constructor
  · rintro ⟨vault', secretKey, bindPassword, -, hharden, hharden', rfl⟩
    rw [(hardens_reference hkey).1 hharden, (hardens_reference hpassword).1 hharden']
  · rintro rfl
    exact ⟨vault, _, _, hvault, (hardens_reference hkey).2 rfl, (hardens_reference hpassword).2 rfl, rfl⟩

theorem exists_parse_iff {s : Sections} (hvalid : s.validate = .ok ()) :
    (∃ config, Config.parse fromStr text = .ok config ∧ config.toSections = s) ↔ (fromStr text).toOption = some s := by
  unfold Config.parse
  rcases fromStr text with e | s'
  · simp [Except.toOption]
  · simp only [Except.toOption, Option.some.injEq]
    constructor
    · rintro ⟨config, hconfig, rfl⟩
      split at hconfig
      · cases hconfig
      · cases hconfig
        rfl
    · rintro rfl
      split
      next e he => rw [hvalid] at he; cases he
      next h => exact ⟨⟨s', h⟩, rfl, rfl⟩

end

/-- With references for its secrets, the stored file loads as what the template stands for exactly if the strings
in it need no escapes. -/
theorem setup_loads_iff (x : Externals) (k : Sealing) (fromStr : String → Except String Sections) (configPath : String)
    (v : SetupValues) (vault : Option Cipher) (htoml : ReadsToml fromStr) (hvault : Config.vault x = .ok vault)
    (hmode : v.mode = "ad") (hkey : Reference v.secretKey) (hpassword : Reference v.bindPassword) :
    (∀ text, Stores x k fromStr configPath v text → ∃ config, Config.parse fromStr text = .ok config ∧
      config.toSections = setupSections v v.secretKey v.bindPassword) ↔
        ∀ s ∈ v.strings, ∀ c ∈ s.toList, isBasic c = true := by
  have hstores (text : String) : Stores x k fromStr configPath v text ↔ text = setupToml v v.secretKey v.bindPassword :=
    stores_references hvault hkey hpassword
  rw [← parse_setupToml_iff hmode, ← htoml, ← exists_parse_iff rfl]
  constructor
  · intro h
    exact h _ ((hstores _).2 rfl)
  · intro h text htext
    rw [(hstores text).1 htext]
    exact h

/-- A reader of TOML. -/
def tomlReader (text : String) : Except String Sections :=
  match (Toml.parse text).bind Sections.ofTable with
  | some s => .ok s
  | none => .error "TOML parse error"

theorem readsToml_tomlReader : ReadsToml tomlReader := by
  intro text
  unfold tomlReader
  rcases (Toml.parse text).bind Sections.ofTable with _ | s <;> rfl

/-- A setup with references, whose account is given by `bindDn`. -/
def referenceSetup (bindDn : String) : SetupValues where
  baseUrl := "https://demo.nexusid.ai"
  agentId := "dc-01-agent"
  agentToken := "env:NEXUS_AGENT_TOKEN"
  mode := "ad"
  secretKey := "env:SECRET_ENCRYPTION_KEY"
  adUrl := "ldaps://dc01.corp.example.com:636"
  bindDn := bindDn
  bindPassword := "env:NEXUS_AGENT_BIND_PASSWORD"
  baseDn := "DC=corp,DC=example,DC=com"

theorem reference_secretKey (bindDn : String) : Reference (referenceSetup bindDn).secretKey := by
  simp only [referenceSetup]
  exact ⟨by decide +kernel, .inl (by decide +kernel)⟩

theorem reference_bindPassword (bindDn : String) : Reference (referenceSetup bindDn).bindPassword := by
  simp only [referenceSetup]
  exact ⟨by decide +kernel, .inl (by decide +kernel)⟩

/-- The account `CORP\svc` is written as an escape that there is not. -/
theorem backslash_not_loaded :
    ¬ ∀ text, Stores .noVault .sample tomlReader "config.toml" (referenceSetup "CORP\\svc") text →
      ∃ config, Config.parse tomlReader text = .ok config ∧
        config.toSections = setupSections (referenceSetup "CORP\\svc") (referenceSetup "CORP\\svc").secretKey
          (referenceSetup "CORP\\svc").bindPassword := by
  intro h
  have hload := h _ ((stores_references rfl (reference_secretKey _) (reference_bindPassword _)).2 rfl)
  rw [exists_parse_iff rfl, readsToml_tomlReader, parse_setupToml_iff rfl] at hload
  have hbasic := hload "CORP\\svc" (by simp [SetupValues.strings, referenceSetup]) '\\' (by decide)
  revert hbasic
  decide

theorem setup_loads_iff_svc :
    (∀ text, Stores .noVault .sample tomlReader "config.toml" (referenceSetup "CN=svc,DC=corp") text →
      ∃ config, Config.parse tomlReader text = .ok config ∧
        config.toSections = setupSections (referenceSetup "CN=svc,DC=corp") (referenceSetup "CN=svc,DC=corp").secretKey
          (referenceSetup "CN=svc,DC=corp").bindPassword) ↔
      ∀ s ∈ (referenceSetup "CN=svc,DC=corp").strings, ∀ c ∈ s.toList, isBasic c = true :=
  setup_loads_iff .noVault .sample tomlReader "config.toml" (referenceSetup "CN=svc,DC=corp") none readsToml_tomlReader
    rfl rfl (reference_secretKey _) (reference_bindPassword _)

end NexusAgent
