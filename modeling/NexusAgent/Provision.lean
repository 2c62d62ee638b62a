import NexusAgent.Access
import NexusAgent.Cli
import NexusAgent.SetupConfig

/-!
# From the setup to the service

What is typed, or passed as flags, is what the agent goes by: `set_up_as_answered` follows the answers through the
file that the setup writes, the configuration that is read from it and the secrets that are resolved to the broker
and the directories that a service with this configuration talks to.
-/

namespace NexusAgent
open Text

/-! ### The answers -/

/-- The lines that are typed. -/
def typed (tr : CliTrace) : List String :=
  tr.filterMap fun
    | ⟨.readLine, .ok line⟩ => some line
    | _ => none

/-- What the wizard makes of the lines typed. -/
def wizardValues (lines : List String) : SetupValues where
  baseUrl := answer "https://demo.nexusid.ai" (lines.getD 0 "")
  agentId := answer "dc-01-agent" (lines.getD 1 "")
  agentToken := answer "" (lines.getD 2 "")
  mode := answer "ad" (lines.getD 3 "")
  secretKey := answer "env:SECRET_ENCRYPTION_KEY" (lines.getD 4 "")
  adUrl := answer "ldaps://dc01.corp.example.com:636" (lines.getD 5 "")
  bindDn := answer "CN=svc-nexus,OU=Service Accounts,DC=corp,DC=example,DC=com" (lines.getD 6 "")
  bindPassword := answer "" (lines.getD 7 "")
  baseDn := answer "DC=corp,DC=example,DC=com" (lines.getD 8 "")

/-- The values of a setup. -/
def setupValues (nonInteractive : Bool) (flags : SetupFlags) (tr : CliTrace) : SetupValues :=
  if nonInteractive then flags.values else wizardValues (typed tr)

section
variable {x : Externals} {k : Sealing} {fromStr : String → Except String Sections} {α : Type} {tr : CliTrace}

theorem runs_prompt {label default : String} {r : Except AgentError String}
    (h : (prompt label default).run.Runs tr r) : ∃ text reply, tr = [⟨.print text, ()⟩, ⟨.readLine, reply⟩] ∧
      r = (reply.mapError fun e => .config s!"reading input: {e}").map (answer default) := by
  obtain ⟨_, _, rfl, reply, tr, rfl, h⟩ := h
  rcases reply with e | line
  · obtain ⟨rfl, rfl⟩ := h
    exact ⟨_, .error e, rfl, rfl⟩
  · obtain ⟨rfl, rfl⟩ := h
    exact ⟨_, .ok line, rfl, rfl⟩

/-- What the agent does after a prompt it does with the answer. -/
theorem prompt_next {label default : String} {f : String → Cli α} {r : Except AgentError α}
    (h : (prompt label default >>= f).run.Runs tr r) {call : Call} {reply : Reply call}
    (he : (⟨.agent call, reply⟩ : Event CliReply) ∈ tr) : ∃ line tr', typed tr = line :: typed tr' ∧
      (f (answer default line)).run.Runs tr' r ∧ (⟨.agent call, reply⟩ : Event CliReply) ∈ tr' := by
  rcases Prog.runs_bindE.1 h with ⟨e, hprompt, -⟩ | ⟨tr₁, tr₂, value, rfl, hprompt, hrest⟩
  · obtain ⟨text, answered, rfl, -⟩ := runs_prompt hprompt
    simp at he
  · obtain ⟨text, answered, rfl, hvalue⟩ := runs_prompt hprompt
    have he₂ := (List.mem_append.1 he).resolve_left (by simp)
    rcases answered with e | line
    · cases hvalue
    · obtain rfl := Except.ok.inj hvalue
      exact ⟨line, tr₂, rfl, hrest, he₂⟩

/-- What a part of the agent does within a command, it does. -/
theorem agent_does {p : Agent α} {r : Except AgentError α} (h : (Cli.agent p).run.Runs tr r) {call : Call}
    {reply : Reply call} (he : (⟨.agent call, reply⟩ : Event CliReply) ∈ tr) :
    ∃ tr', p.run.Runs tr' r ∧ (⟨call, reply⟩ : Event Reply) ∈ tr' := by
  obtain ⟨tr', hseen, hruns⟩ := Prog.runs_within.1 h
  obtain ⟨e, he', hseen'⟩ := Prog.exists_seen hseen he
  cases hseen'
  exact ⟨tr', hruns, he'⟩

theorem wizard_stores {configPath text : String} {r : Except AgentError Unit}
    (h : (setupWizard x k fromStr configPath).run.Runs tr r) {reply : Except String Unit}
    (he : (⟨.agent (.writeFile configPath text), reply⟩ : Event CliReply) ∈ tr) :
    Stores x k fromStr configPath (wizardValues (typed tr)) text := by
  obtain ⟨_, tr₀, rfl, h⟩ : ∃ u tr', tr = ⟨.agent (.println "\nnexusID sync agent — setup\n"), u⟩ :: tr' ∧ _ := h
  have he₀ := (List.mem_cons.1 he).resolve_left (by simp)
  show Stores x k fromStr configPath (wizardValues (typed tr₀)) text
  obtain ⟨baseUrl, tr₁, ht₁, h, he₁⟩ := prompt_next h he₀
  obtain ⟨agentId, tr₂, ht₂, h, he₂⟩ := prompt_next h he₁
  obtain ⟨agentToken, tr₃, ht₃, h, he₃⟩ := prompt_next h he₂
  obtain ⟨mode, tr₄, ht₄, h, he₄⟩ := prompt_next h he₃
  obtain ⟨secretKey, tr₅, ht₅, h, he₅⟩ := prompt_next h he₄
  obtain ⟨adUrl, tr₆, ht₆, h, he₆⟩ := prompt_next h he₅
  obtain ⟨bindDn, tr₇, ht₇, h, he₇⟩ := prompt_next h he₆
  obtain ⟨bindPassword, tr₈, ht₈, h, he₈⟩ := prompt_next h he₇
  obtain ⟨baseDn, tr₉, ht₉, h, he₉⟩ := prompt_next h he₈
  obtain ⟨tr', hruns, he'⟩ := agent_does h he₉
  rw [ht₁, ht₂, ht₃, ht₄, ht₅, ht₆, ht₇, ht₈, ht₉]
  exact ⟨tr', r, reply, hruns, he'⟩

/-- The setup stores the file of its values. -/
theorem setup_stores {configPath text : String} {nonInteractive : Bool} {flags : SetupFlags}
    {r : Except AgentError Unit}
    (h : (dispatch x k fromStr (.setup configPath nonInteractive flags)).run.Runs tr r) {reply : Except String Unit}
    (he : (⟨.agent (.writeFile configPath text), reply⟩ : Event CliReply) ∈ tr) :
    Stores x k fromStr configPath (setupValues nonInteractive flags tr) text := by
  rcases nonInteractive with _ | _
  · exact wizard_stores h he
  · obtain ⟨tr', hruns, he'⟩ := agent_does h he
    exact ⟨tr', r, reply, hruns, he'⟩

end

/-! ### The file -/

/-- What a secret is meant to be: itself, or what it refers to. -/
def meant (x : Externals) (value : String) : Except AgentError String :=
  if Raw value then .ok (trim value) else Config.resolve x (trim value)

/-- The libraries, where the environment has other variables. -/
def Externals.withEnv (x : Externals) (env : String → Option String) : Externals := { x with env }

/-- The variables that the service finds: the vault of the setup, and where there is none, the raw secrets that the
setup has left to the environment. -/
structure Followed (x : Externals) (env : String → Option String) (v : SetupValues) : Prop where
  vault : env "NEXUS_AGENT_KEY" = x.env "NEXUS_AGENT_KEY"
  secretKey : Config.vault x = .ok none → Raw v.secretKey → env "SECRET_ENCRYPTION_KEY" = some (trim v.secretKey)
  bindPassword : Config.vault x = .ok none → Raw v.bindPassword →
    env "NEXUS_AGENT_BIND_PASSWORD" = some (trim v.bindPassword)

/-- The values are those of AD mode, and need no escapes where they are stored as they are. -/
structure Storable (v : SetupValues) : Prop where
  mode : v.mode = "ad"
  basic : ∀ s ∈ [v.agentId, v.baseUrl, v.agentToken, v.adUrl, v.bindDn, v.baseDn], ∀ c ∈ s.toList,
    Toml.isBasic c = true
  references : ∀ s ∈ [v.secretKey, v.bindPassword], ¬ Raw s → ∀ c ∈ (trim s).toList, Toml.isBasic c = true

section
variable {x : Externals} {k : Sealing} {fromStr : String → Except String Sections} {env : String → Option String}
  {v : SetupValues} {vault : Option Cipher} {value envName stored : String}

theorem vault_withEnv (h : env "NEXUS_AGENT_KEY" = x.env "NEXUS_AGENT_KEY") :
    Config.vault (x.withEnv env) = Config.vault x := by
  unfold Config.vault
  rw [show (x.withEnv env).env "NEXUS_AGENT_KEY" = x.env "NEXUS_AGENT_KEY" from h]
  rfl

theorem isKept_of_not_raw (h : ¬ Raw value) : isKept (trim value) = true := by
  rw [isKept]
  by_contra hkept
  simp only [Bool.not_eq_true, Bool.or_eq_false_iff] at hkept
  exact h ⟨hkept.1.1, hkept.1.2, hkept.2⟩

theorem hardens_kept (h : ¬ Raw value) (hharden : Hardens k value vault envName stored) : stored = trim value := by
  obtain ⟨tr, note, hharden⟩ := hharden
  unfold hardenSecret at hharden
  simp only [isKept_of_not_raw h] at hharden
  exact (Prod.mk.inj hharden.2).1

theorem resolve_plain {x : Externals} (henv : startsWith "env:" value = false)
    (henc : startsWith "enc:" value = false) : Config.resolve x value = .ok value := by
  rw [Config.resolve, stripPrefix_eq_none henv, stripPrefix_eq_none henc]

theorem resolve_env {x : Externals} {plain : String} (h : x.env envName = some plain) :
    Config.resolve x s!"env:{envName}" = .ok plain := by
  have hstrip : stripPrefix "env:" s!"env:{envName}" = some envName := stripPrefix_append "env:" envName
  simp only [Config.resolve, hstrip, h]

/-- A sealed secret opens to the raw one. -/
theorem hardens_sealed {c : Cipher} (hk : k.Lawful x) (hvault : Config.vault x = .ok (some c)) (hraw : Raw value)
    (hharden : Hardens k value (some c) envName stored) :
    (∃ serialized, stored = "enc:" ++ serialized ∧ c.decryptSerialized x serialized = .ok (trim value)) ∧
      ∀ ch ∈ stored.toList, Toml.isBasic ch = true := by
  obtain ⟨tr, note, hharden⟩ := hharden
  rw [hardenSecret_raw hraw] at hharden
  obtain ⟨_, _, iv, -, -, hsealed⟩ := Prog.runs_bind.1 hharden
  obtain ⟨b64, hseal, hopen, hb64⟩ := Cipher.exists_sealed hk c iv (trim value)
  simp only [hseal] at hsealed
  obtain rfl := (Prod.mk.inj hsealed.2).1
  rw [Config.keyId_of_vault hvault] at hopen ⊢
  exact ⟨⟨_, rfl, hopen⟩, fun ch hch => isBasic_of_isSealed (isSealed_stored hb64 ch hch)⟩

theorem isBasic_env (hname : ∀ c ∈ envName.toList, Toml.isBasic c = true) :
    ∀ c ∈ ("env:" ++ envName).toList, Toml.isBasic c = true := by
  have hscheme : ∀ c ∈ "env:".toList, Toml.isBasic c = true := List.all_eq_true.1 (by decide +kernel)
  rw [String.toList_append]
  exact List.forall_mem_append.2 ⟨hscheme, hname⟩

/-- What is stored for a secret resolves to what it is meant to be, and needs no escapes. -/
theorem Hardens.resolves (hharden : Hardens k value vault envName stored) (hk : k.Lawful x)
    (hvault : Config.vault x = .ok vault) (hkey : env "NEXUS_AGENT_KEY" = x.env "NEXUS_AGENT_KEY")
    (hname : ∀ c ∈ envName.toList, Toml.isBasic c = true)
    (hfollowed : Config.vault x = .ok none → Raw value → env envName = some (trim value))
    (hbasic : ¬ Raw value → ∀ c ∈ (trim value).toList, Toml.isBasic c = true) :
    Config.resolve (x.withEnv env) stored = meant (x.withEnv env) value ∧
      ∀ c ∈ stored.toList, Toml.isBasic c = true := by
  unfold meant
  by_cases hraw : Raw value
  · rw [if_pos hraw]
    rcases vault with _ | c
    · -- without a vault the secret stays in the environment
      obtain rfl := (hardens_raw hraw).1 hharden
      exact ⟨resolve_env (hfollowed hvault hraw), isBasic_env hname⟩
    · obtain ⟨⟨serialized, rfl, hopen⟩, hsealed⟩ := hardens_sealed hk hvault hraw hharden
      exact ⟨(resolve_enc ((vault_withEnv hkey).trans hvault) _).trans hopen, hsealed⟩
  · rw [hardens_kept hraw hharden, if_neg hraw]
    exact ⟨rfl, hbasic hraw⟩

/-- The configuration that is read from the stored file. -/
theorem loads (htoml : ReadsToml fromStr) (hk : k.Lawful x) (hstorable : Storable v) (hfollowed : Followed x env v)
    {configPath text : String} (h : Stores x k fromStr configPath v text) : ∃ secretKey bindPassword config,
      Config.resolve (x.withEnv env) secretKey = meant (x.withEnv env) v.secretKey ∧
      Config.resolve (x.withEnv env) bindPassword = meant (x.withEnv env) v.bindPassword ∧
      Config.parse fromStr text = .ok config ∧ config.toSections = setupSections v secretKey bindPassword := by
  obtain ⟨vault, secretKey, bindPassword, hvault, hkey, hpassword, rfl⟩ := stores_iff.1 h
  have hkeyName : ∀ c ∈ "SECRET_ENCRYPTION_KEY".toList, Toml.isBasic c = true := List.all_eq_true.1 (by decide +kernel)
  have hpasswordName : ∀ c ∈ "NEXUS_AGENT_BIND_PASSWORD".toList, Toml.isBasic c = true :=
    List.all_eq_true.1 (by decide +kernel)
  obtain ⟨hresolve, hbasic⟩ := hkey.resolves hk hvault hfollowed.vault hkeyName hfollowed.secretKey
    (hstorable.references _ (by simp))
  obtain ⟨hresolve', hbasic'⟩ := hpassword.resolves hk hvault hfollowed.vault hpasswordName hfollowed.bindPassword
    (hstorable.references _ (by simp))
  -- the values with what is stored for the secrets
  let w : SetupValues := { v with secretKey, bindPassword }
  have hstrings : ∀ s ∈ w.strings, ∀ c ∈ s.toList, Toml.isBasic c = true := by
    intro s hs
    simp only [SetupValues.strings, List.mem_cons, List.not_mem_nil, or_false, w] at hs
    rcases hs with rfl | rfl | rfl | rfl | rfl | rfl | rfl | rfl
    · exact hstorable.basic _ (by simp)
    · exact hstorable.basic _ (by simp)
    · exact hstorable.basic _ (by simp)
    · exact hbasic
    · exact hstorable.basic _ (by simp)
    · exact hstorable.basic _ (by simp)
    · exact hbasic'
    · exact hstorable.basic _ (by simp)
  have hparse := (parse_setupToml_iff (v := w) hstorable.mode).2 hstrings
  rw [← htoml] at hparse
  obtain ⟨config, hconfig, hsections⟩ :=
    (exists_parse_iff (s := setupSections w w.secretKey w.bindPassword) rfl).2 hparse
  exact ⟨secretKey, bindPassword, config, hresolve, hresolve', hconfig, hsections⟩

end

/-! ### The service -/

/-- What the broker has sent in this cycle, and the operation at hand. -/
structure Dialogue where
  remote : Option RemoteConfig := none
  op : Option Operation := none

namespace Dialogue

def next (d : Dialogue) : Event Reply → Dialogue
  | ⟨.send _ .fetchConfig, _⟩ => {}
  | ⟨.decodeConfig, .ok remote⟩ => { d with remote := some remote }
  | ⟨.started op, _⟩ => { d with op := some op }
  | _ => d

/-- What the broker sets of the directory, or else what was answered. -/
def setting (d : Dialogue) (field : RemoteDirectory → Option String) (answered : String) : String :=
  (nonEmpty (d.remote.bind fun remote => remote.directory.bind field)).getD answered

/-- Certificates are verified; and where no operation is at hand, the directory is the one of the answers, as far as
the broker has not set it otherwise. -/
def May (x : Externals) (v : SetupValues) (d : Dialogue) : Call → Prop
  | .connect url noTlsVerify => noTlsVerify = false ∧ (d.op = none → url = d.setting (·.url) v.adUrl)
  | .simpleBind _ dn pw => d.op = none → dn = d.setting (·.bindDn) v.bindDn ∧ meant x v.bindPassword = .ok pw
  | .gssapiBind .. => d.op ≠ none
  | _ => True

def contract (x : Externals) (v : SetupValues) : Contract Reply Dialogue := .monitor (May x v) next

/-- The settings in force, and the operation at hand. -/
def Follows (config : Config) (s : Access) (d : Dialogue) : Prop :=
  s.op = d.op ∧ s.config = (d.remote.map config.applyRemote).getD config

variable {x : Externals} {v : SetupValues} {config : Config} {s : Access} {d : Dialogue}
  {secretKey bindPassword : String}

theorem Follows.next (h : Follows config s d) (e : Event Reply) :
    Follows config (Access.next config s e) (d.next e) := by
  obtain ⟨hop, hconfig⟩ := h
  obtain ⟨call, reply⟩ := e
  cases call with
  | send client request => cases request <;> first | exact ⟨rfl, rfl⟩ | exact ⟨hop, hconfig⟩
  | decodeConfig =>
    rcases reply with e | remote
    · exact ⟨hop, hconfig⟩
    · exact ⟨hop, rfl⟩
  | started op => exact ⟨rfl, hconfig⟩
  | simpleBind _ _ _ => rcases reply with e | e | _ <;> exact ⟨hop, hconfig⟩
  | gssapiBind _ _ => rcases reply with e | e | _ <;> exact ⟨hop, hconfig⟩
  | _ => exact ⟨hop, hconfig⟩

/-- The directory of the settings in force, if a setup has stored the file. -/
theorem Follows.directory (h : Follows config s d)
    (hconfig : config.toSections = setupSections v secretKey bindPassword) :
    s.config.server.verifyTls = true ∧ ∃ ad, s.config.ad = some ad ∧ ad.url = d.setting (·.url) v.adUrl ∧
      ad.bindDn = d.setting (·.bindDn) v.bindDn ∧ ad.bindPassword = bindPassword ∧ ad.useKerberos = false := by
  have htls : config.server.verifyTls = true := congrArg (·.server.verifyTls) hconfig
  have had : config.ad = some ⟨v.adUrl, v.bindDn, bindPassword, v.baseDn, false, true⟩ := congrArg (·.ad) hconfig
  rw [h.2]
  unfold setting
  rcases d.remote with _ | remote
  · exact ⟨htls, _, had, rfl, rfl, rfl, rfl⟩
  · refine ⟨htls, ?_⟩
    rcases hdir : remote.directory with _ | dir
    · refine ⟨⟨v.adUrl, v.bindDn, bindPassword, v.baseDn, false, true⟩, ?_, ?_, ?_, rfl, rfl⟩
      · simp [Config.applyRemote, Config.applySections, hdir, had]
      · simp [hdir, nonEmpty]
      · simp [hdir, nonEmpty]
    · refine ⟨Config.applyDirectory dir ⟨v.adUrl, v.bindDn, bindPassword, v.baseDn, false, true⟩, ?_, ?_, ?_, rfl, rfl⟩
      · simp [Config.applyRemote, Config.applySections, hdir, had]
      · simp [Config.applyDirectory, hdir]
      · simp [Config.applyDirectory, hdir]

/-- What the settings in force allow is as it was answered. -/
theorem Follows.may {cipher : Cipher} (h : Follows config s d)
    (hconfig : config.toSections = setupSections v secretKey bindPassword)
    (hpassword : Config.resolve x bindPassword = meant x v.bindPassword) (c : Call) (hc : Access.May x cipher s c) :
    May x v d c := by
  obtain ⟨htls, ad, had, hurl, hdn, hsecret, hkerberos⟩ := h.directory hconfig
  have htarget {t : Target} (hop : d.op = none) (ht : s.target x cipher = some t) : t = Access.ofDirectory x ad := by
    rw [Access.target, h.1.trans hop, had] at ht
    exact (Option.some.inj ht).symm
  cases c with
  | connect url noTlsVerify =>
    obtain ⟨-, hverify, t, ht, rest, hurls⟩ := hc
    refine ⟨by rw [hverify, htls]; rfl, fun hop => ?_⟩
    obtain rfl := htarget hop ht
    rcases hattempted : s.attempted with _ | ⟨first, attempted⟩
    · rw [hattempted] at hurls
      exact (List.cons.inj hurls).1.trans hurl
    · rw [hattempted] at hurls
      have hlen := congrArg List.length hurls
      simp [Access.ofDirectory] at hlen
  | simpleBind ldap dn pw =>
    obtain ⟨-, t, ht, -, hcredentials⟩ := hc
    intro hop
    obtain rfl := htarget hop ht
    change (Config.resolve x ad.bindPassword).map (ad.bindDn, ·) = _ at hcredentials
    rw [hsecret, hpassword] at hcredentials
    rcases hmeant : meant x v.bindPassword with e | plain <;> rw [hmeant] at hcredentials
    · cases hcredentials
    · obtain ⟨rfl, rfl⟩ := Prod.mk.inj (Except.ok.inj hcredentials)
      exact ⟨hdn, rfl⟩
  | gssapiBind ldap fqdn =>
    obtain ⟨-, -, t, ht, huses⟩ := hc
    intro hop
    obtain rfl := htarget hop ht
    exact absurd (huses.symm.trans hkerberos) (by decide)
  | _ => trivial

end Dialogue

/-! ### The requests -/

/-- If it is a request, the client makes it. -/
def Call.Of (client : ServerClient) : Call → Prop
  | .send c _ => c = client
  | _ => True

section
variable {x : Externals} {client : ServerClient} {config : Config} {sess : Session}

theorem Call.Binding.of {c : Call} (h : c.Binding) : c.Of client := by
  cases c <;> first | exact h.elim | trivial

theorem Call.InRoute.of {op : Operation} {c : Call} (h : c.InRoute op) : c.Of client := by
  rcases h with h | ⟨conn, rfl | h⟩
  · exact h.of
  · trivial
  · cases c <;> first | exact h.elim | trivial

theorem allCalls_request_of (r : Request) (what refused : String) :
    (client.request r what refused).run.AllCalls (Call.Of client) :=
  (client.allCalls_request r what refused).mono fun _ h => h ▸ rfl

theorem allCalls_notify_of (r : Request) : (client.notify r).AllCalls (Call.Of client) :=
  (client.allCalls_notify r).mono fun _ h => h ▸ rfl

theorem allCalls_report_of {m : AdMode} (op : Operation) (r : Except AgentError Json) :
    (m.report x op r).run.AllCalls (Call.Of m.server) := by
  rw [AdMode.report_eq]
  exact (allCalls_lift (allCalls_request_of ..)).bindE fun _ => DbMode.allCalls_append trivial

theorem allCalls_drain_of {m : AdMode} (defaultLdap : LdapConnector) (ops : List Operation) (conns : Conns)
    (counters : SyncCounters) : (m.drain x defaultLdap ops conns counters).run.AllCalls (Call.Of m.server) := by
  induction ops generalizing conns counters with
  | nil => trivial
  | cons op ops ih =>
    refine allCalls_ask trivial fun _ => Prog.AllCalls.bindE ?_ fun p => ?_
    · exact allCalls_lift ((m.allCalls_routeAndProcess ..).mono fun _ => Call.InRoute.of)
    · exact (allCalls_report_of ..).bindE fun _ => ih ..

theorem allCalls_runOnce_of {m : AdMode} (hclient : m.server = client) :
    (m.runOnce x).run.AllCalls (Call.Of client) := by
  subst hclient
  rw [AdMode.runOnce_eq]
  refine allCalls_result fun pw => ?_
  refine ((LdapConnector.allCalls_connect ..).mono fun _ => Call.Binding.of).bindE fun ldap => ?_
  refine Prog.AllCalls.bindE ?_ fun ops => (allCalls_drain_of ..).bindE fun p => ?_
  · refine (allCalls_request_of ..).bindE fun _ => allCalls_ask trivial fun reply => ?_
    rcases reply with e | ops <;> trivial
  · refine (AdMode.allCalls_close ..).mono fun c hc => ?_
    cases c <;> first | exact hc.elim | trivial

theorem allCalls_start_of : (start x config).run.AllCalls (Call.Of client) := by
  refine allCalls_ask trivial fun _ => allCalls_result fun _ => allCalls_result fun _ => ?_
  refine ((ServerClient.allCalls_new ..).mono fun _ h => h ▸ trivial).bindE fun _ => allCalls_result fun _ => ?_
  exact allCalls_ask trivial fun _ => (DbMode.allCalls_append trivial).bindE fun _ => trivial

theorem allCalls_runCycle_of (hmode : config.agent.mode = .ad) :
    (runCycle x (runDb x) config sess).AllCalls (Call.Of sess.server) := by
  have hsleep (secs : Nat) : (Prog.perform (Call.sleep secs) : Task Unit).AllCalls (Call.Of sess.server) :=
    Prog.allCalls_perform.2 trivial
  refine (allCalls_notify_of _).bind fun _ => Prog.AllCalls.bind ?_ fun r => ?_
  · refine Prog.AllCalls.bindE ?_ fun counters => (DbMode.allCalls_append trivial).bindE fun _ => trivial
    rw [runMode_ad hmode]
    exact allCalls_runOnce_of rfl
  rcases r with e | counters
  · exact Prog.AllCalls.bind (Prog.allCalls_perform.2 trivial) fun _ => hsleep _
  · dsimp only
    split
    · exact (allCalls_notify_of _).bind fun _ => hsleep _
    · exact hsleep _

theorem allCalls_runOne_of (hmode : config.agent.mode = .ad) :
    (runOne x (runDb x) config sess).AllCalls (Call.Of sess.server) := by
  refine Prog.AllCalls.bind ?_ fun remote => allCalls_runCycle_of ?_
  · refine (sess.server.allCalls_fetchConfig).mono ?_
    rintro c (rfl | rfl) <;> trivial
  · rcases remote with e | remote
    · exact hmode
    · exact (Config.applyRemote_mode ..).trans hmode

theorem LoopRun.calls {runDb : RunDb} {φ : Call → Prop} {cycles : List Trace} {cut : Trace}
    (h : LoopRun x runDb config sess cycles cut) (hall : (runOne x runDb config sess).AllCalls φ) :
    ∀ e ∈ cycles.flatten ++ cut, φ e.1 := by
  induction h with
  | cut h => exact hall.of_cut h
  | @cycle tr cut trs h _ ih =>
    rw [List.flatten_cons, List.append_assoc]
    exact List.forall_mem_append.2 ⟨hall.of_runs h, ih⟩

/-- Every request of a run in AD mode is made by the client of its session. -/
theorem requests_of_session {first cut last : Trace} {cycles : List Trace} (hmode : config.agent.mode = .ad)
    (h : ServiceRun x (runDb x) config sess first cycles cut last) :
    ∀ e ∈ first ++ (cycles.flatten ++ (cut ++ last)), e.1.Of sess.server := by
  have hstop : (stop config sess).AllCalls (Call.Of sess.server) :=
    (allCalls_notify_of _).bind fun _ => Prog.AllCalls.bind (Prog.allCalls_perform.2 trivial) fun _ => trivial
  rw [← List.append_assoc cycles.flatten]
  refine List.forall_mem_append.2 ⟨allCalls_start_of.of_runs h.start, List.forall_mem_append.2 ⟨?_, ?_⟩⟩
  · exact h.loop.calls (allCalls_runOne_of hmode)
  · exact hstop.of_runs h.stop

end

/-- The broker's client and the shared key are those of the answers. -/
structure AsAnswered (x : Externals) (v : SetupValues) (sess : Session) : Prop where
  server : ∃ token, Config.resolve x v.agentToken = .ok token ∧
    sess.server = ⟨trimEndMatches '/' v.baseUrl, token, v.agentId⟩
  cipher : ∃ key, meant x v.secretKey = .ok key ∧ Cipher.fromBase64Key x key "local-default" = .ok sess.cipher

section
variable {x : Externals} {k : Sealing} {fromStr : String → Except String Sections} {config : Config}

theorem start_session {first : Trace} {sess : Session} (h : (start x config).run.Runs first (.ok sess)) :
    (∃ token, Config.resolve x config.server.agentToken = .ok token ∧
      sess.server = ⟨trimEndMatches '/' config.server.baseUrl, token, config.agent.id⟩) ∧
        config.serverCipher x = .ok sess.cipher := by
  unfold start at h
  obtain ⟨opened, tr₁, rfl, hopened⟩ := runs_ask.1 h
  rcases Prog.runs_bindE.1 hopened with ⟨e, -, ⟨⟩⟩ | ⟨_, tr₁, _, rfl, -, htoken⟩
  rcases Prog.runs_bindE.1 htoken with ⟨e, -, ⟨⟩⟩ | ⟨_, tr₁, token, rfl, ⟨-, hresolved⟩, hserver⟩
  rcases Prog.runs_bindE.1 hserver with ⟨e, -, ⟨⟩⟩ | ⟨tr₂, tr₁, server, rfl, hnew, hcipher⟩
  rcases Prog.runs_bindE.1 hcipher with ⟨e, -, ⟨⟩⟩ | ⟨_, tr₁, cipher, rfl, ⟨-, hkey⟩, hname⟩
  obtain ⟨hostname, tr₃, rfl, hrecord⟩ := runs_ask.1 hname
  rcases Prog.runs_bindE.1 hrecord with ⟨e, -, ⟨⟩⟩ | ⟨_, _, _, rfl, -, -, hsess⟩
  obtain ⟨built, tr₄, -, hbuilt⟩ := runs_ask.1 hnew
  obtain rfl := Except.ok.inj hsess
  rcases built with e | _
  · cases hbuilt.2
  · obtain rfl := Except.ok.inj hbuilt.2
    exact ⟨⟨token, hresolved.symm, rfl⟩, hkey.symm⟩

theorem runs_run {configPath text : String} (hparse : Config.parse fromStr text = .ok config)
    (served : Except AgentError Unit) : (dispatch x k fromStr (.run configPath)).run.Runs
      [⟨.agent (.readFile configPath), .ok text⟩, ⟨.serve config, served⟩] served := by
  refine ⟨.ok text, _, rfl, ?_⟩
  change (Cli.agent (liftResult (Config.parse fromStr text)) >>= fun cfg => ask (.serve cfg) >>= fun served =>
    Cli.agent (liftResult served)).run.Runs _ _
  rw [hparse]
  exact ⟨served, _, rfl, rfl, rfl⟩

/-- The command that runs the agent serves the configuration of the file. -/
theorem run_serves {configPath text : String} {tr : CliTrace} {r : Except AgentError Unit}
    (hparse : Config.parse fromStr text = .ok config)
    (h : (dispatch x k fromStr (.run configPath)).run.Runs tr r)
    (hread : (⟨.agent (.readFile configPath), .ok text⟩ : Event CliReply) ∈ tr) :
    ∃ reply, tr = [⟨.agent (.readFile configPath), .ok text⟩, ⟨.serve config, reply⟩] ∧ r = reply := by
  obtain ⟨reply, tr₁, rfl, h⟩ := h
  rcases reply with e | raw
  · obtain ⟨rfl, -⟩ := h
    cases List.mem_singleton.1 hread
  change (Cli.agent (liftResult (Config.parse fromStr raw)) >>= fun cfg => ask (.serve cfg) >>= fun served =>
    Cli.agent (liftResult served)).run.Runs tr₁ r at h
  rcases hraw : Config.parse fromStr raw with e | cfg <;> rw [hraw] at h
  · obtain ⟨rfl, -⟩ := h
    cases List.mem_singleton.1 hread
    cases hparse.symm.trans hraw
  · obtain ⟨served, tr₂, rfl, rfl, rfl⟩ := h
    simp only [List.mem_cons, List.not_mem_nil, or_false] at hread
    rcases hread with hread | hread
    · cases hread
      obtain rfl := Except.ok.inj (hparse.symm.trans hraw)
      exact ⟨_, rfl, rfl⟩
    · cases hread

end

/-- What the agent does, seen from a command. -/
def seen (tr : Trace) : CliTrace := tr.map fun e => ⟨.agent e.1, e.2⟩

theorem runs_agent {α : Type} {p : Agent α} {tr : Trace} {r : Except AgentError α} (h : p.run.Runs tr r) :
    (Cli.agent p).run.Runs (seen tr) r := by
  refine Prog.runs_within.2 ⟨tr, List.forall₂_map_left_iff.2 (List.forall₂_same.2 ?_), h⟩
  rintro ⟨c, reply⟩ -
  exact @Prog.Seen.mk Call CliCall Reply CliReply CliCall.agent (fun _ r => r) c reply

theorem exists_hardens (k : Sealing) (value : String) (vault : Option Cipher) (envName : String) :
    ∃ stored, Hardens k value vault envName stored := by
  obtain ⟨tr, ⟨stored, note⟩, h, -⟩ := Prog.exists_runs exists_recorded (hardenSecret k value vault envName)
  exact ⟨stored, tr, note, h⟩

/-- The flags whose values are those of `rawSetup`. -/
def rawFlags (agentToken : String) : SetupFlags where
  idpUrl := some "https://demo.nexusid.ai"
  agentId := none
  token := some agentToken
  mode := none
  secretKey := some "AAAAAAAAAAAAAAAAAAAAAAAAAAAAAAAAAAAAAAAAAAA="
  adUrl := some "ldaps://dc01.corp.example.com:636"
  bindDn := some "CN=svc-nexus,DC=corp"
  bindPassword := some "hunter2"
  baseDn := some "DC=corp"

theorem storable_rawSetup : Storable (rawSetup "tok") where
  mode := rfl
  basic s hs := by
    have hall : ∀ s ∈ [(rawSetup "tok").agentId, (rawSetup "tok").baseUrl, (rawSetup "tok").agentToken,
        (rawSetup "tok").adUrl, (rawSetup "tok").bindDn, (rawSetup "tok").baseDn],
        s.toList.all Toml.isBasic = true := List.all_eq_true.1 (by decide +kernel)
    exact List.all_eq_true.1 (hall s hs)
  references s hs hraw := by
    simp only [List.mem_cons, List.not_mem_nil, or_false] at hs
    rcases hs with rfl | rfl
    · exact absurd (raw_key "tok") hraw
    · exact absurd (raw_password "tok") hraw

/-- The libraries of the service that is run after the setup. -/
def Externals.provisioned : Externals := .withEnv .zeroVault Externals.zeroVault.env

theorem vault_zeroVault : Config.vault .zeroVault = .ok (some (.zero "local")) := by rfl

theorem followed_zeroVault : Followed .zeroVault Externals.zeroVault.env (rawSetup "tok") where
  vault := rfl
  secretKey hnone := by cases vault_zeroVault.symm.trans hnone
  bindPassword hnone := by cases vault_zeroVault.symm.trans hnone

/-- The service starts with the stored secrets and binds with the password that was meant. -/
theorem serviceRun_provisioned {config : Config} {secretKey bindPassword : String}
    (hkey : Config.resolve .provisioned secretKey = meant .provisioned (rawSetup "tok").secretKey)
    (hpassword : Config.resolve .provisioned bindPassword = meant .provisioned (rawSetup "tok").bindPassword)
    (hconfig : config.toSections = setupSections (rawSetup "tok") secretKey bindPassword) :
    ∃ (sess : Session) (hmode : config.agent.mode = .ad), ServiceRun .provisioned (runDb .provisioned) config sess
      (booted config) [disablingCycle .provisioned "hunter2" config sess hmode]
      (disablingCut "hunter2" config sess hmode) (stopped config sess) := by
  have hserver : config.server = ⟨"https://demo.nexusid.ai", "tok", secretKey, true⟩ := congrArg (·.server) hconfig
  have htoken : Config.resolve .provisioned config.server.agentToken = .ok "tok" := by
    rw [hserver]
    show Config.resolve .provisioned "tok" = _
    exact resolve_plain (by decide +kernel) (by decide +kernel)
  have hcipher : config.serverCipher .provisioned = .ok (.zero "local-default") := by
    rw [Config.serverCipher, hserver, hkey, meant, if_pos (raw_key "tok")]
    rfl
  have hmode : config.agent.mode = .ad := congrArg (·.agent.mode) hconfig
  have had : config.ad = some _ := congrArg (·.ad) hconfig
  have hpw (s : Session) : Config.resolve .provisioned (config.adMode s hmode).ad.bindPassword = .ok "hunter2" := by
    simp only [Config.adMode, had, Option.get_some]
    rw [hpassword, meant, if_pos (raw_password "tok")]
    rfl
  have hsimple (s : Session) : (config.adMode s hmode).ad.useKerberos = false := by
    simp only [Config.adMode, had, Option.get_some]
  exact ⟨_, hmode, serviceRun_disabling _ hmode (hpw _) (hsimple _) (runs_booted htoken hcipher)⟩

end NexusAgent
