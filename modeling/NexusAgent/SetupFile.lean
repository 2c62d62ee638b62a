import NexusAgent.Secrets
import NexusAgent.Frames

/-!
# The file a setup writes

`stores_iff`: a setup stores the template, with the two hardened secrets. `same_file_iff`: without a vault, two
setups that differ in raw secrets only store the same file exactly if they have the same agent token, which is
stored as it is.
-/

namespace NexusAgent
open Text

variable (x : Externals) (k : Sealing) (fromStr : String → Except String Sections)

/-- In some run of the setup, `text` is written to the file. -/
def Stores (configPath : String) (v : SetupValues) (text : String) : Prop :=
  ∃ tr r reply, (finalizeSetup x k fromStr configPath v).run.Runs tr r ∧
    (⟨.writeFile configPath text, reply⟩ : Event Reply) ∈ tr

/-- The file is left as it is. -/
def Call.Keeping : Call → Prop
  | .writeFile .. => False
  | _ => True

/-! ### After the file is written -/

theorem allCalls_println {φ : Call → Prop} (h : ∀ line, φ (.println line)) (line : String) :
    (println line).run.AllCalls φ := allCalls_perform (h line)

theorem allCalls_printAll {φ : Call → Prop} (h : ∀ line, φ (.println line)) (notes : List String) :
    (printAll notes).run.AllCalls φ := by
  induction notes with
  | nil => trivial
  | cons note notes ih => exact (allCalls_println h _).bindE fun _ => ih

theorem allCalls_fetchConfig_keeping (c : ServerClient) : c.fetchConfig.run.AllCalls Call.Keeping := by
  refine c.allCalls_fetchConfig.mono fun call hcall => ?_
  rcases hcall with rfl | rfl <;> trivial

theorem allCalls_load_keeping (configPath : String) : (Config.load fromStr configPath).run.AllCalls Call.Keeping := by
  refine allCalls_ask trivial fun reply => ?_
  rcases reply with e | raw <;> trivial

theorem allCalls_checkBroker (cfg : Config) (v : SetupValues) : (checkBroker x cfg v).run.AllCalls Call.Keeping := by
  have hprint : ∀ line, Call.Keeping (.println line) := fun _ => trivial
  have hnew : ∀ token, (ServerClient.new cfg.server.baseUrl token cfg.agent.id cfg.server.verifyTls).run.AllCalls
      Call.Keeping := fun token => (ServerClient.allCalls_new ..).mono fun call hcall => hcall ▸ trivial
  refine allCalls_result fun token => (hnew token).bindE fun client => ?_
  refine (allCalls_lift (allCalls_fetchConfig_keeping client)).bindE fun r => ?_
  rcases r with e | remote
  · exact allCalls_println hprint _
  · exact allCalls_println hprint _

/-- Once it is written, the file is only read. -/
theorem allCalls_checkSetup (configPath : String) (v : SetupValues) (notes : List String) :
    (checkSetup x fromStr configPath v notes).run.AllCalls Call.Keeping := by
  have hprint : ∀ line, Call.Keeping (.println line) := fun _ => trivial
  refine (allCalls_println hprint _).bindE fun _ => (allCalls_printAll hprint notes).bindE fun _ => ?_
  refine (allCalls_lift (allCalls_load_keeping fromStr configPath)).bindE fun r => ?_
  rcases r with e | cfg
  · exact (allCalls_println hprint _).bindE fun _ => allCalls_println hprint _
  · exact (allCalls_checkBroker x cfg v).bindE fun _ => allCalls_println hprint _

/-! ### What is written -/

/-- A run of `harden_secret` stores `stored` for the secret. -/
def Hardens (value : String) (vault : Option Cipher) (envName stored : String) : Prop :=
  ∃ tr note, (hardenSecret k value vault envName).Runs tr (stored, note)

variable {x k fromStr} {configPath text : String} {v : SetupValues}

theorem allCalls_hardenSecret (value : String) (vault : Option Cipher) (envName : String) :
    (hardenSecret k value vault envName).AllCalls (· = .fillBytes) := by
  unfold hardenSecret
  simp only
  rcases isKept (trim value) with _ | _
  · rcases vault with _ | c
    · trivial
    · refine Prog.AllCalls.bind (Prog.allCalls_perform.2 rfl) fun iv => ?_
      rcases c.encryptSerialized k iv (trim value) with e | enc <;> trivial
  · trivial

theorem fillBytes_of_hardenSecret {value envName : String} {vault : Option Cipher} {tr : Trace}
    {r : String × Option String} (h : (hardenSecret k value vault envName).Runs tr r) (e : Event Reply)
    (he : e ∈ tr) : e.1 = .fillBytes := (allCalls_hardenSecret value vault envName).of_runs h e he

/-- A step that cannot fail, and what follows it. -/
theorem runs_lift_bind {α β : Type} {t : Task α} {f : α → Agent β} {tr : Trace} {r : Except AgentError β} :
    (ExceptT.lift t >>= f).run.Runs tr r ↔ ∃ tr₁ tr₂ a, tr = tr₁ ++ tr₂ ∧ t.Runs tr₁ a ∧ (f a).run.Runs tr₂ r := by
  constructor
  · intro h
    rcases Prog.runs_bindE.1 h with ⟨e, hfail, -⟩ | ⟨tr₁, tr₂, a, rfl, hlift, hrest⟩
    · obtain ⟨_, -, ⟨⟩⟩ := runs_lift.1 hfail
    · obtain ⟨_, hrun, ⟨⟩⟩ := runs_lift.1 hlift
      exact ⟨tr₁, tr₂, a, rfl, hrun, hrest⟩
  · rintro ⟨tr₁, tr₂, a, rfl, hrun, hrest⟩
    exact Prog.Runs.bindE (runs_lift.2 ⟨a, hrun, rfl⟩) hrest

/-- A setup stores the template with what is stored for the two secrets. -/
theorem stores_iff : Stores x k fromStr configPath v text ↔ ∃ vault secretKey bindPassword,
    Config.vault x = .ok vault ∧ Hardens k v.secretKey vault "SECRET_ENCRYPTION_KEY" secretKey ∧
      Hardens k v.bindPassword vault "NEXUS_AGENT_BIND_PASSWORD" bindPassword ∧
        text = setupToml v secretKey bindPassword := by
  constructor
  · rintro ⟨tr, r, reply, hrun, he⟩
    obtain ⟨_, tr', rfl, hvaulted⟩ := runs_ask.1 hrun
    rcases List.mem_cons.1 he with hdir | he'
    · cases hdir
    rcases hvault : Config.vault x with e | vault <;> rw [hvault] at hvaulted
    · obtain ⟨rfl, -⟩ := hvaulted
      cases he'
    rw [liftResult_ok_bind] at hvaulted
    obtain ⟨tr₁, tr₂, p, rfl, hkey, hkeyed⟩ := runs_lift_bind.1 hvaulted
    obtain ⟨secretKey, n₁⟩ := p
    have he₂ := (List.mem_append.1 he').resolve_left fun he => by cases fillBytes_of_hardenSecret hkey _ he
    obtain ⟨tr₃, tr₄, p, rfl, hbind, hwrite⟩ := runs_lift_bind.1 hkeyed
    obtain ⟨bindPassword, n₂⟩ := p
    have he₄ := (List.mem_append.1 he₂).resolve_left fun he => by cases fillBytes_of_hardenSecret hbind _ he
    obtain ⟨written, tr₅, rfl, hcheck⟩ := runs_ask.1 hwrite
    refine ⟨vault, secretKey, bindPassword, rfl, ⟨_, _, hkey⟩, ⟨_, _, hbind⟩, ?_⟩
    rcases List.mem_cons.1 he₄ with he₅ | he₅
    · have hcall := congrArg (fun e : Event Reply => e.1) he₅
      exact (Call.writeFile.inj hcall).2
    · rcases written with e | _
      · obtain ⟨rfl, -⟩ := hcheck
        cases he₅
      · exact ((allCalls_checkSetup x fromStr configPath v _).of_runs hcheck _ he₅).elim
  · rintro ⟨vault, secretKey, bindPassword, hvault, ⟨tr₁, n₁, hkey⟩, ⟨tr₂, n₂, hbind⟩, rfl⟩
    let cause : String := ""
    let e : Event Reply := ⟨.writeFile configPath (setupToml v secretKey bindPassword), .error cause⟩
    have hrun : (finalizeSetup x k fromStr configPath v).run.Runs
        (⟨.createParentDir configPath, ()⟩ :: (tr₁ ++ (tr₂ ++ [e])))
        (.error (.config s!"writing {configPath}: {cause}")) := by
      refine runs_ask.2 ⟨(), _, rfl, ?_⟩
      rw [hvault, liftResult_ok_bind]
      refine runs_lift_bind.2 ⟨_, _, _, rfl, hkey, runs_lift_bind.2 ⟨_, _, _, rfl, hbind, ?_⟩⟩
      exact runs_ask.2 ⟨.error cause, [], rfl, rfl, rfl⟩
    have he : e ∈ tr₁ ++ (tr₂ ++ [e]) := List.mem_append_right _ (List.mem_append_right _ (List.mem_singleton_self _))
    exact ⟨_, _, .error cause, hrun, List.mem_cons_of_mem _ he⟩

/-! ### Without a vault -/

/-- The two setups differ in raw secrets only. -/
structure SameButSecrets (v w : SetupValues) : Prop where
  same : w = { v with agentToken := w.agentToken, secretKey := w.secretKey, bindPassword := w.bindPassword }
  rawToken : Raw v.agentToken ∧ Raw w.agentToken
  rawKey : Raw v.secretKey ∧ Raw w.secretKey
  rawPassword : Raw v.bindPassword ∧ Raw w.bindPassword

theorem hardens_raw {value envName stored : String} (h : Raw value) :
    Hardens k value none envName stored ↔ stored = s!"env:{envName}" := by
  unfold Hardens
  rw [hardenSecret_raw h]
  constructor
  · rintro ⟨tr, note, -, hr⟩
    exact (Prod.mk.inj hr).1
  · rintro rfl
    exact ⟨[], _, rfl, rfl⟩

/-- The stored text when no vault is there and both hardened secrets are raw. -/
def envToml (v : SetupValues) : String :=
  setupToml v "env:SECRET_ENCRYPTION_KEY" "env:NEXUS_AGENT_BIND_PASSWORD"

theorem stores_raw (hvault : Config.vault x = .ok none) (hkey : Raw v.secretKey) (hpassword : Raw v.bindPassword) :
    Stores x k fromStr configPath v text ↔ text = envToml v := by
  rw [stores_iff]
  constructor
  · rintro ⟨vault, secretKey, bindPassword, hvault', hharden, hharden', rfl⟩
    obtain rfl : none = vault := Except.ok.inj (hvault.symm.trans hvault')
    rw [(hardens_raw hkey).1 hharden, (hardens_raw hpassword).1 hharden']
    rfl
  · rintro rfl
    exact ⟨none, _, _, hvault, (hardens_raw hkey).2 rfl, (hardens_raw hpassword).2 rfl, rfl⟩

/-- The token stands in the text as it is. -/
theorem token_eq_of_setupToml {w : SetupValues} {secretKey bindPassword : String}
    (hw : w = { v with agentToken := w.agentToken, secretKey := w.secretKey, bindPassword := w.bindPassword })
    (h : setupToml v secretKey bindPassword = setupToml w secretKey bindPassword) : v.agentToken = w.agentToken := by
  rw [hw] at h
  unfold setupToml at h
  simp only [String.append_assoc, String.append_right_inj, String.append_left_inj] at h
  exact h

/-- Without a vault the file does not depend on the raw secrets exactly if the agent tokens agree. -/
theorem same_file_iff (x : Externals) (k : Sealing) (fromStr : String → Except String Sections) (configPath : String)
    (v w : SetupValues) (hvault : Config.vault x = .ok none) (h : SameButSecrets v w) :
    (∀ text text', Stores x k fromStr configPath v text → Stores x k fromStr configPath w text' → text = text') ↔
      v.agentToken = w.agentToken := by
  have hv (text : String) : Stores x k fromStr configPath v text ↔ text = envToml v :=
    stores_raw hvault h.rawKey.1 h.rawPassword.1
  have hw (text : String) : Stores x k fromStr configPath w text ↔ text = envToml w :=
    stores_raw hvault h.rawKey.2 h.rawPassword.2
  constructor
  · intro hsame
    exact token_eq_of_setupToml h.same (hsame _ _ ((hv _).2 rfl) ((hw _).2 rfl))
  · intro htoken text text' htext htext'
    rw [(hv text).1 htext, (hw text').1 htext', h.same, ← htoken]
    rfl

/-- A setup whose three secrets are raw. -/
def rawSetup (agentToken : String) : SetupValues where
  baseUrl := "https://demo.nexusid.ai"
  agentId := "dc-01-agent"
  agentToken := agentToken
  mode := "ad"
  secretKey := "AAAAAAAAAAAAAAAAAAAAAAAAAAAAAAAAAAAAAAAAAAA="
  adUrl := "ldaps://dc01.corp.example.com:636"
  bindDn := "CN=svc-nexus,DC=corp"
  bindPassword := "hunter2"
  baseDn := "DC=corp"

/-- Libraries without a vault. -/
def Externals.noVault : Externals := .plain

theorem raw_key (token : String) : Raw (rawSetup token).secretKey := by
  simp only [rawSetup]
  decide +kernel

theorem raw_password (token : String) : Raw (rawSetup token).bindPassword := by
  simp only [rawSetup]
  decide +kernel

theorem same_rawSetup {token token' : String} (h : Raw token) (h' : Raw token') :
    SameButSecrets (rawSetup token) (rawSetup token') where
  same := rfl
  rawToken := ⟨h, h'⟩
  rawKey := ⟨raw_key token, raw_key token'⟩
  rawPassword := ⟨raw_password token, raw_password token'⟩

/-- Two agent tokens, two files. -/
theorem token_in_file :
    SameButSecrets (rawSetup "tok-1") (rawSetup "tok-2") ∧ Config.vault .noVault = .ok none ∧
      ¬ ∀ text text', Stores .noVault .sample (fun _ => .error "") "config.toml" (rawSetup "tok-1") text →
        Stores .noVault .sample (fun _ => .error "") "config.toml" (rawSetup "tok-2") text' → text = text' := by
  have hraw : SameButSecrets (rawSetup "tok-1") (rawSetup "tok-2") :=
    same_rawSetup (by decide +kernel) (by decide +kernel)
  refine ⟨hraw, rfl, fun h => ?_⟩
  have hstores (token : String) : Stores .noVault .sample (fun _ => .error "") "config.toml" (rawSetup token)
      (envToml (rawSetup token)) := (stores_raw rfl (raw_key token) (raw_password token)).2 rfl
  have htoken := token_eq_of_setupToml hraw.same (h _ _ (hstores "tok-1") (hstores "tok-2"))
  revert htoken
  show ¬ "tok-1" = "tok-2"
  decide

theorem same_file_iff_tok :
    (∀ text text', Stores .noVault .sample (fun _ => .error "") "config.toml" (rawSetup "tok-1") text →
        Stores .noVault .sample (fun _ => .error "") "config.toml" (rawSetup "tok-2") text' → text = text') ↔
      (rawSetup "tok-1").agentToken = (rawSetup "tok-2").agentToken :=
  same_file_iff .noVault .sample _ "config.toml" _ _ rfl (same_rawSetup (by decide +kernel) (by decide +kernel))

end NexusAgent
