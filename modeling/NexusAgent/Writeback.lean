import NexusAgent.Cycle
import NexusAgent.Writes

/-!
# Passwords on the wire

A modify of `unicodePwd` should only go out on a connection opened with an LDAPS URL or bound with Kerberos.
`passwords_confidential_iff`: in every pass over a batch it does exactly if no operation that can send a
password can be processed on another connection (`Guarded`).
-/

namespace NexusAgent

section
variable {α : Type} [DecidableEq α] (schema : Schema α)

def Schema.isPassword : Mod → Bool
  | .replace attr _ => schema.attrOf attr = schema.attrOf "unicodePwd"

def Params.Confidential (p : Params) : Prop := p.scheme = "ldaps" ∨ p.auth = some .kerberos

def Ldap.Confidential (ldap : Ldap) : Prop := urlScheme ldap.url = "ldaps" ∨ ldap.auth = some .kerberos

/-- Every modify that carries a password is sent on a confidential connection. -/
def PasswordsConfidential (tr : Trace) : Prop :=
  ∀ (ldap : Ldap) (dn : String) (mods : List Mod) (reply : LdapReply Unit),
    (⟨.modify ldap dn mods, reply⟩ : Event Reply) ∈ tr → mods.any schema.isPassword → ldap.Confidential

namespace AdMode

variable (x : Externals) (m : AdMode)

/-- The operation can send a password, where `writeback` says whether a new account gets one. -/
def SendsPassword (op : Operation) (writeback : Bool) : Prop :=
  (op.opType = "CREATE_ACCOUNT" ∧ writeback = true ∧
    (∃ attrs dn, parseAttrs x op.attributesJson = .ok attrs ∧ attrs.get? "distinguishedName" = some dn) ∧
      ∃ pw, m.password x op = .ok (some pw)) ∨
  (op.opType = "UPDATE_ATTRIBUTES" ∧ op.userEmail ≠ none ∧
    ∃ attrs, parseAttrs x op.attributesJson = .ok attrs ∧ (LdapConnector.updateMods attrs).any schema.isPassword)

/-- No operation of the batch that can send a password can be processed on a connection that is neither LDAPS
nor bound with Kerberos. -/
def Guarded (ops : List Operation) : Prop :=
  ∀ pw, Config.resolve x m.ad.bindPassword = .ok pw → ∀ p, m.defaultParams x pw = some p →
    ∀ ops₁ op ops₂, ops = ops₁ ++ op :: ops₂ → ∀ q, Uses x m p ops₁ op q →
      SendsPassword schema x m op q.passwordWriteback → q.Confidential

variable {schema x m} {op : Operation} {conn : LdapConnector} {ops : List Operation}

theorem Write.sendsPassword {ldap : Ldap} {dn : String} {mods : List Mod}
    (h : Write x m op conn (.modify ldap dn mods)) (hmods : mods.any schema.isPassword) :
    ldap = conn.ldap ∧ SendsPassword schema x m op conn.passwordWriteback := by
  have huac (values : List Text.Bytes) : ¬ [Mod.replace "userAccountControl" values].any schema.isPassword := by
    simp [Schema.isPassword, schema.uac_ne_pwd]
  cases h with
  | password htype hattrs hpw hdn hwriteback =>
    exact ⟨rfl, .inl ⟨htype, hwriteback, ⟨_, _, hattrs, hdn⟩, _, hpw⟩⟩
  | enable dn htype hemail => exact absurd hmods (huac _)
  | disable dn htype hemail => exact absurd hmods (huac _)
  | update dn htype hattrs hemail hne =>
    exact ⟨rfl, .inr ⟨htype, by rw [hemail]; simp, _, hattrs, hmods⟩⟩

theorem SendsPassword.exists_write (conn : LdapConnector) (h : SendsPassword schema x m op conn.passwordWriteback) :
    ∃ dn mods, Write x m op conn (.modify conn.ldap dn mods) ∧ mods.any schema.isPassword := by
  rcases h with ⟨htype, hwriteback, ⟨attrs, dn, hattrs, hdn⟩, pw, hpw⟩ | ⟨htype, hemail, attrs, hattrs, hmods⟩
  · exact ⟨dn, _, .password htype hattrs hpw hdn hwriteback, by simp [Schema.isPassword]⟩
  · obtain ⟨email, hemail⟩ := Option.ne_none_iff_exists'.1 hemail
    refine ⟨"", _, .update "" htype hattrs hemail fun hnil => ?_, hmods⟩
    rw [hnil] at hmods
    cases hmods

theorem Guarded.confidential {tr : Trace} {res : Except AgentError SyncCounters} (hg : Guarded schema x m ops)
    (h : Pass x m tr res) (hbatch : (⟨.decodeOperations, .ok ops⟩ : Event Reply) ∈ tr) :
    PasswordsConfidential schema tr := by
  intro ldap dn mods reply he hmods
  obtain ⟨pw, p, hpw, hp, ops₁, op, ops₂, conn, tr', r, hops, hrun, he', hu⟩ := h.processed hbatch he trivial
  have hwrite : Write x m op conn (.modify ldap dn mods) := write_of_processOn hrun he' trivial
  obtain ⟨rfl, hsends⟩ := hwrite.sendsPassword hmods
  exact hg pw hpw p hp ops₁ op ops₂ hops conn.params hu hsends

theorem guarded_of_confidential (h : ∀ tr res, Pass x m tr res →
    (⟨.decodeOperations, .ok ops⟩ : Event Reply) ∈ tr → PasswordsConfidential schema tr) : Guarded schema x m ops := by
  intro pw hpw p hp ops₁ op ops₂ hops q hu hsends
  obtain ⟨conn, rfl, hprocess⟩ := exists_pass_on ops₂ hpw hp hu
  obtain ⟨dn, mods, hwrite, hmods⟩ := SendsPassword.exists_write conn hsends
  obtain ⟨tr, r, hrun, he⟩ := hwrite.issues (.ok ())
  obtain ⟨tr', res, hpass, hbatch, hsub⟩ := hprocess tr r hrun
  rw [← hops] at hbatch
  exact h tr' res hpass hbatch conn.ldap dn mods (.ok ()) (hsub he) hmods

end AdMode

end

/-- Under a local configuration and the broker's settings for it, passwords only go out on confidential
connections exactly if no operation can send one on another connection. -/
theorem passwords_confidential_iff {α : Type} [DecidableEq α] (schema : Schema α) (x : Externals) (runDb : RunDb)
    (config : Config) (remote : RemoteConfig)
    (s : Session) (hmode : config.agent.mode = .ad) (ops : List Operation) :
    (∀ tr res, (runMode x runDb (config.applyRemote remote) s).run.Runs tr res →
      (⟨.decodeOperations, .ok ops⟩ : Event Reply) ∈ tr → PasswordsConfidential schema tr) ↔
      AdMode.Guarded schema x ((config.applyRemote remote).adMode s ((config.applyRemote_mode remote).trans hmode))
        ops := by
  rw [runMode_ad ((config.applyRemote_mode remote).trans hmode)]
  constructor
  · intro h
    exact AdMode.guarded_of_confidential fun tr res hpass => h tr res (AdMode.runs_runOnce.2 hpass)
  · intro hg tr res h hbatch
    exact hg.confidential (AdMode.runs_runOnce.1 h) hbatch

/-! ### A broker that leaves LDAPS -/

/-- Settings that only change the URL of the directory. -/
def plainLdap : RemoteConfig := ⟨none, none, some ⟨some "ldap://dc01:389", none, none, none⟩⟩

def clearConn : LdapConnector := ⟨⟨"ldap://dc01:389", some (.simple "CN=agent" "pw")⟩, "DC=corp", true⟩

/-- A simple bind on plain LDAP, and a new account. -/
def clearPass : Trace :=
  [⟨.connect "ldap://dc01:389" false, .ok ()⟩, ⟨.simpleBind ⟨"ldap://dc01:389", none⟩ "CN=agent" "pw", .ok ()⟩] ++
    (polled corpSession [createJoiner] ++
      (reported createJoiner (joinerCreated clearConn) (.ok (.obj [("dn", .str "CN=Joiner,DC=corp")])) ++ [] ++
        [⟨.unbind clearConn.ldap, ()⟩]))

/-- A simple bind on plain LDAP after the broker has changed the URL, and still the password goes out. -/
theorem password_in_the_clear :
    (runMode corp (fun _ _ => throw (.config "")) (corpConfig.applyRemote plainLdap) corpSession).run.Runs clearPass
      (.ok { inspected := 1, created := 1 }) ∧
    (⟨.decodeOperations, .ok [createJoiner]⟩ : Event Reply) ∈ clearPass ∧
    (⟨.modify ⟨"ldap://dc01:389", some (.simple "CN=agent" "pw")⟩ "CN=Joiner,DC=corp"
      [.replace "unicodePwd" [utf16Le "\"hunter2\""]], .ok ()⟩ : Event Reply) ∈ clearPass ∧
    ¬ PasswordsConfidential Schema.folding clearPass := by
  have hconnect : (((corpConfig.applyRemote plainLdap).adMode corpSession rfl).connectDefault corp "pw").run.Runs
      (clearPass.take 2) (.ok clearConn) := ⟨.ok (), _, rfl, .ok (), _, rfl, rfl, rfl⟩
  have hdrain : AdMode.Drain corp ((corpConfig.applyRemote plainLdap).adMode corpSession rfl) clearConn [createJoiner]
      [] {} _ (.ok ({ inspected := 1, created := 1 }, [])) :=
    .cons (.ok ⟨200, "OK"⟩) (.default rfl (runs_joinerCreated rfl rfl)) .nil
  have hsent : (⟨.modify clearConn.ldap "CN=Joiner,DC=corp" [.replace "unicodePwd" [utf16Le "\"hunter2\""]], .ok ()⟩ :
      Event Reply) ∈ clearPass := by
    simp [clearPass, reported, AdMode.opTrace, joinerCreated]
  refine ⟨runs_pass rfl rfl hconnect hdrain, by simp [clearPass, polled], hsent, fun hconfidential => ?_⟩
  rcases hconfidential _ _ _ _ hsent (by decide) with hscheme | hauth
  · revert hscheme
    decide
  · cases hauth

theorem passwords_confidential_iff_corp :
    (∀ tr res, (runMode corp (fun _ _ => throw (.config "")) (corpConfig.applyRemote plainLdap)
        corpSession).run.Runs tr res →
      (⟨.decodeOperations, .ok [createJoiner]⟩ : Event Reply) ∈ tr → PasswordsConfidential Schema.folding tr) ↔
    AdMode.Guarded Schema.folding corp ((corpConfig.applyRemote plainLdap).adMode corpSession rfl) [createJoiner] :=
  passwords_confidential_iff Schema.folding corp _ corpConfig plainLdap corpSession rfl [createJoiner]

end NexusAgent
