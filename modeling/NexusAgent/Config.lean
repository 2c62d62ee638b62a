import NexusAgent.Crypto

/-!
# Configuration (`config.rs`)

A `Config` has passed `validate`; `applyRemote` merges the broker's settings over it.
-/

namespace NexusAgent
open Text

inductive Mode where
  | ad
  | db
  deriving DecidableEq

def Mode.asStr : Mode → String
  | .ad => "ad"
  | .db => "db"

structure AgentSection where
  id : String
  mode : Mode
  pollIntervalSecs : Nat
  auditLog : String
  directoryIntegrationId : Option String

structure ServerSection where
  baseUrl : String
  agentToken : String
  secretKey : String
  verifyTls : Bool

structure AdSection where
  url : String
  bindDn : String
  bindPassword : String
  baseDn : String
  useKerberos : Bool
  passwordWriteback : Bool

structure DbSection where
  url : String
  driver : String
  table : String
  keyColumn : String
  fields : SortedMap String String
  pushPath : String
  pushSecret : String
  writeback : Bool
  writebackPullPath : Option String

/-- The sections of the file. -/
structure Sections where
  agent : AgentSection
  server : ServerSection
  ad : Option AdSection
  db : Option DbSection

def Sections.validate (s : Sections) : Except AgentError Unit :=
  match s.agent.mode, s.ad, s.db with
  | .ad, none, _ => .error (.config "mode=ad requires an [ad] section")
  | .db, _, none => .error (.config "mode=db requires a [db] section")
  | _, _, _ => .ok ()

structure Config extends Sections where
  valid : toSections.validate = .ok ()

namespace Config

theorem isSome_ad (c : Config) (h : c.agent.mode = .ad) : c.ad.isSome = true := by
  have hv := c.valid
  unfold Sections.validate at hv
  rcases ha : c.ad with _ | ad
  · rw [h, ha] at hv; cases hv
  · rfl

theorem isSome_db (c : Config) (h : c.agent.mode = .db) : c.db.isSome = true := by
  have hv := c.valid
  unfold Sections.validate at hv
  rcases hd : c.db with _ | db
  · rw [h, hd] at hv; cases hv
  · rfl

section
variable (x : Externals)

/-- What `load` makes of the text of the file, which `toml` reads with `fromStr`. -/
def parse (fromStr : String → Except String Sections) (raw : String) : Except AgentError Config :=
  match fromStr raw with
  | .error e => .error (.config s!"parsing TOML: {e}")
  | .ok s =>
    match h : s.validate with
    | .error e => .error e
    | .ok () => .ok ⟨s, h⟩

/-- The local vault, keyed by `NEXUS_AGENT_KEY`. -/
def vault : Except AgentError (Option Cipher) :=
  match x.env "NEXUS_AGENT_KEY" with
  | some k => if isBlank k then .ok none else (Cipher.fromBase64Key x k "local").map some
  | none => .ok none

/-- The plaintext of a secret-bearing field. -/
def resolve (raw : String) : Except AgentError String :=
  match stripPrefix "env:" raw with
  | some var =>
    match x.env var with
    | some v => .ok v
    | none => .error (.config s!"env var '{var}' not set")
  | none =>
    match stripPrefix "enc:" raw with
    | some enc =>
      match vault x with
      | .error e => .error e
      | .ok none => .error (.config "an enc: secret requires NEXUS_AGENT_KEY to be set")
      | .ok (some cipher) => cipher.decryptSerialized x enc
    | none => .ok raw

def serverCipher (c : Config) : Except AgentError Cipher :=
  match resolve x c.server.secretKey with
  | .error e => .error e
  | .ok key => Cipher.fromBase64Key x key "local-default"

/-- Where a secret comes from. -/
inductive Source where
  | env (var : String)
  | vault
  | inline
  deriving DecidableEq

def Source.text : Source → String
  | .env var => s!"env:{var}"
  | .vault => "enc:(vault)"
  | .inline => "inline"

def source (raw : String) : Source :=
  match stripPrefix "env:" raw with
  | some var => .env var
  | none => if startsWith "enc:" raw then .vault else .inline

/-- What the log says of a secret-bearing field. -/
def describe (raw : String) : String :=
  match resolve x raw with
  | .ok v =>
    if isBlank v then s!"[{(source raw).text}] -> EMPTY/unresolved"
    else s!"[{(source raw).text}] -> ok ({v.length} chars)"
  | .error e => s!"[{(source raw).text}] -> ERROR: {e.display}"

end

/-! ### The broker's settings -/

def applyDirectory (dir : RemoteDirectory) (ad : AdSection) : AdSection :=
  { ad with
    url := (nonEmpty dir.url).getD ad.url
    bindDn := (nonEmpty dir.bindDn).getD ad.bindDn
    baseDn := (nonEmpty dir.baseDn).getD ad.baseDn
    passwordWriteback := dir.passwordWriteback.getD ad.passwordWriteback }

def applyPoll (remote : RemoteConfig) (agent : AgentSection) : AgentSection :=
  match remote.pollIntervalSecs with
  | some p => if 0 < p then { agent with pollIntervalSecs := p } else agent
  | none => agent

def applySections (s : Sections) (remote : RemoteConfig) : Sections :=
  { s with
    agent := applyPoll remote s.agent
    ad := match remote.directory, s.ad with
      | some dir, some ad => some (applyDirectory dir ad)
      | _, ad => ad }

theorem applyPoll_mode (remote : RemoteConfig) (agent : AgentSection) :
    (applyPoll remote agent).mode = agent.mode := by
  unfold applyPoll
  split
  · split <;> rfl
  · rfl

theorem validate_applySections (s : Sections) (remote : RemoteConfig) :
    (applySections s remote).validate = s.validate := by
  unfold Sections.validate applySections
  rw [applyPoll_mode]
  rcases s.agent.mode <;> rcases s.ad with _ | ad <;> rcases s.db with _ | db <;>
    rcases remote.directory with _ | dir <;> rfl

def applyRemote (c : Config) (remote : RemoteConfig) : Config :=
  ⟨applySections c.toSections remote, (validate_applySections ..).trans c.valid⟩

@[simp] theorem applyRemote_mode (c : Config) (remote : RemoteConfig) :
    (c.applyRemote remote).agent.mode = c.agent.mode := applyPoll_mode remote c.agent

end Config

end NexusAgent
