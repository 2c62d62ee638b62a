import NexusAgent.Lib.Within
import NexusAgent.Runner
import NexusAgent.Setup

/-!
# The commands (`main.rs`)

As they are built for a host other than Windows. What `run` does once it has read its configuration is `ServiceRun`.
-/

namespace NexusAgent
open Text

inductive CliCall where
  | agent (call : Call)
  -- the terminal
  | print (text : String)
  | readLine
  -- the file that `AuditLog::verify` opens
  | readLog (path : String)
  -- the random bytes of `generate_base64_key`
  | fillKey
  -- `runner::run`
  | serve (config : Config)

abbrev CliReply : CliCall → Type
  | .agent call => Reply call
  | .print _ => Unit
  | .readLine => Except String String
  | .readLog _ => Except IoError AuditFile
  | .fillKey => { bytes : Bytes // bytes.length = 32 }
  | .serve _ => Except AgentError Unit

abbrev CliTrace := List (Event CliReply)

abbrev Cli := ExceptT AgentError (Prog CliCall CliReply)

def ask (c : CliCall) : Cli (CliReply c) := ExceptT.lift (Prog.perform c)

/-- A part of the agent, run by a command. -/
def Cli.agent {α : Type} (p : Agent α) : Cli α := ExceptT.mk (p.run.within .agent fun _ r => r)

/-! ### Setup -/

/-- What is made of a line that is typed. -/
def answer (default line : String) : String := if (trim line).isEmpty then default else trim line

def prompt (label default : String) : Cli String := do
  ask (.print (if default.isEmpty then s!"{label}: " else s!"{label} [{default}]: "))
  match ← ask .readLine with
  | .error e => throw (.config s!"reading input: {e}")
  | .ok line => return answer default line

/-- The values that are passed as flags. -/
structure SetupFlags where
  idpUrl : Option String
  agentId : Option String
  token : Option String
  mode : Option String
  secretKey : Option String
  adUrl : Option String
  bindDn : Option String
  bindPassword : Option String
  baseDn : Option String

def SetupFlags.values (f : SetupFlags) : SetupValues where
  baseUrl := f.idpUrl.getD ""
  agentId := f.agentId.getD "dc-01-agent"
  agentToken := f.token.getD ""
  mode := f.mode.getD "ad"
  secretKey := f.secretKey.getD "env:SECRET_ENCRYPTION_KEY"
  adUrl := f.adUrl.getD ""
  bindDn := f.bindDn.getD ""
  bindPassword := f.bindPassword.getD ""
  baseDn := f.baseDn.getD ""

variable (x : Externals) (k : Sealing) (fromStr : String → Except String Sections)

def setupWizard (configPath : String) : Cli Unit := do
  Cli.agent (println "\nnexusID sync agent — setup\n")
  let baseUrl ← prompt "IDP / broker URL" "https://demo.nexusid.ai"
  let agentId ← prompt "Agent id" "dc-01-agent"
  let agentToken ← prompt "Agent token (from 'Register agent')" ""
  let mode ← prompt "Mode (ad/db)" "ad"
  let secretKey ← prompt "Secret key — env:, enc:, or the per-agent key from the downloaded config"
    "env:SECRET_ENCRYPTION_KEY"
  let adUrl ← prompt "AD url (the broker can override this live)" "ldaps://dc01.corp.example.com:636"
  let bindDn ← prompt "AD bind DN" "CN=svc-nexus,OU=Service Accounts,DC=corp,DC=example,DC=com"
  let bindPassword ← prompt "AD bind password" ""
  let baseDn ← prompt "AD base DN" "DC=corp,DC=example,DC=com"
  Cli.agent (finalizeSetup x k fromStr configPath
    ⟨baseUrl, agentId, agentToken, mode, secretKey, adUrl, bindDn, bindPassword, baseDn⟩)

/-! ### The log -/

def integrity (ok : Bool) : String := if ok then "OK" else "BROKEN"

def atSeq : Option UInt64 → String
  | some seq => s!" at seq {seq}"
  | none => ""

def verifyLog (path : String) : Cli Unit := do
  let file ← ask (.readLog path)
  let report ← Cli.agent (liftResult (AuditLog.verify x.toCrates file))
  Cli.agent (println
    s!"audit log: {report.records} record(s); integrity {integrity report.ok}{atSeq report.brokenAt}")
  if report.ok = false then throw (.audit "integrity check failed")

def status (configPath : String) : Cli Unit := do
  let cfg ← Cli.agent (Config.load fromStr configPath)
  let file ← ask (.readLog cfg.agent.auditLog)
  let report ← Cli.agent (liftResult (AuditLog.verify x.toCrates file))
  Cli.agent (println s!"agent id   : {cfg.agent.id}")
  Cli.agent (println s!"mode       : {cfg.agent.mode.asStr}")
  Cli.agent (println s!"server     : {cfg.server.baseUrl}")
  Cli.agent (println s!"audit log  : {report.records} record(s), integrity {integrity report.ok}")

/-! ### Secrets -/

def genKey : Cli Unit := do
  let bytes ← ask .fillKey
  Cli.agent (println (k.base64Encode bytes.1))

def encryptSecret (value : String) : Cli Unit := do
  match ← Cli.agent (liftResult (Config.vault x)) with
  | none => throw (.config "set NEXUS_AGENT_KEY (base64 32 bytes) first")
  | some vault =>
    let iv ← Cli.agent (perform .fillBytes)
    let enc ← Cli.agent (liftResult (vault.encryptSerialized k iv value))
    Cli.agent (println s!"enc:{enc}")

/-! ### Dispatch -/

inductive ServiceAction where
  | install (config : String)
  | uninstall

inductive Command where
  | run (config : String)
  | setup (config : String) (nonInteractive : Bool) (flags : SetupFlags)
  | service (action : ServiceAction)
  | runService (config : String)
  | verifyLog (path : String)
  | status (config : String)
  | genKey
  | encryptSecret (value : String)

def dispatch : Command → Cli Unit
  | .run config => do
    let cfg ← Cli.agent (Config.load fromStr config)
    Cli.agent (liftResult (← ask (.serve cfg)))
  | .setup config nonInteractive flags =>
    if nonInteractive then Cli.agent (finalizeSetup x k fromStr config flags.values)
    else setupWizard x k fromStr config
  | .service _ => throw (.config "the 'service' command is Windows-only")
  | .runService _ => throw (.config "run-service is Windows-only")
  | .verifyLog path => verifyLog x path
  | .status config => status x fromStr config
  | .genKey => genKey k
  | .encryptSecret value => encryptSecret x k value

end NexusAgent
