import NexusAgent.Server

/-!
# First-run setup (`main.rs`)

`finalize_setup` as it is built for a host other than Windows, where there is no service to start.
-/

namespace NexusAgent
open Text

/-- The values a setup needs. -/
structure SetupValues where
  baseUrl : String
  agentId : String
  agentToken : String
  mode : String
  secretKey : String
  adUrl : String
  bindDn : String
  bindPassword : String
  baseDn : String
  deriving DecidableEq

/-- The note for a secret that is not stored. -/
def envNote (envName : String) : String :=
  s!"set the env var {envName} to the value on the host (kept off disk), " ++
    "or set NEXUS_AGENT_KEY and re-run setup to store it encrypted (enc:)"

/-- A secret, without the blanks around it, that is stored as it is. -/
@[irreducible] def isKept (v : String) : Bool := v.isEmpty || startsWith "env:" v || startsWith "enc:" v

/-- References stay, anything else is encrypted or left to an environment variable. -/
def hardenSecret (k : Sealing) (value : String) (vault : Option Cipher) (envName : String) :
    Task (String × Option String) := do
  let v := trim value
  if isKept v then return (v, none)
  match vault with
  | some c =>
    let iv ← Prog.perform Call.fillBytes
    match c.encryptSerialized k iv v with
    | .ok enc => return (s!"enc:{enc}", none)
    | .error _ =>
      return (s!"env:{envName}", some s!"encryption failed — set the env var {envName} on the host instead")
  | none => return (s!"env:{envName}", some (envNote envName))

/-- The text of the file. -/
def setupToml (v : SetupValues) (secretKey bindPassword : String) : String :=
  "[agent]\nid = \"" ++ v.agentId ++ "\"\nmode = \"" ++ v.mode ++
  "\"\npoll_interval_secs = 30\naudit_log = \"./nexus-agent.audit.jsonl\"\n\n" ++
  "[server]\nbase_url = \"" ++ v.baseUrl ++ "\"\nagent_token = \"" ++ v.agentToken ++
  "\"\nsecret_key = \"" ++ secretKey ++ "\"\nverify_tls = true\n\n" ++
  "[ad]\nurl = \"" ++ v.adUrl ++ "\"\nbind_dn = \"" ++ v.bindDn ++ "\"\nbind_password = \"" ++ bindPassword ++
  "\"\nbase_dn = \"" ++ v.baseDn ++ "\"\nuse_kerberos = false\npassword_writeback = true\n"

variable (x : Externals) (k : Sealing) (fromStr : String → Except String Sections)

def Config.load (path : String) : Agent Config := do
  match ← perform (.readFile path) with
  | .error e => throw (.config s!"reading config: {e}")
  | .ok raw => liftResult (Config.parse fromStr raw)

def println (line : String) : Agent Unit := perform (.println line)

def printAll : List String → Agent Unit
  | [] => return ()
  | note :: notes => do
    println s!"[action] {note}"
    printAll notes

/-- Whether the broker knows the agent that the file configures. -/
def checkBroker (cfg : Config) (v : SetupValues) : Agent Unit := do
  let token ← liftResult (Config.resolve x cfg.server.agentToken)
  let client ← ServerClient.new cfg.server.baseUrl token cfg.agent.id cfg.server.verifyTls
  match ← ExceptT.lift client.fetchConfig.run with
  | .ok _ => println s!"[ok] reached {v.baseUrl} — agent '{v.agentId}' is registered and authorized"
  | .error e =>
    println (s!"[warn] config written, but the broker check failed: {e.display}\n" ++
      "       register the agent in the SyncAgent UI, then run 'nexus-agent run'")

/-- `finalize_setup` after the file is written. -/
def checkSetup (configPath : String) (v : SetupValues) (notes : List String) : Agent Unit := do
  println s!"\n[ok] wrote {configPath} (no plaintext secrets)"
  printAll notes
  match ← ExceptT.lift (Config.load fromStr configPath).run with
  | .ok cfg => checkBroker x cfg v
  | .error e => println s!"[warn] config written but did not validate: {e.display}"
  println s!"\nNext: nexus-agent run -c {configPath}\n"

def setupNotes (n₁ n₂ : Option String) : List String :=
  (n₁.map fun n => s!"secret_key: {n}").toList ++ (n₂.map fun n => s!"bind_password: {n}").toList

def finalizeSetup (configPath : String) (v : SetupValues) : Agent Unit := do
  perform (.createParentDir configPath)
  let vault ← liftResult (Config.vault x)
  let (secretKey, n₁) ← ExceptT.lift (hardenSecret k v.secretKey vault "SECRET_ENCRYPTION_KEY")
  let (bindPassword, n₂) ← ExceptT.lift (hardenSecret k v.bindPassword vault "NEXUS_AGENT_BIND_PASSWORD")
  match ← perform (.writeFile configPath (setupToml v secretKey bindPassword)) with
  | .error e => throw (.config s!"writing {configPath}: {e}")
  | .ok () => checkSetup x fromStr configPath v (setupNotes n₁ n₂)

end NexusAgent
