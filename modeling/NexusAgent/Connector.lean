import NexusAgent.Effects

/-!
# The LDAP connector (`connectors/ldap.rs`)
-/

namespace NexusAgent
open Text

def uacEnabled : String := "512"

def uacDisabled : String := "514"

/-- The hosts to try: the servers, else the global catalog host. -/
def ForestContext.hosts (ctx : ForestContext) : List String :=
  if ctx.servers ≠ [] then ctx.servers else ctx.globalCatalogHost.toList

/-- `str::encode_utf16`, as little-endian bytes -/
def utf16Le (s : String) : Bytes :=
  s.toList.flatMap fun c =>
    let le (u : Nat) : Bytes := [UInt8.ofNat (u % 256), UInt8.ofNat (u / 256)]
    let n := c.toNat
    if n < 0x10000 then le n
    else le (0xD800 + (n - 0x10000) / 0x400) ++ le (0xDC00 + (n - 0x10000) % 0x400)

variable (x : Externals)

namespace LdapConnector

/-! ### Binding -/

def bindReply (ldap : Ldap) (auth : Auth) (reply : LdapReply Unit) (lost rejected : String) : Agent Ldap := do
  reply.orFail lost rejected
  return { ldap with auth := some auth }

def simpleBind (ldap : Ldap) (dn pw what : String) : Agent Ldap := do
  let reply ← perform (.simpleBind ldap dn pw)
  bindReply ldap (.simple dn pw) reply what s!"{what} rejected"

def kerberosBind (ldap : Ldap) (url : String) : Agent Ldap := do
  if x.kerberos then
    let fqdn := ((rsplitNext '/' url).bind (splitNext ':')).getD url
    let reply ← perform (.gssapiBind ldap fqdn)
    bindReply ldap .kerberos reply "GSSAPI bind" "GSSAPI bind rejected"
  else
    throw (.ldap "use_kerberos=true but the agent was built without the `kerberos` feature")

/-- A connection that is not bound yet. -/
def openUrl (url : String) (verifyTls : Bool) : Agent Ldap := do
  match ← perform (.connect url !verifyTls) with
  | .error e => throw (.ldap s!"connect {url}: {e}")
  | .ok () => return ⟨url, none⟩

def connect (url bindDn bindPassword baseDn : String) (verifyTls useKerberos passwordWriteback : Bool) :
    Agent LdapConnector := do
  let ldap ← openUrl url verifyTls
  let ldap ← if useKerberos then kerberosBind x ldap url else simpleBind ldap bindDn bindPassword "bind"
  return ⟨ldap, baseDn, passwordWriteback⟩

end LdapConnector

/-! ### Forests -/

namespace ForestContext

variable (ctx : ForestContext)

def kerberos : Bool := ctx.useGmsa || eqIgnoreAsciiCase ctx.authType "SASL_KERBEROS"

def scheme : String := if ctx.useTls then "ldaps" else "ldap"

def port : Nat := if ctx.useTls then 636 else 389

def url (host : String) : String := s!"{ctx.scheme}://{host}:{ctx.port}"

def baseDn (opTargetBaseDn : Option String) : String := (nonEmpty opTargetBaseDn).getD ctx.rootDn

def passwordWriteback : Bool := ctx.useTls || ctx.kerberos

/-- The principal and the password of a simple bind. -/
def credentials (cipher : Cipher) : Except AgentError (String × String) :=
  match ctx.serviceAccount with
  | none => .error (.ldap "forest SIMPLE bind requires a service account")
  | some principal =>
    match ctx.serviceAccountPasswordEncrypted with
    | none => .error (.ldap "forest SIMPLE bind requires a service-account password")
    | some enc => (cipher.decryptSerialized x enc).map (principal, ·)

/-- A bound connection to one of the hosts. -/
def bindHost (cipher : Cipher) (verifyTls : Bool) (host : String) : Agent Ldap := do
  let ldap ← LdapConnector.openUrl (ctx.url host) verifyTls
  if ctx.kerberos then LdapConnector.kerberosBind x ldap (ctx.url host)
  else do
    let (principal, pw) ← liftResult (ctx.credentials x cipher)
    LdapConnector.simpleBind ldap principal pw "forest bind"

/-- The first host that can be bound; the error is that of the last one. -/
def bindHosts (cipher : Cipher) (verifyTls : Bool) : List String → Option AgentError → Agent Ldap
  | [], lastErr => throw (lastErr.getD (.ldap s!"forest '{ctx.rootDn}' unreachable"))
  | host :: hosts, _ => do
    match ← ExceptT.lift (ctx.bindHost x cipher verifyTls host).run with
    | .ok ldap => return ldap
    | .error e => bindHosts cipher verifyTls hosts (some e)

end ForestContext

namespace LdapConnector

def connectForest (ctx : ForestContext) (opTargetBaseDn : Option String) (cipher : Cipher) (verifyTls : Bool) :
    Agent LdapConnector := do
  if ctx.hosts = [] then throw (.ldap s!"forest '{ctx.rootDn}' has no servers")
  let ldap ← ctx.bindHosts x cipher verifyTls ctx.hosts none
  return ⟨ldap, ctx.baseDn opTargetBaseDn, ctx.passwordWriteback⟩

/-! ### Operations -/

section
variable (c : LdapConnector)

def setPassword (dn password : String) : Agent Unit := do
  let mods := [Mod.replace "unicodePwd" [utf16Le s!"\"{password}\""]]
  let reply ← perform (.modify c.ldap dn mods)
  reply.orFail s!"password writeback {dn}" s!"password writeback rejected {dn}"

/-- The attributes of a new account. -/
def newAccount (attributes : SortedMap String String) : List (String × List String) :=
  ("objectClass", ["top", "person", "organizationalPerson", "user"]) ::
    ((attributes.entries.filter fun (k, v) => !(k == "distinguishedName" || v.isEmpty)).map
      fun (k, v) => (k, [v])) ++
    [("userAccountControl", [uacDisabled])]

def createAccount (attributes : SortedMap String String) (plaintextPassword : Option String) :
    Agent String := do
  match attributes.get? "distinguishedName" with
  | none => throw (.ldap "attributes missing distinguishedName")
  | some dn =>
    let reply ← perform (.add c.ldap dn (newAccount attributes))
    reply.orFail s!"add {dn}" s!"add rejected {dn}"
    match c.passwordWriteback, plaintextPassword with
    | true, some pw => c.setPassword dn pw
    | _, _ => pure ()
    return dn

def findFilter (email : String) : String := s!"(|(userPrincipalName={email})(mail={email}))"

def findDn (email : String) : Agent String := do
  let reply ← perform (.search c.ldap c.baseDn .subtree (findFilter email) ["distinguishedName"])
  let entries ← reply.orFail s!"search {email}" s!"search rejected {email}"
  match entries with
  | [] => throw (.ldap s!"no AD account found for {email}")
  | entry :: _ => return entry.dn

/-- What `find_dn` returns. -/
def located (email : String) : LdapReply (List SearchEntry) → Except AgentError String
  | .lost e => .error (.ldap s!"search {email}: {e}")
  | .rejected e => .error (.ldap s!"search rejected {email}: {e}")
  | .ok [] => .error (.ldap s!"no AD account found for {email}")
  | .ok (entry :: _) => .ok entry.dn

def findCall (email : String) : Call :=
  .search c.ldap c.baseDn .subtree (findFilter email) ["distinguishedName"]

variable {c} in
theorem runs_findDn {email : String} {tr : Trace} {r : Except AgentError String} :
    (c.findDn email).run.Runs tr r ↔ ∃ reply, tr = [⟨c.findCall email, reply⟩] ∧ r = located email reply := by
  refine runs_ask_result fun reply => ?_
  rcases reply with e | e | _ | ⟨entry, rest⟩ <;> rfl

def setUac (email uac : String) : Agent String := do
  let dn ← c.findDn email
  let reply ← perform (.modify c.ldap dn [.replace "userAccountControl" [utf8 uac]])
  reply.orFail s!"modify uac {dn}" s!"modify uac rejected {dn}"
  return dn

def enableAccount (email : String) : Agent String := c.setUac email uacEnabled

def disableAccount (email : String) : Agent String := c.setUac email uacDisabled

/-- The replacements an attribute map asks for. -/
def updateMods (attributes : SortedMap String String) : List Mod :=
  (attributes.entries.filter fun (k, v) => k != "distinguishedName" && !v.isEmpty).map
    fun (k, v) => .replace k [utf8 v]

def updateAttributes (email : String) (attributes : SortedMap String String) : Agent String := do
  let dn ← c.findDn email
  if updateMods attributes ≠ [] then
    let reply ← perform (.modify c.ldap dn (updateMods attributes))
    reply.orFail s!"modify {dn}" s!"modify rejected {dn}"
  return dn

def testBase : Agent Nat := do
  let reply ← perform (.search c.ldap c.baseDn .base "(objectClass=*)" ["distinguishedName"])
  let entries ← reply.orFail s!"search base {c.baseDn}" "base search rejected"
  return entries.length

def userAttrs : List String :=
  ["mail", "userPrincipalName", "sAMAccountName", "employeeID", "givenName", "sn", "displayName",
    "department", "title", "telephoneNumber"]

/-- The first value of every attribute that has a non-empty one. -/
def firstValues (e : SearchEntry) : SortedMap String String :=
  e.attrs.foldl (fun m (k, vals) =>
    match vals with
    | [] => m
    | v :: _ => if v.isEmpty then m else m.insert k v) .empty

def searchUsers (baseDn filter : String) : Agent (List (SortedMap String String)) := do
  let reply ← perform (.search c.ldap baseDn .subtree filter userAttrs)
  let entries ← reply.orFail s!"search users {baseDn}" "user search rejected"
  return (entries.map firstValues).filter fun m => !m.entries.isEmpty

def unbind : Task Unit := Prog.perform (Call.unbind c.ldap)

end

end LdapConnector

end NexusAgent
