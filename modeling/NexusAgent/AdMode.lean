import NexusAgent.Connector
import NexusAgent.Server

/-!
# One pass in AD mode (`modes/ad.rs`)

The connections of the forests met so far are threaded through the loop (`Conns`); they stay there when an
operation fails. The order in which a `HashMap` yields them for the final unbinds is not specified; here it
is that of their opening, newest first.
-/

namespace NexusAgent

/-- The connections by forest id. -/
abbrev Conns := List (String × LdapConnector)

structure AdMode where
  server : ServerClient
  ad : AdSection
  cipher : Cipher
  verifyTls : Bool
  batch : Nat

variable (x : Externals)

namespace AdMode

def email (op : Operation) : Except AgentError String :=
  match op.userEmail with
  | some email => .ok email
  | none => .error (.ldap "operation has no userEmail to locate the account")

def parseAttrs (json : Option String) : Except AgentError (SortedMap String String) :=
  match json with
  | some s => (x.readAttributes s).mapError fun e => .ldap s!"bad attributesJson: {e}"
  | none => .ok .empty

theorem parseAttrs_stringsText {x : Externals} (hx : x.readAttributes = readStrings) (attrs : SortedMap String String) :
    parseAttrs x (some (stringsText attrs)) = .ok attrs := by
  rw [parseAttrs, hx, readStrings_stringsText]
  rfl

def userJson (user : SortedMap String String) : Json := .obj (user.entries.map fun (k, v) => (k, .str v))

variable (m : AdMode)

/-- The password of a new account, decrypted. -/
def password (op : Operation) : Except AgentError (Option String) :=
  match op.encryptedPassword with
  | some enc => (m.cipher.decryptSerialized x enc).map some
  | none => .ok none

/-- Where `SYNC_USERS` searches. -/
def syncBase (op : Operation) (params : SortedMap String String) : Except AgentError String :=
  match (nonEmpty (params.get? "userBaseDn")).or op.targetBaseDn with
  | some base => .ok base
  | none => .error (.ldap "SYNC_USERS missing base DN")

def syncFilter (params : SortedMap String String) : String :=
  (nonEmpty (params.get? "filter")).getD "(&(objectClass=user)(objectCategory=person))"

def process (op : Operation) (ldap : LdapConnector) : Agent Json := do
  match op.opType with
  | "CREATE_ACCOUNT" =>
    let attrs ← liftResult (parseAttrs x op.attributesJson)
    let pw ← liftResult (m.password x op)
    let dn ← ldap.createAccount attrs pw
    return .obj [("dn", .str dn)]
  | "ENABLE_ACCOUNT" =>
    let email ← liftResult (email op)
    let dn ← ldap.enableAccount email
    return .obj [("dn", .str dn), ("state", .str "enabled")]
  | "DISABLE_ACCOUNT" =>
    let email ← liftResult (email op)
    let dn ← ldap.disableAccount email
    return .obj [("dn", .str dn), ("state", .str "disabled")]
  | "UPDATE_ATTRIBUTES" =>
    let attrs ← liftResult (parseAttrs x op.attributesJson)
    let email ← liftResult (email op)
    let dn ← ldap.updateAttributes email attrs
    return .obj [("dn", .str dn), ("updated", .ofNat attrs.entries.length)]
  | "TEST_CONNECTION" =>
    let n ← ldap.testBase
    return .obj [("base_dn_entries", .ofNat n), ("ok", .bool true)]
  | "SYNC_USERS" =>
    let params ← liftResult (parseAttrs x op.attributesJson)
    let base ← liftResult (syncBase op params)
    let users ← ldap.searchUsers base (syncFilter params)
    return .obj [("inspected", .ofNat users.length), ("users", .arr (users.map userJson))]
  | other => throw (.ldap s!"unknown op type: {other}")

/-- An operation on the connection it is routed to. -/
def processOn (op : Operation) (ldap : LdapConnector) : Agent Json := do
  perform (.routed op ldap)
  m.process x op ldap

/-- The result of an operation and the connections after it. -/
def routeAndProcess (op : Operation) (defaultLdap : LdapConnector) (conns : Conns) :
    Task (Except AgentError Json × Conns) := do
  match op.forestContextJson with
  | none =>
    let r ← (m.processOn x op defaultLdap).run
    return (r, conns)
  | some json =>
    match x.readForest json with
    | .error e => return (.error (.ldap s!"bad forestContextJson: {e}"), conns)
    | .ok ctx =>
      match conns.lookup ctx.forestId with
      | some conn =>
        let r ← (m.processOn x op conn).run
        return (r, conns)
      | none =>
        match ← (LdapConnector.connectForest x ctx op.targetBaseDn m.cipher m.verifyTls).run with
        | .error e => return (.error e, conns)
        | .ok conn =>
          let r ← (m.processOn x op conn).run
          return (r, (ctx.forestId, conn) :: conns)

/-- `audit.append(…)?` -/
def append (event : String) (detail : Json) : Agent Unit := do
  liftResult (← perform (.append event detail))

def okDetail (op : Operation) (result : Json) : Json :=
  .obj [("id", .str op.id), ("op", .str op.opType), ("result", result)]

def failDetail (op : Operation) (error : String) : Json :=
  .obj [("error", .str error), ("id", .str op.id), ("op", .str op.opType)]

/-- Reports the outcome of an operation to the broker and to the log. -/
def report (op : Operation) (r : Except AgentError Json) : Agent Unit := do
  match r with
  | .ok detail =>
    let _ ← ExceptT.lift (m.server.complete op.id true (some (x.valueText detail)) none).run
    append "AD_OP_OK" (okDetail op detail)
  | .error e =>
    let _ ← ExceptT.lift (m.server.complete op.id false none (some e.display)).run
    append "AD_OP_FAIL" (failDetail op e.display)

def count (counters : SyncCounters) (op : Operation) : Except AgentError Json → SyncCounters
  | .ok _ => counters.recordOk op.opType
  | .error _ => counters.recordFailure

/-- The loop over a batch. -/
def drain (defaultLdap : LdapConnector) : List Operation → Conns → SyncCounters → Agent (SyncCounters × Conns)
  | [], conns, counters => return (counters, conns)
  | op :: ops, conns, counters => do
    perform (.started op)
    let (r, conns) ← ExceptT.lift (m.routeAndProcess x op defaultLdap conns)
    m.report x op r
    drain defaultLdap ops conns (count counters op r)

def unbindAll : Conns → Task Unit
  | [] => return ()
  | (_, conn) :: conns => do
    conn.unbind
    unbindAll conns

def runOnce : Agent SyncCounters := do
  let bindPw ← liftResult (Config.resolve x m.ad.bindPassword)
  let ldap ← LdapConnector.connect x m.ad.url m.ad.bindDn bindPw m.ad.baseDn m.verifyTls m.ad.useKerberos
    m.ad.passwordWriteback
  let ops ← m.server.pollOperations m.batch
  let (counters, conns) ← m.drain x ldap ops [] {}
  ExceptT.lift ldap.unbind
  ExceptT.lift (unbindAll conns)
  return counters

end AdMode

end NexusAgent
