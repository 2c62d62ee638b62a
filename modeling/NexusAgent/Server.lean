import NexusAgent.Effects

/-!
# The broker's client (`server.rs`)
-/

namespace NexusAgent

/-- A request as it is sent. -/
structure HttpRequest where
  post : Bool
  url : String
  headers : List (String × String)
  body : Option Json

namespace ServerClient

variable (c : ServerClient)

def optStr : Option String → Json
  | some s => .str s
  | none => .null

def headers : Request → List (String × String)
  | .fetchConfig | .pollOperations _ => [("X-Agent-Token", c.agentToken), ("X-Agent-Id", c.agentId)]
  | .pushRecord _ secret _ | .pullWriteback _ secret => [("x-sync-secret", secret)]
  | _ => [("X-Agent-Token", c.agentToken)]

/-- The request that `send` stands for. -/
def http : Request → HttpRequest
  | .fetchConfig => ⟨false, s!"{c.baseUrl}/agent/ad/config", c.headers .fetchConfig, none⟩
  | .pollOperations limit =>
    ⟨false, s!"{c.baseUrl}/agent/ad/operations?limit={limit}", c.headers (.pollOperations limit), none⟩
  | .complete opId success resultJson error =>
    ⟨true, s!"{c.baseUrl}/agent/ad/operations/{opId}/complete",
      c.headers (.complete opId success resultJson error),
      some (.obj [("error", optStr error), ("resultJson", optStr resultJson), ("success", .bool success)])⟩
  | .heartbeat mode hostname version directoryIntegrationId =>
    ⟨true, s!"{c.baseUrl}/agent/heartbeat", c.headers (.heartbeat mode hostname version directoryIntegrationId),
      some (.obj [("agentId", .str c.agentId), ("directoryIntegrationId", optStr directoryIntegrationId),
        ("hostname", .str hostname), ("mode", .str mode), ("status", .str "ONLINE"), ("version", .str version)])⟩
  | .reportRun mode counters =>
    ⟨true, s!"{c.baseUrl}/agent/run", c.headers (.reportRun mode counters),
      some (.obj [("agentId", .str c.agentId), ("created", .ofNat counters.created),
        ("disabled", .ofNat counters.disabled), ("failed", .ofNat counters.failed),
        ("inspected", .ofNat counters.inspected), ("mode", .str mode), ("updated", .ofNat counters.updated)])⟩
  | .disconnect reason =>
    ⟨true, s!"{c.baseUrl}/agent/disconnect", c.headers (.disconnect reason),
      some (.obj [("agentId", .str c.agentId), ("reason", .str reason)])⟩
  | .pushRecord path secret record =>
    ⟨true, s!"{c.baseUrl}{path}", c.headers (.pushRecord path secret record), some record⟩
  | .pullWriteback path secret => ⟨false, s!"{c.baseUrl}{path}", c.headers (.pullWriteback path secret), none⟩

/-- Every request carries the agent's token, or the secret of the synchronization. -/
theorem secret_mem_http (r : Request) : ("X-Agent-Token", c.agentToken) ∈ (c.http r).headers ∨
    ∃ secret, ("x-sync-secret", secret) ∈ (c.http r).headers := by
  cases r <;> simp [http, headers]

def new (baseUrl agentToken agentId : String) (verifyTls : Bool) : Agent ServerClient := do
  match ← perform (.buildClient verifyTls) with
  | .error e => throw (.server s!"building HTTP client: {e}")
  | .ok () => return ⟨trimEndMatches '/' baseUrl, agentToken, agentId⟩

/-- A request whose transport errors and refusals are errors. -/
def request (r : Request) (what refused : String) : Agent Unit := do
  match ← perform (.send c r) with
  | .error e => throw (.server s!"{what}: {e}")
  | .ok status =>
    if !status.isSuccess then throw (.server s!"{refused} returned HTTP {status.display}")

/-- What `request` makes of the answer. -/
def accepted (what refused : String) : Except String Status → Except AgentError Unit
  | .error e => .error (.server s!"{what}: {e}")
  | .ok status => if status.isSuccess then .ok () else .error (.server s!"{refused} returned HTTP {status.display}")

theorem runs_request {c : ServerClient} {r : Request} {what refused : String} {tr : Trace}
    {res : Except AgentError Unit} : (c.request r what refused).run.Runs tr res ↔
      ∃ reply, tr = [⟨.send c r, reply⟩] ∧ res = accepted what refused reply := by
  refine runs_ask_result fun reply => ?_
  rcases reply with e | status
  · rfl
  · rcases hs : status.isSuccess <;> simp only [accepted, hs] <;> rfl

def fetchConfig : Agent RemoteConfig := do
  c.request .fetchConfig "fetch config" "config"
  match ← perform .decodeConfig with
  | .error e => throw (.server s!"config decode: {e}")
  | .ok remote => return remote

def pollOperations (limit : Nat) : Agent (List Operation) := do
  c.request (.pollOperations limit) "poll" "poll"
  match ← perform .decodeOperations with
  | .error e => throw (.server s!"poll decode: {e}")
  | .ok operations => return operations

def complete (opId : String) (success : Bool) (resultJson error : Option String) : Agent Unit :=
  c.request (.complete opId success resultJson error) "complete" "complete"

def pushRecord (path secret : String) (record : Json) : Agent Unit :=
  c.request (.pushRecord path secret record) "push" "push"

def pullWriteback (path secret : String) : Agent (List WritebackChange) := do
  match ← perform (.send c (.pullWriteback path secret)) with
  | .error e => throw (.server s!"writeback pull: {e}")
  | .ok status =>
    if status.code = 404 then return []
    if !status.isSuccess then throw (.server s!"writeback pull HTTP {status.display}")
    match ← perform .decodeChanges with
    | .error e => throw (.server s!"writeback decode: {e}")
    | .ok changes => return changes

/-- A request whose outcome is only logged. -/
def notify (r : Request) : Task Unit := do
  let _ ← Prog.perform (.send c r)

def heartbeat (mode hostname version : String) (directoryIntegrationId : Option String) : Task Unit :=
  c.notify (.heartbeat mode hostname version directoryIntegrationId)

def reportRun (mode : String) (counters : SyncCounters) : Task Unit := c.notify (.reportRun mode counters)

def disconnect (reason : String) : Task Unit := c.notify (.disconnect reason)

end ServerClient

end NexusAgent
