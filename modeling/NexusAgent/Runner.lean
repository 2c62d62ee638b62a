import NexusAgent.AdMode

/-!
# The service loop (`runner.rs`)

A cycle may be dropped at any call it awaits. `ServiceRun` is a whole run of the service that shuts down:
its start, its cycles, the last one dropped, and its end.
-/

namespace NexusAgent

def batchSize : Nat := 25

def version : String := "0.2.1"

variable (x : Externals)

/-- What `run` sets up before the loop. -/
structure Session where
  server : ServerClient
  cipher : Cipher
  hostname : String
  directoryId : Option String

def directoryIdFrom : Option String := nonEmpty (x.env "NEXUS_AGENT_DIRECTORY_ID")

def directoryId (config : Config) : Option String :=
  config.ad.bind fun _ => (nonEmpty config.agent.directoryIntegrationId).or (directoryIdFrom x)

/-- `run` up to the loop. -/
def start (config : Config) : Agent Session := do
  liftResult (← perform (.openLog config.agent.auditLog))
  let token ← liftResult (Config.resolve x config.server.agentToken)
  let server ← ServerClient.new config.server.baseUrl token config.agent.id config.server.verifyTls
  let cipher ← liftResult (config.serverCipher x)
  let hostname ← perform .hostname
  AdMode.append "RUN_START" (runStartDetail config.agent.mode.asStr)
  return ⟨server, cipher, hostname, directoryId x config⟩

/-- One pass in DB mode. -/
abbrev RunDb := DbSection → ServerClient → Agent SyncCounters

variable (runDb : RunDb)

/-- The pass of the configured mode. -/
def runMode (config : Config) (s : Session) : Agent SyncCounters :=
  match h : config.agent.mode with
  | .ad =>
    let ad := config.ad.get (config.isSome_ad h)
    AdMode.runOnce x ⟨s.server, ad, s.cipher, config.server.verifyTls, batchSize⟩
  | .db => runDb (config.db.get (config.isSome_db h)) s.server

variable {x runDb} in
theorem runMode_ad {config : Config} {s : Session} (hmode : config.agent.mode = .ad) :
    runMode x runDb config s = AdMode.runOnce x
      ⟨s.server, config.ad.get (config.isSome_ad hmode), s.cipher, config.server.verifyTls, batchSize⟩ := by
  unfold runMode
  split
  next => rfl
  next h => rw [hmode] at h; cases h

variable {x runDb} in
theorem runMode_db {config : Config} {s : Session} (hmode : config.agent.mode = .db) :
    runMode x runDb config s = runDb (config.db.get (config.isSome_db hmode)) s.server := by
  unfold runMode
  split
  next h => rw [hmode] at h; cases h
  next => rfl

def runPass (config : Config) (s : Session) : Agent SyncCounters := do
  let counters ← runMode x runDb config s
  AdMode.append "SYNC_SUMMARY" (summaryDetail config.agent.mode.asStr counters)
  return counters

def errorDetail (e : AgentError) : Json := .obj [("error", .str e.display)]

def runCycle (config : Config) (s : Session) : Task Unit := do
  s.server.heartbeat config.agent.mode.asStr s.hostname version s.directoryId
  match ← (runPass x runDb config s).run with
  | .ok counters =>
    if 0 < counters.inspected then s.server.reportRun config.agent.mode.asStr counters
  | .error e =>
    let _ ← Prog.perform (Call.append "RUN_ERROR" (errorDetail e))
  Prog.perform (Call.sleep config.agent.pollIntervalSecs)

/-- The local configuration with the broker's settings, where these could be fetched. -/
def effective (base : Config) : Except AgentError RemoteConfig → Config
  | .ok remote => base.applyRemote remote
  | .error _ => base

def runOne (base : Config) (s : Session) : Task Unit := do
  let remote ← s.server.fetchConfig.run
  runCycle x runDb (effective base remote) s

/-- `run` after the loop. -/
def stop (config : Config) (s : Session) : Task Unit := do
  s.server.disconnect "agent shutdown"
  let _ ← Prog.perform (Call.append "RUN_STOP" (runStartDetail config.agent.mode.asStr))

/-- The loop: cycles that return, then one that the shutdown signal drops. -/
inductive LoopRun (config : Config) (s : Session) : List Trace → Trace → Prop
  | cut {tr : Trace} (h : (runOne x runDb config s).Cut Call.isAwait tr) : LoopRun config s [] tr
  | cycle {tr cut : Trace} {trs : List Trace} (h : (runOne x runDb config s).Runs tr ())
    (hrest : LoopRun config s trs cut) : LoopRun config s (tr :: trs) cut

/-- A run of the service from its start to its shutdown. -/
structure ServiceRun (config : Config) (s : Session) (first : Trace) (cycles : List Trace) (cut last : Trace) :
    Prop where
  start : (start x config).run.Runs first (.ok s)
  loop : LoopRun x runDb config s cycles cut
  stop : (stop config s).Runs last ()

end NexusAgent
