import NexusAgent.Completion
import NexusAgent.Runner
import NexusAgent.Secrets

/-!
# Cycles in AD mode

`runs_cycle` makes a cycle of a run of its loop, `cut_cycle` one that is dropped in its loop. The second half is a run
of the service that the later modules come back to: an agent of the domain `corp` creates an account with a password,
disables one, may not rename a third, and reaches a forest at its second host; in the next cycle it is shut down.
`serviceRun_disabling`: any agent with a simple bind can disable an account and be shut down.
-/

namespace NexusAgent
open Text

/-- The mode that a configuration in AD mode runs. -/
def Config.adMode (config : Config) (s : Session) (hmode : config.agent.mode = .ad) : AdMode :=
  ⟨s.server, config.ad.get (config.isSome_ad hmode), s.cipher, config.server.verifyTls, batchSize⟩

theorem runMode_adMode {x : Externals} {runDb : RunDb} {config : Config} {s : Session}
    (hmode : config.agent.mode = .ad) : runMode x runDb config s = (config.adMode s hmode).runOnce x := runMode_ad hmode

/-- What the agent does before its loop. -/
def booted (config : Config) : Trace :=
  [⟨.openLog config.agent.auditLog, .ok ()⟩, ⟨.buildClient config.server.verifyTls, .ok ()⟩, ⟨.hostname, "host"⟩,
    ⟨.append "RUN_START" (runStartDetail config.agent.mode.asStr), .ok ()⟩]

/-- What a cycle does before its pass, where the broker has no settings for the agent. -/
def greeting (config : Config) (s : Session) : Trace :=
  [⟨.send s.server .fetchConfig, .ok ⟨404, "Not Found"⟩⟩,
    ⟨.send s.server (.heartbeat config.agent.mode.asStr s.hostname version s.directoryId), .ok ⟨200, "OK"⟩⟩]

def polled (s : Session) (ops : List Operation) : Trace :=
  [⟨.send s.server (.pollOperations batchSize), .ok ⟨200, "OK"⟩⟩, ⟨.decodeOperations, .ok ops⟩]

/-- What the agent does after its loop. -/
def stopped (config : Config) (s : Session) : Trace :=
  [⟨.send s.server (.disconnect "agent shutdown"), .ok ⟨200, "OK"⟩⟩,
    ⟨.append "RUN_STOP" (runStartDetail config.agent.mode.asStr), .ok ()⟩]

/-- What a cycle does after its loop. -/
def parting (config : Config) (s : Session) (conns : List LdapConnector) (counters : SyncCounters) : Trace :=
  conns.map (fun conn => ⟨.unbind conn.ldap, ()⟩) ++
    [⟨.append "SYNC_SUMMARY" (summaryDetail config.agent.mode.asStr counters), .ok ()⟩,
      ⟨.send s.server (.reportRun config.agent.mode.asStr counters), .ok ⟨200, "OK"⟩⟩,
      ⟨.sleep config.agent.pollIntervalSecs, ()⟩]

section
variable {x : Externals} {runDb : RunDb} {config : Config} {s : Session} {conn : LdapConnector} {pw : String}
  {opened loop : Trace} {ops : List Operation} {conns : Conns} {counters : SyncCounters}

/-- An agent whose secrets can be resolved can start. -/
theorem runs_booted {token : String} {cipher : Cipher} (htoken : Config.resolve x config.server.agentToken = .ok token)
    (hcipher : config.serverCipher x = .ok cipher) : (start x config).run.Runs (booted config)
      (.ok ⟨⟨trimEndMatches '/' config.server.baseUrl, token, config.agent.id⟩, cipher, "host",
        directoryId x config⟩) := by
  unfold start
  rw [htoken, hcipher]
  exact ⟨.ok (), _, rfl, .ok (), _, rfl, "host", _, rfl, .ok (), _, rfl, rfl, rfl⟩

theorem runs_stopped (config : Config) (s : Session) : (stop config s).Runs (stopped config s) () :=
  ⟨.ok ⟨200, "OK"⟩, _, rfl, .ok (), _, rfl, rfl, rfl⟩

theorem runs_unbindAll (conns : Conns) :
    (AdMode.unbindAll conns).Runs (conns.map fun c => ⟨.unbind c.2.ldap, ()⟩) () := by
  induction conns with
  | nil => exact ⟨rfl, rfl⟩
  | cons c conns ih => exact ⟨(), _, rfl, ih⟩

theorem runs_close (conn : LdapConnector) (conns : Conns) (counters : SyncCounters) :
    (AdMode.close conn conns counters).run.Runs ((conn :: conns.map (·.2)).map fun c => ⟨.unbind c.ldap, ()⟩)
      (.ok counters) := by
  rw [List.map_cons, List.map_map, ← List.singleton_append, ← List.append_nil (List.map _ conns)]
  refine Prog.Runs.bindE (runs_lift.2 ⟨(), Prog.runs_perform.2 rfl, rfl⟩) ?_
  exact Prog.Runs.bindE (runs_lift.2 ⟨(), runs_unbindAll conns, rfl⟩) ⟨rfl, rfl⟩

/-- The fetch of the settings and the heartbeat, as `greeting` has them. -/
theorem runs_fetchConfig (config : Config) (s : Session) : ∃ remote, effective config remote = config ∧
    s.server.fetchConfig.run.Runs [⟨.send s.server .fetchConfig, .ok ⟨404, "Not Found"⟩⟩] remote :=
  ⟨.error _, rfl, Prog.runs_bindE.2 (.inl ⟨_, ServerClient.runs_request.2 ⟨_, rfl, rfl⟩, rfl⟩)⟩

theorem runs_heartbeat (config : Config) (s : Session) :
    (s.server.heartbeat config.agent.mode.asStr s.hostname version s.directoryId).Runs
      [⟨.send s.server (.heartbeat config.agent.mode.asStr s.hostname version s.directoryId), .ok ⟨200, "OK"⟩⟩] () :=
  ⟨_, [], rfl, rfl, rfl⟩

theorem runs_polled (s : Session) (ops : List Operation) :
    (s.server.pollOperations batchSize).run.Runs (polled s ops) (.ok ops) :=
  Prog.Runs.bindE (ServerClient.runs_request.2 ⟨.ok ⟨200, "OK"⟩, rfl, rfl⟩) ⟨.ok ops, [], rfl, rfl, rfl⟩

theorem ForestContext.credentials_eq {ctx : ForestContext} {cipher : Cipher} {principal enc : String}
    (hprincipal : ctx.serviceAccount = some principal) (henc : ctx.serviceAccountPasswordEncrypted = some enc)
    (hopen : cipher.decryptSerialized x enc = .ok pw) : ctx.credentials x cipher = .ok (principal, pw) := by
  rw [credentials, hprincipal, henc]
  show (cipher.decryptSerialized x enc).map _ = _
  rw [hopen]
  rfl

/-- A pass that gets through its batch. -/
theorem runs_pass (hmode : config.agent.mode = .ad)
    (hpw : Config.resolve x (config.adMode s hmode).ad.bindPassword = .ok pw)
    (hconnect : ((config.adMode s hmode).connectDefault x pw).run.Runs opened (.ok conn))
    (hdrain : AdMode.Drain x (config.adMode s hmode) conn ops [] {} loop (.ok (counters, conns))) :
    (runMode x runDb config s).run.Runs (opened ++ (polled s ops ++ (loop ++
      (conn :: conns.map (·.2)).map fun c => ⟨.unbind c.ldap, ()⟩))) (.ok counters) := by
  rw [runMode_adMode hmode, AdMode.runOnce_eq, hpw, liftResult_ok_bind]
  exact hconnect.bindE ((runs_polled s ops).bindE ((AdMode.runs_drain.2 hdrain).bindE (runs_close conn conns counters)))

/-- A cycle whose pass is summarised and reported. -/
theorem runs_cycle_of_pass {pass : Trace} (hpass : (runMode x runDb config s).run.Runs pass (.ok counters))
    (hcount : 0 < counters.inspected) :
    (runOne x runDb config s).Runs (greeting config s ++ (pass ++ parting config s [] counters)) () := by
  obtain ⟨remote, hremote, hfetch⟩ := runs_fetchConfig config s
  have hsummary : (runPass x runDb config s).run.Runs _ (.ok counters) := hpass.bindE ⟨.ok (), _, rfl, rfl, rfl⟩
  have hrest : (s.server.reportRun config.agent.mode.asStr counters >>= fun _ =>
      Prog.perform (Call.sleep config.agent.pollIntervalSecs) : Task Unit).Runs
      [⟨.send s.server (.reportRun config.agent.mode.asStr counters), .ok ⟨200, "OK"⟩⟩,
        ⟨.sleep config.agent.pollIntervalSecs, ()⟩] () := ⟨.ok ⟨200, "OK"⟩, _, rfl, (), _, rfl, rfl, rfl⟩
  have hcycle : (runCycle x runDb config s).Runs _ () :=
    (runs_heartbeat config s).bind (hsummary.bind (by simpa only [if_pos hcount] using hrest))
  have hrun : (runOne x runDb config s).Runs _ () := hfetch.bind (by rw [hremote]; exact hcycle)
  simpa [greeting, parting] using hrun

/-- A cycle that gets through its batch. -/
theorem runs_cycle (hmode : config.agent.mode = .ad)
    (hpw : Config.resolve x (config.adMode s hmode).ad.bindPassword = .ok pw)
    (hconnect : ((config.adMode s hmode).connectDefault x pw).run.Runs opened (.ok conn))
    (hdrain : AdMode.Drain x (config.adMode s hmode) conn ops [] {} loop (.ok (counters, conns)))
    (hcount : 0 < counters.inspected) : (runOne x runDb config s).Runs
      (greeting config s ++ (opened ++ (polled s ops ++ (loop ++ parting config s (conn :: conns.map (·.2)) counters))))
      () := by
  have hpass : (runMode x runDb config s).run.Runs _ _ := runs_pass hmode hpw hconnect hdrain
  have hrun := runs_cycle_of_pass hpass hcount
  simpa [parting] using hrun

/-- A cycle that is dropped in its batch. -/
theorem cut_cycle (hmode : config.agent.mode = .ad)
    (hpw : Config.resolve x (config.adMode s hmode).ad.bindPassword = .ok pw)
    (hconnect : ((config.adMode s hmode).connectDefault x pw).run.Runs opened (.ok conn))
    (hdrain : AdMode.DrainCut x (config.adMode s hmode) conn ops [] {} loop) :
    (runOne x runDb config s).Cut Call.isAwait (greeting config s ++ (opened ++ (polled s ops ++ loop))) := by
  obtain ⟨remote, hremote, hfetch⟩ := runs_fetchConfig config s
  have hpass : (runPass x runDb config s).run.Cut Call.isAwait (opened ++ (polled s ops ++ loop)) := by
    rw [runPass, runMode_adMode hmode, AdMode.runOnce_eq, hpw, liftResult_ok_bind]
    refine Prog.cut_bindE.2 (.inl (Prog.cut_bindE.2 (.inr ⟨_, _, conn, rfl, hconnect, ?_⟩)))
    exact Prog.cut_bindE.2 (.inr ⟨_, _, ops, rfl, runs_polled s ops, Prog.cut_bindE.2 (.inl hdrain.cut)⟩)
  refine Prog.cut_bind.2 (.inr ⟨[_], _, remote, rfl, hfetch, ?_⟩)
  rw [hremote]
  exact Prog.cut_bind.2 (.inr ⟨[_], _, (), rfl, runs_heartbeat config s, Prog.cut_bind.2 (.inl hpass)⟩)

end

/-! ### An agent of the domain `corp` -/

/-- A forest with two hosts. -/
def emea : ForestContext :=
  ⟨"emea", "DC=emea", none, ["dc1", "dc2"], "SIMPLE", false, some "CN=svc,DC=emea", some serializedHunter2, true, false⟩

@[irreducible] def emeaText : String := String.ofList (Json.obj [("authType", .str "SIMPLE"), ("forestId", .str "emea"),
  ("globalCatalogHost", .null), ("rootDn", .str "DC=emea"), ("servers", .arr [.str "dc1", .str "dc2"]),
  ("serviceAccount", .str "CN=svc,DC=emea"), ("serviceAccountPasswordEncrypted", .str serializedHunter2),
  ("useGmsa", .bool false), ("useTls", .bool true)]).text

/-- A reader that knows one text. -/
def readingForest (text : String) (ctx : ForestContext) (s : String) : Except String ForestContext :=
  if s = text then .ok ctx else .error "EOF while parsing a value"

theorem readingForest_self (text : String) (ctx : ForestContext) : readingForest text ctx text = .ok ctx := if_pos rfl

/-- Libraries that read the forest. -/
def corp : Externals :=
  ({ Externals.plain with readForest := readingForest emeaText emea } : Externals).sample fun _ => none

def corpConfig : Config :=
  ⟨⟨⟨"agent-1", .ad, 60, "audit.jsonl", none⟩,
    ⟨"https://broker", "token", "AAAAAAAAAAAAAAAAAAAAAAAAAAAAAAAAAAAAAAAAAAA=", true⟩,
    some ⟨"ldaps://dc01:636", "CN=agent", "pw", "DC=corp", false, true⟩, none⟩, rfl⟩

theorem mode_corp : corpConfig.agent.mode = .ad := rfl

def corpSession : Session := ⟨⟨"https://broker", "token", "agent-1"⟩, .zero "local-default", "host", none⟩

def corpMode : AdMode := corpConfig.adMode corpSession rfl

def corpConn : LdapConnector := ⟨⟨"ldaps://dc01:636", some (.simple "CN=agent" "pw")⟩, "DC=corp", true⟩

def emeaConn : LdapConnector := ⟨⟨emea.url "dc2", some (.simple "CN=svc,DC=emea" "hunter2")⟩, "DC=emea", true⟩

def joinerAttrs : SortedMap String String := .insert .empty "distinguishedName" "CN=Joiner,DC=corp"

def createJoiner : Operation :=
  ⟨"1", "CREATE_ACCOUNT", "7", some "joiner@corp", some (stringsText joinerAttrs), some serializedHunter2, none, none,
    none⟩

def disableLeaver : Operation :=
  ⟨"2", "DISABLE_ACCOUNT", "8", some "leaver@corp", none, none, none, none, none⟩

def renameMover : Operation :=
  ⟨"3", "UPDATE_ATTRIBUTES", "9", some "mover@corp", some (stringsText (.insert .empty "sn" "Moved")), none, none, none,
    none⟩

def testEmea : Operation :=
  ⟨"4", "TEST_CONNECTION", "0", none, none, none, none, none, some emeaText⟩

def enableJoiner : Operation :=
  ⟨"5", "ENABLE_ACCOUNT", "7", some "joiner@corp", none, none, none, none, none⟩

def corpStart : Trace :=
  [⟨.openLog "audit.jsonl", .ok ()⟩, ⟨.buildClient true, .ok ()⟩, ⟨.hostname, "host"⟩,
    ⟨.append "RUN_START" (runStartDetail "ad"), .ok ()⟩]

def corpOpened : Trace :=
  [⟨.connect "ldaps://dc01:636" false, .ok ()⟩, ⟨.simpleBind ⟨"ldaps://dc01:636", none⟩ "CN=agent" "pw", .ok ()⟩]

def joinerCreated (conn : LdapConnector) : Trace :=
  [⟨.routed createJoiner conn, ()⟩,
    ⟨.add conn.ldap "CN=Joiner,DC=corp" (LdapConnector.newAccount joinerAttrs), .ok ()⟩,
    ⟨.modify conn.ldap "CN=Joiner,DC=corp" [.replace "unicodePwd" [utf16Le "\"hunter2\""]], .ok ()⟩]

def leaverDisabled (conn : LdapConnector) : Trace :=
  [⟨.routed disableLeaver conn, ()⟩, ⟨conn.findCall "leaver@corp", .ok [⟨"CN=Leaver,DC=corp", []⟩]⟩,
    ⟨.modify conn.ldap "CN=Leaver,DC=corp" [.replace "userAccountControl" [utf8 uacDisabled]], .ok ()⟩]

def moverRefused : Trace :=
  [⟨.routed renameMover corpConn, ()⟩, ⟨corpConn.findCall "mover@corp", .ok [⟨"CN=Mover,DC=corp", []⟩]⟩,
    ⟨.modify corpConn.ldap "CN=Mover,DC=corp" [.replace "sn" [utf8 "Moved"]], .rejected "insufficientAccessRights"⟩]

/-- The first host refuses. -/
def emeaReached : Trace :=
  [⟨.connect (emea.url "dc1") false, .error "connection refused"⟩, ⟨.connect (emea.url "dc2") false, .ok ()⟩,
    ⟨.simpleBind ⟨emea.url "dc2", none⟩ "CN=svc,DC=emea" "hunter2", .ok ()⟩, ⟨.routed testEmea emeaConn, ()⟩,
    ⟨.search emeaConn.ldap "DC=emea" .base "(objectClass=*)" ["distinguishedName"], .ok [⟨"DC=emea", []⟩]⟩]

def joinerEnabled : Trace :=
  [⟨.routed enableJoiner corpConn, ()⟩, ⟨corpConn.findCall "joiner@corp", .ok [⟨"CN=Joiner,DC=corp", []⟩]⟩,
    ⟨.modify corpConn.ldap "CN=Joiner,DC=corp" [.replace "userAccountControl" [utf8 uacEnabled]], .ok ()⟩]

/-- The broker takes the completion and the log the record. -/
def reported (op : Operation) (tr : Trace) (r : Except AgentError Json) : Trace :=
  AdMode.opTrace corp corpMode op tr r (.ok ⟨200, "OK"⟩) (.ok ())

def corpBatch : List Operation := [createJoiner, disableLeaver, renameMover, testEmea]

def corpLoop : Trace :=
  reported createJoiner (joinerCreated corpConn) (.ok (.obj [("dn", .str "CN=Joiner,DC=corp")])) ++
    (reported disableLeaver (leaverDisabled corpConn)
      (.ok (.obj [("dn", .str "CN=Leaver,DC=corp"), ("state", .str "disabled")])) ++
    (reported renameMover moverRefused
      (.error (.ldap "modify rejected CN=Mover,DC=corp: insufficientAccessRights")) ++
    (reported testEmea emeaReached (.ok (.obj [("base_dn_entries", .ofNat 1), ("ok", .bool true)])) ++ [])))

/-- A cycle that gets through the batch. -/
def corpCycle : Trace :=
  greeting corpConfig corpSession ++ (corpOpened ++ (polled corpSession corpBatch ++
    (corpLoop ++ parting corpConfig corpSession [corpConn, emeaConn]
      { inspected := 4, created := 1, disabled := 1, failed := 1 })))

/-- A cycle that is dropped after its first operation, while an entry is searched for the second. -/
def corpCut : Trace :=
  greeting corpConfig corpSession ++ (corpOpened ++ (polled corpSession [enableJoiner, disableLeaver] ++
    (reported enableJoiner joinerEnabled (.ok (.obj [("dn", .str "CN=Joiner,DC=corp"), ("state", .str "enabled")])) ++
      [⟨.started disableLeaver, ()⟩, ⟨.routed disableLeaver corpConn, ()⟩,
        ⟨corpConn.findCall "leaver@corp", .ok [⟨"CN=Leaver,DC=corp", []⟩]⟩])))

/-- A cycle that is dropped after an account was disabled, before the broker is told. -/
def corpDropped : Trace :=
  greeting corpConfig corpSession ++ (corpOpened ++ (polled corpSession [disableLeaver] ++
    (⟨.started disableLeaver, ()⟩ :: (leaverDisabled corpConn ++ []))))

def corpStop : Trace :=
  [⟨.send corpSession.server (.disconnect "agent shutdown"), .ok ⟨200, "OK"⟩⟩,
    ⟨.append "RUN_STOP" (runStartDetail "ad"), .ok ()⟩]

theorem runs_corpStart : (start corp corpConfig).run.Runs corpStart (.ok corpSession) := by
  have hcipher : corpConfig.serverCipher corp = .ok (.zero "local-default") := by
    rfl
  exact runs_booted rfl hcipher

theorem runs_corpOpened : (corpMode.connectDefault corp "pw").run.Runs corpOpened (.ok corpConn) :=
  ⟨.ok (), _, rfl, .ok (), _, rfl, rfl, rfl⟩

theorem parseAttrs_createJoiner : AdMode.parseAttrs corp createJoiner.attributesJson = .ok joinerAttrs :=
  AdMode.parseAttrs_stringsText rfl joinerAttrs

theorem password_createJoiner {m : AdMode} (hkey : m.cipher.key = List.replicate 32 0) :
    m.password corp createJoiner = .ok (some "hunter2") := by
  have hopen : m.cipher.decryptSerialized corp serializedHunter2 = .ok "hunter2" := decryptSerialized_hunter2 hkey
  show (m.cipher.decryptSerialized corp serializedHunter2).map some = _
  rw [hopen]
  rfl

/-- The account is created with its password on any connection that may set one. -/
theorem runs_joinerCreated {m : AdMode} {conn : LdapConnector} (hkey : m.cipher.key = List.replicate 32 0)
    (hwriteback : conn.passwordWriteback = true) : (m.processOn corp createJoiner conn).run.Runs (joinerCreated conn)
      (.ok (.obj [("dn", .str "CN=Joiner,DC=corp")])) := by
  refine ⟨(), _, rfl, ?_⟩
  have htype : createJoiner.opType = "CREATE_ACCOUNT" := rfl
  have hdn : joinerAttrs.get? "distinguishedName" = some "CN=Joiner,DC=corp" := rfl
  simp only [AdMode.process, htype, parseAttrs_createJoiner, password_createJoiner hkey, liftResult_ok_bind,
    LdapConnector.createAccount, hdn, hwriteback]
  exact ⟨.ok (), _, rfl, .ok (), _, rfl, rfl, rfl⟩

theorem runs_leaverDisabled (x : Externals) (m : AdMode) (conn : LdapConnector) :
    (m.processOn x disableLeaver conn).run.Runs (leaverDisabled conn)
      (.ok (.obj [("dn", .str "CN=Leaver,DC=corp"), ("state", .str "disabled")])) :=
  ⟨(), _, rfl, .ok [⟨"CN=Leaver,DC=corp", []⟩], _, rfl, .ok (), _, rfl, rfl, rfl⟩

theorem runs_moverRefused : (corpMode.processOn corp renameMover corpConn).run.Runs moverRefused
    (.error (.ldap "modify rejected CN=Mover,DC=corp: insufficientAccessRights")) := by
  refine ⟨(), _, rfl, ?_⟩
  have hattrs : AdMode.parseAttrs corp renameMover.attributesJson = .ok (.insert .empty "sn" "Moved") :=
    AdMode.parseAttrs_stringsText rfl _
  have htype : renameMover.opType = "UPDATE_ATTRIBUTES" := rfl
  simp only [AdMode.process, htype, hattrs, liftResult_ok_bind]
  exact ⟨.ok [⟨"CN=Mover,DC=corp", []⟩], _, rfl, .rejected "insufficientAccessRights", _, rfl, rfl, rfl⟩

theorem route_emeaReached : AdMode.Route corp corpMode testEmea corpConn [] emeaReached
    (.ok (.obj [("base_dn_entries", .ofNat 1), ("ok", .bool true)])) [("emea", emeaConn)] := by
  have hopen : corpMode.cipher.decryptSerialized corp serializedHunter2 = .ok "hunter2" := decryptSerialized_hunter2 rfl
  have hcredentials : emea.credentials corp corpMode.cipher = .ok ("CN=svc,DC=emea", "hunter2") :=
    ForestContext.credentials_eq rfl rfl hopen
  have hbind (host : String) : emea.bindHost corp corpMode.cipher corpMode.verifyTls host =
      (LdapConnector.openUrl (emea.url host) true >>= fun ldap =>
        LdapConnector.simpleBind ldap "CN=svc,DC=emea" "hunter2" "forest bind") := by
    rw [ForestContext.bindHost, hcredentials]
    rfl
  have hconnect : (LdapConnector.connectForest corp emea none corpMode.cipher corpMode.verifyTls).run.Runs
      (emeaReached.take 3) (.ok emeaConn) := by
    have hhosts : emea.hosts = ["dc1", "dc2"] := rfl
    rw [LdapConnector.connectForest, if_neg (by rw [hhosts]; exact List.cons_ne_nil _ _), hhosts]
    simp only [ForestContext.bindHosts, hbind]
    exact ⟨.error "connection refused", _, rfl, .ok (), _, rfl, .ok (), _, rfl, rfl, rfl⟩
  have hprocess : (corpMode.processOn corp testEmea emeaConn).run.Runs (emeaReached.drop 3)
      (.ok (.obj [("base_dn_entries", .ofNat 1), ("ok", .bool true)])) :=
    ⟨(), _, rfl, .ok [⟨"DC=emea", []⟩], _, rfl, rfl, rfl⟩
  have hread : corp.readForest emeaText = .ok emea := by
    have hreader : corp.readForest = readingForest emeaText emea := rfl
    rw [hreader, readingForest_self]
  have hroute : AdMode.Route corp corpMode testEmea corpConn [] (emeaReached.take 3 ++ emeaReached.drop 3) _
      [(emea.forestId, emeaConn)] := .opened rfl hread rfl hconnect hprocess
  exact hroute

theorem drain_corpLoop : AdMode.Drain corp corpMode corpConn corpBatch [] {} corpLoop
    (.ok ({ inspected := 4, created := 1, disabled := 1, failed := 1 }, [("emea", emeaConn)])) :=
  .cons _ (.default rfl (runs_joinerCreated rfl rfl)) (.cons _ (.default rfl (runs_leaverDisabled ..))
    (.cons _ (.default rfl runs_moverRefused) (.cons _ route_emeaReached .nil)))

theorem runs_corpCycle (runDb : RunDb) : (runOne corp runDb corpConfig corpSession).Runs corpCycle () :=
  runs_cycle rfl rfl runs_corpOpened drain_corpLoop (Nat.zero_lt_succ 3)

theorem runs_joinerEnabled : (corpMode.processOn corp enableJoiner corpConn).run.Runs joinerEnabled
    (.ok (.obj [("dn", .str "CN=Joiner,DC=corp"), ("state", .str "enabled")])) :=
  ⟨(), _, rfl, .ok [⟨"CN=Joiner,DC=corp", []⟩], _, rfl, .ok (), _, rfl, rfl, rfl⟩

theorem cut_corpCut (runDb : RunDb) : (runOne corp runDb corpConfig corpSession).Cut Call.isAwait corpCut := by
  refine cut_cycle rfl rfl runs_corpOpened (.cons _ (.default rfl runs_joinerEnabled) (.routing ?_))
  -- the search is answered, and its answer is dropped
  exact .inr ⟨(), _, rfl, .inl ⟨trivial, .inr ⟨_, rfl⟩⟩⟩

/-- The agent gets through the batch and is shut down in the next cycle. -/
theorem serviceRun_corp (runDb : RunDb) :
    ServiceRun corp runDb corpConfig corpSession corpStart [corpCycle] corpCut corpStop where
  start := runs_corpStart
  loop := .cycle (runs_corpCycle runDb) (.cut (cut_corpCut runDb))
  stop := runs_stopped ..

/-! ### Any agent with a simple bind -/

/-- The connection to the default directory. -/
def AdMode.bound (m : AdMode) (pw : String) : LdapConnector :=
  ⟨⟨m.ad.url, some (.simple m.ad.bindDn pw)⟩, m.ad.baseDn, m.ad.passwordWriteback⟩

def AdMode.binding (m : AdMode) (pw : String) : Trace :=
  [⟨.connect m.ad.url (!m.verifyTls), .ok ()⟩, ⟨.simpleBind ⟨m.ad.url, none⟩ m.ad.bindDn pw, .ok ()⟩]

def AdMode.disabling (x : Externals) (m : AdMode) (conn : LdapConnector) : Trace :=
  AdMode.opTrace x m disableLeaver (leaverDisabled conn)
    (.ok (.obj [("dn", .str "CN=Leaver,DC=corp"), ("state", .str "disabled")])) (.ok ⟨200, "OK"⟩) (.ok ())

section
variable (x : Externals) (runDb : RunDb) {config : Config} {s : Session} (pw : String) (hmode : config.agent.mode = .ad)

/-- A cycle that disables an account. -/
def disablingCycle (config : Config) (s : Session) (hmode : config.agent.mode = .ad) : Trace :=
  greeting config s ++ ((config.adMode s hmode).binding pw ++ (polled s [disableLeaver] ++
    (((config.adMode s hmode).disabling x ((config.adMode s hmode).bound pw) ++ []) ++
      parting config s [(config.adMode s hmode).bound pw] { inspected := 1, disabled := 1 })))

/-- A cycle that is dropped before the broker is told that the account is disabled. -/
def disablingCut (config : Config) (s : Session) (hmode : config.agent.mode = .ad) : Trace :=
  greeting config s ++ ((config.adMode s hmode).binding pw ++ (polled s [disableLeaver] ++
    (⟨.started disableLeaver, ()⟩ :: (leaverDisabled ((config.adMode s hmode).bound pw) ++ []))))

theorem runs_binding {m : AdMode} (hsimple : m.ad.useKerberos = false) :
    (m.connectDefault x pw).run.Runs (m.binding pw) (.ok (m.bound pw)) := by
  unfold AdMode.connectDefault LdapConnector.connect
  rw [hsimple]
  exact ⟨.ok (), _, rfl, .ok (), _, rfl, rfl, rfl⟩

variable {x pw} (hpw : Config.resolve x (config.adMode s hmode).ad.bindPassword = .ok pw)
  (hsimple : (config.adMode s hmode).ad.useKerberos = false)
include hpw hsimple

theorem runs_disablingCycle : (runOne x runDb config s).Runs (disablingCycle x pw config s hmode) () :=
  runs_cycle hmode hpw (runs_binding x pw hsimple) (.cons _ (.default rfl (runs_leaverDisabled ..)) .nil) Nat.one_pos

theorem cut_disablingCut : (runOne x runDb config s).Cut Call.isAwait (disablingCut pw config s hmode) :=
  cut_cycle hmode hpw (runs_binding x pw hsimple)
    (.reporting (.default rfl (runs_leaverDisabled ..)) AdMode.cut_report_nil)

/-- An agent that has started disables the account, and is shut down in the next cycle. -/
theorem serviceRun_disabling {first : Trace} (hstart : (start x config).run.Runs first (.ok s)) :
    ServiceRun x runDb config s first [disablingCycle x pw config s hmode] (disablingCut pw config s hmode)
      (stopped config s) where
  start := hstart
  loop := .cycle (runs_disablingCycle runDb hmode hpw hsimple) (.cut (cut_disablingCut runDb hmode hpw hsimple))
  stop := runs_stopped ..

end

/-! ### The agent of `corp` again -/

/-- The agent is shut down in the cycle that is dropped before the broker is told. -/
theorem serviceRun_corpDropped (runDb : RunDb) :
    ServiceRun corp runDb corpConfig corpSession corpStart [] corpDropped corpStop where
  start := runs_corpStart
  loop := .cut (cut_disablingCut runDb rfl rfl rfl)
  stop := (serviceRun_corp runDb).stop

theorem recorded_reported {op : Operation} {tr : Trace} {r : Except AgentError Json} (h : ∀ e ∈ tr, Recorded e) :
    ∀ e ∈ reported op tr r, Recorded e := by
  intro e he
  rcases AdMode.mem_opTrace.1 he with rfl | he | rfl | rfl
  · trivial
  · exact h e he
  · trivial
  · rfl

/-- The log takes every record of the run. -/
theorem recorded_corp : ∀ tr ∈ [corpStop, corpCut, corpCycle], ∀ e ∈ tr, Recorded e := by
  have hcreated : ∀ e ∈ joinerCreated corpConn, Recorded e := by simp [joinerCreated, Recorded]
  have hdisabled : ∀ e ∈ leaverDisabled corpConn, Recorded e := by
    simp [leaverDisabled, Recorded, LdapConnector.findCall]
  have hrefused : ∀ e ∈ moverRefused, Recorded e := by simp [moverRefused, Recorded, LdapConnector.findCall]
  have hreached : ∀ e ∈ emeaReached, Recorded e := by simp [emeaReached, Recorded]
  have henabled : ∀ e ∈ joinerEnabled, Recorded e := by simp [joinerEnabled, Recorded, LdapConnector.findCall]
  have hgreeting : ∀ e ∈ greeting corpConfig corpSession, Recorded e := by simp [greeting, Recorded]
  have hopened : ∀ e ∈ corpOpened, Recorded e := by simp [corpOpened, Recorded]
  have hpolled (ops : List Operation) : ∀ e ∈ polled corpSession ops, Recorded e := by simp [polled, Recorded]
  have hstop : ∀ e ∈ corpStop, Recorded e := by simp [corpStop, Recorded]
  refine List.forall_mem_cons.2 ⟨hstop, List.forall_mem_cons.2 ⟨?_, List.forall_mem_singleton.2 ?_⟩⟩
  · simp only [corpCut, List.forall_mem_append]
    refine ⟨hgreeting, hopened, hpolled _, recorded_reported henabled, ?_⟩
    simp [Recorded, LdapConnector.findCall]
  · simp only [corpCycle, corpLoop, List.forall_mem_append]
    refine ⟨hgreeting, hopened, hpolled _, ⟨recorded_reported hcreated, recorded_reported hdisabled,
      recorded_reported hrefused, recorded_reported hreached, by simp⟩, ?_⟩
    simp [parting, Recorded]

end NexusAgent
