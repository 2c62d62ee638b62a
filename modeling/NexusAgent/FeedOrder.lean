import NexusAgent.DbTable
import NexusAgent.Phases

/-!
# The order of a pass in DB mode

`Exchange` is how far the agent has got with the rows it pushes and the changes it applies. `exchange_in_order`: in
every run of the service in DB mode it pushes each row that it has pulled once and in their order, records what is
refused before it goes on, fetches changes only after the last row and if it is set up to, applies each mapped one
once and in their order, and gives a pass up only over the answer that has failed it.
-/

namespace NexusAgent

/-- The connector for a section. -/
def DbSection.connector (db : DbSection) : DbConnector := ⟨db.table, db.keyColumn, db.fields, db.driver⟩

/-- How far a cycle in DB mode has got. -/
inductive Exchange where
  | resting
  | begun
  | connected
  | pushing (rows : List Json) (total : Nat)
  | refused (e : AgentError) (rows : List Json) (total : Nat)
  | pushed
  | asked
  | applying (changes : List WritebackChange) (total : Nat)
  | failed (key : String) (e : AgentError) (changes : List WritebackChange) (total : Nat)
  | finished
  | broken (e : AgentError)

namespace Exchange

variable (x : Externals) (db : DbSection) (server : ServerClient)

/-- The changes that have something to write. -/
def mapped (changes : List WritebackChange) : List WritebackChange :=
  changes.filter fun change => db.connector.writable change.fields ≠ []

/-- After the answer to a push. -/
def afterPush : Exchange → Except AgentError Unit → Exchange
  | .pushing (_ :: rows) n, .ok () => .pushing rows n
  | .pushing (_ :: rows) n, .error e => .refused e rows n
  | s, _ => s

/-- After the pull of the changes. -/
def afterPull : Except String Status → Exchange
  | .error e => .broken (.server s!"writeback pull: {e}")
  | .ok status =>
    if status.code = 404 then .finished
    else if status.isSuccess then .asked
    else .broken (.server s!"writeback pull HTTP {status.display}")

/-- With the changes that the broker has sent. -/
def afterFeed (changes : List WritebackChange) : Exchange :=
  if changes = [] then .finished else .applying (mapped db changes) changes.length

/-- After an update. -/
def afterUpdate : Exchange → Except String Nat → Exchange
  | .applying (_ :: changes) n, .ok _ => .applying changes n
  | .applying (change :: changes) n, .error e => .failed change.key (.db s!"writeback: {e}") changes n
  | s, _ => s

/-- After a record that the log has taken. -/
def recorded : Exchange → Exchange
  | .refused _ rows n => .pushing rows n
  | .pushing _ _ => if db.writeback ∧ db.writebackPullPath.isSome then .pushed else .finished
  | .failed _ _ changes n => .applying changes n
  | .applying _ _ => .finished
  | .finished | .broken _ | .begun => .resting
  | s => s

def next (s : Exchange) : Event Reply → Exchange
  | ⟨.send _ .fetchConfig, _⟩ => .begun
  | ⟨.send _ (.disconnect _), _⟩ => .resting
  | ⟨.dbConnect _, .ok ()⟩ => .connected
  | ⟨.dbConnect _, .error e⟩ => .broken (.db s!"connect: {e}")
  | ⟨.dbFetch _, .ok rows⟩ => .pushing (rows.map fun row => .obj (db.connector.record row).entries) rows.length
  | ⟨.dbFetch _, .error e⟩ => .broken (.db s!"pull: {e}")
  | ⟨.send _ (.pushRecord ..), reply⟩ => s.afterPush (ServerClient.accepted "push" "push" reply)
  | ⟨.send _ (.pullWriteback ..), reply⟩ => afterPull reply
  | ⟨.decodeChanges, .ok changes⟩ => afterFeed db changes
  | ⟨.decodeChanges, .error e⟩ => .broken (.server s!"writeback decode: {e}")
  | ⟨.dbExecute .., reply⟩ => s.afterUpdate reply
  | ⟨.append .., .ok ()⟩ => s.recorded db
  | ⟨.append .., .error e⟩ => .broken e
  | _ => s

/-- The section has a secret that cannot be resolved. -/
def Unresolved (e : AgentError) : Prop :=
  Config.resolve x db.url = .error e ∨ Config.resolve x db.pushSecret = .error e

/-- Nothing is left to be done in the cycle. -/
def Over (s : Exchange) : Prop := s = .resting ∨ ∃ e, s = .broken e

/-- What may be recorded. -/
def MayRecord (event : String) (detail : Json) : Exchange → Prop
  | .resting => event ∈ ["RUN_START", "RUN_STOP"]
  | .begun => event = "RUN_ERROR" ∧ ∃ e, Unresolved x db e ∧ detail = errorDetail e
  | .pushing rows n => event = "DB_PULL" ∧ rows = [] ∧ detail = DbMode.pullDetail db.table n
  | .refused e _ _ => event = "DB_PUSH_FAIL" ∧ detail = errorDetail e
  | .applying changes n => event = "DB_WRITEBACK" ∧ changes = [] ∧ detail = DbMode.writebackDetail db.table n
  | .failed key e _ _ => event = "DB_WRITEBACK_FAIL" ∧ detail = DbMode.writebackFailDetail key e
  | .finished => event = "SYNC_SUMMARY"
  | .broken e => event = "RUN_ERROR" ∧ detail = errorDetail e
  | .connected | .pushed | .asked => False

/-- The calls that may be made. -/
def May (s : Exchange) : Call → Prop
  | .dbConnect url => s = .begun ∧ Config.resolve x db.url = .ok url
  | .dbFetch sql => s = .connected ∧ sql = db.connector.selectSql
  | .send c (.pushRecord path secret record) => (∃ rows n, s = .pushing (record :: rows) n) ∧ c = server ∧
      path = db.pushPath ∧ Config.resolve x db.pushSecret = .ok secret
  | .send c (.pullWriteback path secret) => s = .pushed ∧ c = server ∧ db.writeback = true ∧
      db.writebackPullPath = some path ∧ Config.resolve x db.pushSecret = .ok secret
  | .decodeChanges => s = .asked
  | .dbExecute sql binds => ∃ change changes n, s = .applying (change :: changes) n ∧
      Call.dbExecute sql binds = db.connector.updateCall change.key change.fields
  | .append event detail => s.MayRecord x db event detail
  | .send _ .fetchConfig | .sleep _ => s.Over
  | .send _ (.reportRun ..) => s = .resting
  | c => ¬ c.InAdPass

def contract : Contract Reply Exchange := .monitor (May x db server) (next db)

variable {x db server}

/-- What holds after a part of a pass that has returned a value, and after one that has failed. -/
def EndsIn {α : Type} (f : α → Exchange) (g : AgentError → Exchange) : Except AgentError α → Exchange → Prop
  | .ok a, s => s = f a
  | .error e, s => s = g e

/-- What holds after a part of a pass: `s`, or the error that has failed it. -/
def After {α : Type} (s : Exchange) : Except AgentError α → Exchange → Prop := EndsIn (fun _ => s) .broken

theorem wp_record {α : Type} {s : Exchange} {event : String} {detail : Json} {f : Agent α}
    {Q : Except AgentError α → Exchange → Prop} (h : s.MayRecord x db event detail)
    (herr : ∀ e, Q (.error e) (.broken e)) (hok : f.run.wp (contract x db server) Q (s.recorded db)) :
    (AdMode.append event detail >>= fun _ => f).run.wp (contract x db server) Q s := by
  refine wp_ask.2 ⟨h, ?_⟩
  rintro (e | _) _ rfl
  · exact herr e
  · exact hok

/-! ### The rows -/

theorem wp_pushAll {secret : String} (hsecret : Config.resolve x db.pushSecret = .ok secret) (n : Nat)
    (rows : List Json) (counters : SyncCounters) :
    (DbMode.pushAll ⟨server, db⟩ secret rows counters).run.wp (contract x db server) (After (.pushing [] n))
      (.pushing rows n) := by
  induction rows generalizing counters with
  | nil => rfl
  | cons record rows ih =>
    have hpush : (server.pushRecord db.pushPath secret record).run.wp (contract x db server)
        (fun r s => s = afterPush (.pushing (record :: rows) n) r) (.pushing (record :: rows) n) :=
      wp_request.2 ⟨⟨⟨rows, n, rfl⟩, rfl, rfl, hsecret⟩, fun _ _ h => h⟩
    refine wp_lift_bind hpush fun r s hs => ?_
    subst hs
    rcases r with e | _
    · refine wp_record ?_ (fun _ => rfl) (ih _)
      exact ⟨rfl, rfl⟩
    · exact ih _

/-! ### The changes -/

theorem mapped_cons (change : WritebackChange) (changes : List WritebackChange) : mapped db (change :: changes) =
    if db.connector.writable change.fields ≠ [] then change :: mapped db changes else mapped db changes := by
  simp only [mapped, List.filter_cons, decide_eq_true_eq]

theorem wp_applyAll (n : Nat) (changes : List WritebackChange) (counters : SyncCounters) :
    (DbMode.applyAll db.connector changes counters).run.wp (contract x db server) (After (.applying [] n))
      (.applying (mapped db changes) n) := by
  induction changes generalizing counters with
  | nil => rfl
  | cons change changes ih =>
    by_cases hw : db.connector.writable change.fields = []
    · have hnone : (db.connector.applyWriteback change.key change.fields).run.wp (contract x db server)
          (fun r s => r = .ok 0 ∧ s = .applying (mapped db changes) n) (.applying (mapped db changes) n) := by
        rw [DbConnector.applyWriteback, hw]
        exact ⟨rfl, rfl⟩
      rw [mapped_cons, if_neg (not_not.2 hw)]
      refine wp_lift_bind hnone ?_
      rintro _ _ ⟨rfl, rfl⟩
      exact ih _
    · have hupdate : (db.connector.applyWriteback change.key change.fields).run.wp (contract x db server)
          (EndsIn (fun _ => .applying (mapped db changes) n) fun e => .failed change.key e (mapped db changes) n)
          (.applying (change :: mapped db changes) n) := by
        rw [DbConnector.applyWriteback]
        simp only [hw, if_false]
        refine wp_ask.2 ⟨⟨change, mapped db changes, n, rfl, rfl⟩, ?_⟩
        rintro (e | k) _ rfl
        · rfl
        · rfl
      rw [mapped_cons, if_pos hw]
      refine wp_lift_bind hupdate fun r s hs => ?_
      rcases r with e | k
      · obtain rfl := hs
        refine wp_record ?_ (fun _ => rfl) (ih _)
        exact ⟨rfl, rfl⟩
      · obtain rfl := hs
        dsimp only
        split
        · exact ih _
        · exact ih _

theorem wp_writeback {path secret : String} (hsecret : Config.resolve x db.pushSecret = .ok secret)
    (hwriteback : db.writeback = true) (hpath : db.writebackPullPath = some path) (counters : SyncCounters) :
    (DbMode.writeback ⟨server, db⟩ db.connector path secret counters).run.wp (contract x db server) (After .finished)
      .pushed := by
  have hpull : (server.pullWriteback path secret).run.wp (contract x db server)
      (EndsIn (afterFeed db) .broken) .pushed := by
    refine wp_ask.2 ⟨⟨rfl, rfl, hwriteback, hpath, hsecret⟩, ?_⟩
    rintro (e | status) s hs
    · exact hs
    · obtain rfl : s = afterPull (.ok status) := hs
      by_cases hcode : status.code = 404
      · simp only [afterPull, hcode, if_true]
        rfl
      · rcases hsuccess : status.isSuccess
        · simp only [afterPull, hcode, hsuccess, if_false]
          rfl
        · simp only [afterPull, hcode, hsuccess, if_true, if_false]
          refine wp_ask.2 ⟨rfl, ?_⟩
          rintro (e | changes) _ rfl
          · rfl
          · rfl
  refine hpull.bindE (fun _ _ h => h) fun changes s hs => ?_
  obtain rfl := hs
  by_cases hnil : changes = []
  · subst hnil
    rfl
  · rw [afterFeed, if_neg hnil]
    refine (wp_applyAll changes.length changes counters).bindE (fun _ _ h => h) fun counters s hs => ?_
    subst hs
    simp only [ne_eq, hnil, not_false_eq_true, if_true]
    refine wp_record ?_ (fun _ => rfl) rfl
    exact ⟨rfl, rfl, rfl⟩

/-! ### A cycle -/

/-- What holds after a pass that has to resolve its secrets first. -/
def AfterPass (x : Externals) (db : DbSection) {α : Type} (s : Exchange) : Except AgentError α → Exchange → Prop
  | .ok _, s' => s' = s
  | .error e, s' => s' = .broken e ∨ s' = .begun ∧ Unresolved x db e

theorem After.pass {α : Type} {s s' : Exchange} {r : Except AgentError α} (h : After s r s') :
    AfterPass x db s r s' := by
  rcases r with e | a
  · exact .inl h
  · exact h

theorem wp_runOnce : (DbMode.runOnce ⟨server, db⟩ x).run.wp (contract x db server)
    (AfterPass x db .finished) .begun := by
  refine wp_result_bind (fun e he => .inr ⟨rfl, .inl he⟩) fun url hurl => ?_
  refine wp_result_bind (fun e he => .inr ⟨rfl, .inr he⟩) fun secret hsecret => ?_
  have hconnect : (DbConnector.connect url db.driver db.table db.keyColumn db.fields).run.wp (contract x db server)
      (fun r s => After .connected r s ∧ ∀ conn, r = .ok conn → conn = db.connector) .begun := by
    refine wp_ask.2 ⟨⟨rfl, hurl⟩, ?_⟩
    rintro (e | _) _ rfl
    · exact ⟨rfl, nofun⟩
    · exact ⟨rfl, fun _ h => (Except.ok.inj h).symm⟩
  refine hconnect.bindE (fun _ _ h => h.1.pass) fun conn s ⟨hs, hconn⟩ => ?_
  obtain rfl := hconn conn rfl
  obtain rfl : s = .connected := hs
  have hpull : db.connector.pullRecords.run.wp (contract x db server)
      (EndsIn (fun records => .pushing records records.length) .broken) .connected := by
    refine wp_ask.2 ⟨⟨rfl, rfl⟩, ?_⟩
    rintro (e | rows) _ rfl
    · rfl
    · show Exchange.pushing _ _ = .pushing _ _
      rw [List.length_map]
  refine hpull.bindE (fun _ _ h => .inl h) fun records s hs => ?_
  obtain rfl := hs
  refine (wp_pushAll hsecret records.length records {}).bindE (fun _ _ h => .inl h) fun counters s hs => ?_
  obtain rfl : s = .pushing [] records.length := hs
  refine wp_record ?_ (fun _ => .inl rfl) ?_
  · exact ⟨rfl, rfl, rfl⟩
  show ((DbMode.mk server db).inbound db.connector secret counters).run.wp _ _
    (if db.writeback ∧ db.writebackPullPath.isSome then Exchange.pushed else .finished)
  unfold DbMode.inbound
  split
  next path hwriteback hpath =>
    have hset : db.writeback = true ∧ db.writebackPullPath.isSome = true := ⟨hwriteback, by rw [hpath]; rfl⟩
    rw [if_pos hset]
    exact (wp_writeback hsecret hwriteback hpath counters).mono fun _ _ h => h.pass
  next hunset =>
    refine if_neg ?_
    rintro ⟨hwriteback, hpath⟩
    obtain ⟨path, hpath⟩ := Option.isSome_iff_exists.1 hpath
    exact hunset path hwriteback hpath

variable {config : Config} {sess : Session}

theorem wp_runMode (hmode : config.agent.mode = .db) (hdb : config.db = some db) :
    (runMode x (runDb x) config sess).run.wp (contract x db sess.server) (AfterPass x db .finished)
      .begun := by
  have hget : config.db.get (config.isSome_db hmode) = db := by
    rw [Option.get_of_eq_some _ hdb]
  rw [runMode_db hmode, hget]
  exact wp_runOnce

theorem wp_runPass (hmode : config.agent.mode = .db) (hdb : config.db = some db) :
    (runPass x (runDb x) config sess).run.wp (contract x db sess.server) (AfterPass x db .resting)
      .begun := by
  refine (wp_runMode hmode hdb).bindE (fun _ _ h => h) fun counters s hs => ?_
  subst hs
  refine wp_record ?_ (fun _ => .inl rfl) ?_
  · rfl
  · rfl

theorem wp_runCycle (hmode : config.agent.mode = .db) (hdb : config.db = some db) :
    (runCycle x (runDb x) config sess).wp (contract x db sess.server) (fun _ s => s.Over) .begun := by
  have hsleep {s : Exchange} (hs : s.Over) : (Prog.perform (Call.sleep config.agent.pollIntervalSecs) : Task Unit).wp
      (contract x db sess.server) (fun _ s => s.Over) s := by
    refine ⟨hs, ?_⟩
    rintro _ _ rfl
    exact hs
  refine ⟨id, ?_⟩
  rintro _ _ rfl
  refine (wp_runPass hmode hdb).bind fun r s hs => ?_
  rcases r with e | counters
  · have hrecord : s.MayRecord x db "RUN_ERROR" (errorDetail e) ∧ s.recorded db = .resting := by
      rcases hs with rfl | ⟨rfl, he⟩
      · exact ⟨⟨rfl, rfl⟩, rfl⟩
      · exact ⟨⟨rfl, e, he, rfl⟩, rfl⟩
    refine ⟨hrecord.1, ?_⟩
    rintro (e' | _) _ rfl
    · exact hsleep (.inr ⟨e', rfl⟩)
    · exact hsleep (.inl hrecord.2)
  · obtain rfl : s = .resting := hs
    dsimp only
    split
    · refine ⟨rfl, ?_⟩
      rintro _ _ rfl
      exact hsleep (.inl rfl)
    · exact hsleep (.inl rfl)

theorem effective_db (base : Config) (remote : Except AgentError RemoteConfig) :
    (effective base remote).db = base.db := by
  rcases remote with _ | _ <;> rfl

theorem wp_runOne (hmode : config.agent.mode = .db) (hdb : config.db = some db) {s : Exchange} (hs : s.Over) :
    (runOne x (runDb x) config sess).wp (contract x db sess.server) (fun _ s => s.Over) s := by
  have hfetch : sess.server.fetchConfig.run.wp (contract x db sess.server) (fun _ s => s = .begun) s := by
    have hsend : (sess.server.request .fetchConfig "fetch config" "config").run.wp (contract x db sess.server)
        (fun _ s => s = .begun) s := wp_request.2 ⟨hs, fun _ _ h => h⟩
    refine hsend.bindE (fun _ _ h => h) fun _ s hs => ?_
    subst hs
    refine wp_ask.2 ⟨id, ?_⟩
    rintro (e | remote) _ rfl
    · rfl
    · rfl
  refine hfetch.bind fun remote s hs => ?_
  subst hs
  refine wp_runCycle ?_ ?_
  · rw [Phase.effective_mode, hmode]
  · rw [effective_db, hdb]

theorem wp_start : (start x config).run.wp (contract x db server) (fun _ s => s.Over) .resting := by
  have hover : Over .resting := .inl rfl
  refine wp_ask.2 ⟨id, ?_⟩
  rintro r _ rfl
  refine wp_result_bind (fun _ _ => hover) fun _ _ => wp_result_bind (fun _ _ => hover) fun token _ => ?_
  have hnew : (ServerClient.new config.server.baseUrl token config.agent.id config.server.verifyTls).run.wp
      (contract x db server) (fun _ s => s = .resting) .resting := by
    refine wp_ask.2 ⟨id, ?_⟩
    rintro (e | _) _ rfl
    · rfl
    · rfl
  refine hnew.bindE (fun _ _ hs => .inl hs) fun _ s hs => ?_
  subst hs
  refine wp_result_bind (fun _ _ => hover) fun _ _ => wp_ask.2 ⟨id, ?_⟩
  rintro hostname _ rfl
  refine wp_record ?_ (fun e => .inr ⟨e, rfl⟩) hover
  exact List.mem_cons_self ..

theorem wp_stop (s : Exchange) : (stop config sess).wp (contract x db sess.server) (fun _ _ => True) s := by
  refine ⟨id, ?_⟩
  rintro _ _ rfl
  exact ⟨List.mem_cons_of_mem _ (List.mem_singleton_self _), fun _ _ _ => trivial⟩

theorem obeys_of_service {first cut last : Trace} {cycles : List Trace} (hmode : config.agent.mode = .db)
    (hdb : config.db = some db) (h : ServiceRun x (runDb x) config sess first cycles cut last) :
    (contract x db sess.server).Obeys .resting (first ++ (cycles.flatten ++ (cut ++ last))) := by
  refine obeys_of_serviceRun (I := Over) (J := fun _ => True) h ?_ ?_ (fun _ _ _ _ _ _ => trivial)
    fun s _ => wp_stop s
  · exact wp_start.mono fun _ _ hs _ => hs
  · exact fun s hs => wp_runOne hmode hdb hs

end Exchange

/-- In every run of the service in DB mode the rows are pushed and the changes applied one after the other, and what
has failed is recorded as it failed. -/
theorem exchange_in_order {x : Externals} {config : Config} {db : DbSection} {sess : Session} {first cut last : Trace}
    {cycles : List Trace} (hmode : config.agent.mode = .db) (hdb : config.db = some db)
    (h : ServiceRun x (runDb x) config sess first cycles cut last) :
    (Exchange.contract x db sess.server).Obeys .resting (first ++ (cycles.flatten ++ (cut ++ last))) :=
  Exchange.obeys_of_service hmode hdb h

/-! ### A table of employees -/

/-- The broker takes every row. -/
def DbMode.pushed (m : DbMode) (secret : String) (records : List Json) : Trace :=
  records.map fun record => ⟨.send m.server (.pushRecord m.db.pushPath secret record), .ok ⟨200, "OK"⟩⟩

theorem DbMode.runs_pushed (m : DbMode) (secret : String) (records : List Json) (counters : SyncCounters) :
    (m.pushAll secret records counters).run.Runs (m.pushed secret records)
      (.ok { counters with
        inspected := counters.inspected + records.length, updated := counters.updated + records.length }) := by
  induction records generalizing counters with
  | nil => exact ⟨rfl, rfl⟩
  | cons record records ih =>
    refine ⟨.ok ⟨200, "OK"⟩, _, rfl, ?_⟩
    have hrest := ih { counters with inspected := counters.inspected + 1, updated := counters.updated + 1 }
    simp only [List.length_cons, Nat.add_assoc, Nat.add_comm 1] at hrest ⊢
    exact hrest

/-- An agent that synchronizes the table of employees both ways. -/
def staffConfig : Config :=
  ⟨⟨⟨"agent-1", .db, 60, "audit.jsonl", none⟩,
    ⟨"https://broker", "token", "AAAAAAAAAAAAAAAAAAAAAAAAAAAAAAAAAAAAAAAAAAA=", true⟩, none,
    some ⟨"postgres://db/hr", "postgres", "employees", "employee_id", DbConnector.employees.fields, "/push", "secret",
      true, some "/changes"⟩⟩, rfl⟩

def staffMode : DbMode := ⟨hrSession.server, staffConfig.db.get rfl⟩

def titleChange : WritebackChange := ⟨"7", .insert .empty "jobTitle" "Hunter"⟩

/-- The rows of a table, with the columns of the connector. -/
def staffRows (t : Sql.Table) : List Sql.Row :=
  t.rows.map fun row => DbConnector.employees.columns.map fun col => (col, row.get col)

def staffRecords (t : Sql.Table) : List Json :=
  (staffRows t).map fun row => .obj (DbConnector.employees.record (.ofRow row)).entries

def staffStart : Trace :=
  [⟨.openLog "audit.jsonl", .ok ()⟩, ⟨.buildClient true, .ok ()⟩, ⟨.hostname, "host"⟩,
    ⟨.append "RUN_START" (runStartDetail "db"), .ok ()⟩]

/-- The rows are pushed, and a change is fetched. -/
def staffFetched (t : Sql.Table) : Trace :=
  [⟨.dbConnect "postgres://db/hr", .ok ()⟩,
    ⟨.dbFetch DbConnector.employees.selectSql, .ok ((staffRows t).map .ofRow)⟩] ++
  (staffMode.pushed "secret" (staffRecords t) ++
    [⟨.append "DB_PULL" (DbMode.pullDetail "employees" (staffRecords t).length), .ok ()⟩,
      ⟨.send hrSession.server (.pullWriteback "/changes" "secret"), .ok ⟨200, "OK"⟩⟩,
      ⟨.decodeChanges, .ok [titleChange]⟩])

/-- The change reaches one row. -/
def titleSet : Event Reply := ⟨DbConnector.employees.updateCall titleChange.key titleChange.fields, .ok 1⟩

def staffCounters (t : Sql.Table) : SyncCounters :=
  { inspected := (staffRecords t).length + 1, updated := (staffRecords t).length + 1 }

def staffPass (t : Sql.Table) : Trace :=
  staffFetched t ++ [titleSet, ⟨.append "DB_WRITEBACK" (DbMode.writebackDetail "employees" 1), .ok ()⟩]

/-- A cycle on the table `t` that gets through its rows and the feed. -/
def staffCycle (t : Sql.Table) : Trace :=
  greeting staffConfig hrSession ++ (staffPass t ++ parting staffConfig hrSession [] (staffCounters t))

def staffStop : Trace :=
  [⟨.send hrSession.server (.disconnect "agent shutdown"), .ok ⟨200, "OK"⟩⟩,
    ⟨.append "RUN_STOP" (runStartDetail "db"), .ok ()⟩]

theorem writable_titleChange : DbConnector.employees.writable titleChange.fields = [("title", "Hunter")] :=
  DbConnector.writable_employees _ _ rfl

theorem runs_titleSet : (DbConnector.employees.applyWriteback titleChange.key titleChange.fields).run.Runs [titleSet]
    (.ok 1) :=
  DbConnector.runs_applyWriteback.2 (.inr ⟨by rw [writable_titleChange]; simp, .ok 1, rfl, rfl⟩)

/-- In DB mode no attribute map is read. -/
theorem runs_staffPass (read : String → Except String (SortedMap String String)) (t : Sql.Table) :
    (staffMode.runOnce { Externals.sampled with readAttributes := read }).run.Runs (staffPass t)
      (.ok (staffCounters t)) := by
  have hconnect : (DbConnector.connect "postgres://db/hr" "postgres" "employees" "employee_id"
      DbConnector.employees.fields).run.Runs [⟨.dbConnect "postgres://db/hr", .ok ()⟩] (.ok DbConnector.employees) :=
    DbConnector.runs_connect.2 ⟨.ok (), rfl, rfl⟩
  have hpull : DbConnector.employees.pullRecords.run.Runs
      [⟨.dbFetch DbConnector.employees.selectSql, .ok ((staffRows t).map .ofRow)⟩] (.ok (staffRecords t)) := by
    refine DbConnector.runs_pullRecords.2 ⟨_, rfl, ?_⟩
    show _ = Except.ok (((staffRows t).map _).map _)
    rw [List.map_map]
    rfl
  have hpushed := staffMode.runs_pushed "secret" (staffRecords t) {}
  have hpulled : (staffMode.server.pullWriteback "/changes" "secret").run.Runs
      [⟨.send hrSession.server (.pullWriteback "/changes" "secret"), .ok ⟨200, "OK"⟩⟩,
        ⟨.decodeChanges, .ok [titleChange]⟩] (.ok [titleChange]) :=
    ⟨.ok ⟨200, "OK"⟩, _, rfl, .ok [titleChange], _, rfl, rfl, rfl⟩
  have happly (counters : SyncCounters) : (DbMode.applyAll DbConnector.employees [titleChange] counters).run.Runs
      [titleSet] (.ok { counters with inspected := counters.inspected + 1, updated := counters.updated + 1 }) :=
    Prog.runs_bindE.2 (.inr ⟨_, [], .ok 1, rfl, runs_lift.2 ⟨_, runs_titleSet, rfl⟩, rfl, rfl⟩)
  have hinbound (counters : SyncCounters) : (staffMode.inbound DbConnector.employees "secret" counters).run.Runs
      [⟨.send hrSession.server (.pullWriteback "/changes" "secret"), .ok ⟨200, "OK"⟩⟩,
        ⟨.decodeChanges, .ok [titleChange]⟩, titleSet,
        ⟨.append "DB_WRITEBACK" (DbMode.writebackDetail "employees" 1), .ok ()⟩]
      (.ok { counters with inspected := counters.inspected + 1, updated := counters.updated + 1 }) :=
    hpulled.bindE ((happly counters).bindE ⟨.ok (), _, rfl, rfl, rfl⟩)
  have hrecord : (AdMode.append "DB_PULL" (DbMode.pullDetail "employees" (staffRecords t).length)).run.Runs
      [⟨.append "DB_PULL" (DbMode.pullDetail "employees" (staffRecords t).length), .ok ()⟩] (.ok ()) :=
    ⟨.ok (), _, rfl, rfl, rfl⟩
  have hrun : (staffMode.runOnce { Externals.sampled with readAttributes := read }).run.Runs _ _ :=
    hconnect.bindE (hpull.bindE (hpushed.bindE (hrecord.bindE (hinbound _))))
  simpa [staffPass, staffFetched, staffCounters] using hrun

theorem serviceRun_staff (read : String → Except String (SortedMap String String)) (t : Sql.Table) :
    ServiceRun { Externals.sampled with readAttributes := read }
      (runDb { Externals.sampled with readAttributes := read }) staffConfig hrSession staffStart [staffCycle t] []
      staffStop where
  start := by
    have hcipher : staffConfig.serverCipher { Externals.sampled with readAttributes := read } =
        .ok (.zero "local-default") := by
      rfl
    exact runs_booted rfl hcipher
  loop := .cycle (runs_cycle_of_pass (runs_staffPass read t) (Nat.succ_pos _)) (.cut (.inl ⟨trivial, .inl rfl⟩))
  stop := runs_stopped ..

/-- Two rows are pushed and a change is applied. -/
theorem exchange_in_order_staff :
    ServiceRun .sampled (runDb .sampled) staffConfig hrSession staffStart [staffCycle DbConnector.staff] [] staffStop ∧
      (Exchange.contract .sampled staffMode.db hrSession.server).Obeys .resting
        (staffStart ++ ([staffCycle DbConnector.staff].flatten ++ ([] ++ staffStop))) :=
  ⟨serviceRun_staff readStrings _, exchange_in_order rfl rfl (serviceRun_staff readStrings _)⟩

end NexusAgent
