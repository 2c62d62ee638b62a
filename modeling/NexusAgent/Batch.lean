import NexusAgent.Binding

/-!
# How a batch runs

`Route` lists the ways an operation can be routed, `runs_report` gives the two events its outcome is reported
by, and `runs_drain`, `cut_drain` take a run of the loop apart, one operation after the other.
-/

namespace NexusAgent

namespace AdMode

variable (x : Externals) (m : AdMode)

/-- How an operation is routed: on the connections `conns`, with a trace, a result and the connections then. -/
inductive Route (op : Operation) (defaultLdap : LdapConnector) (conns : Conns) :
    Trace → Except AgentError Json → Conns → Prop
  | default {tr : Trace} {r : Except AgentError Json} (hctx : op.forestContextJson = none)
    (h : (m.processOn x op defaultLdap).run.Runs tr r) : Route op defaultLdap conns tr r conns
  | badContext {json e : String} (hctx : op.forestContextJson = some json) (hread : x.readForest json = .error e) :
    Route op defaultLdap conns [] (.error (.ldap s!"bad forestContextJson: {e}")) conns
  | cached {json : String} {ctx : ForestContext} {conn : LdapConnector} {tr : Trace} {r : Except AgentError Json}
    (hctx : op.forestContextJson = some json) (hread : x.readForest json = .ok ctx)
    (hconn : conns.lookup ctx.forestId = some conn) (h : (m.processOn x op conn).run.Runs tr r) :
    Route op defaultLdap conns tr r conns
  | unreachable {json : String} {ctx : ForestContext} {tr : Trace} {e : AgentError}
    (hctx : op.forestContextJson = some json) (hread : x.readForest json = .ok ctx)
    (hconn : conns.lookup ctx.forestId = none)
    (h : (LdapConnector.connectForest x ctx op.targetBaseDn m.cipher m.verifyTls).run.Runs tr (.error e)) :
    Route op defaultLdap conns tr (.error e) conns
  | opened {json : String} {ctx : ForestContext} {conn : LdapConnector} {tr₁ tr₂ : Trace}
    {r : Except AgentError Json} (hctx : op.forestContextJson = some json) (hread : x.readForest json = .ok ctx)
    (hconn : conns.lookup ctx.forestId = none)
    (hopen : (LdapConnector.connectForest x ctx op.targetBaseDn m.cipher m.verifyTls).run.Runs tr₁ (.ok conn))
    (h : (m.processOn x op conn).run.Runs tr₂ r) :
    Route op defaultLdap conns (tr₁ ++ tr₂) r ((ctx.forestId, conn) :: conns)

variable {x m} {op : Operation} {defaultLdap : LdapConnector} {conns conns' : Conns} {tr : Trace}
  {r : Except AgentError Json}

theorem runs_routeAndProcess : (m.routeAndProcess x op defaultLdap conns).Runs tr (r, conns') ↔
    Route x m op defaultLdap conns tr r conns' := by
  constructor
  · intro h
    unfold routeAndProcess at h
    split at h
    next hctx =>
      obtain ⟨_, hrun, ⟨⟩⟩ := Prog.runs_bind_pure.1 h
      exact .default hctx hrun
    next json hctx =>
      split at h
      next e hread =>
        obtain ⟨rfl, ⟨⟩⟩ := h
        exact .badContext hctx hread
      next ctx hread =>
        split at h
        next conn hconn =>
          obtain ⟨_, hrun, ⟨⟩⟩ := Prog.runs_bind_pure.1 h
          exact .cached hctx hread hconn hrun
        next hconn =>
          obtain ⟨tr₁, tr₂, e | conn, rfl, hopen, h⟩ := Prog.runs_bind.1 h
          · obtain ⟨rfl, ⟨⟩⟩ := h
            rw [List.append_nil]
            exact .unreachable hctx hread hconn hopen
          · obtain ⟨_, hrun, ⟨⟩⟩ := Prog.runs_bind_pure.1 h
            exact .opened hctx hread hconn hopen hrun
  · intro h
    unfold routeAndProcess
    cases h with
    | default hctx h => rw [hctx]; exact Prog.runs_bind_pure.2 ⟨_, h, rfl⟩
    | badContext hctx hread => rw [hctx]; simp only [hread]; exact ⟨rfl, rfl⟩
    | cached hctx hread hconn h => rw [hctx]; simp only [hread, hconn]; exact Prog.runs_bind_pure.2 ⟨_, h, rfl⟩
    | unreachable hctx hread hconn h =>
      rw [hctx]; simp only [hread, hconn]
      exact Prog.runs_bind.2 ⟨_, [], _, by simp, h, rfl, rfl⟩
    | opened hctx hread hconn hopen h =>
      rw [hctx]; simp only [hread, hconn]
      exact hopen.bind (Prog.runs_bind_pure.2 ⟨_, h, rfl⟩)

/-! ### Reporting -/

/-- What the broker is told. -/
def completion (x : Externals) (op : Operation) : Except AgentError Json → Request
  | .ok detail => .complete op.id true (some (x.valueText detail)) none
  | .error e => .complete op.id false none (some e.display)

/-- The record of an outcome. -/
def record (op : Operation) : Except AgentError Json → String × Json
  | .ok detail => ("AD_OP_OK", okDetail op detail)
  | .error e => ("AD_OP_FAIL", failDetail op e.display)

theorem runs_append {event : String} {detail : Json} {res : Except AgentError Unit} :
    (append event detail).run.Runs tr res ↔ tr = [⟨.append event detail, res⟩] := by
  refine (runs_ask_result fun _ => rfl).trans ⟨?_, ?_⟩
  · rintro ⟨_, rfl, rfl⟩
    rfl
  · rintro rfl
    exact ⟨res, rfl, rfl⟩

theorem report_eq : m.report x op r =
    (ExceptT.lift (m.server.request (completion x op r) "complete" "complete").run >>= fun _ =>
      append (record op r).1 (record op r).2) := by
  rcases r with e | detail <;> rfl

/-- The broker is told first, and whatever it answers, the outcome is recorded. -/
theorem runs_report {res : Except AgentError Unit} : (m.report x op r).run.Runs tr res ↔
    ∃ reply, tr = [⟨.send m.server (completion x op r), reply⟩,
      ⟨.append (record op r).1 (record op r).2, res⟩] := by
  rw [report_eq, Prog.runs_bindE]
  constructor
  · rintro (⟨e, h, -⟩ | ⟨tr₁, tr₂, a, rfl, h, hrest⟩)
    · obtain ⟨_, -, ⟨⟩⟩ := runs_lift.1 h
    · obtain ⟨_, h, -⟩ := runs_lift.1 h
      obtain ⟨reply, rfl, -⟩ := ServerClient.runs_request.1 h
      rw [runs_append.1 hrest]
      exact ⟨reply, rfl⟩
  · rintro ⟨reply, rfl⟩
    refine .inr ⟨[_], [_], _, rfl, runs_lift.2 ⟨_, ServerClient.runs_request.2 ⟨reply, rfl, rfl⟩, rfl⟩, ?_⟩
    exact runs_append.2 rfl

theorem not_cut_append {event : String} {detail : Json} : ¬ (append event detail).run.Cut Call.isAwait tr := by
  intro h
  rcases Prog.cut_bindE.1 h with h | ⟨_, _, _, _, _, h⟩
  · exact not_cut_perform id h
  · exact h

/-- Dropped while it reports, the agent may have told the broker and has not recorded the outcome. -/
theorem cut_report (h : (m.report x op r).run.Cut Call.isAwait tr) :
    ∀ e ∈ tr, e.1 = .send m.server (completion x op r) := by
  rw [report_eq] at h
  rcases Prog.cut_bindE.1 h with h | ⟨tr₁, tr₂, a, rfl, -, h⟩
  · exact (allCalls_lift (ServerClient.allCalls_request ..)).of_cut h
  · exact (not_cut_append h).elim

/-! ### The loop -/

variable (x m) (defaultLdap)

/-- The events of an operation that is routed with the trace `tr` and the result `r`. -/
def opTrace (op : Operation) (tr : Trace) (r : Except AgentError Json) (reply : Except String Status)
    (ans : Except AgentError Unit) : Trace :=
  ⟨.started op, ()⟩ :: (tr ++ [⟨.send m.server (completion x op r), reply⟩,
    ⟨.append (record op r).1 (record op r).2, ans⟩])

variable {x m} in
theorem mem_opTrace {op : Operation} {tr : Trace} {r : Except AgentError Json} {reply : Except String Status}
    {ans : Except AgentError Unit} {e : Event Reply} : e ∈ opTrace x m op tr r reply ans ↔
      e = ⟨.started op, ()⟩ ∨ e ∈ tr ∨ e = ⟨.send m.server (completion x op r), reply⟩ ∨
        e = ⟨.append (record op r).1 (record op r).2, ans⟩ := by
  simp [opTrace]

/-- A run of the loop: it ends with the batch, or with the first record that cannot be written. -/
inductive Drain : List Operation → Conns → SyncCounters → Trace → Except AgentError (SyncCounters × Conns) → Prop
  | nil {conns : Conns} {counters : SyncCounters} : Drain [] conns counters [] (.ok (counters, conns))
  | stopped {op : Operation} {ops : List Operation} {conns conns' : Conns} {counters : SyncCounters} {tr : Trace}
    {r : Except AgentError Json} {e : AgentError} (reply : Except String Status)
    (hroute : Route x m op defaultLdap conns tr r conns') :
    Drain (op :: ops) conns counters (opTrace x m op tr r reply (.error e)) (.error e)
  | cons {op : Operation} {ops : List Operation} {conns conns' : Conns} {counters : SyncCounters} {tr tr' : Trace}
    {r : Except AgentError Json} {res : Except AgentError (SyncCounters × Conns)} (reply : Except String Status)
    (hroute : Route x m op defaultLdap conns tr r conns') (hrest : Drain ops conns' (count counters op r) tr' res) :
    Drain (op :: ops) conns counters (opTrace x m op tr r reply (.ok ()) ++ tr') res

/-- A run of the loop that is dropped: on the way of an operation, or while its outcome is reported. -/
inductive DrainCut : List Operation → Conns → SyncCounters → Trace → Prop
  | routing {op : Operation} {ops : List Operation} {conns : Conns} {counters : SyncCounters} {tr : Trace}
    (h : (m.routeAndProcess x op defaultLdap conns).Cut Call.isAwait tr) :
    DrainCut (op :: ops) conns counters (⟨.started op, ()⟩ :: tr)
  | reporting {op : Operation} {ops : List Operation} {conns conns' : Conns} {counters : SyncCounters}
    {tr tr' : Trace} {r : Except AgentError Json} (hroute : Route x m op defaultLdap conns tr r conns')
    (hreport : (m.report x op r).run.Cut Call.isAwait tr') :
    DrainCut (op :: ops) conns counters (⟨.started op, ()⟩ :: (tr ++ tr'))
  | cons {op : Operation} {ops : List Operation} {conns conns' : Conns} {counters : SyncCounters} {tr tr' : Trace}
    {r : Except AgentError Json} (reply : Except String Status)
    (hroute : Route x m op defaultLdap conns tr r conns') (hrest : DrainCut ops conns' (count counters op r) tr') :
    DrainCut (op :: ops) conns counters (opTrace x m op tr r reply (.ok ()) ++ tr')

variable {x m} {defaultLdap} {ops : List Operation} {counters : SyncCounters}
  {res : Except AgentError (SyncCounters × Conns)}

theorem runs_drain : (m.drain x defaultLdap ops conns counters).run.Runs tr res ↔
    Drain x m defaultLdap ops conns counters tr res := by
  induction ops generalizing conns counters tr with
  | nil =>
    constructor
    · rintro ⟨rfl, rfl⟩
      exact .nil
    · rintro ⟨⟩
      exact ⟨rfl, rfl⟩
  | cons op ops ih =>
    constructor
    · intro h
      obtain ⟨_, tr', rfl, hop⟩ := runs_ask.1 h
      rcases Prog.runs_bindE.1 hop with ⟨e, hlift, -⟩ | ⟨tr₁, tr₂, ⟨r, conns'⟩, rfl, hlift, hafter⟩
      · obtain ⟨_, -, ⟨⟩⟩ := runs_lift.1 hlift
      obtain ⟨_, hroute, ⟨⟩⟩ := runs_lift.1 hlift
      have hroute := runs_routeAndProcess.1 hroute
      rcases Prog.runs_bindE.1 hafter with ⟨e, hreport, rfl⟩ | ⟨tr₃, tr₄, _, rfl, hreport, hrest⟩
      · obtain ⟨reply, rfl⟩ := runs_report.1 hreport
        exact .stopped reply hroute
      · obtain ⟨reply, rfl⟩ := runs_report.1 hreport
        rw [← List.append_assoc]
        exact .cons reply hroute (ih.1 hrest)
    · intro h
      cases h with
      | stopped reply hroute =>
        refine runs_ask.2 ⟨(), _, rfl, ?_⟩
        refine Prog.Runs.bindE (runs_lift.2 ⟨_, runs_routeAndProcess.2 hroute, rfl⟩) ?_
        exact Prog.runs_bindE.2 (.inl ⟨_, runs_report.2 ⟨_, rfl⟩, rfl⟩)
      | cons reply hroute hrest =>
        refine runs_ask.2 ⟨(), _, rfl, ?_⟩
        rw [List.append_eq, List.append_assoc]
        refine Prog.Runs.bindE (runs_lift.2 ⟨_, runs_routeAndProcess.2 hroute, rfl⟩) ?_
        exact Prog.Runs.bindE (runs_report.2 ⟨_, rfl⟩) (ih.2 hrest)

theorem cut_drain (h : (m.drain x defaultLdap ops conns counters).run.Cut Call.isAwait tr) :
    DrainCut x m defaultLdap ops conns counters tr := by
  induction ops generalizing conns counters tr with
  | nil => exact h.elim
  | cons op ops ih =>
    rcases Prog.cut_bindE.1 h with hmark | ⟨tr₀, tr', _, rfl, hmark, hop⟩
    · exact (not_cut_perform id hmark).elim
    obtain ⟨_, rfl, -⟩ := runs_perform.1 hmark
    rcases Prog.cut_bindE.1 hop with hlift | ⟨tr₁, tr₂, ⟨r, conns'⟩, rfl, hlift, hafter⟩
    · exact .routing (cut_lift.1 hlift)
    obtain ⟨_, hroute, ⟨⟩⟩ := runs_lift.1 hlift
    have hroute := runs_routeAndProcess.1 hroute
    rcases Prog.cut_bindE.1 hafter with hreport | ⟨tr₃, tr₄, _, rfl, hreport, hrest⟩
    · rw [List.singleton_append]
      exact .reporting hroute hreport
    · obtain ⟨reply, rfl⟩ := runs_report.1 hreport
      rw [List.singleton_append, ← List.append_assoc]
      exact .cons reply hroute (ih hrest)

theorem cut_report_nil : (m.report x op r).run.Cut Call.isAwait [] := by
  rw [report_eq]
  exact Prog.cut_bindE.2 (.inl (cut_lift.2 (.inl ⟨trivial, .inl rfl⟩)))

theorem DrainCut.cut (h : DrainCut x m defaultLdap ops conns counters tr) :
    (m.drain x defaultLdap ops conns counters).run.Cut Call.isAwait tr := by
  have hmark (op : Operation) : (perform (.started op)).run.Runs [⟨.started op, ()⟩] (.ok ()) :=
    runs_perform.2 ⟨(), rfl, rfl⟩
  induction h with
  | @routing op _ _ _ tr h =>
    exact Prog.cut_bindE.2 (.inr ⟨_, tr, (), rfl, hmark op, Prog.cut_bindE.2 (.inl (cut_lift.2 h))⟩)
  | @reporting op _ _ conns' _ tr tr' r hroute hreport =>
    refine Prog.cut_bindE.2 (.inr ⟨_, tr ++ tr', (), rfl, hmark op, ?_⟩)
    refine Prog.cut_bindE.2 (.inr ⟨tr, tr', (r, conns'), rfl, ?_, Prog.cut_bindE.2 (.inl hreport)⟩)
    exact runs_lift.2 ⟨_, runs_routeAndProcess.2 hroute, rfl⟩
  | @cons op _ _ conns' _ tr tr' r reply hroute _ ih =>
    refine Prog.cut_bindE.2 (.inr ⟨_, (tr ++ [_, _]) ++ tr', (), rfl, hmark op, ?_⟩)
    refine Prog.cut_bindE.2 (.inr ⟨tr, [_, _] ++ tr', (r, conns'), List.append_assoc .., ?_, ?_⟩)
    · exact runs_lift.2 ⟨_, runs_routeAndProcess.2 hroute, rfl⟩
    · exact Prog.cut_bindE.2 (.inr ⟨[_, _], tr', (), rfl, runs_report.2 ⟨reply, rfl⟩, ih⟩)

/-! ### Some run of the loop -/

variable (x m defaultLdap)

theorem exists_processOn (op : Operation) (conn : LdapConnector) :
    ∃ tr r, (m.processOn x op conn).run.Runs tr r :=
  (Prog.exists_runs exists_recorded _).imp fun _ => .imp fun _ => And.left

/-- An operation that leaves the connections as they are. -/
theorem exists_route (op : Operation) (conns : Conns) : ∃ tr r, Route x m op defaultLdap conns tr r conns := by
  rcases hctx : op.forestContextJson with _ | json
  · obtain ⟨tr, r, h⟩ := exists_processOn x m op defaultLdap
    exact ⟨tr, r, .default hctx h⟩
  rcases hread : x.readForest json with e | ctx
  · exact ⟨_, _, .badContext hctx hread⟩
  rcases hconn : conns.lookup ctx.forestId with _ | conn
  · obtain ⟨tr, e, h⟩ := LdapConnector.exists_connectForest_error x ctx m.cipher m.verifyTls op.targetBaseDn
    exact ⟨tr, _, .unreachable hctx hread hconn h⟩
  · obtain ⟨tr, r, h⟩ := exists_processOn x m op conn
    exact ⟨tr, r, .cached hctx hread hconn h⟩

theorem exists_drain (ops : List Operation) (conns : Conns) (counters : SyncCounters) :
    ∃ tr counters', ∀ rest tr' res, Drain x m defaultLdap rest conns counters' tr' res →
      Drain x m defaultLdap (ops ++ rest) conns counters (tr ++ tr') res := by
  induction ops generalizing counters with
  | nil => exact ⟨[], counters, fun _ _ _ h => h⟩
  | cons op ops ih =>
    obtain ⟨tr₁, r, hroute⟩ := exists_route x m defaultLdap op conns
    obtain ⟨tr₂, counters', h⟩ := ih (count counters op r)
    refine ⟨opTrace x m op tr₁ r (.error "") (.ok ()) ++ tr₂, counters', fun rest tr' res hrest => ?_⟩
    rw [List.append_assoc]
    exact .cons _ hroute (h rest tr' res hrest)

end AdMode

end NexusAgent
