import NexusAgent.Cycle

/-!
# The records of a run of the service

`ledger` is what a trace leaves behind: the operations completed at the broker and the records of the event
log. `service_ledger`: with a log that takes every record, a run in AD mode leaves `RUN_START`, a block for
each cycle, a prefix of such a block for the cycle that is dropped, and `RUN_STOP`. A block is one pair of
completion and record for each operation of the cycle's batch and a summary that counts these records, or a
single `RUN_ERROR`.
-/

namespace NexusAgent

inductive Entry where
  | completed (opId : String) (success : Bool)
  | recorded (event : String) (detail : Json)

def entryOf : Event Reply → Option Entry
  | ⟨.send _ (.complete opId success ..), _⟩ => some (.completed opId success)
  | ⟨.append event detail, .ok ()⟩ => some (.recorded event detail)
  | _ => none

def ledger (tr : Trace) : List Entry := tr.filterMap entryOf

section
variable {tr tr' : Trace}

@[simp] theorem ledger_append : ledger (tr ++ tr') = ledger tr ++ ledger tr' := List.filterMap_append

theorem ledger_eq_nil (h : ∀ e ∈ tr, ¬ e.1.Reporting) : ledger tr = [] := by
  refine List.filterMap_eq_nil_iff.2 fun e he => ?_
  unfold entryOf
  split
  · exact (h _ he trivial).elim
  · exact (h _ he trivial).elim
  · rfl

end

/-! ### Counting records -/

namespace Entry

/-- The type of the operation a record is about. -/
def opType : Json → Option String
  | .obj fields =>
    match fields.lookup "op" with
    | some (.str opType) => some opType
    | _ => none
  | _ => none

def isOp : Entry → Bool
  | .recorded event _ => event == "AD_OP_OK" || event == "AD_OP_FAIL"
  | _ => false

def isFail : Entry → Bool
  | .recorded event _ => event == "AD_OP_FAIL"
  | _ => false

/-- A record of the success of an operation of one of the types. -/
def isOk (opTypes : List String) : Entry → Bool
  | .recorded event detail => event == "AD_OP_OK" && (opType detail).any opTypes.contains
  | _ => false

end Entry

/-- The counters, counted from the records. -/
def tally (l : List Entry) : SyncCounters where
  inspected := l.countP Entry.isOp
  created := l.countP (Entry.isOk ["CREATE_ACCOUNT"])
  updated := l.countP (Entry.isOk ["UPDATE_ATTRIBUTES", "ENABLE_ACCOUNT"])
  disabled := l.countP (Entry.isOk ["DISABLE_ACCOUNT"])
  failed := l.countP Entry.isFail

def SyncCounters.add (a b : SyncCounters) : SyncCounters :=
  ⟨a.inspected + b.inspected, a.created + b.created, a.updated + b.updated, a.disabled + b.disabled,
    a.failed + b.failed⟩

namespace SyncCounters

theorem add_assoc (a b c : SyncCounters) : (a.add b).add c = a.add (b.add c) := by
  simp only [add, Nat.add_assoc]

theorem zero_add (a : SyncCounters) : add {} a = a := by
  simp only [add, Nat.zero_add]

end SyncCounters

theorem tally_append (l l' : List Entry) : tally (l ++ l') = (tally l).add (tally l') := by
  simp only [tally, SyncCounters.add, List.countP_append]

namespace AdMode

/-- What an operation with the result `r` leaves. -/
def opEntries (op : Operation) (r : Except AgentError Json) : List Entry :=
  [.completed op.id r.isOk, .recorded (record op r).1 (record op r).2]

theorem isOk_okDetail (op : Operation) (detail : Json) (opTypes : List String) :
    Entry.isOk opTypes (.recorded "AD_OP_OK" (okDetail op detail)) = opTypes.contains op.opType := by
  rw [Entry.isOk]; rfl

theorem count_eq (counters : SyncCounters) (op : Operation) (r : Except AgentError Json) :
    count counters op r = counters.add (tally (opEntries op r)) := by
  rcases r with e | detail
  · rfl
  · simp only [count, SyncCounters.recordOk, opEntries, record, tally, SyncCounters.add, List.countP_cons,
      List.countP_nil, isOk_okDetail]
    by_cases hc : op.opType = "CREATE_ACCOUNT"
    · simp [hc, Entry.isOp, Entry.isFail, Entry.isOk]
    by_cases hu : op.opType = "UPDATE_ATTRIBUTES"
    · simp [hu, Entry.isOp, Entry.isFail, Entry.isOk]
    by_cases he : op.opType = "ENABLE_ACCOUNT"
    · simp [he, Entry.isOp, Entry.isFail, Entry.isOk]
    by_cases hd : op.opType = "DISABLE_ACCOUNT"
    · simp [hd, Entry.isOp, Entry.isFail, Entry.isOk]
    simp [hc, hu, he, hd, Entry.isOp, Entry.isFail, Entry.isOk]

/-- What the operations of a batch leave. -/
def opsEntries (ops : List Operation) (results : List (Except AgentError Json)) : List Entry :=
  (ops.zip results).flatMap fun (op, r) => opEntries op r

variable {x : Externals} {m : AdMode} {op : Operation} {ops : List Operation} {defaultLdap : LdapConnector}
  {conns conns' : Conns} {counters : SyncCounters} {tr : Trace}

theorem ledger_opTrace {r : Except AgentError Json} {reply : Except String Status}
    (h : Route x m op defaultLdap conns tr r conns') :
    ledger (opTrace x m op tr r reply (.ok ())) = opEntries op r := by
  rw [opTrace, ← List.singleton_append, ledger_append, ledger_append, ledger_eq_nil h.not_reporting]
  rcases r with e | detail <;> rfl

/-- The loop leaves the entries of its operations, and its counters count them. -/
theorem Drain.ledger {res : Except AgentError (SyncCounters × Conns)}
    (h : Drain x m defaultLdap ops conns counters tr res) (hok : ∀ e ∈ tr, Recorded e) :
    ∃ results conns', results.length = ops.length ∧ NexusAgent.ledger tr = opsEntries ops results ∧
      res = .ok (counters.add (tally (opsEntries ops results)), conns') := by
  induction h with
  | @nil conns counters => exact ⟨[], conns, rfl, rfl, rfl⟩
  | stopped reply hroute => cases hok _ (mem_opTrace.2 (.inr (.inr (.inr rfl))))
  | @cons op ops _ _ counters _ _ r _ reply hroute hrest ih =>
    obtain ⟨results, conns', hlen, hledger, hres⟩ := ih fun e he => hok e (List.mem_append_right _ he)
    refine ⟨r :: results, conns', congrArg (· + 1) hlen, ?_, ?_⟩
    · rw [ledger_append, ledger_opTrace hroute, hledger]; rfl
    · rw [hres, count_eq, SyncCounters.add_assoc, ← tally_append]; rfl

/-- A pass that fails leaves nothing; one that succeeds leaves the entries of its batch. -/
theorem Pass.ledger {res : Except AgentError SyncCounters} (h : Pass x m tr res) (hok : ∀ e ∈ tr, Recorded e) :
    (∃ e, res = .error e ∧ NexusAgent.ledger tr = []) ∨
      ∃ ops results, (⟨.decodeOperations, .ok ops⟩ : Event Reply) ∈ tr ∧ results.length = ops.length ∧
        NexusAgent.ledger tr = opsEntries ops results ∧ res = .ok (tally (opsEntries ops results)) := by
  have hconnecting {pw : String} {tr : Trace} {q : Except AgentError LdapConnector}
      (hconnect : (m.connectDefault x pw).run.Runs tr q) : NexusAgent.ledger tr = [] :=
    ledger_eq_nil fun e he => ((LdapConnector.allCalls_connect ..).of_runs hconnect e he).not_reporting
  have hpolling {tr : Trace} {q : Except AgentError (List Operation)}
      (hpoll : (m.server.pollOperations m.batch).run.Runs tr q) : NexusAgent.ledger tr = [] :=
    ledger_eq_nil fun e he => ((m.server.allCalls_pollOperations _).of_runs hpoll e he).not_reporting
  cases h with
  | unresolved hpw => exact .inl ⟨_, rfl, rfl⟩
  | unbound hpw hconnect => exact .inl ⟨_, rfl, hconnecting hconnect⟩
  | unpolled hpw hconnect hpoll =>
    refine .inl ⟨_, rfl, ?_⟩
    rw [ledger_append, hconnecting hconnect, hpolling hpoll]; rfl
  | stopped hpw hconnect hpoll hdrain =>
    obtain ⟨_, _, -, -, ⟨⟩⟩ := hdrain.ledger fun e he =>
      hok e (List.mem_append_right _ (List.mem_append_right _ he))
  | @done _ _ ops _ _ _ _ _ _ _ hpw hconnect hpoll hdrain hclose =>
    obtain ⟨results, conns', hlen, hledger, hres⟩ := hdrain.ledger fun e he =>
      hok e (List.mem_append_right _ (List.mem_append_right _ (List.mem_append_left _ he)))
    obtain ⟨rfl, rfl⟩ := Prod.mk.inj (Except.ok.inj hres)
    have hclosing := ledger_eq_nil fun e he => ((allCalls_close ..).of_runs hclose e he).not_reporting
    refine .inr ⟨ops, results, ?_, hlen, ?_, ?_⟩
    · exact List.mem_append_right _ (List.mem_append_left _ ((ServerClient.decoded_iff hpoll ops).2 rfl))
    · simp only [ledger_append, hconnecting hconnect, hpolling hpoll, hledger, hclosing, List.nil_append,
        List.append_nil]
    · rw [eq_of_close hclose, SyncCounters.zero_add]

end AdMode

/-! ### Cycles -/

/-- What a cycle with the trace `tr` may leave in AD mode. -/
inductive Block (tr : Trace) : List Entry → Prop
  | batch {ops : List Operation} {results : List (Except AgentError Json)}
    (hbatch : (⟨.decodeOperations, .ok ops⟩ : Event Reply) ∈ tr) (hlen : results.length = ops.length) :
    Block tr (AdMode.opsEntries ops results ++
      [.recorded "SYNC_SUMMARY" (summaryDetail "ad" (tally (AdMode.opsEntries ops results)))])
  | error (e : AgentError) : Block tr [.recorded "RUN_ERROR" (errorDetail e)]

section
variable {x : Externals} {runDb : RunDb} {config : Config} {s : Session} {tr : Trace}

theorem runPass_ledger {res : Except AgentError SyncCounters} (hmode : config.agent.mode = .ad)
    (h : (runPass x runDb config s).run.Runs tr res) (hok : ∀ e ∈ tr, Recorded e) :
    (∃ e, res = .error e ∧ ledger tr = []) ∨ (∃ counters, res = .ok counters) ∧ Block tr (ledger tr) := by
  rw [runPass, runMode_ad hmode] at h
  rcases Prog.runs_bindE.1 h with ⟨e, hpass, rfl⟩ | ⟨tr₁, tr', counters, rfl, hpass, hafter⟩
  · rcases (AdMode.runs_runOnce.1 hpass).ledger hok with ⟨_, -, hledger⟩ | ⟨_, _, -, -, -, ⟨⟩⟩
    exact .inl ⟨e, rfl, hledger⟩
  have hok₁ : ∀ e ∈ tr₁, Recorded e := fun e he => hok e (List.mem_append_left _ he)
  rcases (AdMode.runs_runOnce.1 hpass).ledger hok₁ with ⟨_, ⟨⟩, -⟩ | ⟨ops, results, hbatch, hlen, hledger, hres⟩
  cases hres
  rcases Prog.runs_bindE.1 hafter with ⟨e, hsummary, -⟩ | ⟨tr₂, _, _, rfl, hsummary, rfl, rfl⟩
  · obtain rfl := AdMode.runs_append.1 hsummary
    cases hok _ (List.mem_append_right _ (List.mem_singleton_self _))
  · obtain rfl := AdMode.runs_append.1 hsummary
    refine .inr ⟨⟨_, rfl⟩, ?_⟩
    rw [ledger_append, hledger, hmode]
    exact .batch (List.mem_append_left _ hbatch) hlen

theorem Block.mono {tr' : Trace} {l : List Entry} (h : Block tr l) (hsub : tr ⊆ tr') : Block tr' l := by
  cases h with
  | batch hbatch hlen => exact .batch (hsub hbatch) hlen
  | error e => exact .error e

theorem runCycle_ledger (hmode : config.agent.mode = .ad) (h : (runCycle x runDb config s).Runs tr ())
    (hok : ∀ e ∈ tr, Recorded e) : Block tr (ledger tr) := by
  obtain ⟨tr₁, tr', _, rfl, hbeat, hafter⟩ := Prog.runs_bind.1 h
  obtain ⟨tr₂, tr₃, res, rfl, hpass, hafter⟩ := Prog.runs_bind.1 hafter
  have hbeating : ledger tr₁ = [] := ledger_eq_nil fun e he => by
    rw [(s.server.allCalls_notify _).of_runs hbeat e he]; exact id
  have hpassing := runPass_ledger hmode hpass fun e he =>
    hok e (List.mem_append_right _ (List.mem_append_left _ he))
  rcases hpassing with ⟨e, rfl, hledger⟩ | ⟨⟨counters, rfl⟩, hblock⟩
  · obtain ⟨r, _, rfl, _, _, rfl, rfl, -⟩ := hafter
    have hrecord : r = .ok () :=
      hok ⟨.append "RUN_ERROR" (errorDetail e), r⟩ (by simp)
    subst hrecord
    simp only [ledger_append, hbeating, hledger, List.nil_append]
    exact .error e
  · have hresting : ledger tr₃ = [] := by
      refine ledger_eq_nil (Prog.AllCalls.of_runs (φ := fun c => ¬ c.Reporting) ?_ hafter)
      dsimp only
      split
      · exact (s.server.allCalls_notify _).mono (fun _ h => h ▸ id) |>.bind fun _ => ⟨id, fun _ => trivial⟩
      · exact ⟨id, fun _ => trivial⟩
    simp only [ledger_append, hbeating, hresting, List.nil_append, List.append_nil]
    exact hblock.mono (by simp)

theorem runOne_ledger (hmode : config.agent.mode = .ad) (h : (runOne x runDb config s).Runs tr ())
    (hok : ∀ e ∈ tr, Recorded e) : Block tr (ledger tr) := by
  obtain ⟨tr₁, tr₂, remote, rfl, hfetch, hcycle⟩ := Prog.runs_bind.1 h
  have hfetching : ledger tr₁ = [] := ledger_eq_nil fun e he => by
    rcases s.server.allCalls_fetchConfig.of_runs hfetch e he with he | he <;> rw [he] <;> exact id
  have hmode' : (effective config remote).agent.mode = .ad := by
    rcases remote with e | remote
    · exact hmode
    · exact (config.applyRemote_mode remote).trans hmode
  have hblock := runCycle_ledger hmode' hcycle fun e he => hok e (List.mem_append_right _ he)
  rw [ledger_append, hfetching, List.nil_append]
  exact hblock.mono (List.subset_append_right ..)

variable (x runDb config s) in
/-- The trace of a dropped cycle begins one of a whole cycle, and leaves the beginning of its block. -/
def CutBlock (tr : Trace) : Prop :=
  ∃ rest l, (runOne x runDb config s).Runs (tr ++ rest) () ∧ Block (tr ++ rest) l ∧ ledger tr <+: l

theorem cut_ledger (hmode : config.agent.mode = .ad) (h : (runOne x runDb config s).Cut Call.isAwait tr)
    (hok : ∀ e ∈ tr, Recorded e) : CutBlock x runDb config s tr := by
  obtain ⟨rest, _, hrun, hrest⟩ := h.extend exists_recorded
  refine ⟨rest, _, hrun, runOne_ledger hmode hrun fun e he => ?_, ledger rest, ledger_append.symm⟩
  rcases List.mem_append.1 he with he | he
  · exact hok e he
  · exact hrest e he

theorem start_ledger (h : (start x config).run.Runs tr (.ok s)) :
    ledger tr = [.recorded "RUN_START" (runStartDetail config.agent.mode.asStr)] := by
  unfold start at h
  obtain ⟨opened, tr₁, rfl, hopened⟩ := runs_ask.1 h
  rcases Prog.runs_bindE.1 hopened with ⟨e, -, ⟨⟩⟩ | ⟨_, tr₁, _, rfl, ⟨rfl, -⟩, htoken⟩
  rcases Prog.runs_bindE.1 htoken with ⟨e, -, ⟨⟩⟩ | ⟨_, tr₁, token, rfl, ⟨rfl, -⟩, hserver⟩
  rcases Prog.runs_bindE.1 hserver with ⟨e, -, ⟨⟩⟩ | ⟨tr₂, tr₁, server, rfl, hnew, hcipher⟩
  rcases Prog.runs_bindE.1 hcipher with ⟨e, -, ⟨⟩⟩ | ⟨_, tr₁, cipher, rfl, ⟨rfl, -⟩, hname⟩
  obtain ⟨hostname, tr₃, rfl, hrecord⟩ := runs_ask.1 hname
  rcases Prog.runs_bindE.1 hrecord with ⟨e, -, ⟨⟩⟩ | ⟨_, _, _, rfl, hstart, rfl, -⟩
  obtain rfl := AdMode.runs_append.1 hstart
  have hquiet : ledger tr₂ = [] := ledger_eq_nil fun e he => by
    rw [(ServerClient.allCalls_new ..).of_runs hnew e he]; exact id
  change ledger ([_] ++ (tr₂ ++ ([_] ++ [_]))) = _
  simp only [ledger_append, hquiet]
  rfl

theorem stop_ledger (h : (stop config s).Runs tr ()) (hok : ∀ e ∈ tr, Recorded e) :
    ledger tr = [.recorded "RUN_STOP" (runStartDetail config.agent.mode.asStr)] := by
  obtain ⟨tr₁, tr₂, _, rfl, hdisconnect, r, _, rfl, rfl, -⟩ := Prog.runs_bind.1 h
  have hr : r = .ok () := hok ⟨.append "RUN_STOP" (runStartDetail config.agent.mode.asStr), r⟩ (by simp)
  subst hr
  have hquiet : ledger tr₁ = [] := ledger_eq_nil fun e he => by
    rw [(s.server.allCalls_notify _).of_runs hdisconnect e he]; exact id
  rw [ledger_append, hquiet]; rfl

theorem LoopRun.ledger {cycles : List Trace} {cut : Trace} (h : LoopRun x runDb config s cycles cut)
    (hmode : config.agent.mode = .ad) (hok : ∀ tr ∈ cut :: cycles, ∀ e ∈ tr, Recorded e) :
    (∀ tr ∈ cycles, Block tr (NexusAgent.ledger tr)) ∧ CutBlock x runDb config s cut := by
  induction h with
  | cut h => exact ⟨by simp, cut_ledger hmode h (hok _ (List.mem_cons_self ..))⟩
  | @cycle tr cut trs h hrest ih =>
    obtain ⟨hcycles, hcut⟩ := ih fun tr htr => hok tr (by
      rcases List.mem_cons.1 htr with rfl | htr
      · exact List.mem_cons_self ..
      · exact List.mem_cons_of_mem _ (List.mem_cons_of_mem _ htr))
    refine ⟨List.forall_mem_cons.2 ⟨?_, hcycles⟩, hcut⟩
    exact runOne_ledger hmode h (hok tr (by simp))

/-- The records of a run in AD mode, from `RUN_START` over the cycles to `RUN_STOP`. -/
theorem service_ledger {first cut last : Trace} {cycles : List Trace} (hmode : config.agent.mode = .ad)
    (h : ServiceRun x runDb config s first cycles cut last)
    (hok : ∀ tr ∈ last :: cut :: cycles, ∀ e ∈ tr, Recorded e) :
    ledger first = [.recorded "RUN_START" (runStartDetail "ad")] ∧
      (∀ tr ∈ cycles, Block tr (ledger tr)) ∧ CutBlock x runDb config s cut ∧
      ledger last = [.recorded "RUN_STOP" (runStartDetail "ad")] := by
  obtain ⟨hcycles, hcut⟩ := h.loop.ledger hmode fun tr htr => hok tr (List.mem_cons_of_mem _ htr)
  have hfirst := start_ledger h.start
  have hlast := stop_ledger h.stop (hok last (List.mem_cons_self ..))
  rw [hmode] at hfirst hlast
  exact ⟨hfirst, hcycles, hcut, hlast⟩

end

theorem service_ledger_corp :
    ServiceRun corp (fun _ _ => throw (.config "")) corpConfig corpSession corpStart [corpCycle] corpCut corpStop ∧
      ledger corpStart = [.recorded "RUN_START" (runStartDetail "ad")] ∧ Block corpCycle (ledger corpCycle) ∧
      CutBlock corp (fun _ _ => throw (.config "")) corpConfig corpSession corpCut ∧
      ledger corpStop = [.recorded "RUN_STOP" (runStartDetail "ad")] ∧
      ledger corpCycle = AdMode.opEntries createJoiner (.ok (.obj [("dn", .str "CN=Joiner,DC=corp")])) ++
        AdMode.opEntries disableLeaver
          (.ok (.obj [("dn", .str "CN=Leaver,DC=corp"), ("state", .str "disabled")])) ++
        AdMode.opEntries renameMover
          (.error (.ldap "modify rejected CN=Mover,DC=corp: insufficientAccessRights")) ++
        AdMode.opEntries testEmea (.ok (.obj [("base_dn_entries", .ofNat 1), ("ok", .bool true)])) ++
        [.recorded "SYNC_SUMMARY"
          (summaryDetail "ad" { inspected := 4, created := 1, disabled := 1, failed := 1 })] ∧
      ledger corpCut = AdMode.opEntries enableJoiner
        (.ok (.obj [("dn", .str "CN=Joiner,DC=corp"), ("state", .str "enabled")])) := by
  have h := serviceRun_corp fun _ _ => throw (.config "")
  obtain ⟨hfirst, hcycles, hcut, hlast⟩ := service_ledger rfl h recorded_corp
  exact ⟨h, hfirst, hcycles corpCycle (List.mem_singleton_self _), hcut, hlast, rfl, rfl⟩

end NexusAgent
