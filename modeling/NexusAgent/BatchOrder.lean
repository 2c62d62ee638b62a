import NexusAgent.Cycle
import NexusAgent.Rules

/-!
# The order of a batch

`Progress` is how far the agent has got with the operations it has claimed. `operations_in_order`: in every run of
the service it takes up each operation of a batch once and in the order of the batch, asks the directories only for
the operation it has taken up, tells the broker one outcome for it and records that very outcome, and fetches no
other batch before it is done with this one or has given it up.
-/

namespace NexusAgent

/-- What the agent is doing for an operation. -/
inductive Stage where
  | waiting
  | working (op : Operation)
  | told (op : Operation) (resultJson error : Option String)

structure Progress where
  queue : List Operation := []
  stage : Stage := .waiting

namespace Progress

/-- The progress after an event. A pass that fails gives the rest of its batch up, and so does one that is dropped. -/
def next (p : Progress) : Event Reply → Progress
  | ⟨.decodeOperations, .ok ops⟩ => ⟨ops, .waiting⟩
  | ⟨.started op, _⟩ => ⟨p.queue.tail, .working op⟩
  | ⟨.send _ (.complete _ _ resultJson error), _⟩ =>
    match p.stage with
    | .working op => { p with stage := .told op resultJson error }
    | _ => p
  | ⟨.append event _, answer⟩ =>
    if event ∈ ["AD_OP_OK", "AD_OP_FAIL"] then (if answer.isOk then { p with stage := .waiting } else p)
    else if event = "RUN_ERROR" then {}
    else p
  | ⟨.send _ (.disconnect _), _⟩ => {}
  | _ => p

variable (x : Externals)

/-- The record is the one of what the broker has been told. -/
def MayRecord (p : Progress) (event : String) (detail : Json) : Prop :=
  (event = "AD_OP_OK" ∧ ∃ op result, detail = AdMode.okDetail op result ∧
    p.stage = .told op (some (x.valueText result)) none) ∨
  (event = "AD_OP_FAIL" ∧ ∃ op error, detail = AdMode.failDetail op error ∧ p.stage = .told op none (some error))

/-- The calls that may be made with this progress. -/
def May (p : Progress) : Call → Prop
  | .started op => p.stage = .waiting ∧ p.queue.head? = some op
  | .routed op _ => p.stage = .working op
  | .add .. | .modify .. | .search .. => ∃ op, p.stage = .working op
  | .connect .. | .simpleBind .. | .gssapiBind .. => p = {} ∨ ∃ op, p.stage = .working op
  | .send _ (.complete opId success resultJson error) => (∃ op, p.stage = .working op ∧ opId = op.id) ∧
      (success = true ↔ resultJson ≠ none) ∧ (success = true ↔ error = none)
  | .append event detail =>
    if event ∈ ["AD_OP_OK", "AD_OP_FAIL"] then p.MayRecord x event detail
    else event = "SYNC_SUMMARY" → p = {}
  | .send _ (.pollOperations _) | .decodeOperations | .unbind _ | .send _ .fetchConfig | .send _ (.heartbeat ..)
  | .send _ (.reportRun ..) | .sleep _ => p = {}
  | _ => True

def contract : Contract Reply Progress := .monitor (May x) next

variable {x} {m : AdMode} {p : Progress} {queue : List Operation} {op : Operation}

/-! ### One operation -/

/-- Calls that leave the progress as it is. -/
def Steady (x : Externals) (p : Progress) (c : Call) : Prop := May x p c ∧ ∀ r, next p ⟨c, r⟩ = p

theorem wp_steady {α : Type} {t : Task α} (ht : t.AllCalls (Steady x p)) :
    t.wp (contract x) (fun _ p' => p' = p) p := by
  refine ht.wp rfl ?_ ?_
  · rintro c _ hc rfl
    exact hc.1
  · rintro c r _ _ hc rfl rfl
    exact hc.2 r

theorem steady_binding {c : Call} (hc : c.Binding) (hp : p = {} ∨ ∃ op, p.stage = .working op) : Steady x p c := by
  cases c <;> first | exact hc.elim | exact ⟨hp, fun _ => rfl⟩

theorem steady_inRoute {c : Call} (hc : c.InRoute op) : Steady x ⟨queue, .working op⟩ c := by
  rcases hc with hc | ⟨conn, rfl | hc⟩
  · exact steady_binding hc (.inr ⟨op, rfl⟩)
  · exact ⟨rfl, fun _ => rfl⟩
  · cases c <;> first | exact hc.elim | exact ⟨⟨op, rfl⟩, fun _ => rfl⟩

/-- What the broker is told of a result. -/
def told (x : Externals) (op : Operation) : Except AgentError Json → Stage
  | .ok detail => .told op (some (x.valueText detail)) none
  | .error e => .told op none (some e.display)

theorem wp_report (op : Operation) (r : Except AgentError Json) : (m.report x op r).run.wp (contract x)
    (fun res p => res.isOk → p = ⟨queue, .waiting⟩) ⟨queue, .working op⟩ := by
  rw [AdMode.report_eq]
  refine wp_lift_bind (P := fun _ p => p = ⟨queue, told x op r⟩) (wp_request.2 ?_) fun _ p hp => wp_append.2 ?_
  · rcases r with e | detail
    · exact ⟨⟨⟨op, rfl, rfl⟩, by simp, by simp⟩, fun _ _ h => h⟩
    · exact ⟨⟨⟨op, rfl, rfl⟩, by simp, by simp⟩, fun _ _ h => h⟩
  · subst hp
    have hevent := AdMode.record_event op r
    constructor
    · show if _ then _ else _
      rw [if_pos hevent]
      rcases r with e | detail
      · exact .inr ⟨rfl, op, _, rfl, rfl⟩
      · exact .inl ⟨rfl, op, _, rfl, rfl⟩
    · rintro answer _ rfl hok
      show (if _ then (if _ then _ else _) else _ : Progress) = _
      rw [if_pos hevent, if_pos hok]

/-! ### A batch -/

theorem wp_drain (defaultLdap : LdapConnector) (ops : List Operation) (conns : Conns) (counters : SyncCounters) :
    (m.drain x defaultLdap ops conns counters).run.wp (contract x) (fun res p => res.isOk → p = {})
      ⟨ops, .waiting⟩ := by
  induction ops generalizing conns counters with
  | nil => exact fun _ => rfl
  | cons op ops ih =>
    refine wp_ask.2 ⟨⟨rfl, rfl⟩, ?_⟩
    rintro _ _ rfl
    have hroute : (m.routeAndProcess x op defaultLdap conns).wp (contract x) (fun _ p => p = ⟨ops, .working op⟩)
        ⟨ops, .working op⟩ :=
      wp_steady ((m.allCalls_routeAndProcess x op defaultLdap conns).mono fun _ => steady_inRoute)
    refine wp_lift_bind hroute fun ⟨r, conns'⟩ p hp => ?_
    subst hp
    refine (wp_report op r).bindE (fun _ _ _ => nofun) fun _ p hp => ?_
    rw [hp rfl]
    exact ih _ _

theorem wp_pollOperations (c : ServerClient) (limit : Nat) : (c.pollOperations limit).run.wp (contract x)
    (fun res p => ∀ ops, res = .ok ops → p = ⟨ops, .waiting⟩) {} := by
  have hsend : (c.request (.pollOperations limit) "poll" "poll").run.wp (contract x) (fun _ p => p = {}) {} :=
    wp_request.2 ⟨rfl, fun _ _ h => h⟩
  refine hsend.bindE (fun _ _ _ _ => nofun) fun _ p hp => ?_
  subst hp
  refine wp_ask.2 ⟨rfl, ?_⟩
  rintro reply _ rfl
  rcases reply with e | ops
  · exact fun _ => nofun
  · rintro _ ⟨⟩
    rfl

theorem wp_runOnce : (m.runOnce x).run.wp (contract x) (fun res p => res.isOk → p = {}) {} := by
  rw [AdMode.runOnce_eq]
  refine wp_result_bind (fun _ _ => nofun) fun pw _ => ?_
  have hconnect : (m.connectDefault x pw).run.wp (contract x) (fun _ p => p = {}) {} :=
    wp_steady ((LdapConnector.allCalls_connect ..).mono fun _ hc => steady_binding hc (.inl rfl))
  refine hconnect.bindE (fun _ _ _ => nofun) fun ldap p hp => ?_
  subst hp
  refine (wp_pollOperations ..).bindE (fun _ _ _ => nofun) fun ops p hp => ?_
  rw [hp ops rfl]
  refine (wp_drain ldap ops [] {}).bindE (fun _ _ _ => nofun) fun ⟨counters, conns⟩ p hp => ?_
  rw [hp rfl]
  refine (wp_steady ((AdMode.allCalls_close ..).mono fun c hc => ?_)).mono fun _ _ h _ => h
  cases c <;> first | exact hc.elim | exact ⟨rfl, fun _ => rfl⟩

/-! ### The service -/

/-- A call that may be made between two batches. -/
def Free (x : Externals) (c : Call) : Prop := May x {} c ∧ ∀ r, next {} ⟨c, r⟩ = {}

theorem may_append (x : Externals) (p : Progress) (event : String) (detail : Json)
    (h : event ∉ ["AD_OP_OK", "AD_OP_FAIL"]) (hsum : event = "SYNC_SUMMARY" → p = {}) :
    May x p (.append event detail) := by
  show if _ then _ else _
  rwa [if_neg h]

theorem free_append {event : String} (detail : Json) (h : event ∉ ["AD_OP_OK", "AD_OP_FAIL"]) :
    Free x (.append event detail) := by
  refine ⟨may_append x {} event detail h fun _ => rfl, fun r => ?_⟩
  show (if event ∈ ["AD_OP_OK", "AD_OP_FAIL"] then _ else if event = "RUN_ERROR" then {} else {} : Progress) = _
  rw [if_neg h, ite_self]

theorem free_of_inDbPass {c : Call} (h : c.InDbPass) : Free x c := by
  cases c with
  | append event detail =>
    refine free_append detail ?_
    simp only [Call.InDbPass, List.mem_cons, List.not_mem_nil, or_false] at h
    rcases h with rfl | rfl | rfl | rfl <;> decide
  | send _ r => cases r <;> first | exact h.elim | exact ⟨trivial, fun _ => rfl⟩
  | _ => first | exact h.elim | exact ⟨trivial, fun _ => rfl⟩

theorem free_of_aroundPass {c : Call} (h : c.AroundPass) : Free x c := by
  cases c with
  | append event detail =>
    refine free_append detail ?_
    rcases List.mem_pair.1 h with rfl | rfl <;> decide
  | send _ r => cases r <;> first | exact h.elim | exact ⟨rfl, fun _ => rfl⟩
  | sleep => exact ⟨rfl, fun _ => rfl⟩
  | _ => first | exact h.elim | exact ⟨trivial, fun _ => rfl⟩

theorem wp_free {α : Type} {t : Task α} (ht : t.AllCalls (Free x)) : t.wp (contract x) (fun _ p => p = {}) {} :=
  wp_steady ht

variable {config : Config} {sess : Session}

theorem wp_runPass : (runPass x (runDb x) config sess).run.wp (contract x) (fun res p => res.isOk → p = {}) {} := by
  have hmode : (runMode x (runDb x) config sess).run.wp (contract x) (fun res p => res.isOk → p = {}) {} := by
    unfold runMode
    split
    · exact wp_runOnce
    · exact (wp_free ((DbMode.allCalls_runOnce x).mono fun _ => free_of_inDbPass)).mono fun _ _ h _ => h
  refine hmode.bindE (fun _ _ _ => nofun) fun counters p hp => ?_
  rw [hp rfl]
  refine (wp_free ?_).bindE (fun _ _ _ => nofun) fun _ _ h _ => h
  exact DbMode.allCalls_append (free_append _ (by decide))

theorem wp_runOne : (runOne x (runDb x) config sess).wp (contract x) (fun _ p => p = {}) {} := by
  have haround {α : Type} {t : Task α} (ht : t.AllCalls Call.AroundPass) : t.wp (contract x) (fun _ p => p = {}) {} :=
    wp_free (ht.mono fun _ => free_of_aroundPass)
  have hnotify {r : Request} (hr : (Call.send sess.server r).AroundPass) :
      (sess.server.notify r).AllCalls Call.AroundPass := (sess.server.allCalls_notify r).mono fun _ hc => hc ▸ hr
  have hsleep (secs : Nat) : (Prog.perform (Call.sleep secs) : Task Unit).AllCalls Call.AroundPass :=
    Prog.allCalls_perform.2 trivial
  have hfetch : sess.server.fetchConfig.run.AllCalls Call.AroundPass := by
    refine sess.server.allCalls_fetchConfig.mono ?_
    rintro c (rfl | rfl) <;> trivial
  refine (haround hfetch).bind fun remote p hp => ?_
  subst hp
  refine (haround (hnotify (r := .heartbeat ..) trivial)).bind fun _ p hp => ?_
  subst hp
  refine wp_runPass.bind fun r p hp => ?_
  rcases r with e | counters
  · refine Prog.wp.bind ((Prog.wp_perform (Q := fun _ p => p = {})).2 ⟨?_, ?_⟩) fun _ p hp => ?_
    · exact may_append x p "RUN_ERROR" (errorDetail e) (by decide) fun heq => absurd heq (by decide)
    · rintro answer _ rfl
      rfl
    · subst hp
      exact haround (hsleep _)
  · rw [hp rfl]
    refine haround ?_
    dsimp only
    split
    · exact (hnotify (r := .reportRun ..) trivial).bind fun _ => hsleep _
    · exact hsleep _

theorem wp_start : (start x config).run.wp (contract x) (fun _ p => p = {}) {} := by
  refine wp_free (allCalls_ask ⟨trivial, fun _ => rfl⟩ fun _ => allCalls_result fun _ => allCalls_result fun _ => ?_)
  refine ((ServerClient.allCalls_new ..).mono fun c hc => hc ▸ ⟨trivial, fun _ => rfl⟩).bindE fun _ => ?_
  refine allCalls_result fun _ => allCalls_ask ⟨trivial, fun _ => rfl⟩ fun _ => ?_
  exact (DbMode.allCalls_append (free_append _ (by decide))).bindE fun _ => trivial

theorem wp_stop (p : Progress) : (stop config sess).wp (contract x) (fun _ _ => True) p := by
  refine ⟨trivial, ?_⟩
  rintro _ _ rfl
  refine ⟨may_append x _ "RUN_STOP" (runStartDetail config.agent.mode.asStr) (by decide) ?_, fun _ _ _ => trivial⟩
  exact fun heq => absurd heq (by decide)

theorem obeys_of_service {first cut last : Trace} {cycles : List Trace}
    (h : ServiceRun x (runDb x) config sess first cycles cut last) :
    (contract x).Obeys {} (first ++ (cycles.flatten ++ (cut ++ last))) := by
  refine obeys_of_serviceRun (I := fun p => p = {}) (J := fun _ => True) h ?_ ?_ (fun _ _ _ _ _ _ => trivial)
    fun p _ => wp_stop p
  · exact wp_start.mono fun _ _ hp _ => hp
  · rintro _ rfl
    exact wp_runOne

end Progress

/-- In every run of the service the operations of each batch are taken up, told to the broker and recorded one after
the other, as far as the run gets with it. -/
theorem operations_in_order {x : Externals} {config : Config} {sess : Session} {first cut last : Trace}
    {cycles : List Trace} (h : ServiceRun x (runDb x) config sess first cycles cut last) :
    (Progress.contract x).Obeys {} (first ++ (cycles.flatten ++ (cut ++ last))) :=
  Progress.obeys_of_service h

/-- A batch of four that the agent gets through, and one of two of which it ends the first. -/
theorem operations_in_order_corp :
    ServiceRun corp (runDb corp) corpConfig corpSession corpStart [corpCycle] corpCut corpStop ∧
      (⟨.decodeOperations, .ok [createJoiner, disableLeaver, renameMover, testEmea]⟩ : Event Reply) ∈ corpCycle ∧
      (⟨.decodeOperations, .ok [enableJoiner, disableLeaver]⟩ : Event Reply) ∈ corpCut ∧
      (Progress.contract corp).Obeys {} (corpStart ++ ([corpCycle].flatten ++ (corpCut ++ corpStop))) := by
  refine ⟨serviceRun_corp _, ?_, ?_, operations_in_order (serviceRun_corp _)⟩
  · simp [corpCycle, polled, corpBatch]
  · simp [corpCut, polled]

end NexusAgent
