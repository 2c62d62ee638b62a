import NexusAgent.ChangeRecord
import NexusAgent.Lib.Contract

/-!
# The agent under a contract

The rules of `Prog.wp` for the steps the agent is made of. `obeys_of_serviceRun`: a run of the service keeps a contract
if its start leads into an invariant, each cycle keeps that, and the end may follow wherever a cycle is dropped.
-/

namespace NexusAgent

section
variable {σ α β : Type} {W : Contract Reply σ} {s : σ}

theorem wp_result_bind {r : Except AgentError α} {f : α → Agent β} {Q : Except AgentError β → σ → Prop}
    (herr : ∀ e, r = .error e → Q (.error e) s) (hok : ∀ a, r = .ok a → (f a).run.wp W Q s) :
    (liftResult r >>= f).run.wp W Q s := by
  rcases r with e | a
  · exact herr e rfl
  · exact hok a rfl

theorem wp_ask {c : Call} {f : Reply c → Agent α} {Q : Except AgentError α → σ → Prop} :
    (perform c >>= f).run.wp W Q s ↔ W.may s c ∧ ∀ r s', W.step s ⟨c, r⟩ s' → (f r).run.wp W Q s' := Iff.rfl

/-- A step that asks for something and converts the answer. -/
theorem wp_ask_result {c : Call} {f : Reply c → Agent α} {g : Reply c → Except AgentError α}
    {Q : Except AgentError α → σ → Prop} (hf : ∀ r, f r = liftResult (g r)) :
    (perform c >>= f).run.wp W Q s ↔ W.may s c ∧ ∀ r s', W.step s ⟨c, r⟩ s' → Q (g r) s' := by
  refine wp_ask.trans (and_congr_right fun _ => ?_)
  simp only [hf]
  exact Iff.rfl

theorem wp_lift {t : Task α} {Q : Except AgentError α → σ → Prop} :
    (ExceptT.lift t : Agent α).run.wp W Q s ↔ t.wp W (fun a => Q (.ok a)) s :=
  Prog.wp_bind (f := fun a => pure (Except.ok a)) (P := Q)

theorem wp_lift_bind {t : Task α} {f : α → Agent β} {P : α → σ → Prop} {Q : Except AgentError β → σ → Prop}
    (h : t.wp W P s) (hf : ∀ a s, P a s → (f a).run.wp W Q s) : (ExceptT.lift t >>= f).run.wp W Q s := by
  refine Prog.wp.bindE (Q := fun r s => ∃ a, r = .ok a ∧ P a s) (wp_lift.2 (h.mono fun a _ ha => ⟨a, rfl, ha⟩)) ?_ ?_
  · rintro e s ⟨_, ⟨⟩, -⟩
  · rintro a s ⟨_, ⟨⟩, ha⟩
    exact hf a s ha

theorem wp_request {c : ServerClient} {r : Request} {what refused : String} {Q : Except AgentError Unit → σ → Prop} :
    (c.request r what refused).run.wp W Q s ↔ W.may s (.send c r) ∧
      ∀ reply s', W.step s ⟨.send c r, reply⟩ s' → Q (ServerClient.accepted what refused reply) s' := by
  refine wp_ask_result fun reply => ?_
  rcases reply with e | status
  · rfl
  · rcases hs : status.isSuccess <;> simp only [ServerClient.accepted, hs] <;> rfl

theorem wp_append {event : String} {detail : Json} {Q : Except AgentError Unit → σ → Prop} :
    (AdMode.append event detail).run.wp W Q s ↔ W.may s (.append event detail) ∧
      ∀ reply s', W.step s ⟨.append event detail, reply⟩ s' → Q reply s' :=
  wp_ask_result fun _ => rfl

end

/-! ### A pass in AD mode -/

/-- The calls of a pass in AD mode. -/
def Call.InAdPass : Call → Prop
  | .connect .. | .simpleBind .. | .gssapiBind .. | .add .. | .modify .. | .search .. | .unbind _ | .started _
  | .routed .. | .send _ (.pollOperations _) | .decodeOperations | .send _ (.complete ..) => True
  | .append event _ => event ∈ ["AD_OP_OK", "AD_OP_FAIL"]
  | _ => False

namespace Call
variable {c : Call}

theorem Binding.inAdPass (h : c.Binding) : c.InAdPass := by
  cases c <;> first | exact h.elim | trivial

theorem On.inAdPass {ldap : Ldap} (h : c.On ldap) : c.InAdPass := by
  cases c <;> first | exact h.elim | trivial

theorem InRoute.inAdPass {op : Operation} (h : c.InRoute op) : c.InAdPass := by
  rcases h with h | ⟨conn, rfl | h⟩
  · exact h.inAdPass
  · trivial
  · exact h.inAdPass

theorem Polling.inAdPass (h : c.Polling) : c.InAdPass := by
  unfold Polling at h
  split at h
  · trivial
  · trivial
  · exact h.elim

theorem Unbinding.inAdPass (h : c.Unbinding) : c.InAdPass := by
  cases c <;> first | exact h.elim | trivial

end Call

namespace AdMode
variable {x : Externals} {m : AdMode}

theorem record_event (op : Operation) (r : Except AgentError Json) : (record op r).1 ∈ ["AD_OP_OK", "AD_OP_FAIL"] := by
  rcases r with e | detail <;> simp [record]

theorem allCalls_report_records (op : Operation) (r : Except AgentError Json) :
    (m.report x op r).run.AllCalls Call.InAdPass := by
  rw [report_eq]
  refine (allCalls_lift ((m.server.allCalls_request ..).mono fun c hc => ?_)).bindE fun _ => ?_
  · rw [hc]
    rcases r with e | detail <;> trivial
  · exact DbMode.allCalls_append (record_event op r)

theorem allCalls_drain_records (defaultLdap : LdapConnector) (ops : List Operation) (conns : Conns)
    (counters : SyncCounters) : (m.drain x defaultLdap ops conns counters).run.AllCalls Call.InAdPass := by
  induction ops generalizing conns counters with
  | nil => trivial
  | cons op ops ih =>
    refine allCalls_ask trivial fun _ => Prog.AllCalls.bindE ?_ fun p => ?_
    · exact allCalls_lift ((m.allCalls_routeAndProcess ..).mono fun _ => Call.InRoute.inAdPass)
    · exact (allCalls_report_records ..).bindE fun _ => ih ..

theorem allCalls_runOnce : (m.runOnce x).run.AllCalls Call.InAdPass := by
  rw [runOnce_eq]
  refine allCalls_result fun pw => ?_
  refine ((LdapConnector.allCalls_connect ..).mono fun _ => Call.Binding.inAdPass).bindE fun ldap => ?_
  refine ((m.server.allCalls_pollOperations _).mono fun _ => Call.Polling.inAdPass).bindE fun ops => ?_
  exact (allCalls_drain_records ..).bindE fun p => (allCalls_close ..).mono fun _ => Call.Unbinding.inAdPass

end AdMode

/-! ### A pass in DB mode -/

/-- The calls of a pass in DB mode. -/
def Call.InDbPass : Call → Prop
  | .dbConnect .. | .dbFetch .. | .dbExecute .. | .send _ (.pushRecord ..) | .send _ (.pullWriteback ..)
  | .decodeChanges => True
  | .append event _ => event ∈ ["DB_PUSH_FAIL", "DB_PULL", "DB_WRITEBACK_FAIL", "DB_WRITEBACK"]
  | _ => False

theorem Call.Outbound.inDbPass {c : Call} (h : c.Outbound) : c.InDbPass := by
  unfold Outbound at h
  split at h
  · trivial
  · trivial
  · trivial
  · rcases h with rfl | rfl <;> simp [InDbPass]
  · exact h.elim

theorem Call.Applying.inDbPass {c : Call} (h : c.Applying) : c.InDbPass := by
  unfold Applying at h
  split at h
  · trivial
  · rw [h]
    simp [InDbPass]
  · exact h.elim

namespace DbMode
variable {m : DbMode}

theorem allCalls_writeback (conn : DbConnector) (path secret : String) (counters : SyncCounters) :
    (m.writeback conn path secret counters).run.AllCalls Call.InDbPass := by
  have hpull : (m.server.pullWriteback path secret).run.AllCalls Call.InDbPass := by
    refine (allCalls_pullWriteback ..).mono ?_
    rintro c (rfl | rfl) <;> trivial
  refine hpull.bindE fun changes => ?_
  refine ((allCalls_applyAll changes counters).mono fun _ => Call.Applying.inDbPass).bindE fun counters => ?_
  dsimp only
  split
  · exact (allCalls_append (by simp [Call.InDbPass])).bindE fun _ => trivial
  · trivial

theorem allCalls_runOnce (x : Externals) : (m.runOnce x).run.AllCalls Call.InDbPass := by
  refine allCalls_result fun url => allCalls_result fun secret => Prog.AllCalls.bindE ?_ fun conn => ?_
  · exact allCalls_ask trivial fun r => by cases r <;> trivial
  refine Prog.AllCalls.bindE (allCalls_ask trivial fun r => by cases r <;> trivial) fun records => ?_
  refine ((allCalls_pushAll secret records {}).mono fun _ => Call.Outbound.inDbPass).bindE fun counters => ?_
  refine (allCalls_append (by simp [Call.InDbPass])).bindE fun _ => ?_
  unfold inbound
  split
  · exact allCalls_writeback ..
  · trivial

end DbMode

/-! ### A cycle -/

/-- The calls of a cycle around its pass. -/
def Call.AroundPass : Call → Prop
  | .send _ .fetchConfig | .decodeConfig | .send _ (.heartbeat ..) | .send _ (.reportRun ..) | .sleep _ => True
  | .append event _ => event ∈ ["SYNC_SUMMARY", "RUN_ERROR"]
  | _ => False

/-- The calls of a cycle. -/
def Call.InCycle (c : Call) : Prop := c.InAdPass ∨ c.InDbPass ∨ c.AroundPass

section
variable {x : Externals} {config : Config} {sess : Session}

theorem allCalls_runMode : (runMode x (runDb x) config sess).run.AllCalls Call.InCycle := by
  unfold runMode
  split
  · exact AdMode.allCalls_runOnce.mono fun _ => .inl
  · exact (DbMode.allCalls_runOnce x).mono fun _ h => .inr (.inl h)

theorem allCalls_notify_around (c : ServerClient) (r : Request) (h : (Call.send c r).AroundPass) :
    (c.notify r).AllCalls Call.InCycle :=
  (c.allCalls_notify r).mono fun _ hc => hc ▸ .inr (.inr h)

theorem allCalls_runCycle : (runCycle x (runDb x) config sess).AllCalls Call.InCycle := by
  have hsleep (secs : Nat) : (Prog.perform (Call.sleep secs) : Task Unit).AllCalls Call.InCycle :=
    Prog.allCalls_perform.2 (.inr (.inr trivial))
  have happend {event : String} (detail : Json) (h : event ∈ ["SYNC_SUMMARY", "RUN_ERROR"]) :
      (Call.append event detail).InCycle := .inr (.inr h)
  refine (allCalls_notify_around sess.server (.heartbeat ..) trivial).bind fun _ => Prog.AllCalls.bind ?_ fun r => ?_
  · refine allCalls_runMode.bindE fun counters => (DbMode.allCalls_append ?_).bindE fun _ => trivial
    exact happend _ (List.mem_cons_self ..)
  rcases r with e | counters
  · refine Prog.AllCalls.bind (Prog.allCalls_perform.2 ?_) fun _ => hsleep _
    exact happend _ (List.mem_cons_of_mem _ (List.mem_singleton_self _))
  · dsimp only
    split
    · exact (allCalls_notify_around sess.server (.reportRun ..) trivial).bind fun _ => hsleep _
    · exact hsleep _

theorem allCalls_runOne : (runOne x (runDb x) config sess).AllCalls Call.InCycle := by
  refine Prog.AllCalls.bind (sess.server.allCalls_fetchConfig.mono ?_) fun _ => allCalls_runCycle
  rintro c (rfl | rfl) <;> exact .inr (.inr trivial)

end

/-! ### Runs of the service -/

section
variable {σ : Type} {W : Contract Reply σ} {x : Externals} {runDb : RunDb} {config : Config} {sess : Session}
  {I J : σ → Prop} {s s₀ : σ}

theorem LoopRun.obeys {cycles : List Trace} {cut : Trace} (h : LoopRun x runDb config sess cycles cut)
    (hcycle : ∀ s, I s → (runOne x runDb config sess).wp W (fun _ => I) s)
    (hcut : ∀ s tr s', I s → (runOne x runDb config sess).Cut Call.isAwait tr → W.Steps s tr s' → J s') (hs : I s) :
    W.Obeys s (cycles.flatten ++ cut) ∧ ∀ s', W.Steps s (cycles.flatten ++ cut) s' → J s' := by
  induction h generalizing s with
  | @cut tr h => exact ⟨(hcycle s hs).of_cut h, fun s' hsteps => hcut s tr s' hs h hsteps⟩
  | @cycle tr cut trs h hrest ih =>
    obtain ⟨hobeys, hafter⟩ := (hcycle s hs).of_runs h
    rw [List.flatten_cons, List.append_assoc]
    refine ⟨Contract.obeys_append.2 ⟨hobeys, fun s₁ hsteps => (ih (hafter s₁ hsteps)).1⟩, fun s' hsteps => ?_⟩
    obtain ⟨s₁, h₁, h₂⟩ := Contract.steps_append.1 hsteps
    exact (ih (hafter s₁ h₁)).2 s' h₂

theorem obeys_of_serviceRun {first cut last : Trace} {cycles : List Trace}
    (h : ServiceRun x runDb config sess first cycles cut last)
    (hstart : (start x config).run.wp W (fun r s => r = .ok sess → I s) s₀)
    (hcycle : ∀ s, I s → (runOne x runDb config sess).wp W (fun _ => I) s)
    (hcut : ∀ s tr s', I s → (runOne x runDb config sess).Cut Call.isAwait tr → W.Steps s tr s' → J s')
    (hstop : ∀ s, J s → (stop config sess).wp W (fun _ _ => True) s) :
    W.Obeys s₀ (first ++ (cycles.flatten ++ (cut ++ last))) := by
  obtain ⟨hfirst, hstarted⟩ := hstart.of_runs h.start
  refine Contract.obeys_append.2 ⟨hfirst, fun s hs => ?_⟩
  obtain ⟨hloop, hdropped⟩ := h.loop.obeys hcycle hcut (hstarted s hs rfl)
  rw [← List.append_assoc]
  exact Contract.obeys_append.2 ⟨hloop, fun s' hs' => ((hstop s' (hdropped s' hs')).of_runs h.stop).1⟩

end

/-! ### Contracts about passes -/

/-- The calls that the service makes outside its passes. -/
def Call.Outside : Call → Prop
  | .openLog _ | .buildClient _ | .hostname | .send _ (.disconnect _) => True
  | .append event _ => event ∈ ["RUN_START", "SYNC_SUMMARY", "RUN_ERROR", "RUN_STOP"]
  | c => c.AroundPass

section
variable {x : Externals} {config : Config} {sess : Session}

theorem allCalls_append_outside {event : String} (detail : Json)
    (h : event ∈ ["RUN_START", "SYNC_SUMMARY", "RUN_ERROR", "RUN_STOP"]) :
    (AdMode.append event detail).run.AllCalls Call.Outside := DbMode.allCalls_append h

theorem allCalls_notify_outside (c : ServerClient) {r : Request} (h : (Call.send c r).Outside) :
    (c.notify r).AllCalls Call.Outside := (c.allCalls_notify r).mono fun _ hc => hc ▸ h

theorem allCalls_start_outside : (start x config).run.AllCalls Call.Outside := by
  refine allCalls_ask trivial fun _ => allCalls_result fun _ => allCalls_result fun _ => ?_
  refine ((ServerClient.allCalls_new ..).mono fun c hc => hc ▸ trivial).bindE fun _ => allCalls_result fun _ => ?_
  exact allCalls_ask trivial fun _ => (allCalls_append_outside _ (by simp)).bindE fun _ => trivial

theorem allCalls_stop_outside : (stop config sess).AllCalls Call.Outside := by
  refine (allCalls_notify_outside sess.server (r := .disconnect _) trivial).bind fun _ => ?_
  exact ⟨by simp [Call.Outside], fun _ => trivial⟩

variable {σ : Type} {W : Contract Reply σ} {I : σ → Prop} {s : σ}

theorem wp_outside {α : Type} {t : Task α} (ht : t.AllCalls Call.Outside) (hs : I s)
    (houtside : ∀ c s, c.Outside → I s → W.may s c ∧ ∀ r s', W.step s ⟨c, r⟩ s' → I s') : t.wp W (fun _ => I) s :=
  ht.wp hs (fun c s hc h => (houtside c s hc h).1) fun c r s s' hc h hstep => (houtside c s hc h).2 r s' hstep

section
variable {K : Except AgentError RemoteConfig → σ → Prop}
  (houtside : ∀ c s, c.Outside → I s → W.may s c ∧ ∀ r s', W.step s ⟨c, r⟩ s' → I s')
  (hbeat : ∀ remote mode s, K remote s →
    (sess.server.heartbeat mode sess.hostname version sess.directoryId).wp W (fun _ => K remote) s)
  (hpass : ∀ remote s, K remote s → (runMode x (runDb x) (effective config remote) sess).run.wp W (fun _ => I) s)
include houtside hbeat hpass

/-- A cycle, where `K` is known of the settings that it has fetched. -/
theorem wp_runOne_fetched (hfetch : sess.server.fetchConfig.run.wp W K s) :
    (runOne x (runDb x) config sess).wp W (fun _ => I) s := by
  have hsleep (secs : Nat) : (Prog.perform (Call.sleep secs) : Task Unit).AllCalls Call.Outside :=
    Prog.allCalls_perform.2 trivial
  refine hfetch.bind fun remote s hs => (hbeat remote _ s hs).bind fun _ s hs => ?_
  refine Prog.wp.bind (Q := fun _ => I) ?_ fun r s hs => ?_
  · refine (hpass remote s hs).bindE (fun _ _ h => h) fun counters s hs => ?_
    refine (wp_outside (allCalls_append_outside _ (by simp)) hs houtside).bindE (fun _ _ h => h) fun _ _ h => h
  · refine wp_outside ?_ hs houtside
    rcases r with e | counters
    · exact Prog.AllCalls.bind (Prog.allCalls_perform.2 (by simp [Call.Outside])) fun _ => hsleep _
    · dsimp only
      split
      · exact (allCalls_notify_outside _ (r := .reportRun ..) trivial).bind fun _ => hsleep _
      · exact hsleep _

/-- A contract that the passes keep under the settings fetched for them, and that the calls around them do not
touch. -/
theorem obeys_of_fetched {first cut last : Trace} {cycles : List Trace}
    (h : ServiceRun x (runDb x) config sess first cycles cut last) (hs : I s)
    (hfetch : ∀ s, I s → sess.server.fetchConfig.run.wp W K s)
    (hstop : ∀ s, (stop config sess).wp W (fun _ _ => True) s) :
    W.Obeys s (first ++ (cycles.flatten ++ (cut ++ last))) :=
  obeys_of_serviceRun (J := fun _ => True) h ((wp_outside allCalls_start_outside hs houtside).mono fun _ _ h _ => h)
    (fun s hs => wp_runOne_fetched houtside hbeat hpass (hfetch s hs)) (fun _ _ _ _ _ _ => trivial) fun s _ => hstop s

end

/-- A contract that the passes keep, and that the calls around them do not touch. -/
theorem obeys_of_passes {first cut last : Trace} {cycles : List Trace}
    (h : ServiceRun x (runDb x) config sess first cycles cut last) (hs : I s)
    (houtside : ∀ c s, c.Outside → I s → W.may s c ∧ ∀ r s', W.step s ⟨c, r⟩ s' → I s')
    (hpass : ∀ remote s, I s → (runMode x (runDb x) (effective config remote) sess).run.wp W (fun _ => I) s)
    (hstop : ∀ s, (stop config sess).wp W (fun _ _ => True) s) :
    W.Obeys s (first ++ (cycles.flatten ++ (cut ++ last))) := by
  refine obeys_of_fetched houtside (fun remote mode s hs => ?_) hpass h hs (fun s hs => ?_) hstop
  · exact wp_outside (allCalls_notify_outside _ (r := .heartbeat ..) trivial) hs houtside
  · refine wp_outside (sess.server.allCalls_fetchConfig.mono ?_) hs houtside
    rintro c (rfl | rfl) <;> trivial

end

end NexusAgent
