import NexusAgent.Ledger

/-!
# Records of the writes to a directory

An operation's write is acknowledged before its outcome is recorded, with a call to the broker in between.
`coverage_iff`: in a run in AD mode whose event log takes every record, each acknowledged write belongs to an
operation with a record behind it exactly if the cycle that is dropped is not dropped in between.
-/

namespace NexusAgent

/-- A write that the directory has acknowledged. -/
def Acknowledged : Event Reply → Prop
  | ⟨.add .., .ok ()⟩ | ⟨.modify .., .ok ()⟩ => True
  | _ => False

/-- Every acknowledged write is one for the operation started last, which has a record behind it. -/
def Covered (tr : Trace) : Prop :=
  ∀ A e B, tr = A ++ e :: B → Acknowledged e → ∃ op A₁ A₂, A = A₁ ++ ⟨.started op, ()⟩ :: A₂ ∧
    (∀ op' u, (⟨.started op', u⟩ : Event Reply) ∉ A₂) ∧
    ∃ r, (⟨.append (AdMode.record op r).1 (AdMode.record op r).2, .ok ()⟩ : Event Reply) ∈ B

/-- After every acknowledged write something has been recorded. -/
def Settled (tr : Trace) : Prop :=
  ∀ A e B, tr = A ++ e :: B → Acknowledged e → ∃ b ∈ B, b.1.Appending

section
variable {tr tr₁ tr₂ : Trace} {e : Event Reply}

theorem Acknowledged.writing (h : Acknowledged e) : e.1.Writing := by
  unfold Acknowledged at h
  split at h
  · trivial
  · trivial
  · exact h.elim

theorem Acknowledged.not_appending (h : Acknowledged e) : ¬ e.1.Appending := by
  unfold Acknowledged at h
  split at h
  · exact id
  · exact id
  · exact h.elim

theorem covered_of_not_acknowledged (h : ∀ e ∈ tr, ¬ Acknowledged e) : Covered tr := by
  rintro A e B rfl he
  exact (h e (by simp) he).elim

theorem covered_of_not_writing (h : ∀ e ∈ tr, ¬ e.1.Writing) : Covered tr :=
  covered_of_not_acknowledged fun e he hack => h e he hack.writing

theorem Covered.append (h₁ : Covered tr₁) (h₂ : Covered tr₂) : Covered (tr₁ ++ tr₂) := by
  intro A e B hsplit he
  rcases List.append_eq_append_iff.1 hsplit with ⟨A', rfl, htr₂⟩ | ⟨B', rfl, heq⟩
  · obtain ⟨op, A₁, A₂, rfl, hA₂, hB⟩ := h₂ A' e B htr₂ he
    exact ⟨op, tr₁ ++ A₁, A₂, by simp, hA₂, hB⟩
  rcases B' with _ | ⟨e', B'⟩
  · obtain ⟨op, A₁, A₂, hA₁, hA₂, hB⟩ := h₂ [] e B (by simpa using heq.symm) he
    cases A₁ <;> cases hA₁
  · obtain ⟨rfl, rfl⟩ := List.cons.inj heq
    obtain ⟨op, A₁, A₂, rfl, hA₂, r, hB⟩ := h₁ A e B' rfl he
    exact ⟨op, A₁, A₂, rfl, hA₂, r, List.mem_append_left _ hB⟩

theorem Covered.flatten {trs : List Trace} (h : ∀ tr ∈ trs, Covered tr) : Covered trs.flatten := by
  induction trs with
  | nil => exact covered_of_not_writing (by simp)
  | cons tr trs ih =>
    rw [List.flatten_cons]
    exact (h tr (List.mem_cons_self ..)).append (ih fun tr htr => h tr (List.mem_cons_of_mem _ htr))

/-- A trace is settled if nothing is acknowledged after some record. -/
theorem settled_of_record {P Q : Trace} (htr : tr = P ++ e :: Q) (he : e.1.Appending)
    (hQ : ∀ e ∈ Q, ¬ Acknowledged e) : Settled tr := by
  subst htr
  intro A e' B hsplit hack
  rcases List.append_eq_append_iff.1 hsplit with ⟨A', rfl, hrest⟩ | ⟨B', rfl, hrest⟩
  · rcases A' with _ | ⟨f, A'⟩
    · obtain ⟨rfl, -⟩ := List.cons.inj hrest
      exact absurd he hack.not_appending
    · obtain ⟨-, rfl⟩ := List.cons.inj hrest
      exact absurd hack (hQ e' (by simp))
  · rcases B' with _ | ⟨f, B'⟩
    · obtain ⟨rfl, -⟩ := List.cons.inj hrest
      exact absurd he hack.not_appending
    · obtain ⟨rfl, rfl⟩ := List.cons.inj hrest
      exact ⟨e, by simp, he⟩

/-- Covered, and after that nothing is recorded any more. -/
def AlmostCovered (tr : Trace) : Prop := ∃ P Q, tr = P ++ Q ∧ Covered P ∧ ∀ e ∈ Q, ¬ e.1.Appending

theorem almostCovered_of_not_appending (h : ∀ e ∈ tr, ¬ e.1.Appending) : AlmostCovered tr :=
  ⟨[], tr, rfl, covered_of_not_writing (by simp), h⟩

theorem AlmostCovered.prepend (h₁ : Covered tr₁) (h₂ : AlmostCovered tr₂) : AlmostCovered (tr₁ ++ tr₂) := by
  obtain ⟨P, Q, rfl, hP, hQ⟩ := h₂
  exact ⟨tr₁ ++ P, Q, by simp, h₁.append hP, hQ⟩

theorem AlmostCovered.covered (h : AlmostCovered tr) (hs : Settled tr) : Covered tr := by
  obtain ⟨P, Q, rfl, hP, hQ⟩ := h
  refine hP.append (covered_of_not_acknowledged fun e he hack => ?_)
  obtain ⟨Q₁, Q₂, rfl⟩ := List.append_of_mem he
  obtain ⟨b, hb, happ⟩ := hs (P ++ Q₁) e Q₂ (by simp) hack
  exact hQ b (by simp [hb]) happ

end

/-! ### The loop over a batch -/

namespace AdMode

variable {x : Externals} {m : AdMode} {op : Operation} {ops : List Operation} {defaultLdap : LdapConnector}
  {conns conns' : Conns} {counters : SyncCounters} {tr : Trace}

theorem covered_opTrace {r : Except AgentError Json} {reply : Except String Status}
    (h : Route x m op defaultLdap conns tr r conns') : Covered (opTrace x m op tr r reply (.ok ())) := by
  have hcalls := (m.allCalls_routeAndProcess x op defaultLdap conns).of_runs (runs_routeAndProcess.2 h)
  intro A e B hsplit he
  rcases A with _ | ⟨e', A⟩
  · obtain ⟨rfl, -⟩ := List.cons.inj hsplit
    exact he.elim
  obtain ⟨rfl, htail⟩ := List.cons.inj hsplit
  have hlast : ∀ e ∈ [(⟨.send m.server (completion x op r), reply⟩ : Event Reply),
      ⟨.append (record op r).1 (record op r).2, .ok ()⟩], ¬ Acknowledged e := by
    simp [Acknowledged]
  rcases List.append_eq_append_iff.1 htail with ⟨A', rfl, hsends⟩ | ⟨B', rfl, heq⟩
  · exact (hlast e (by rw [hsends]; simp) he).elim
  rcases B' with _ | ⟨e', B'⟩
  · exact (hlast e (by rw [List.nil_append] at heq; rw [← heq]; simp) he).elim
  obtain ⟨rfl, rfl⟩ := List.cons.inj heq
  refine ⟨op, [], A, rfl, fun op' u hmem => ?_, r, by simp⟩
  rcases hcalls _ (List.mem_append_left _ hmem) with h | ⟨conn, h | h⟩
  · exact h
  · cases h
  · exact h

theorem Drain.covered {res : Except AgentError (SyncCounters × Conns)}
    (h : Drain x m defaultLdap ops conns counters tr res) (hok : ∀ e ∈ tr, Recorded e) : Covered tr := by
  induction h with
  | nil => exact covered_of_not_writing (by simp)
  | stopped reply hroute => cases hok _ (mem_opTrace.2 (.inr (.inr (.inr rfl))))
  | cons reply hroute hrest ih =>
    exact (covered_opTrace hroute).append (ih fun e he => hok e (List.mem_append_right _ he))

theorem DrainCut.almostCovered (h : DrainCut x m defaultLdap ops conns counters tr) : AlmostCovered tr := by
  induction h with
  | routing h =>
    refine almostCovered_of_not_appending (List.forall_mem_cons.2 ⟨id, fun e he happ => ?_⟩)
    exact ((m.allCalls_routeAndProcess ..).of_cut h e he).not_reporting happ.reporting
  | reporting hroute hreport =>
    refine almostCovered_of_not_appending (List.forall_mem_cons.2 ⟨id, fun e he happ => ?_⟩)
    rcases List.mem_append.1 he with he | he
    · exact hroute.not_reporting e he happ.reporting
    · rw [cut_report hreport e he] at happ
      exact happ
  | cons reply hroute hrest ih => exact .prepend (covered_opTrace hroute) ih

/-! ### Passes -/

variable {pw : String} {q : Except AgentError LdapConnector} {q' : Except AgentError (List Operation)}

theorem covered_of_connect (h : (m.connectDefault x pw).run.Runs tr q) : Covered tr :=
  covered_of_not_writing fun e he => ((LdapConnector.allCalls_connect ..).of_runs h e he).not_writing

theorem covered_of_poll (h : (m.server.pollOperations m.batch).run.Runs tr q') : Covered tr :=
  covered_of_not_writing fun e he => ((m.server.allCalls_pollOperations _).of_runs h e he).not_writing

theorem Pass.covered {res : Except AgentError SyncCounters} (h : Pass x m tr res) (hok : ∀ e ∈ tr, Recorded e) :
    Covered tr := by
  cases h with
  | unresolved hpw => exact covered_of_not_writing (by simp)
  | unbound hpw hconnect => exact covered_of_connect hconnect
  | unpolled hpw hconnect hpoll => exact (covered_of_connect hconnect).append (covered_of_poll hpoll)
  | stopped hpw hconnect hpoll hdrain =>
    exact (covered_of_connect hconnect).append ((covered_of_poll hpoll).append
      (hdrain.covered fun e he => hok e (by simp [he])))
  | done hpw hconnect hpoll hdrain hclose =>
    have hclosing := covered_of_not_writing fun e he => ((allCalls_close ..).of_runs hclose e he).not_writing
    exact (covered_of_connect hconnect).append ((covered_of_poll hpoll).append
      ((hdrain.covered fun e he => hok e (by simp [he])).append hclosing))

theorem PassCut.almostCovered (h : PassCut x m tr) (hok : ∀ e ∈ tr, Recorded e) : AlmostCovered tr := by
  cases h with
  | connecting hpw hcut =>
    refine almostCovered_of_not_appending fun e he happ => ?_
    exact ((LdapConnector.allCalls_connect ..).of_cut hcut e he).not_reporting happ.reporting
  | polling hpw hconnect hcut =>
    refine .prepend (covered_of_connect hconnect) (almostCovered_of_not_appending fun e he happ => ?_)
    exact ((m.server.allCalls_pollOperations _).of_cut hcut e he).not_reporting happ.reporting
  | draining hpw hconnect hpoll hcut =>
    exact .prepend (covered_of_connect hconnect) (.prepend (covered_of_poll hpoll) hcut.almostCovered)
  | closing hpw hconnect hpoll hdrain hcut =>
    refine .prepend (covered_of_connect hconnect) (.prepend (covered_of_poll hpoll) (.prepend
      (hdrain.covered fun e he => hok e (by simp [he])) (almostCovered_of_not_appending fun e he happ => ?_)))
    exact ((allCalls_close ..).of_cut hcut e he).not_reporting happ.reporting

end AdMode

/-! ### Cycles -/

section
variable {x : Externals} {runDb : RunDb} {config : Config} {s : Session} {tr : Trace}

theorem covered_append {event : String} {detail : Json} {ans : Except AgentError Unit} :
    Covered [⟨.append event detail, ans⟩] := covered_of_not_writing (List.forall_mem_singleton.2 id)

theorem runPass_covered {res : Except AgentError SyncCounters} (hmode : config.agent.mode = .ad)
    (h : (runPass x runDb config s).run.Runs tr res) (hok : ∀ e ∈ tr, Recorded e) : Covered tr := by
  rw [runPass, runMode_ad hmode] at h
  rcases Prog.runs_bindE.1 h with ⟨e, hpass, -⟩ | ⟨tr₁, tr', counters, rfl, hpass, hafter⟩
  · exact (AdMode.runs_runOnce.1 hpass).covered hok
  refine .append ((AdMode.runs_runOnce.1 hpass).covered fun e he => hok e (List.mem_append_left _ he)) ?_
  rcases Prog.runs_bindE.1 hafter with ⟨e, hsummary, -⟩ | ⟨tr₂, _, _, rfl, hsummary, rfl, -⟩
  · rw [AdMode.runs_append.1 hsummary]
    exact covered_append
  · rw [AdMode.runs_append.1 hsummary]
    exact covered_append

theorem runPass_almostCovered (hmode : config.agent.mode = .ad)
    (h : (runPass x runDb config s).run.Cut Call.isAwait tr) (hok : ∀ e ∈ tr, Recorded e) : AlmostCovered tr := by
  rw [runPass, runMode_ad hmode] at h
  rcases Prog.cut_bindE.1 h with hcut | ⟨tr₁, tr', counters, rfl, -, hafter⟩
  · exact (AdMode.cut_runOnce hcut).almostCovered hok
  · rcases Prog.cut_bindE.1 hafter with hcut | ⟨_, _, _, _, -, hcut⟩
    · exact (AdMode.not_cut_append hcut).elim
    · exact hcut.elim

theorem runCycle_covered (hmode : config.agent.mode = .ad) (h : (runCycle x runDb config s).Runs tr ())
    (hok : ∀ e ∈ tr, Recorded e) : Covered tr := by
  obtain ⟨tr₁, tr', _, rfl, hbeat, hafter⟩ := Prog.runs_bind.1 h
  obtain ⟨tr₂, tr₃, res, rfl, hpass, hafter⟩ := Prog.runs_bind.1 hafter
  refine .append (covered_of_not_writing fun e he => ?_) (.append (runPass_covered hmode hpass fun e he => ?_) ?_)
  · rw [(s.server.allCalls_notify _).of_runs hbeat e he]; exact id
  · exact hok e (by simp [he])
  · refine covered_of_not_writing (Prog.AllCalls.of_runs (φ := fun c => ¬ c.Writing) ?_ hafter)
    rcases res with e | counters
    · exact ⟨id, fun _ => ⟨id, fun _ => trivial⟩⟩
    · dsimp only
      split
      · exact (s.server.allCalls_notify _).mono (fun _ h => h ▸ id) |>.bind fun _ => ⟨id, fun _ => trivial⟩
      · exact ⟨id, fun _ => trivial⟩

theorem runCycle_almostCovered (hmode : config.agent.mode = .ad)
    (h : (runCycle x runDb config s).Cut Call.isAwait tr) (hok : ∀ e ∈ tr, Recorded e) : AlmostCovered tr := by
  rcases Prog.cut_bind.1 h with hcut | ⟨tr₁, tr', _, rfl, hbeat, hafter⟩
  · refine almostCovered_of_not_appending fun e he => ?_
    rw [(s.server.allCalls_notify _).of_cut hcut e he]; exact id
  refine .prepend (covered_of_not_writing fun e he => ?_) ?_
  · rw [(s.server.allCalls_notify _).of_runs hbeat e he]; exact id
  rcases Prog.cut_bind.1 hafter with hcut | ⟨tr₂, tr₃, res, rfl, hpass, hafter⟩
  · exact runPass_almostCovered hmode hcut fun e he => hok e (by simp [he])
  refine .prepend (runPass_covered hmode hpass fun e he => hok e (by simp [he])) ?_
  rcases res with e | counters
  · rcases hafter with ⟨hawait, -⟩ | ⟨ans, tr₄, rfl, hcut⟩
    · exact hawait.elim
    refine .prepend covered_append (almostCovered_of_not_appending ?_)
    exact (Prog.allCalls_perform (φ := fun c => ¬ c.Appending).2 id).of_cut hcut
  · refine almostCovered_of_not_appending (Prog.AllCalls.of_cut (φ := fun c => ¬ c.Appending) ?_ hafter)
    dsimp only
    split
    · exact (s.server.allCalls_notify _).mono (fun _ h => h ▸ id) |>.bind fun _ => ⟨id, fun _ => trivial⟩
    · exact ⟨id, fun _ => trivial⟩

theorem not_writing_of_fetch {e : Event Reply}
    (h : e.1 = .send s.server .fetchConfig ∨ e.1 = .decodeConfig) : ¬ e.1.Writing ∧ ¬ e.1.Appending := by
  rcases h with h | h <;> rw [h] <;> exact ⟨id, id⟩

theorem effective_mode (hmode : config.agent.mode = .ad) (remote : Except AgentError RemoteConfig) :
    (effective config remote).agent.mode = .ad := by
  rcases remote with e | remote
  · exact hmode
  · exact (config.applyRemote_mode remote).trans hmode

theorem runOne_covered (hmode : config.agent.mode = .ad) (h : (runOne x runDb config s).Runs tr ())
    (hok : ∀ e ∈ tr, Recorded e) : Covered tr := by
  obtain ⟨tr₁, tr₂, remote, rfl, hfetch, hcycle⟩ := Prog.runs_bind.1 h
  refine .append (covered_of_not_writing fun e he => ?_) ?_
  · exact (not_writing_of_fetch (s.server.allCalls_fetchConfig.of_runs hfetch e he)).1
  · exact runCycle_covered (effective_mode hmode remote) hcycle fun e he => hok e (List.mem_append_right _ he)

theorem runOne_almostCovered (hmode : config.agent.mode = .ad)
    (h : (runOne x runDb config s).Cut Call.isAwait tr) (hok : ∀ e ∈ tr, Recorded e) : AlmostCovered tr := by
  rcases Prog.cut_bind.1 h with hcut | ⟨tr₁, tr₂, remote, rfl, hfetch, hcycle⟩
  · refine almostCovered_of_not_appending fun e he => ?_
    exact (not_writing_of_fetch (s.server.allCalls_fetchConfig.of_cut hcut e he)).2
  refine .prepend (covered_of_not_writing fun e he => ?_) ?_
  · exact (not_writing_of_fetch (s.server.allCalls_fetchConfig.of_runs hfetch e he)).1
  · exact runCycle_almostCovered (effective_mode hmode remote) hcycle fun e he => hok e (List.mem_append_right _ he)

/-! ### The whole run -/

theorem LoopRun.covered {cycles : List Trace} {cut : Trace} (h : LoopRun x runDb config s cycles cut)
    (hmode : config.agent.mode = .ad) (hok : ∀ tr ∈ cut :: cycles, ∀ e ∈ tr, Recorded e) :
    (∀ tr ∈ cycles, Covered tr) ∧ AlmostCovered cut := by
  induction h with
  | cut h => exact ⟨by simp, runOne_almostCovered hmode h (hok _ (List.mem_cons_self ..))⟩
  | @cycle tr cut trs h hrest ih =>
    obtain ⟨hcycles, hcut⟩ := ih fun tr htr => hok tr (by
      rcases List.mem_cons.1 htr with rfl | htr
      · exact List.mem_cons_self ..
      · exact List.mem_cons_of_mem _ (List.mem_cons_of_mem _ htr))
    exact ⟨List.forall_mem_cons.2 ⟨runOne_covered hmode h (hok tr (by simp)), hcycles⟩, hcut⟩

theorem allCalls_start : (start x config).run.AllCalls fun c => ¬ c.Writing := by
  refine allCalls_ask id fun _ => allCalls_result fun _ => allCalls_result fun _ => ?_
  refine ((ServerClient.allCalls_new ..).mono fun _ h => h ▸ id).bindE fun _ => allCalls_result fun _ => ?_
  exact allCalls_ask id fun _ => (allCalls_ask id fun _ => allCalls_liftResult).bindE fun _ => trivial

theorem allCalls_stop : (stop config s).AllCalls fun c => c = .send s.server (.disconnect "agent shutdown") ∨
    c = .append "RUN_STOP" (runStartDetail config.agent.mode.asStr) :=
  ((s.server.allCalls_notify _).mono fun _ => .inl).bind fun _ => ⟨.inr rfl, fun _ => trivial⟩

/-- A record at the end of a run is no record of an operation. -/
theorem not_record_of_stop (h : (stop config s).Runs tr ()) (op : Operation) (r : Except AgentError Json)
    (ans : Except AgentError Unit) :
    (⟨.append (AdMode.record op r).1 (AdMode.record op r).2, ans⟩ : Event Reply) ∉ tr := by
  intro hmem
  rcases allCalls_stop.of_runs h _ hmem with hcall | hcall
  · cases hcall
  · obtain ⟨hevent, -⟩ := Call.append.inj hcall
    rcases r with e | detail <;> simp [AdMode.record] at hevent

theorem settled_of_covered {tr₁ cut last : Trace} (hlast : (stop config s).Runs last ())
    (h : Covered (tr₁ ++ (cut ++ last))) : Settled cut := by
  rintro A e B rfl he
  obtain ⟨op, -, -, -, -, r, hrecord⟩ := h (tr₁ ++ A) e (B ++ last) (by simp) he
  rcases List.mem_append.1 hrecord with hrecord | hrecord
  · exact ⟨_, hrecord, trivial⟩
  · exact (not_record_of_stop hlast op r _ hrecord).elim

/-- Every acknowledged write of a run is followed by a record of its operation exactly if the cycle that is
dropped is not dropped between such a write and the next record. -/
theorem coverage_iff {first cut last : Trace} {cycles : List Trace} (hmode : config.agent.mode = .ad)
    (h : ServiceRun x runDb config s first cycles cut last)
    (hok : ∀ tr ∈ last :: cut :: cycles, ∀ e ∈ tr, Recorded e) :
    Covered (first ++ (cycles.flatten ++ (cut ++ last))) ↔ Settled cut := by
  constructor
  · intro hcovered
    rw [← List.append_assoc] at hcovered
    exact settled_of_covered h.stop hcovered
  · intro hsettled
    obtain ⟨hcycles, hcut⟩ := h.loop.covered hmode fun tr htr => hok tr (List.mem_cons_of_mem _ htr)
    have hfirst : Covered first := covered_of_not_writing (allCalls_start.of_runs h.start)
    have hlast : Covered last := covered_of_not_writing fun e he => by
      rcases allCalls_stop.of_runs h.stop e he with h | h <;> rw [h] <;> exact id
    exact hfirst.append ((Covered.flatten hcycles).append ((hcut.covered hsettled).append hlast))

end

/-- In the cycle that is dropped an account has been enabled, and that is recorded. -/
theorem coverage_corp :
    ServiceRun corp (fun _ _ => throw (.config "")) corpConfig corpSession corpStart [corpCycle] corpCut corpStop ∧
      (∃ e ∈ corpCut, Acknowledged e) ∧ Settled corpCut ∧
      Covered (corpStart ++ ([corpCycle].flatten ++ (corpCut ++ corpStop))) := by
  have h := serviceRun_corp fun _ _ => throw (.config "")
  have hsettled : Settled corpCut := by
    refine settled_of_record (P := corpCut.dropLast.dropLast.dropLast.dropLast)
      (Q := [⟨.started disableLeaver, ()⟩, ⟨.routed disableLeaver corpConn, ()⟩,
        ⟨corpConn.findCall "leaver@corp", .ok [⟨"CN=Leaver,DC=corp", []⟩]⟩]) rfl trivial ?_
    simp [Acknowledged, LdapConnector.findCall]
  refine ⟨h, ⟨⟨.modify corpConn.ldap "CN=Joiner,DC=corp" [.replace "userAccountControl" [Text.utf8 uacEnabled]],
    .ok ()⟩, ?_, trivial⟩, hsettled, (coverage_iff rfl h recorded_corp).2 hsettled⟩
  simp [corpCut, reported, AdMode.opTrace, joinerEnabled]

/-- The account that was disabled just before the shutdown has no record. -/
theorem disabled_not_recorded :
    ServiceRun corp (fun _ _ => throw (.config "")) corpConfig corpSession corpStart [] corpDropped corpStop ∧
      (∀ tr ∈ [corpStop, corpDropped], ∀ e ∈ tr, Recorded e) ∧
      (⟨.modify corpConn.ldap "CN=Leaver,DC=corp" [.replace "userAccountControl" [Text.utf8 uacDisabled]], .ok ()⟩ :
        Event Reply) ∈ corpDropped ∧ ¬ Covered (corpStart ++ (corpDropped ++ corpStop)) := by
  have h := serviceRun_corpDropped fun _ _ => throw (.config "")
  refine ⟨h, ?_, ?_, fun hcovered => ?_⟩
  · simp [corpStop, corpDropped, greeting, corpOpened, polled, leaverDisabled, LdapConnector.findCall, Recorded]
  · simp [corpDropped, leaverDisabled]
  · -- nothing is recorded after the acknowledged modification
    obtain ⟨b, hb, -⟩ := settled_of_covered h.stop hcovered corpDropped.dropLast
      ⟨.modify corpConn.ldap "CN=Leaver,DC=corp" [.replace "userAccountControl" [Text.utf8 uacDisabled]], .ok ()⟩ [] rfl
      trivial
    cases hb

end NexusAgent
