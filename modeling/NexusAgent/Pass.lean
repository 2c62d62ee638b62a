import NexusAgent.Batch

/-!
# How a pass runs

`Pass` and `PassCut` list the ways `run_once` can end and can be dropped, by the stage it gets to.
-/

namespace NexusAgent

/-! ### Fetching a batch -/

namespace ServerClient

variable {c : ServerClient} {limit : Nat} {tr : Trace} {res : Except AgentError (List Operation)}

/-- The batch that is returned is the one that was decoded. -/
theorem decoded_iff (h : (c.pollOperations limit).run.Runs tr res) (ops : List Operation) :
    (⟨.decodeOperations, .ok ops⟩ : Event Reply) ∈ tr ↔ res = .ok ops := by
  rcases Prog.runs_bindE.1 h with ⟨e, hrequest, rfl⟩ | ⟨tr₁, tr₂, _, rfl, hrequest, hdecode⟩
  · obtain ⟨reply, rfl, -⟩ := runs_request.1 hrequest
    simp
  · obtain ⟨reply, rfl, -⟩ := runs_request.1 hrequest
    obtain ⟨decoded, tr', rfl, hres⟩ := runs_ask.1 hdecode
    rcases decoded with e | ops'
    · obtain ⟨rfl, rfl⟩ := hres
      simp
    · obtain ⟨rfl, rfl⟩ := hres
      simp [eq_comm]

theorem exists_pollOperations (c : ServerClient) (limit : Nat) (ops : List Operation) :
    ∃ tr, (c.pollOperations limit).run.Runs tr (.ok ops) :=
  ⟨_, Prog.Runs.bindE (runs_request.2 ⟨.ok ⟨200, "OK"⟩, rfl, rfl⟩) ⟨.ok ops, [], rfl, rfl, rfl⟩⟩

end ServerClient

namespace AdMode

variable (x : Externals) (m : AdMode)

def connectDefault (bindPw : String) : Agent LdapConnector :=
  LdapConnector.connect x m.ad.url m.ad.bindDn bindPw m.ad.baseDn m.verifyTls m.ad.useKerberos
    m.ad.passwordWriteback

/-- What is left to do after the loop. -/
def close (ldap : LdapConnector) (conns : Conns) (counters : SyncCounters) : Agent SyncCounters := do
  ExceptT.lift ldap.unbind
  ExceptT.lift (unbindAll conns)
  return counters

/-- A run of a pass. -/
inductive Pass : Trace → Except AgentError SyncCounters → Prop
  | unresolved {e : AgentError} (hpw : Config.resolve x m.ad.bindPassword = .error e) : Pass [] (.error e)
  | unbound {pw : String} {tr : Trace} {e : AgentError} (hpw : Config.resolve x m.ad.bindPassword = .ok pw)
    (hconnect : (m.connectDefault x pw).run.Runs tr (.error e)) : Pass tr (.error e)
  | unpolled {pw : String} {ldap : LdapConnector} {tr₁ tr₂ : Trace} {e : AgentError}
    (hpw : Config.resolve x m.ad.bindPassword = .ok pw)
    (hconnect : (m.connectDefault x pw).run.Runs tr₁ (.ok ldap))
    (hpoll : (m.server.pollOperations m.batch).run.Runs tr₂ (.error e)) : Pass (tr₁ ++ tr₂) (.error e)
  | stopped {pw : String} {ldap : LdapConnector} {ops : List Operation} {tr₁ tr₂ tr₃ : Trace} {e : AgentError}
    (hpw : Config.resolve x m.ad.bindPassword = .ok pw)
    (hconnect : (m.connectDefault x pw).run.Runs tr₁ (.ok ldap))
    (hpoll : (m.server.pollOperations m.batch).run.Runs tr₂ (.ok ops))
    (hdrain : Drain x m ldap ops [] {} tr₃ (.error e)) : Pass (tr₁ ++ (tr₂ ++ tr₃)) (.error e)
  | done {pw : String} {ldap : LdapConnector} {ops : List Operation} {tr₁ tr₂ tr₃ tr₄ : Trace}
    {counters : SyncCounters} {conns : Conns} {res : Except AgentError SyncCounters}
    (hpw : Config.resolve x m.ad.bindPassword = .ok pw)
    (hconnect : (m.connectDefault x pw).run.Runs tr₁ (.ok ldap))
    (hpoll : (m.server.pollOperations m.batch).run.Runs tr₂ (.ok ops))
    (hdrain : Drain x m ldap ops [] {} tr₃ (.ok (counters, conns)))
    (hclose : (close ldap conns counters).run.Runs tr₄ res) : Pass (tr₁ ++ (tr₂ ++ (tr₃ ++ tr₄))) res

/-- A run of a pass that is dropped. -/
inductive PassCut : Trace → Prop
  | connecting {pw : String} {tr : Trace} (hpw : Config.resolve x m.ad.bindPassword = .ok pw)
    (hcut : (m.connectDefault x pw).run.Cut Call.isAwait tr) : PassCut tr
  | polling {pw : String} {ldap : LdapConnector} {tr₁ tr₂ : Trace}
    (hpw : Config.resolve x m.ad.bindPassword = .ok pw)
    (hconnect : (m.connectDefault x pw).run.Runs tr₁ (.ok ldap))
    (hcut : (m.server.pollOperations m.batch).run.Cut Call.isAwait tr₂) : PassCut (tr₁ ++ tr₂)
  | draining {pw : String} {ldap : LdapConnector} {ops : List Operation} {tr₁ tr₂ tr₃ : Trace}
    (hpw : Config.resolve x m.ad.bindPassword = .ok pw)
    (hconnect : (m.connectDefault x pw).run.Runs tr₁ (.ok ldap))
    (hpoll : (m.server.pollOperations m.batch).run.Runs tr₂ (.ok ops))
    (hcut : DrainCut x m ldap ops [] {} tr₃) : PassCut (tr₁ ++ (tr₂ ++ tr₃))
  | closing {pw : String} {ldap : LdapConnector} {ops : List Operation} {tr₁ tr₂ tr₃ tr₄ : Trace}
    {counters : SyncCounters} {conns : Conns} (hpw : Config.resolve x m.ad.bindPassword = .ok pw)
    (hconnect : (m.connectDefault x pw).run.Runs tr₁ (.ok ldap))
    (hpoll : (m.server.pollOperations m.batch).run.Runs tr₂ (.ok ops))
    (hdrain : Drain x m ldap ops [] {} tr₃ (.ok (counters, conns)))
    (hcut : (close ldap conns counters).run.Cut Call.isAwait tr₄) : PassCut (tr₁ ++ (tr₂ ++ (tr₃ ++ tr₄)))

variable {x m} {tr : Trace} {res : Except AgentError SyncCounters}

theorem runOnce_eq : m.runOnce x = (liftResult (Config.resolve x m.ad.bindPassword) >>= fun pw =>
    m.connectDefault x pw >>= fun ldap => m.server.pollOperations m.batch >>= fun ops =>
      m.drain x ldap ops [] {} >>= fun p => close ldap p.2 p.1) := rfl

theorem allCalls_close (ldap : LdapConnector) (conns : Conns) (counters : SyncCounters) :
    (close ldap conns counters).run.AllCalls Call.Unbinding :=
  (allCalls_lift (Prog.allCalls_perform.2 trivial)).bindE fun _ =>
    (allCalls_lift (allCalls_unbindAll conns)).bindE fun _ => trivial

theorem eq_of_close {ldap : LdapConnector} {conns : Conns} {counters : SyncCounters}
    (h : (close ldap conns counters).run.Runs tr res) : res = .ok counters := by
  rcases Prog.runs_bindE.1 h with ⟨e, h₁, -⟩ | ⟨_, _, _, -, -, h'⟩
  · obtain ⟨_, -, ⟨⟩⟩ := runs_lift.1 h₁
  rcases Prog.runs_bindE.1 h' with ⟨e, h₂, -⟩ | ⟨_, _, _, -, -, -, hres⟩
  · obtain ⟨_, -, ⟨⟩⟩ := runs_lift.1 h₂
  · exact hres

theorem runs_runOnce : (m.runOnce x).run.Runs tr res ↔ Pass x m tr res := by
  rw [runOnce_eq]
  constructor
  · intro h
    rcases hpw : Config.resolve x m.ad.bindPassword with e | pw <;> rw [hpw] at h
    · obtain ⟨rfl, rfl⟩ := h
      exact .unresolved hpw
    rw [liftResult_ok_bind] at h
    rcases Prog.runs_bindE.1 h with ⟨e, hconnect, rfl⟩ | ⟨tr₁, tr', ldap, rfl, hconnect, hafter⟩
    · exact .unbound hpw hconnect
    rcases Prog.runs_bindE.1 hafter with ⟨e, hpoll, rfl⟩ | ⟨tr₂, tr', ops, rfl, hpoll, hafter⟩
    · exact .unpolled hpw hconnect hpoll
    rcases Prog.runs_bindE.1 hafter with ⟨e, hdrain, rfl⟩ | ⟨tr₃, tr₄, ⟨counters, conns⟩, rfl, hdrain, hclose⟩
    · exact .stopped hpw hconnect hpoll (runs_drain.1 hdrain)
    · exact .done hpw hconnect hpoll (runs_drain.1 hdrain) hclose
  · intro h
    cases h with
    | unresolved hpw => rw [hpw]; exact ⟨rfl, rfl⟩
    | unbound hpw hconnect =>
      rw [hpw, liftResult_ok_bind]
      exact Prog.runs_bindE.2 (.inl ⟨_, hconnect, rfl⟩)
    | unpolled hpw hconnect hpoll =>
      rw [hpw, liftResult_ok_bind]
      refine hconnect.bindE ?_
      exact Prog.runs_bindE.2 (.inl ⟨_, hpoll, rfl⟩)
    | stopped hpw hconnect hpoll hdrain =>
      rw [hpw, liftResult_ok_bind]
      refine hconnect.bindE (hpoll.bindE ?_)
      exact Prog.runs_bindE.2 (.inl ⟨_, runs_drain.2 hdrain, rfl⟩)
    | done hpw hconnect hpoll hdrain hclose =>
      rw [hpw, liftResult_ok_bind]
      refine hconnect.bindE (hpoll.bindE ?_)
      exact Prog.Runs.bindE (runs_drain.2 hdrain) hclose

theorem cut_runOnce (h : (m.runOnce x).run.Cut Call.isAwait tr) : PassCut x m tr := by
  rw [runOnce_eq] at h
  rcases hpw : Config.resolve x m.ad.bindPassword with e | pw <;> rw [hpw] at h
  · exact h.elim
  rw [liftResult_ok_bind] at h
  rcases Prog.cut_bindE.1 h with hcut | ⟨tr₁, tr', ldap, rfl, hconnect, hafter⟩
  · exact .connecting hpw hcut
  rcases Prog.cut_bindE.1 hafter with hcut | ⟨tr₂, tr', ops, rfl, hpoll, hafter⟩
  · exact .polling hpw hconnect hcut
  rcases Prog.cut_bindE.1 hafter with hcut | ⟨tr₃, tr₄, ⟨counters, conns⟩, rfl, hdrain, hcut⟩
  · exact .draining hpw hconnect hpoll (cut_drain hcut)
  · exact .closing hpw hconnect hpoll (runs_drain.1 hdrain) hcut

/-! ### The batch of a pass -/

theorem Drain.not_decoded {defaultLdap : LdapConnector} {ops : List Operation} {conns : Conns}
    {counters : SyncCounters} {res : Except AgentError (SyncCounters × Conns)}
    (h : Drain x m defaultLdap ops conns counters tr res) (decoded : Except String (List Operation)) :
    (⟨.decodeOperations, decoded⟩ : Event Reply) ∉ tr := by
  intro he
  rcases (m.allCalls_drain x ..).of_runs (runs_drain.2 h) _ he with ⟨op, h | h | ⟨conn, h | h⟩⟩ | h
  · cases h
  · exact h
  · cases h
  · exact h
  · exact h

/-- A pass that gets a batch connects and polls, runs the loop, and unbinds what it has opened. -/
theorem Pass.exists_drain {ops : List Operation} (h : Pass x m tr res)
    (hbatch : (⟨.decodeOperations, .ok ops⟩ : Event Reply) ∈ tr) :
    ∃ pw ldap tr₀ first loop last loopRes, Config.resolve x m.ad.bindPassword = .ok pw ∧
      (m.connectDefault x pw).run.Runs tr₀ (.ok ldap) ∧ tr = first ++ (loop ++ last) ∧
      (∀ e ∈ first, e.1.Binding ∨ e.1.Polling) ∧ Drain x m ldap ops [] {} loop loopRes ∧
      ∀ e ∈ last, e.1.Unbinding := by
  have hconnecting {pw : String} {tr : Trace} {q : Except AgentError LdapConnector}
      (hconnect : (m.connectDefault x pw).run.Runs tr q) : ∀ e ∈ tr, e.1.Binding :=
    (LdapConnector.allCalls_connect ..).of_runs hconnect
  have hfirst {pw : String} {tr₁ tr₂ : Trace} {q : Except AgentError LdapConnector}
      {q' : Except AgentError (List Operation)} (hconnect : (m.connectDefault x pw).run.Runs tr₁ q)
      (hpoll : (m.server.pollOperations m.batch).run.Runs tr₂ q') :
      ∀ e ∈ tr₁ ++ tr₂, e.1.Binding ∨ e.1.Polling := by
    intro e he
    rcases List.mem_append.1 he with he | he
    · exact .inl (hconnecting hconnect e he)
    · exact .inr ((m.server.allCalls_pollOperations _).of_runs hpoll e he)
  cases h with
  | unresolved hpw => cases hbatch
  | unbound hpw hconnect => exact (hconnecting hconnect _ hbatch).elim
  | unpolled hpw hconnect hpoll =>
    rcases List.mem_append.1 hbatch with hbatch | hbatch
    · exact (hconnecting hconnect _ hbatch).elim
    · cases (ServerClient.decoded_iff hpoll ops).1 hbatch
  | @stopped pw ldap _ tr₁ tr₂ tr₃ _ hpw hconnect hpoll hdrain =>
    rcases List.mem_append.1 hbatch with hbatch | hbatch
    · exact (hconnecting hconnect _ hbatch).elim
    rcases List.mem_append.1 hbatch with hbatch | hbatch
    · cases (ServerClient.decoded_iff hpoll ops).1 hbatch
      exact ⟨pw, ldap, tr₁, tr₁ ++ tr₂, tr₃, [], _, hpw, hconnect, by simp, hfirst hconnect hpoll, hdrain, by simp⟩
    · exact (hdrain.not_decoded _ hbatch).elim
  | @done pw ldap _ tr₁ tr₂ tr₃ tr₄ _ _ _ hpw hconnect hpoll hdrain hclose =>
    have hclosing : ∀ e ∈ tr₄, e.1.Unbinding := (allCalls_close ..).of_runs hclose
    rcases List.mem_append.1 hbatch with hbatch | hbatch
    · exact (hconnecting hconnect _ hbatch).elim
    rcases List.mem_append.1 hbatch with hbatch | hbatch
    · cases (ServerClient.decoded_iff hpoll ops).1 hbatch
      exact ⟨pw, ldap, tr₁, tr₁ ++ tr₂, tr₃, tr₄, _, hpw, hconnect, by simp, hfirst hconnect hpoll, hdrain, hclosing⟩
    rcases List.mem_append.1 hbatch with hbatch | hbatch
    · exact (hdrain.not_decoded _ hbatch).elim
    · exact (hclosing _ hbatch).elim

/-- Every run of the loop on the default connection is part of a run of a pass. -/
theorem Drain.exists_pass {pw : String} {ldap : LdapConnector} {ops : List Operation} {tr₁ loop : Trace}
    {loopRes : Except AgentError (SyncCounters × Conns)} (hpw : Config.resolve x m.ad.bindPassword = .ok pw)
    (hconnect : (m.connectDefault x pw).run.Runs tr₁ (.ok ldap)) (h : Drain x m ldap ops [] {} loop loopRes) :
    ∃ tr res, Pass x m tr res ∧ (⟨.decodeOperations, .ok ops⟩ : Event Reply) ∈ tr ∧ loop ⊆ tr := by
  obtain ⟨tr₂, hpoll⟩ := m.server.exists_pollOperations m.batch ops
  have hdecoded := (ServerClient.decoded_iff hpoll ops).2 rfl
  rcases loopRes with e | ⟨counters, conns⟩
  · refine ⟨_, _, .stopped hpw hconnect hpoll h, ?_, fun e he => ?_⟩
    · exact List.mem_append_right _ (List.mem_append_left _ hdecoded)
    · exact List.mem_append_right _ (List.mem_append_right _ he)
  · obtain ⟨tr₄, res, hclose, -⟩ := Prog.exists_runs exists_recorded (close ldap conns counters).run
    refine ⟨_, _, .done hpw hconnect hpoll h hclose, ?_, fun e he => ?_⟩
    · exact List.mem_append_right _ (List.mem_append_left _ hdecoded)
    · exact List.mem_append_right _ (List.mem_append_right _ (List.mem_append_left _ he))

end AdMode

end NexusAgent
