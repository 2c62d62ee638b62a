import NexusAgent.Pass

/-!
# What becomes of a claimed batch

`poll_operations` claims the whole batch at the broker. `completed_once_iff`: every operation of it is passed
to `complete`, once and in the order of the batch, exactly if no record before the last one's fails to be
written.
-/

namespace NexusAgent

/-- The operations passed to `complete`, by their ids. -/
def completed (tr : Trace) : List String :=
  tr.filterMap fun
    | ⟨.send _ (.complete opId ..), _⟩ => some opId
    | _ => none

/-- What came of the records, in the order in which they were appended. -/
def appendAnswers (tr : Trace) : List (Except AgentError Unit) :=
  tr.filterMap fun
    | ⟨.append .., answer⟩ => some answer
    | _ => none

section
variable {tr tr' : Trace}

@[simp] theorem completed_append : completed (tr ++ tr') = completed tr ++ completed tr' :=
  List.filterMap_append

@[simp] theorem appendAnswers_append : appendAnswers (tr ++ tr') = appendAnswers tr ++ appendAnswers tr' :=
  List.filterMap_append

theorem completed_eq_nil (h : ∀ e ∈ tr, ¬ e.1.Reporting) : completed tr = [] := by
  refine List.filterMap_eq_nil_iff.2 fun e he => ?_
  split
  · exact (h _ he trivial).elim
  · rfl

theorem appendAnswers_eq_nil (h : ∀ e ∈ tr, ¬ e.1.Reporting) : appendAnswers tr = [] := by
  refine List.filterMap_eq_nil_iff.2 fun e he => ?_
  split
  · exact (h _ he trivial).elim
  · rfl

end

namespace AdMode

variable {x : Externals} {m : AdMode} {op : Operation} {ops : List Operation} {defaultLdap : LdapConnector}
  {conns conns' : Conns} {counters : SyncCounters} {tr : Trace} {r : Except AgentError Json}
  {reply : Except String Status} {ans : Except AgentError Unit}

theorem Route.not_reporting (h : Route x m op defaultLdap conns tr r conns') : ∀ e ∈ tr, ¬ e.1.Reporting :=
  fun e he => ((m.allCalls_routeAndProcess ..).of_runs (runs_routeAndProcess.2 h) e he).not_reporting

theorem completed_opTrace (h : Route x m op defaultLdap conns tr r conns') :
    completed (opTrace x m op tr r reply ans) = [op.id] := by
  rw [opTrace, ← List.singleton_append, completed_append, completed_append, completed_eq_nil h.not_reporting]
  rcases r with e | detail <;> rfl

theorem appendAnswers_opTrace (h : Route x m op defaultLdap conns tr r conns') :
    appendAnswers (opTrace x m op tr r reply ans) = [ans] := by
  rw [opTrace, ← List.singleton_append, appendAnswers_append, appendAnswers_append,
    appendAnswers_eq_nil h.not_reporting]
  rfl

theorem Drain.completed_iff (answers : Nat → Except AgentError Unit)
    {res : Except AgentError (SyncCounters × Conns)} (h : Drain x m defaultLdap ops conns counters tr res)
    (ha : ∀ i a, (appendAnswers tr)[i]? = some a → a = answers i) :
    completed tr = ops.map Operation.id ↔ ∀ i, i + 1 < ops.length → answers i = .ok () := by
  induction h generalizing answers with
  | nil => simp [completed]
  | @stopped op ops _ _ _ _ _ e _ hroute =>
    have h0 : answers 0 = .error e := (ha 0 _ (by rw [appendAnswers_opTrace hroute]; rfl)).symm
    rw [completed_opTrace hroute]
    rcases ops with _ | ⟨op', ops⟩
    · simp
    · simp only [List.map_cons, List.cons.injEq, true_and, reduceCtorEq, false_iff]
      intro hok
      have := hok 0 (by simp)
      rw [h0] at this
      cases this
  | @cons op ops _ _ _ _ _ _ _ _ hroute hrest ih =>
    rw [appendAnswers_append, appendAnswers_opTrace hroute] at ha
    have h0 : answers 0 = .ok () := (ha 0 _ rfl).symm
    have hrest := ih (fun i => answers (i + 1)) fun i a hi => ha (i + 1) a hi
    rw [completed_append, completed_opTrace hroute, List.singleton_append, List.map_cons, List.cons.injEq, hrest]
    constructor
    · rintro ⟨-, hok⟩ i hi
      rcases i with _ | i
      · exact h0
      · exact hok i (by simpa using hi)
    · exact fun hok => ⟨rfl, fun i hi => hok (i + 1) (by simpa using hi)⟩

/-- The loop can stop at any operation, because its record cannot be written. -/
theorem exists_drain_stopped (x : Externals) (m : AdMode) (defaultLdap : LdapConnector) (before : List Operation)
    (op : Operation) (after : List Operation) (e : AgentError) (conns : Conns) (counters : SyncCounters) :
    ∃ tr, Drain x m defaultLdap (before ++ op :: after) conns counters tr (.error e) ∧
      completed tr = (before ++ [op]).map Operation.id ∧
      appendAnswers tr = before.map (fun _ => .ok ()) ++ [.error e] := by
  induction before generalizing counters with
  | nil =>
    obtain ⟨tr, r, hroute⟩ := exists_route x m defaultLdap op conns
    exact ⟨_, .stopped (.error "") hroute, completed_opTrace hroute, appendAnswers_opTrace hroute⟩
  | cons first before ih =>
    obtain ⟨tr₁, r, hroute⟩ := exists_route x m defaultLdap first conns
    obtain ⟨tr₂, hdrain, hcompleted, happend⟩ := ih (count counters first r)
    refine ⟨_, .cons (.error "") hroute hdrain, ?_, ?_⟩
    · rw [completed_append, completed_opTrace hroute, hcompleted]
      rfl
    · rw [appendAnswers_append, appendAnswers_opTrace hroute, happend]
      rfl

theorem exists_stopped (before : List Operation) (op : Operation) (after : List Operation) (e : AgentError) :
    ∃ (m : AdMode) (tr : Trace), (m.runOnce .plain).run.Runs tr (.error e) ∧
      (⟨.decodeOperations, .ok (before ++ op :: after)⟩ : Event Reply) ∈ tr ∧
      completed tr = (before ++ [op]).map Operation.id ∧
      appendAnswers tr = before.map (fun _ => .ok ()) ++ [.error e] := by
  let m : AdMode := ⟨⟨"https://broker", "token", "agent-1"⟩, ⟨"ldaps://dc", "CN=agent", "pw", "DC=corp", false, false⟩,
    .zero "local-default", true, 25⟩
  obtain ⟨tr₁, ldap, hconnect⟩ : ∃ tr ldap, (m.connectDefault .plain "pw").run.Runs tr (.ok ldap) :=
    LdapConnector.exists_connect (by simp [LdapConnector.bindAuth, m])
  obtain ⟨tr₂, hpoll⟩ := m.server.exists_pollOperations m.batch (before ++ op :: after)
  obtain ⟨tr₃, hdrain, hcompleted, happend⟩ := exists_drain_stopped .plain m ldap before op after e [] {}
  have hpw : Config.resolve .plain "pw" = .ok "pw" := rfl
  have hpass : Pass .plain m _ (.error e) := .stopped hpw hconnect hpoll hdrain
  have hfirst : ∀ e ∈ tr₁ ++ tr₂, ¬ e.1.Reporting := by
    intro e he
    rcases List.mem_append.1 he with he | he
    · exact ((LdapConnector.allCalls_connect ..).of_runs hconnect e he).not_reporting
    · exact ((m.server.allCalls_pollOperations _).of_runs hpoll e he).not_reporting
  refine ⟨m, _, runs_runOnce.2 hpass, ?_, ?_, ?_⟩
  · exact List.mem_append_right _ (List.mem_append_left _ ((ServerClient.decoded_iff hpoll _).2 rfl))
  · rw [← List.append_assoc, completed_append, completed_eq_nil hfirst, hcompleted, List.nil_append]
  · rw [← List.append_assoc, appendAnswers_append, appendAnswers_eq_nil hfirst, happend, List.nil_append]

/-- The operations of a batch of two. -/
def leaver (id email : String) : Operation :=
  ⟨id, "DISABLE_ACCOUNT", id, some email, none, none, none, none, none⟩

/-- Where the records get `answers`, every operation of the batch is completed, once and in order, exactly if
no answer before the last operation's is an error. -/
theorem completed_once_iff (answers : Nat → Except AgentError Unit) {res : Except AgentError SyncCounters}
    (h : (m.runOnce x).run.Runs tr res) (hbatch : (⟨.decodeOperations, .ok ops⟩ : Event Reply) ∈ tr)
    (ha : ∀ i a, (appendAnswers tr)[i]? = some a → a = answers i) :
    completed tr = ops.map Operation.id ↔ ∀ i, i + 1 < ops.length → answers i = .ok () := by
  obtain ⟨_, ldap, _, first, loop, last, loopRes, -, -, rfl, hbegin, hdrain, hend⟩ :=
    (runs_runOnce.1 h).exists_drain hbatch
  have hfirst : ∀ e ∈ first, ¬ e.1.Reporting := fun e he =>
    (hbegin e he).elim Call.Binding.not_reporting Call.Polling.not_reporting
  have hlast : ∀ e ∈ last, ¬ e.1.Reporting := fun e he => (hend e he).not_reporting
  simp only [appendAnswers_append, appendAnswers_eq_nil hfirst, appendAnswers_eq_nil hlast, List.nil_append,
    List.append_nil] at ha
  simp only [completed_append, completed_eq_nil hfirst, completed_eq_nil hlast, List.nil_append, List.append_nil]
  exact hdrain.completed_iff answers ha

/-- Where only the record of the last operation cannot be written, both are completed. -/
theorem completed_once_last : ∃ (m : AdMode) (tr : Trace) (e : AgentError), (m.runOnce .plain).run.Runs tr (.error e) ∧
    (⟨.decodeOperations, .ok [leaver "1" "leaver@corp", leaver "2" "other@corp"]⟩ : Event Reply) ∈ tr ∧
      appendAnswers tr = [.ok (), .error e] ∧ completed tr = ["1", "2"] := by
  let full : AgentError := .io (.other "No space left on device")
  obtain ⟨m, tr, h, hbatch, -, happend⟩ := exists_stopped [leaver "1" "leaver@corp"] (leaver "2" "other@corp") [] full
  refine ⟨m, tr, full, h, hbatch, happend, ?_⟩
  let answers : Nat → Except AgentError Unit := fun i => if i = 0 then .ok () else .error full
  refine (completed_once_iff answers h hbatch fun i a hi => ?_).2 fun i hi => ?_
  · rw [happend] at hi
    rcases i with _ | _ | i
    · exact (Option.some.inj hi).symm
    · exact (Option.some.inj hi).symm
    · cases hi
  · obtain rfl : i = 0 := by
      simp only [List.length_append, List.length_cons, List.length_nil] at hi
      omega
    rfl

/-- Operations after one whose record cannot be written are claimed and never completed. -/
theorem stranded_by_append_error : ∃ (m : AdMode) (tr : Trace) (res : Except AgentError SyncCounters),
    (m.runOnce .plain).run.Runs tr res ∧
      (⟨.decodeOperations, .ok [leaver "1" "leaver@corp", leaver "2" "other@corp"]⟩ : Event Reply) ∈ tr ∧
      completed tr = ["1"] := by
  obtain ⟨m, tr, h, hbatch, hcompleted, -⟩ := exists_stopped [] (leaver "1" "leaver@corp")
    [leaver "2" "other@corp"] (.io (.other "No space left on device"))
  exact ⟨m, tr, _, h, hbatch, hcompleted⟩

end AdMode

end NexusAgent
