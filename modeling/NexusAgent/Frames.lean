import NexusAgent.Runner

/-!
# Which calls the parts of the agent make

Binding only opens and binds connections, an operation only works on the connection it is routed to, and
neither touches the event log or the broker.
-/

namespace NexusAgent

/-- An operation on a connection. -/
def Call.On (ldap : Ldap) : Call → Prop
  | .add l .. | .modify l .. | .search l .. => l = ldap
  | _ => False

/-- Opening or binding a connection. -/
def Call.Binding : Call → Prop
  | .connect .. | .simpleBind .. | .gssapiBind .. => True
  | _ => False

/-- What is done for an operation until its outcome is there. -/
def Call.InRoute (op : Operation) (c : Call) : Prop :=
  c.Binding ∨ ∃ conn, c = .routed op conn ∨ c.On conn.ldap

/-- Fetching a batch. -/
def Call.Polling : Call → Prop
  | .send _ (.pollOperations _) | .decodeOperations => True
  | _ => False

def Call.Unbinding : Call → Prop
  | .unbind _ => True
  | _ => False

/-- Telling the broker the outcome of an operation, or recording something. -/
def Call.Reporting : Call → Prop
  | .send _ (.complete ..) | .append .. => True
  | _ => False

/-- Writing to a directory. -/
def Call.Writing : Call → Prop
  | .add .. | .modify .. => True
  | _ => False

def Call.Appending : Call → Prop
  | .append .. => True
  | _ => False

namespace Call

variable {c : Call}

theorem Appending.reporting (h : c.Appending) : c.Reporting := by
  cases c <;> first | exact h.elim | trivial

theorem Binding.not_writing (h : c.Binding) : ¬ c.Writing := by
  cases c <;> first | exact h.elim | exact id

theorem Polling.not_writing (h : c.Polling) : ¬ c.Writing := by
  cases c <;> first | exact h.elim | exact id

theorem Unbinding.not_writing (h : c.Unbinding) : ¬ c.Writing := by
  cases c <;> first | exact h.elim | exact id

theorem Binding.not_reporting (h : c.Binding) : ¬ c.Reporting := by
  cases c <;> first | exact h.elim | exact id

theorem On.not_reporting {ldap : Ldap} (h : c.On ldap) : ¬ c.Reporting := by
  cases c <;> first | exact h.elim | exact id

theorem InRoute.not_reporting {op : Operation} (h : c.InRoute op) : ¬ c.Reporting := by
  rcases h with h | ⟨conn, rfl | h⟩
  · exact h.not_reporting
  · exact id
  · exact h.not_reporting

theorem Polling.not_reporting (h : c.Polling) : ¬ c.Reporting := by
  intro hr
  cases c with
  | send _ r => cases r <;> first | exact h.elim | exact hr.elim
  | _ => first | exact h.elim | exact hr.elim

theorem Unbinding.not_reporting (h : c.Unbinding) : ¬ c.Reporting := by
  cases c <;> first | exact h.elim | exact id

end Call

section
variable {φ : Call → Prop} {α β : Type}

@[simp] theorem allCalls_pure {a : α} : (pure a : Agent α).run.AllCalls φ := trivial

@[simp] theorem allCalls_throw {e : AgentError} : (throw e : Agent α).run.AllCalls φ := trivial

@[simp] theorem allCalls_liftResult {r : Except AgentError α} : (liftResult r).run.AllCalls φ := trivial

/-- A step that asks for something and one that goes on with the answer. -/
theorem allCalls_ask {c : Call} {f : Reply c → Agent β} (hc : φ c) (hf : ∀ r, (f r).run.AllCalls φ) :
    (perform c >>= f).run.AllCalls φ := (allCalls_perform hc).bindE hf

theorem allCalls_result {r : Except AgentError α} {f : α → Agent β} (hf : ∀ a, (f a).run.AllCalls φ) :
    (liftResult r >>= f).run.AllCalls φ := Prog.AllCalls.bindE trivial hf

theorem allCalls_result_eq {r : Except AgentError α} {f : α → Agent β}
    (hf : ∀ a, r = .ok a → (f a).run.AllCalls φ) : (liftResult r >>= f).run.AllCalls φ := by
  rcases r with e | a
  · trivial
  · exact hf a rfl

theorem allCalls_reply {reply : LdapReply α} {lost rejected : String} {f : α → Agent β}
    (hf : ∀ a, (f a).run.AllCalls φ) : (reply.orFail lost rejected >>= f).run.AllCalls φ :=
  (allCalls_orFail reply).bindE hf

end

variable (x : Externals)

/-! ### Binding -/

namespace LdapConnector

theorem allCalls_openUrl (url : String) (verifyTls : Bool) : (openUrl url verifyTls).run.AllCalls Call.Binding :=
  allCalls_ask trivial fun r => by cases r <;> trivial

theorem allCalls_bindReply (ldap : Ldap) (auth : Auth) (reply : LdapReply Unit) (lost rejected : String) :
    (bindReply ldap auth reply lost rejected).run.AllCalls Call.Binding :=
  allCalls_reply fun _ => trivial

theorem allCalls_simpleBind (ldap : Ldap) (dn pw what : String) :
    (simpleBind ldap dn pw what).run.AllCalls Call.Binding :=
  allCalls_ask trivial fun _ => allCalls_bindReply ..

theorem allCalls_kerberosBind (ldap : Ldap) (url : String) :
    (kerberosBind x ldap url).run.AllCalls Call.Binding := by
  unfold kerberosBind
  split
  · exact allCalls_ask trivial fun _ => allCalls_bindReply ..
  · trivial

theorem allCalls_connect (url bindDn bindPassword baseDn : String)
    (verifyTls useKerberos passwordWriteback : Bool) :
    (connect x url bindDn bindPassword baseDn verifyTls useKerberos passwordWriteback).run.AllCalls
      Call.Binding := by
  refine (allCalls_openUrl ..).bindE fun ldap => ?_
  split
  · exact (allCalls_kerberosBind ..).bindE fun _ => trivial
  · exact (allCalls_simpleBind ..).bindE fun _ => trivial

end LdapConnector

namespace ForestContext

theorem allCalls_bindHost (ctx : ForestContext) (cipher : Cipher) (verifyTls : Bool) (host : String) :
    (ctx.bindHost x cipher verifyTls host).run.AllCalls Call.Binding := by
  refine (LdapConnector.allCalls_openUrl ..).bindE fun ldap => ?_
  split
  · exact LdapConnector.allCalls_kerberosBind ..
  · exact allCalls_result fun _ => LdapConnector.allCalls_simpleBind ..

theorem allCalls_bindHosts (ctx : ForestContext) (cipher : Cipher) (verifyTls : Bool) (hosts : List String)
    (lastErr : Option AgentError) : (ctx.bindHosts x cipher verifyTls hosts lastErr).run.AllCalls Call.Binding := by
  induction hosts generalizing lastErr with
  | nil => trivial
  | cons host hosts ih =>
    refine (allCalls_lift (allCalls_bindHost ..)).bindE fun r => ?_
    rcases r with e | ldap
    · exact ih _
    · trivial

end ForestContext

namespace LdapConnector

theorem allCalls_connectForest (ctx : ForestContext) (target : Option String) (cipher : Cipher)
    (verifyTls : Bool) : (connectForest x ctx target cipher verifyTls).run.AllCalls Call.Binding := by
  unfold connectForest
  split
  · trivial
  · exact (ctx.allCalls_bindHosts ..).bindE fun _ => trivial

/-! ### Operations -/

variable (c : LdapConnector)

theorem allCalls_setPassword (dn password : String) : (c.setPassword dn password).run.AllCalls (Call.On c.ldap) :=
  allCalls_ask rfl fun r => allCalls_orFail r

theorem allCalls_createAccount (attributes : SortedMap String String) (pw : Option String) :
    (c.createAccount attributes pw).run.AllCalls (Call.On c.ldap) := by
  unfold createAccount
  split
  · trivial
  · refine allCalls_ask rfl fun r => allCalls_reply fun _ => ?_
    split
    · exact (allCalls_setPassword ..).bindE fun _ => trivial
    · trivial

theorem allCalls_findDn (email : String) : (c.findDn email).run.AllCalls (Call.On c.ldap) :=
  allCalls_ask rfl fun _ => allCalls_reply fun entries => by cases entries <;> trivial

theorem allCalls_setUac (email uac : String) : (c.setUac email uac).run.AllCalls (Call.On c.ldap) :=
  (allCalls_findDn ..).bindE fun _ => allCalls_ask rfl fun _ => allCalls_reply fun _ => trivial

theorem allCalls_updateAttributes (email : String) (attributes : SortedMap String String) :
    (c.updateAttributes email attributes).run.AllCalls (Call.On c.ldap) := by
  refine (allCalls_findDn ..).bindE fun dn => ?_
  split
  · exact allCalls_ask rfl fun _ => allCalls_reply fun _ => trivial
  · trivial

theorem allCalls_testBase : c.testBase.run.AllCalls (Call.On c.ldap) :=
  allCalls_ask rfl fun _ => allCalls_reply fun _ => trivial

theorem allCalls_searchUsers (baseDn filter : String) :
    (c.searchUsers baseDn filter).run.AllCalls (Call.On c.ldap) :=
  allCalls_ask rfl fun _ => allCalls_reply fun _ => trivial

end LdapConnector

/-! ### The broker -/

namespace ServerClient

variable (c : ServerClient)

theorem allCalls_new (baseUrl agentToken agentId : String) (verifyTls : Bool) :
    (new baseUrl agentToken agentId verifyTls).run.AllCalls (· = .buildClient verifyTls) :=
  allCalls_ask rfl fun r => by cases r <;> trivial

theorem allCalls_request (r : Request) (what refused : String) :
    (c.request r what refused).run.AllCalls (· = .send c r) := by
  refine allCalls_ask rfl fun reply => ?_
  rcases reply with e | status
  · trivial
  · simp only
    split <;> trivial

theorem allCalls_notify (r : Request) : (c.notify r).AllCalls (· = .send c r) :=
  ⟨rfl, fun _ => trivial⟩

theorem allCalls_fetchConfig :
    c.fetchConfig.run.AllCalls fun call => call = .send c .fetchConfig ∨ call = .decodeConfig := by
  refine ((c.allCalls_request ..).mono fun _ => .inl).bindE fun _ => allCalls_ask (.inr rfl) fun reply => ?_
  rcases reply with e | remote <;> trivial

theorem allCalls_pollOperations (limit : Nat) : (c.pollOperations limit).run.AllCalls Call.Polling := by
  refine ((c.allCalls_request ..).mono fun call h => ?_).bindE fun _ => allCalls_ask trivial fun reply => ?_
  · rw [h]; trivial
  · rcases reply with e | ops <;> trivial

end ServerClient

/-! ### A pass -/

namespace AdMode

variable (m : AdMode)

theorem allCalls_process (op : Operation) (ldap : LdapConnector) :
    (m.process x op ldap).run.AllCalls (Call.On ldap.ldap) := by
  unfold process
  split
  · exact allCalls_result fun _ => allCalls_result fun _ => (ldap.allCalls_createAccount ..).bindE fun _ => trivial
  · exact allCalls_result fun _ => (ldap.allCalls_setUac ..).bindE fun _ => trivial
  · exact allCalls_result fun _ => (ldap.allCalls_setUac ..).bindE fun _ => trivial
  · exact allCalls_result fun _ => allCalls_result fun _ => (ldap.allCalls_updateAttributes ..).bindE fun _ => trivial
  · exact (ldap.allCalls_testBase ..).bindE fun _ => trivial
  · exact allCalls_result fun _ => allCalls_result fun _ => (ldap.allCalls_searchUsers ..).bindE fun _ => trivial
  · trivial

theorem allCalls_processOn (op : Operation) (ldap : LdapConnector) :
    (m.processOn x op ldap).run.AllCalls fun c => c = .routed op ldap ∨ c.On ldap.ldap :=
  allCalls_ask (.inl rfl) fun _ => (m.allCalls_process ..).mono fun _ => .inr

theorem allCalls_routeAndProcess (op : Operation) (defaultLdap : LdapConnector) (conns : Conns) :
    (m.routeAndProcess x op defaultLdap conns).AllCalls (Call.InRoute op) := by
  have hprocess (conn : LdapConnector) : (m.processOn x op conn).run.AllCalls (Call.InRoute op) :=
    (m.allCalls_processOn x op conn).mono fun _ h => .inr ⟨conn, h⟩
  unfold routeAndProcess
  split
  · exact (hprocess _).bind fun _ => trivial
  split
  · trivial
  split
  · exact (hprocess _).bind fun _ => trivial
  · refine ((LdapConnector.allCalls_connectForest ..).mono fun _ => .inl).bind fun r => ?_
    rcases r with e | conn
    · trivial
    · exact (hprocess _).bind fun _ => trivial

theorem allCalls_report (op : Operation) (r : Except AgentError Json) :
    (m.report x op r).run.AllCalls Call.Reporting := by
  unfold report
  rcases r with e | detail
  all_goals
    refine (allCalls_lift ((m.server.allCalls_request ..).mono fun c h => ?_)).bindE fun _ =>
      allCalls_ask trivial fun _ => allCalls_liftResult
    rw [h]; trivial

theorem allCalls_drain (defaultLdap : LdapConnector) (ops : List Operation) (conns : Conns)
    (counters : SyncCounters) : (m.drain x defaultLdap ops conns counters).run.AllCalls fun c =>
      (∃ op, c = .started op ∨ c.InRoute op) ∨ c.Reporting := by
  induction ops generalizing conns counters with
  | nil => trivial
  | cons op ops ih =>
    refine allCalls_ask (.inl ⟨op, .inl rfl⟩) fun _ => Prog.AllCalls.bindE ?_ fun p => ?_
    · exact allCalls_lift ((m.allCalls_routeAndProcess ..).mono fun _ h => .inl ⟨op, .inr h⟩)
    · exact ((m.allCalls_report ..).mono fun _ => .inr).bindE fun _ => ih ..

theorem allCalls_unbindAll (conns : Conns) : (unbindAll conns).AllCalls Call.Unbinding := by
  induction conns with
  | nil => trivial
  | cons conn conns ih => exact ⟨trivial, fun _ => ih⟩

end AdMode

end NexusAgent
