import NexusAgent.Pass

/-!
# The connections operations are processed on

`Uses` lists the parameters an operation of a batch can be processed with: those of the default connection,
or those that an operation for its forest gets when it is alone, be it the operation itself or one before it.
`Drain.processed`: nothing else occurs in a run of the loop; `exists_drain_on`: each of them occurs in one.
-/

namespace NexusAgent

/-- What is done for an operation on its connection. -/
def Call.Processing : Call → Prop
  | .routed .. | .add .. | .modify .. | .search .. => True
  | _ => False

namespace Call

variable {c : Call}

theorem Binding.not_processing (h : c.Binding) : ¬ c.Processing := by
  cases c <;> first | exact h.elim | exact id

theorem Polling.not_processing (h : c.Polling) : ¬ c.Processing := by
  cases c <;> first | exact h.elim | exact id

theorem Unbinding.not_processing (h : c.Unbinding) : ¬ c.Processing := by
  cases c <;> first | exact h.elim | exact id

end Call

namespace AdMode

variable (x : Externals) (m : AdMode) (defaultLdap : LdapConnector)

/-- The forest an operation is for. -/
def forest (op : Operation) : Option ForestContext :=
  op.forestContextJson.bind fun json => (x.readForest json).toOption

/-- The parameters of the connection that an operation for a forest gets alone, if it gets one. -/
def alone (op : Operation) : Option Params :=
  (forest x op).bind fun ctx => ctx.params x op.targetBaseDn m.cipher

def SameForest (a b : Operation) : Prop :=
  ∃ ca cb, forest x a = some ca ∧ forest x b = some cb ∧ ca.forestId = cb.forestId

/-- The parameters an operation can be processed with, where the default connection has the parameters `p`
and the operations `before` precede it in the batch. -/
inductive Uses (p : Params) (before : List Operation) (op : Operation) : Params → Prop
  | default (hctx : op.forestContextJson = none) : Uses p before op p
  | forest {j : Operation} {q : Params} (hj : j ∈ before ++ [op]) (hsame : SameForest x j op)
    (hq : alone x m j = some q) : Uses p before op q

/-- Every connection kept for a forest is what one of the operations `seen` gets alone. -/
def Known (seen : List Operation) (conns : Conns) : Prop :=
  ∀ id conn, conns.lookup id = some conn →
    ∃ j ∈ seen, ∃ cj, forest x j = some cj ∧ cj.forestId = id ∧ alone x m j = some conn.params

variable {x m defaultLdap} {op : Operation} {ops seen : List Operation} {conns conns' : Conns} {tr : Trace}
  {r : Except AgentError Json} {conn : LdapConnector}

theorem forest_eq_some {ctx : ForestContext} : forest x op = some ctx ↔
    ∃ json, op.forestContextJson = some json ∧ x.readForest json = .ok ctx := by
  simp only [forest, Option.bind_eq_some_iff]
  refine exists_congr fun json => and_congr_right fun _ => ?_
  rcases x.readForest json with e | ctx' <;> simp [Except.toOption]

theorem forest_eq {json : String} {ctx : ForestContext} (hctx : op.forestContextJson = some json)
    (hread : x.readForest json = .ok ctx) : forest x op = some ctx := forest_eq_some.2 ⟨json, hctx, hread⟩

theorem alone_of_connectForest {json : String} {ctx : ForestContext} (hctx : op.forestContextJson = some json)
    (hread : x.readForest json = .ok ctx)
    (h : (LdapConnector.connectForest x ctx op.targetBaseDn m.cipher m.verifyTls).run.Runs tr (.ok conn)) :
    alone x m op = some conn.params := by
  rw [alone, forest_eq hctx hread]
  exact LdapConnector.params_of_connectForest h

theorem known_nil : Known x m [] [] := fun _ _ hlookup => by cases hlookup

/-! ### What an operation is processed on -/

theorem Route.processed (h : Route x m op defaultLdap conns tr r conns') (hk : Known x m seen conns)
    {e : Event Reply} (he : e ∈ tr) (hp : e.1.Processing) : ∃ conn tr', (m.processOn x op conn).run.Runs tr' r ∧
      e ∈ tr' ∧ Uses x m defaultLdap.params seen op conn.params := by
  cases h with
  | default hctx h => exact ⟨_, _, h, he, .default hctx⟩
  | badContext hctx hread => cases he
  | @cached _ ctx conn _ _ hctx hread hconn h =>
    obtain ⟨j, hj, cj, hcj, hid, hq⟩ := hk _ _ hconn
    exact ⟨conn, _, h, he, .forest (List.mem_append_left _ hj) ⟨cj, ctx, hcj, forest_eq hctx hread, hid⟩ hq⟩
  | unreachable hctx hread hconn h =>
    exact (((LdapConnector.allCalls_connectForest ..).of_runs h _ he).not_processing hp).elim
  | @opened _ ctx conn _ _ _ hctx hread hconn hopen h =>
    rcases List.mem_append.1 he with he | he
    · exact (((LdapConnector.allCalls_connectForest ..).of_runs hopen _ he).not_processing hp).elim
    · have hf := forest_eq hctx hread
      exact ⟨conn, _, h, he, .forest (List.mem_append_right _ (List.mem_singleton_self _)) ⟨ctx, ctx, hf, hf, rfl⟩
        (alone_of_connectForest hctx hread hopen)⟩

theorem Known.mono {seen' : List Operation} (hk : Known x m seen conns) (hsub : seen ⊆ seen') :
    Known x m seen' conns := by
  intro id conn hlookup
  obtain ⟨j, hj, h⟩ := hk id conn hlookup
  exact ⟨j, hsub hj, h⟩

theorem Route.known (h : Route x m op defaultLdap conns tr r conns') (hk : Known x m seen conns) :
    Known x m (seen ++ [op]) conns' := by
  have hkeep : Known x m (seen ++ [op]) conns := hk.mono (List.subset_append_left ..)
  cases h with
  | default hctx h => exact hkeep
  | badContext hctx hread => exact hkeep
  | cached hctx hread hconn h => exact hkeep
  | unreachable hctx hread hconn h => exact hkeep
  | @opened _ ctx conn _ _ _ hctx hread hconn hopen h =>
    intro id conn' hlookup
    by_cases hid : id = ctx.forestId
    · rw [hid, List.lookup_cons_self] at hlookup
      cases hlookup
      exact ⟨op, by simp, ctx, forest_eq hctx hread, hid.symm, alone_of_connectForest hctx hread hopen⟩
    · rw [List.lookup_cons, beq_false_of_ne hid] at hlookup
      exact hkeep id conn' hlookup

theorem mem_of_opTrace {reply : Except String Status} {ans : Except AgentError Unit} {e : Event Reply}
    (he : e ∈ opTrace x m op tr r reply ans) (hp : e.1.Processing) : e ∈ tr := by
  rcases mem_opTrace.1 he with rfl | he | rfl | rfl
  · exact hp.elim
  · exact he
  · exact hp.elim
  · exact hp.elim

variable (x m) in
/-- The event belongs to an operation of the batch, processed on a connection that it can use. -/
def ProcessedIn (p : Params) (ops : List Operation) (e : Event Reply) : Prop :=
  ∃ ops₁ op ops₂ conn tr r, ops = ops₁ ++ op :: ops₂ ∧ (m.processOn x op conn).run.Runs tr r ∧ e ∈ tr ∧
    Uses x m p ops₁ op conn.params

theorem Drain.processed {counters : SyncCounters} {res : Except AgentError (SyncCounters × Conns)}
    (h : Drain x m defaultLdap ops conns counters tr res) (hk : Known x m seen conns)
    {e : Event Reply} (he : e ∈ tr) (hp : e.1.Processing) :
    ∃ ops₁ op ops₂ conn tr' r, ops = ops₁ ++ op :: ops₂ ∧ (m.processOn x op conn).run.Runs tr' r ∧ e ∈ tr' ∧
      Uses x m defaultLdap.params (seen ++ ops₁) op conn.params := by
  induction h generalizing seen with
  | nil => cases he
  | @stopped op ops _ _ _ _ r _ reply hroute =>
    obtain ⟨conn, tr', h, he, hu⟩ := hroute.processed hk (mem_of_opTrace he hp) hp
    exact ⟨[], op, ops, conn, tr', r, rfl, h, he, by rwa [List.append_nil]⟩
  | @cons op ops _ _ _ _ _ r _ reply hroute hrest ih =>
    rcases List.mem_append.1 he with he | he
    · obtain ⟨conn, tr', h, he, hu⟩ := hroute.processed hk (mem_of_opTrace he hp) hp
      exact ⟨[], op, ops, conn, tr', r, rfl, h, he, by rwa [List.append_nil]⟩
    · obtain ⟨ops₁, op', ops₂, conn, tr', r', rfl, h, he, hu⟩ := ih (hroute.known hk) he
      exact ⟨op :: ops₁, op', ops₂, conn, tr', r', rfl, h, he, by simpa using hu⟩

/-- The parameters of the default connection, if there can be one. -/
def defaultParams (x : Externals) (m : AdMode) (pw : String) : Option Params :=
  (LdapConnector.bindAuth x m.ad.useKerberos (some (m.ad.bindDn, pw))).map fun a =>
    ⟨m.ad.baseDn, urlScheme m.ad.url, some a, m.ad.passwordWriteback⟩

theorem Pass.processed {res : Except AgentError SyncCounters} (h : Pass x m tr res)
    (hbatch : (⟨.decodeOperations, .ok ops⟩ : Event Reply) ∈ tr) {e : Event Reply} (he : e ∈ tr)
    (hp : e.1.Processing) : ∃ pw p, Config.resolve x m.ad.bindPassword = .ok pw ∧ m.defaultParams x pw = some p ∧
      ProcessedIn x m p ops e := by
  obtain ⟨pw, ldap, tr₀, first, loop, last, loopRes, hpw, hconnect, rfl, hfirst, hdrain, hlast⟩ :=
    h.exists_drain hbatch
  refine ⟨pw, ldap.params, hpw, (LdapConnector.params_of_connect hconnect).2.symm, ?_⟩
  rcases List.mem_append.1 he with he | he
  · exact ((hfirst e he).elim Call.Binding.not_processing Call.Polling.not_processing hp).elim
  rcases List.mem_append.1 he with he | he
  · obtain ⟨ops₁, op, ops₂, conn, tr, r, hops, hrun, he, hu⟩ := hdrain.processed known_nil he hp
    exact ⟨ops₁, op, ops₂, conn, tr, r, hops, hrun, he, hu⟩
  · exact ((hlast e he).not_processing hp).elim

/-! ### Runs in which an operation is processed on a given connection -/

/-- After an operation the rest of the batch leaves the connections as they are. -/
theorem Route.exists_drain (h : Route x m op defaultLdap conns tr r conns') (ops : List Operation)
    (counters : SyncCounters) : ∃ tr' res, Drain x m defaultLdap (op :: ops) conns counters tr' res ∧ tr ⊆ tr' := by
  obtain ⟨tr₂, counters', hafter⟩ := AdMode.exists_drain x m defaultLdap ops conns' (count counters op r)
  have hend := hafter [] [] _ .nil
  rw [List.append_nil] at hend
  refine ⟨_, _, .cons (.error "") h hend, fun e he => List.mem_append_left _ ?_⟩
  exact mem_opTrace.2 (.inr (.inl he))

theorem exists_drain_on {ops₁ : List Operation} {p : Params} (ops₂ : List Operation)
    (hu : Uses x m defaultLdap.params ops₁ op p) :
    ∃ conn, conn.params = p ∧ ∀ tr r, (m.processOn x op conn).run.Runs tr r →
      ∃ tr' res, Drain x m defaultLdap (ops₁ ++ op :: ops₂) [] {} tr' res ∧ tr ⊆ tr' := by
  cases hu with
  | default hctx =>
    refine ⟨defaultLdap, rfl, fun tr r h => ?_⟩
    obtain ⟨tr₁, counters, hbefore⟩ := exists_drain x m defaultLdap ops₁ [] {}
    have hroute : Route x m op defaultLdap [] tr r [] := .default hctx h
    obtain ⟨tr₂, res, hop, hsub⟩ := hroute.exists_drain ops₂ counters
    exact ⟨_, res, hbefore _ _ _ hop, fun e he => List.mem_append_right _ (hsub he)⟩
  | @forest j _ hj hsame hq =>
    obtain ⟨cj, ctx, hcj, hctx, hid⟩ := hsame
    obtain ⟨jsonj, hjsonj, hreadj⟩ := forest_eq_some.1 hcj
    obtain ⟨json, hjson, hread⟩ := forest_eq_some.1 hctx
    rw [alone, hcj, Option.bind_some] at hq
    obtain ⟨tr₀, conn, hopen⟩ := LdapConnector.exists_connectForest m.verifyTls hq
    obtain rfl := Option.some.inj (hq.symm.trans (LdapConnector.params_of_connectForest hopen))
    refine ⟨conn, rfl, fun tr r h => ?_⟩
    rcases List.mem_append.1 hj with hj | hj
    · -- until `j` no forest can be reached; `j` opens the connection, and `op` finds it
      obtain ⟨opsj, opsj', rfl⟩ := List.append_of_mem hj
      obtain ⟨tr₁, counters, hbefore⟩ := exists_drain x m defaultLdap opsj [] {}
      obtain ⟨trj, rj, hrunj⟩ := exists_processOn x m j conn
      have hroutej : Route x m j defaultLdap [] (tr₀ ++ trj) rj [(cj.forestId, conn)] :=
        .opened hjsonj hreadj rfl hopen hrunj
      obtain ⟨tr₂, counters', hbetween⟩ := exists_drain x m defaultLdap opsj' [(cj.forestId, conn)]
        (count counters j rj)
      have hroute : Route x m op defaultLdap [(cj.forestId, conn)] tr r [(cj.forestId, conn)] :=
        .cached hjson hread (by rw [← hid, List.lookup_cons_self]) h
      obtain ⟨tr₃, res, hop, hsub⟩ := hroute.exists_drain ops₂ counters'
      have hrun := hbefore _ _ _ (.cons (.error "") hroutej (hbetween _ _ _ hop))
      refine ⟨_, res, by simpa using hrun, fun e he => ?_⟩
      simp only [List.mem_append]
      exact .inr (.inr (.inr (hsub he)))
    · obtain rfl := List.mem_singleton.1 hj
      obtain ⟨tr₁, counters, hbefore⟩ := exists_drain x m defaultLdap ops₁ [] {}
      have hroute : Route x m j defaultLdap [] (tr₀ ++ tr) r [(cj.forestId, conn)] :=
        .opened hjsonj hreadj rfl hopen h
      obtain ⟨tr₂, res, hop, hsub⟩ := hroute.exists_drain ops₂ counters
      refine ⟨_, res, hbefore _ _ _ hop, fun e he => ?_⟩
      exact List.mem_append_right _ (hsub (List.mem_append_right _ he))

/-- What an operation can lead to on a connection it can use, a pass can lead to. -/
theorem exists_pass_on {ops₁ : List Operation} {pw : String} {p q : Params} (ops₂ : List Operation)
    (hpw : Config.resolve x m.ad.bindPassword = .ok pw) (hp : m.defaultParams x pw = some p)
    (hu : Uses x m p ops₁ op q) : ∃ conn, conn.params = q ∧ ∀ tr r, (m.processOn x op conn).run.Runs tr r →
      ∃ tr' res, Pass x m tr' res ∧ (⟨.decodeOperations, .ok (ops₁ ++ op :: ops₂)⟩ : Event Reply) ∈ tr' ∧
        tr ⊆ tr' := by
  have hauth : LdapConnector.bindAuth x m.ad.useKerberos (some (m.ad.bindDn, pw)) ≠ none := by
    intro hnone
    rw [defaultParams, hnone] at hp
    cases hp
  obtain ⟨tr₁, ldap, hconnect⟩ : ∃ tr ldap, (m.connectDefault x pw).run.Runs tr (.ok ldap) :=
    LdapConnector.exists_connect hauth
  obtain rfl : ldap.params = p := Option.some.inj ((LdapConnector.params_of_connect hconnect).2.trans hp)
  obtain ⟨conn, hconn, hprocess⟩ := exists_drain_on ops₂ hu
  refine ⟨conn, hconn, fun tr r h => ?_⟩
  obtain ⟨loop, loopRes, hdrain, hsub⟩ := hprocess tr r h
  obtain ⟨tr', res, hpass, hbatch, hloop⟩ := hdrain.exists_pass hpw hconnect
  exact ⟨tr', res, hpass, hbatch, fun e he => hloop (hsub he)⟩

end AdMode

end NexusAgent
