import NexusAgent.Routing

/-!
# The connections of a batch

A connection is kept under the id of its forest, with the parameters of the operation that opened it.
`independent_iff`: every operation for a forest is processed with the parameters it gets when it is alone
exactly if any two operations for one forest, of which the first can be connected, have the same ones.
-/

namespace NexusAgent

namespace AdMode

variable (x : Externals) (m : AdMode) (defaultLdap : LdapConnector)

/-- In every run of the loop, an operation for a forest is processed with the parameters it gets alone. -/
def Independent (ops : List Operation) : Prop :=
  ∀ (tr : Trace) (res : Except AgentError (SyncCounters × Conns)),
    (m.drain x defaultLdap ops [] {}).run.Runs tr res → ∀ (op : Operation) (conn : LdapConnector),
      (⟨.routed op conn, ()⟩ : Event Reply) ∈ tr → op.forestContextJson ≠ none → alone x m op = some conn.params

/-- If both are for one forest, the second gets alone what the first gets, if that gets anything. -/
def SameParams (a b : Operation) : Prop :=
  ∀ ca cb, forest x a = some ca → forest x b = some cb → ca.forestId = cb.forestId →
    ∀ p, alone x m a = some p → alone x m b = some p

variable {x m defaultLdap} {op : Operation} {ops : List Operation} {tr : Trace} {r : Except AgentError Json}
  {conn : LdapConnector}

theorem routed_of_processOn {op' : Operation} {conn' : LdapConnector}
    (h : (m.processOn x op conn).run.Runs tr r) (he : (⟨.routed op' conn', ()⟩ : Event Reply) ∈ tr) :
    op' = op ∧ conn' = conn := by
  rcases (allCalls_processOn x m op conn).of_runs h _ he with h | h
  · cases h; exact ⟨rfl, rfl⟩
  · exact h.elim

theorem routed_mem_processOn (h : (m.processOn x op conn).run.Runs tr r) :
    (⟨.routed op conn, ()⟩ : Event Reply) ∈ tr := by
  obtain ⟨_, _, rfl, -⟩ := runs_ask.1 h
  exact List.mem_cons_self ..

/-- What an operation before it opens for its forest, an operation can be processed on. -/
theorem Independent.sameParams {a b : Operation} (ops₁ ops₂ ops₃ : List Operation)
    (h : Independent x m defaultLdap (ops₁ ++ a :: (ops₂ ++ b :: ops₃))) : SameParams x m a b := by
  intro ca cb ha hb hid p hp
  have huses : Uses x m defaultLdap.params (ops₁ ++ a :: ops₂) b p := .forest (by simp) ⟨ca, cb, ha, hb, hid⟩ hp
  obtain ⟨conn, rfl, hprocess⟩ := exists_drain_on ops₃ huses
  obtain ⟨tr', r, hrun⟩ := exists_processOn x m b conn
  obtain ⟨tr, res, hdrain, hsub⟩ := hprocess tr' r hrun
  obtain ⟨json, hjson, -⟩ := forest_eq_some.1 hb
  rw [List.append_assoc, List.cons_append] at hdrain
  exact h tr res (runs_drain.2 hdrain) b conn (hsub (routed_mem_processOn hrun)) (by rw [hjson]; simp)

/-- What an operation is processed on is what it gets alone, if no two of one forest differ. -/
theorem Uses.alone_eq {p q : Params} {before : List Operation} (h : Uses x m p before op q)
    (hf : op.forestContextJson ≠ none) (hp : ∀ j ∈ before, SameParams x m j op) : alone x m op = some q := by
  cases h with
  | default hctx => exact absurd hctx hf
  | @forest j _ hj hsame hq =>
    rcases List.mem_append.1 hj with hj | hj
    · obtain ⟨cj, ctx, hcj, hctx, hid⟩ := hsame
      exact hp j hj cj ctx hcj hctx hid q hq
    · rwa [← List.mem_singleton.1 hj]

/-- The operations of a batch are processed as if they were alone exactly if no two of one forest differ. -/
theorem independent_iff (ops : List Operation) :
    Independent x m defaultLdap ops ↔ ops.Pairwise (SameParams x m) := by
  constructor
  · intro h
    refine List.pairwise_iff_forall_sublist.2 fun {a b} hab => ?_
    obtain ⟨l₁, l₂, rfl, ha, hb⟩ := List.cons_sublist_iff.1 hab
    obtain ⟨ops₁, ops₂, rfl⟩ := List.append_of_mem ha
    obtain ⟨ops₃, ops₄, rfl⟩ := List.append_of_mem (List.singleton_sublist.1 hb)
    refine Independent.sameParams ops₁ (ops₂ ++ ops₃) ops₄ (by simpa using h)
  · intro hp tr res h op conn he hf
    obtain ⟨ops₁, op', ops₂, conn', tr', r, rfl, hrun, he', hu⟩ :=
      (runs_drain.1 h).processed known_nil he trivial
    obtain ⟨rfl, rfl⟩ := routed_of_processOn hrun he'
    have hbefore := (List.pairwise_append.1 hp).2.2
    exact hu.alone_eq hf fun j hj => hbefore j (by simpa using hj) op (List.mem_cons_self ..)

/-- Of two operations for one forest, the second is processed on the search base of the first. -/
theorem not_independent_of_targets : ∃ (x : Externals) (m : AdMode) (ldap : LdapConnector) (a b : Operation),
    a.forestContextJson = b.forestContextJson ∧ a.targetBaseDn = some "OU=Sales,DC=corp" ∧
      b.targetBaseDn = some "OU=Staff,DC=corp" ∧ ¬ Independent x m ldap [a, b] := by
  let ctx : ForestContext := ⟨"f1", "DC=corp", none, ["dc1"], "SASL_KERBEROS", true, none, none, true, false⟩
  let json : String := "\x7b\"forestId\":\"f1\",\"rootDn\":\"DC=corp\",\"servers\":[\"dc1\"]," ++
    "\"authType\":\"SASL_KERBEROS\",\"useGmsa\":true,\"useTls\":true\x7d"
  let x : Externals := .reading (fun _ => .ok .empty)
    (fun s => if s = json then .ok ctx else .error "expected value at line 1 column 1") true
  let m : AdMode := ⟨⟨"", "", ""⟩, ⟨"", "", "", "", false, false⟩, ⟨List.replicate 32 0, rfl, ""⟩, true, 25⟩
  let op (id base : String) : Operation :=
    ⟨id, "TEST_CONNECTION", "7", none, none, none, none, some base, some json⟩
  have hx : x.readForest json = .ok ctx := by simp only [x, Externals.reading, if_true]
  have hread (id base : String) : forest x (op id base) = some ctx := forest_eq rfl hx
  have halone (id base : String) (hbase : (nonEmpty (some base)).getD ctx.rootDn = base) :
      alone x m (op id base) = some ⟨base, "ldaps", some .kerberos, true⟩ := by
    rw [alone, hread]
    exact congrArg (fun b => some (Params.mk b "ldaps" (some .kerberos) true)) hbase
  refine ⟨x, m, ⟨⟨"ldaps://dc", some .kerberos⟩, "DC=corp", true⟩, op "1" "OU=Sales,DC=corp",
    op "2" "OU=Staff,DC=corp", rfl, rfl, rfl, fun h => ?_⟩
  have hsame := Independent.sameParams (a := op "1" "OU=Sales,DC=corp") (b := op "2" "OU=Staff,DC=corp") [] [] [] h
    ctx ctx (hread ..) (hread ..) rfl _ (halone "1" "OU=Sales,DC=corp" (by decide))
  rw [halone "2" "OU=Staff,DC=corp" (by decide)] at hsame
  revert hsame
  decide

end AdMode

end NexusAgent
