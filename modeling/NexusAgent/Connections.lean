import NexusAgent.Cycle
import NexusAgent.Rules

/-!
# The connections of a run

`Sockets` keeps book of the connections to directories: the one that has been opened last and is not bound, and
those that are bound and not unbound. `connections_in_order`: in every run of the service an operation goes out
on a connection that is bound, each connection is unbound at most once, and when a pass is summarised, or the
agent sleeps or calls the broker outside a pass, none is left.
-/

namespace NexusAgent

/-- The connections that are open. -/
structure Sockets where
  opened : Option Ldap := none
  bound : List Ldap := []

namespace Sockets

def bind (s : Sockets) (ldap : Ldap) (auth : Auth) : LdapReply Unit → Sockets
  | .ok () => ⟨none, { ldap with auth := some auth } :: s.bound⟩
  | _ => { s with opened := none }

/-- The connections after an event. A pass that fails drops its connections, and so does one that is dropped. -/
def next (s : Sockets) : Event Reply → Sockets
  | ⟨.connect url _, .ok ()⟩ => { s with opened := some ⟨url, none⟩ }
  | ⟨.connect _ _, .error _⟩ => { s with opened := none }
  | ⟨.simpleBind ldap dn pw, reply⟩ => s.bind ldap (.simple dn pw) reply
  | ⟨.gssapiBind ldap _, reply⟩ => s.bind ldap .kerberos reply
  | ⟨.unbind ldap, _⟩ => { s with bound := s.bound.erase ldap }
  | ⟨.append event _, _⟩ => if event = "RUN_ERROR" then {} else s
  | ⟨.send _ (.disconnect _), _⟩ => {}
  | _ => s

/-- The calls that may be made with these connections open. -/
def May (s : Sockets) : Call → Prop
  | .simpleBind ldap _ _ | .gssapiBind ldap _ => s.opened = some ldap
  | .routed _ conn => conn.ldap ∈ s.bound
  | .add ldap .. | .modify ldap .. | .search ldap .. | .unbind ldap => ldap ∈ s.bound
  | .append event _ => event = "SYNC_SUMMARY" → s.bound = []
  | .send _ .fetchConfig | .send _ (.heartbeat ..) | .send _ (.reportRun ..) | .sleep _ => s.bound = []
  | .dbConnect _ | .dbFetch _ | .dbExecute .. => s.bound = []
  | _ => True

def contract : Contract Reply Sockets := .monitor May next

variable {s : Sockets} {e : Event Reply} {x : Externals}

/-! ### Binding -/

/-- The connection that a bind has returned is the one that is bound last. -/
def Gained (bound : List Ldap) : Except AgentError Ldap → Sockets → Prop
  | .ok ldap, s => s.bound = ldap :: bound
  | .error _, s => s.bound = bound

theorem wp_openUrl (url : String) (verifyTls : Bool) : (LdapConnector.openUrl url verifyTls).run.wp contract
    (fun r s' => s'.bound = s.bound ∧ ∀ ldap, r = .ok ldap → s'.opened = some ldap) s := by
  refine (wp_ask_result (g := LdapConnector.opened url) fun reply => by rcases reply with e | _ <;> rfl).2 ⟨trivial, ?_⟩
  rintro reply s' rfl
  rcases reply with e | _
  · exact ⟨rfl, nofun⟩
  · refine ⟨rfl, ?_⟩
    rintro _ ⟨⟩
    rfl

theorem gained_bind (ldap : Ldap) (auth : Auth) (reply : LdapReply Unit) (lost rejected : String) :
    Gained s.bound (LdapConnector.bound ldap auth lost rejected reply) (s.bind ldap auth reply) := by
  rcases reply with e | e | _ <;> rfl

theorem wp_simpleBind {ldap : Ldap} (dn pw what : String) (hopen : s.opened = some ldap) :
    (LdapConnector.simpleBind ldap dn pw what).run.wp contract (Gained s.bound) s := by
  refine (wp_ask_result (c := .simpleBind ldap dn pw) fun reply => LdapConnector.bindReply_eq reply).2 ⟨hopen, ?_⟩
  rintro reply _ rfl
  exact gained_bind ldap _ reply ..

theorem wp_kerberosBind {ldap : Ldap} (url : String) (hopen : s.opened = some ldap) :
    (LdapConnector.kerberosBind x ldap url).run.wp contract (Gained s.bound) s := by
  unfold LdapConnector.kerberosBind
  split
  · refine (wp_ask_result (c := .gssapiBind ldap _) fun reply => LdapConnector.bindReply_eq reply).2 ⟨hopen, ?_⟩
    rintro reply _ rfl
    exact gained_bind ldap _ reply ..
  · rfl

/-- A connection of the connector, once it is there. -/
def Connected (bound : List Ldap) : Except AgentError LdapConnector → Sockets → Prop
  | .ok conn, s => s.bound = conn.ldap :: bound
  | .error _, s => s.bound = bound

theorem wp_connect (url bindDn bindPassword baseDn : String) (verifyTls useKerberos passwordWriteback : Bool) :
    (LdapConnector.connect x url bindDn bindPassword baseDn verifyTls useKerberos passwordWriteback).run.wp contract
      (Connected s.bound) s := by
  refine (wp_openUrl url verifyTls).bindE (fun e s₁ h => h.1) fun ldap s₁ ⟨hbound, hopen⟩ => ?_
  have hopen := hopen ldap rfl
  rw [← hbound]
  split
  · exact (wp_kerberosBind url hopen).bindE (fun _ _ h => h) fun _ _ h => h
  · exact (wp_simpleBind bindDn bindPassword "bind" hopen).bindE (fun _ _ h => h) fun _ _ h => h

theorem wp_bindHost (ctx : ForestContext) (cipher : Cipher) (verifyTls : Bool) (host : String) :
    (ctx.bindHost x cipher verifyTls host).run.wp contract (Gained s.bound) s := by
  refine (wp_openUrl (ctx.url host) verifyTls).bindE (fun e s₁ h => h.1) fun ldap s₁ ⟨hbound, hopen⟩ => ?_
  have hopen := hopen ldap rfl
  rw [← hbound]
  split
  · exact wp_kerberosBind _ hopen
  · exact wp_result_bind (fun _ _ => rfl) fun _ _ => wp_simpleBind _ _ _ hopen

theorem wp_bindHosts (ctx : ForestContext) (cipher : Cipher) (verifyTls : Bool) (hosts : List String)
    (lastErr : Option AgentError) :
    (ctx.bindHosts x cipher verifyTls hosts lastErr).run.wp contract (Gained s.bound) s := by
  induction hosts generalizing s lastErr with
  | nil => rfl
  | cons host hosts ih =>
    refine wp_lift_bind (wp_bindHost ctx cipher verifyTls host) fun r s₁ h => ?_
    rcases r with e | ldap
    · have hbound : s₁.bound = s.bound := h
      rw [← hbound]
      exact ih _
    · exact h

theorem wp_connectForest (ctx : ForestContext) (target : Option String) (cipher : Cipher) (verifyTls : Bool) :
    (LdapConnector.connectForest x ctx target cipher verifyTls).run.wp contract (Connected s.bound) s := by
  unfold LdapConnector.connectForest
  split
  · rfl
  · exact (wp_bindHosts ctx cipher verifyTls ctx.hosts none).bindE (fun _ _ h => h) fun _ _ h => h

/-! ### A batch -/

variable {m : AdMode}

theorem wp_processOn (op : Operation) {conn : LdapConnector} (hconn : conn.ldap ∈ s.bound) :
    (m.processOn x op conn).run.wp contract (fun _ s' => s'.bound = s.bound) s := by
  refine (m.allCalls_processOn x op conn).wp rfl ?_ ?_
  · rintro c s' (rfl | hon) hbound
    · show conn.ldap ∈ s'.bound
      rwa [hbound]
    · cases c <;> first | exact hon.elim | (obtain rfl := hon; show conn.ldap ∈ s'.bound; rwa [hbound])
  · rintro c r s₁ _ (rfl | hon) hbound rfl
    · exact hbound
    · cases c <;> first | exact hon.elim | exact hbound

/-- The connections of a pass: the default one and those of the forests. -/
def Holds (defaultLdap : LdapConnector) (conns : Conns) (s : Sockets) : Prop :=
  s.bound.Perm (defaultLdap.ldap :: conns.map (·.2.ldap))

namespace Holds
variable {defaultLdap conn : LdapConnector} {conns : Conns} {s' : Sockets}

theorem mem_default (h : Holds defaultLdap conns s) : defaultLdap.ldap ∈ s.bound :=
  h.mem_iff.2 (List.mem_cons_self ..)

theorem mem_of_lookup {forestId : String} (h : Holds defaultLdap conns s)
    (hconn : conns.lookup forestId = some conn) : conn.ldap ∈ s.bound := by
  obtain ⟨l₁, l₂, rfl, -⟩ := List.lookup_eq_some_iff.1 hconn
  exact h.mem_iff.2 (List.mem_cons_of_mem _ (List.mem_map.2 ⟨(forestId, conn), by simp, rfl⟩))

theorem opened (h : Holds defaultLdap conns s) (forestId : String) (hs' : s'.bound = conn.ldap :: s.bound) :
    Holds defaultLdap ((forestId, conn) :: conns) s' := by
  unfold Holds
  rw [hs']
  exact (List.Perm.cons conn.ldap h).trans (.swap ..)

theorem of_bound (h : Holds defaultLdap conns s) (hs' : s'.bound = s.bound) : Holds defaultLdap conns s' := by
  unfold Holds
  rwa [hs']

end Holds

variable {defaultLdap : LdapConnector} {conns : Conns}

theorem wp_routeAndProcess (op : Operation) (h : Holds defaultLdap conns s) :
    (m.routeAndProcess x op defaultLdap conns).wp contract (fun p s' => Holds defaultLdap p.2 s') s := by
  have hprocess {conns : Conns} {s : Sockets} {conn : LdapConnector} (h : Holds defaultLdap conns s)
      (hconn : conn.ldap ∈ s.bound) : (do
        let r ← (m.processOn x op conn).run
        return (r, conns) : Task (Except AgentError Json × Conns)).wp contract
          (fun p s' => Holds defaultLdap p.2 s') s :=
    (wp_processOn op hconn).bind fun _ _ hbound => h.of_bound hbound
  unfold AdMode.routeAndProcess
  split
  · exact hprocess h h.mem_default
  split
  · exact h
  split
  next conn hconn => exact hprocess h (h.mem_of_lookup hconn)
  · refine (wp_connectForest ..).bind fun r s₁ hconn => ?_
    rcases r with e | conn
    · exact h.of_bound hconn
    · have hbound : s₁.bound = conn.ldap :: s.bound := hconn
      refine hprocess (h.opened _ hbound) ?_
      rw [hbound]
      exact List.mem_cons_self ..

theorem wp_report (op : Operation) (r : Except AgentError Json) (h : Holds defaultLdap conns s) :
    (m.report x op r).run.wp contract (fun _ s' => Holds defaultLdap conns s') s := by
  rw [AdMode.report_eq]
  refine wp_lift_bind (P := fun _ s' => s' = s) (wp_request.2 ?_) fun _ s₁ hs₁ => wp_append.2 ?_
  · rcases r with e | detail <;> exact ⟨trivial, fun _ _ h => h⟩
  · subst hs₁
    have hevent : (AdMode.record op r).1 = "AD_OP_FAIL" ∨ (AdMode.record op r).1 = "AD_OP_OK" := by
      rcases r with e | detail
      · exact .inl rfl
      · exact .inr rfl
    refine ⟨fun heq => ?_, ?_⟩
    · rw [heq] at hevent
      exact absurd hevent (by decide)
    · rintro reply _ rfl
      show Holds defaultLdap conns (if (AdMode.record op r).1 = "RUN_ERROR" then {} else s₁)
      rw [if_neg fun heq => ?_]
      · exact h
      · rw [heq] at hevent
        exact absurd hevent (by decide)

theorem wp_drain (ops : List Operation) (conns : Conns) (counters : SyncCounters) (h : Holds defaultLdap conns s) :
    (m.drain x defaultLdap ops conns counters).run.wp contract
      (fun r s' => ∀ p, r = .ok p → Holds defaultLdap p.2 s') s := by
  induction ops generalizing conns counters s with
  | nil =>
    rintro _ ⟨⟩
    exact h
  | cons op ops ih =>
    refine wp_ask.2 ⟨trivial, ?_⟩
    rintro _ _ rfl
    refine wp_lift_bind (wp_routeAndProcess op h) fun ⟨r, conns'⟩ s₁ h₁ => ?_
    exact (wp_report op r h₁).bindE (fun _ _ _ => nofun) fun _ s₂ h₂ => ih _ _ h₂

theorem wp_unbindAll (conns : Conns) (h : s.bound.Perm (conns.map (·.2.ldap))) :
    (AdMode.unbindAll conns).wp contract (fun _ s' => s'.bound = []) s := by
  induction conns generalizing s with
  | nil => exact h.eq_nil
  | cons conn conns ih =>
    refine Prog.wp_bind.2 ⟨h.mem_iff.2 (List.mem_cons_self ..), ?_⟩
    rintro _ _ rfl
    refine ih ?_
    have hrest := h.erase conn.2.ldap
    rwa [List.map_cons, List.erase_cons_head] at hrest

theorem wp_pollOperations (c : ServerClient) (limit : Nat) :
    (c.pollOperations limit).run.wp contract (fun _ s' => s' = s) s := by
  refine (wp_request (Q := fun _ s' => s' = s).2 ⟨trivial, fun _ _ h => h⟩).bindE (fun _ _ h => h) fun _ s₁ hs₁ => ?_
  refine wp_ask.2 ⟨trivial, ?_⟩
  rintro reply _ rfl
  rcases reply with e | ops <;> exact hs₁

/-- A pass that returns has unbound what it has bound. -/
theorem wp_runOnce (h : s.bound = []) :
    (m.runOnce x).run.wp contract (fun r s' => r.isOk → s'.bound = []) s := by
  refine wp_result_bind (fun _ _ => nofun) fun pw _ => (wp_connect ..).bindE (fun _ _ _ => nofun) fun ldap s₁ h₁ => ?_
  have hone : Holds ldap [] s₁ := by
    have hbound : s₁.bound = ldap.ldap :: s.bound := h₁
    rw [Holds, hbound, h]
    exact .refl _
  refine (wp_pollOperations ..).bindE (fun _ _ _ => nofun) fun ops s₂ h₂ => ?_
  subst h₂
  refine (wp_drain ops [] {} hone).bindE (fun _ _ _ => nofun) fun ⟨counters, conns⟩ s₃ h₃ => ?_
  have hall := h₃ _ rfl
  have hunbind : ldap.unbind.wp contract (fun _ s' => s'.bound.Perm (conns.map (·.2.ldap))) s₃ := by
    refine Prog.wp_perform.2 ⟨hall.mem_default, ?_⟩
    rintro _ _ rfl
    have hrest := List.Perm.erase ldap.ldap hall
    rwa [List.erase_cons_head] at hrest
  exact wp_lift_bind hunbind fun _ s₄ h₄ => wp_lift_bind (wp_unbindAll conns h₄) fun _ s₅ h₅ _ => h₅

/-! ### The service -/

/-- A call that may be made while no connection is bound, and binds none. -/
def Free (c : Call) : Prop := ∀ s : Sockets, s.bound = [] → s.May c ∧ ∀ r, (s.next ⟨c, r⟩).bound = []

theorem wp_free {α : Type} {p : Task α} (hp : p.AllCalls Free) (h : s.bound = []) :
    p.wp contract (fun _ s' => s'.bound = []) s := by
  refine hp.wp h (fun c s hc hs => (hc s hs).1) ?_
  rintro c r s _ hc hs rfl
  exact (hc s hs).2 r

theorem free_append (event : String) (detail : Json) : Free (.append event detail) := by
  refine fun s hs => ⟨fun _ => hs, fun r => ?_⟩
  show (if event = "RUN_ERROR" then ({} : Sockets) else s).bound = []
  split
  · rfl
  · exact hs

theorem free_send (c : ServerClient) (r : Request) : Free (.send c r) := by
  intro s hs
  cases r with
  | fetchConfig | heartbeat | reportRun => exact ⟨hs, fun _ => hs⟩
  | disconnect => exact ⟨trivial, fun _ => rfl⟩
  | _ => exact ⟨trivial, fun _ => hs⟩

theorem free_inDbPass {c : Call} (h : c.InDbPass) : Free c := by
  intro s hs
  cases c with
  | append event detail => exact free_append event detail s hs
  | send c r => exact free_send c r s hs
  | dbConnect | dbFetch | dbExecute => exact ⟨hs, fun _ => hs⟩
  | decodeChanges => exact ⟨trivial, fun _ => hs⟩
  | _ => exact h.elim

variable {config : Config} {sess : Session}

theorem wp_runMode (h : s.bound = []) :
    (runMode x (runDb x) config sess).run.wp contract (fun r s' => r.isOk → s'.bound = []) s := by
  unfold runMode
  split
  · exact wp_runOnce h
  · exact (wp_free ((DbMode.allCalls_runOnce x).mono fun _ => free_inDbPass) h).mono fun _ _ hs _ => hs

theorem wp_runPass (h : s.bound = []) :
    (runPass x (runDb x) config sess).run.wp contract (fun r s' => r.isOk → s'.bound = []) s := by
  refine (wp_runMode h).bindE (fun _ _ _ => nofun) fun counters s₁ h₁ => ?_
  refine (wp_free (p := (AdMode.append _ _).run) ?_ (h₁ rfl)).bindE (fun _ _ _ => nofun) fun _ _ h₂ _ => h₂
  exact DbMode.allCalls_append (free_append _ _)

theorem wp_runOne (h : s.bound = []) : (runOne x (runDb x) config sess).wp contract (fun _ s' => s'.bound = []) s := by
  have hfetch : sess.server.fetchConfig.run.AllCalls Free := by
    refine sess.server.allCalls_fetchConfig.mono ?_
    rintro c (rfl | rfl)
    · exact free_send _ _
    · exact fun s hs => ⟨trivial, fun _ => hs⟩
  have hnotify (r : Request) : (sess.server.notify r).AllCalls Free :=
    (sess.server.allCalls_notify r).mono fun c hc => hc ▸ free_send _ _
  have hsleep (secs : Nat) : (Prog.perform (Call.sleep secs) : Task Unit).AllCalls Free :=
    Prog.allCalls_perform.2 fun s hs => ⟨hs, fun _ => hs⟩
  refine (wp_free hfetch h).bind fun remote s₁ h₁ => ?_
  refine (wp_free (hnotify _) h₁).bind fun _ s₂ h₂ => ?_
  refine (wp_runPass h₂).bind fun r s₃ h₃ => ?_
  rcases r with e | counters
  · refine Prog.wp.bind ((Prog.wp_perform (Q := fun _ s' => s'.bound = [])).2 ⟨fun heq => ?_, ?_⟩) fun _ s₄ h₄ => ?_
    · exact absurd heq (by decide)
    · rintro _ _ rfl
      rfl
    · exact wp_free (hsleep _) h₄
  · refine wp_free ?_ (h₃ rfl)
    dsimp only
    split
    · exact (hnotify _).bind fun _ => hsleep _
    · exact hsleep _

theorem wp_start (h : s.bound = []) : (start x config).run.wp contract (fun _ s' => s'.bound = []) s := by
  refine wp_free ?_ h
  refine allCalls_ask (fun s hs => ⟨trivial, fun _ => hs⟩) fun _ => allCalls_result fun _ => allCalls_result fun _ => ?_
  refine ((ServerClient.allCalls_new ..).mono fun c hc => hc ▸ fun s hs => ⟨trivial, fun _ => hs⟩).bindE fun _ => ?_
  refine allCalls_result fun _ => allCalls_ask (fun s hs => ⟨trivial, fun _ => hs⟩) fun _ => ?_
  exact (DbMode.allCalls_append (free_append _ _)).bindE fun _ => trivial

end Sockets

/-- In every run of the service, wherever it is shut down, the directories are asked on bound connections only, and
no connection is left when a pass is summarised, or the agent sleeps or calls the broker between two passes. -/
theorem connections_in_order {x : Externals} {config : Config} {sess : Session} {first cut last : Trace}
    {cycles : List Trace} (h : ServiceRun x (runDb x) config sess first cycles cut last) :
    Sockets.contract.Obeys {} (first ++ (cycles.flatten ++ (cut ++ last))) := by
  refine obeys_of_serviceRun (I := fun s => s.bound = []) (J := fun _ => True) h ?_ (fun s hs => Sockets.wp_runOne hs)
    (fun _ _ _ _ _ _ => trivial) fun s _ => ?_
  · exact (Sockets.wp_start rfl).mono fun _ _ hs _ => hs
  · exact ⟨trivial, fun _ _ _ => ⟨fun heq => absurd heq (by decide), fun _ _ _ => trivial⟩⟩

/-- Accounts are created and searched on one connection, a forest is reached on another, and both are unbound. -/
theorem connections_in_order_corp :
    ServiceRun corp (runDb corp) corpConfig corpSession corpStart [corpCycle] corpCut corpStop ∧
      Sockets.contract.Obeys {} (corpStart ++ ([corpCycle].flatten ++ (corpCut ++ corpStop))) :=
  ⟨serviceRun_corp _, connections_in_order (serviceRun_corp _)⟩

end NexusAgent
