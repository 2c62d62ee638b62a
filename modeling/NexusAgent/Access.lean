import NexusAgent.Cycle
import NexusAgent.Rules

/-!
# Where the agent connects, and as whom

A `Target` is a directory as the settings or a forest context give it: the URLs to try in their order, and how to
bind. `Access` is what the agent has tried of the target it is after. `access_as_configured`: in every run of the
service it connects to and binds at the default directory only under the settings of the cycle, and at a forest only
for an operation that asks for it; it tries the hosts of a forest in their order, no other one after the first that
accepts, and reports an operation that it could not route only when every host of its forest has failed, or when the
context of the forest cannot be read, and then no host has been tried.
-/

namespace NexusAgent

structure Target where
  urls : List String
  useKerberos : Bool
  credentials : Except AgentError (String × String)

structure Access where
  config : Config
  op : Option Operation := none
  attempted : List String := []
  connected : Bool := false
  bound : Bool := false
  routed : Bool := false

namespace Access

variable (base : Config)

/-- What has been tried after an event. -/
def next (s : Access) : Event Reply → Access
  | ⟨.send _ .fetchConfig, _⟩ => { config := base }
  | ⟨.decodeConfig, .ok remote⟩ => { s with config := base.applyRemote remote }
  | ⟨.started op, _⟩ => { config := s.config, op := some op }
  | ⟨.connect url _, reply⟩ => { s with attempted := s.attempted ++ [url], connected := reply.isOk }
  | ⟨.simpleBind .., .ok _⟩ | ⟨.gssapiBind .., .ok _⟩ => { s with connected := false, bound := true }
  | ⟨.simpleBind .., _⟩ | ⟨.gssapiBind .., _⟩ => { s with connected := false }
  | ⟨.routed .., _⟩ => { s with routed := true }
  | _ => s

variable (x : Externals) (cipher : Cipher)

def ofDirectory (ad : AdSection) : Target :=
  ⟨[ad.url], ad.useKerberos, (Config.resolve x ad.bindPassword).map (ad.bindDn, ·)⟩

def ofForest (ctx : ForestContext) : Target := ⟨ctx.hosts.map ctx.url, ctx.kerberos, ctx.credentials x cipher⟩

/-- The directory that the agent is after. -/
def target (s : Access) : Option Target :=
  match s.op with
  | none => s.config.ad.map (ofDirectory x)
  | some op => op.forestContextJson.bind fun json => (x.readForest json).toOption.map (ofForest x cipher)

/-- The connection that was opened last is there, and not bound yet. -/
def Fresh (s : Access) (ldap : Ldap) : Prop :=
  s.connected = true ∧ s.attempted.getLast? = some ldap.url ∧ ldap.auth = none

/-- The operation is for a forest, and its context has been read with this result. -/
def For (s : Access) (read : Except String ForestContext) : Prop :=
  ∃ op json, s.op = some op ∧ op.forestContextJson = some json ∧ x.readForest json = read

/-- Every host of the forest has been tried, and none has accepted; or its context cannot be read, and no host has been
tried. -/
def Exhausted (s : Access) : Prop :=
  s.bound = false ∧ ((∃ ctx, s.For x (.ok ctx) ∧ s.attempted = ctx.hosts.map ctx.url) ∨
    ∃ e, s.For x (.error e) ∧ s.attempted = [])

def May (s : Access) : Call → Prop
  | .connect url noTlsVerify => s.bound = false ∧ noTlsVerify = !s.config.server.verifyTls ∧
      ∃ t, s.target x cipher = some t ∧ s.attempted ++ [url] <+: t.urls
  | .simpleBind ldap dn pw => s.Fresh ldap ∧
      ∃ t, s.target x cipher = some t ∧ t.useKerberos = false ∧ t.credentials = .ok (dn, pw)
  | .gssapiBind ldap _ => s.Fresh ldap ∧ x.kerberos = true ∧ ∃ t, s.target x cipher = some t ∧ t.useKerberos = true
  | .send _ (.complete ..) => s.routed = false → s.Exhausted x
  | _ => True

def contract : Contract Reply Access := .monitor (May x cipher) (next base)

variable {base x cipher} {s : Access} {t : Target} {m : AdMode} {op : Operation}

theorem For.target {ctx : ForestContext} (h : s.For x (.ok ctx)) :
    s.target x cipher = some (ofForest x cipher ctx) := by
  obtain ⟨op, json, hop, hjson, hread⟩ := h
  simp [Access.target, hop, hjson, hread, Except.toOption]

/-! ### One host -/

/-- The URL has been tried, and the agent is bound there if the result is a value. -/
def Tried {α : Type} (s : Access) (url : String) (r : Except AgentError α) (s' : Access) : Prop :=
  ∃ connected, s' = { s with attempted := s.attempted ++ [url], connected := connected, bound := r.isOk }

theorem wp_openUrl {α : Type} {url : String} {verifyTls : Bool} {f : Ldap → Agent α} (hfree : s.bound = false)
    (htls : verifyTls = s.config.server.verifyTls) (ht : s.target x cipher = some t)
    (hurl : s.attempted ++ [url] <+: t.urls)
    (hf : (f ⟨url, none⟩).run.wp (contract base x cipher) (Tried s url)
      { s with attempted := s.attempted ++ [url], connected := true }) :
    (LdapConnector.openUrl url verifyTls >>= f).run.wp (contract base x cipher) (Tried s url) s := by
  subst htls
  refine wp_ask.2 ⟨⟨hfree, rfl, t, ht, hurl⟩, ?_⟩
  rintro reply _ rfl
  rcases reply with e | _
  · exact ⟨false, by simp [next, hfree, Except.isOk, Except.toBool]⟩
  · exact hf

theorem wp_simpleBind {url dn pw what : String} (hfree : s.bound = false) (ht : s.target x cipher = some t)
    (hkerberos : t.useKerberos = false) (hcred : t.credentials = .ok (dn, pw)) :
    (LdapConnector.simpleBind ⟨url, none⟩ dn pw what).run.wp (contract base x cipher) (Tried s url)
      { s with attempted := s.attempted ++ [url], connected := true } := by
  refine (wp_ask_result (c := .simpleBind ⟨url, none⟩ dn pw) fun reply => LdapConnector.bindReply_eq reply).2
    ⟨⟨⟨rfl, by simp, rfl⟩, t, ht, hkerberos, hcred⟩, ?_⟩
  rintro reply _ rfl
  refine ⟨false, ?_⟩
  rcases reply with e | e | _ <;> simp [next, hfree, LdapConnector.bound, Except.isOk, Except.toBool]

theorem wp_kerberosBind {url : String} (hfree : s.bound = false) (ht : s.target x cipher = some t)
    (hkerberos : t.useKerberos = true) :
    (LdapConnector.kerberosBind x ⟨url, none⟩ url).run.wp (contract base x cipher) (Tried s url)
      { s with attempted := s.attempted ++ [url], connected := true } := by
  unfold LdapConnector.kerberosBind
  split
  next hx =>
    refine (wp_ask_result (c := .gssapiBind ⟨url, none⟩ _) fun reply => LdapConnector.bindReply_eq reply).2
      ⟨⟨⟨rfl, by simp, rfl⟩, hx, t, ht, hkerberos⟩, ?_⟩
    rintro reply _ rfl
    refine ⟨false, ?_⟩
    rcases reply with e | e | _ <;> simp [next, hfree, LdapConnector.bound, Except.isOk, Except.toBool]
  next =>
    exact ⟨true, by simp [hfree, Except.isOk, Except.toBool]⟩

/-! ### The hosts of a forest -/

theorem wp_bindHost {ctx : ForestContext} {verifyTls : Bool} (host : String) (hfree : s.bound = false)
    (htls : verifyTls = s.config.server.verifyTls) (hctx : s.For x (.ok ctx))
    (hurl : s.attempted ++ [ctx.url host] <+: ctx.hosts.map ctx.url) :
    (ctx.bindHost x cipher verifyTls host).run.wp (contract base x cipher) (Tried s (ctx.url host)) s := by
  refine wp_openUrl hfree htls hctx.target hurl ?_
  split
  next hkerberos => exact wp_kerberosBind hfree hctx.target hkerberos
  next hkerberos =>
    refine wp_result_bind (fun e _ => ⟨true, by simp [hfree, Except.isOk, Except.toBool]⟩) fun cred hcred => ?_
    exact wp_simpleBind hfree hctx.target (Bool.not_eq_true _ ▸ hkerberos) hcred

/-- What is known of a connection to a forest: if there is none, everything has been tried. -/
def Reached {α : Type} (x : Externals) (s : Access) (r : Except AgentError α) (s' : Access) : Prop :=
  s'.config = s.config ∧ s'.op = s.op ∧ s'.routed = s.routed ∧ (r.isOk = false → s'.Exhausted x)

theorem wp_bindHosts {ctx : ForestContext} {verifyTls : Bool} (hosts : List String) (lastErr : Option AgentError)
    (hfree : s.bound = false) (htls : verifyTls = s.config.server.verifyTls) (hctx : s.For x (.ok ctx))
    (hall : s.attempted ++ hosts.map ctx.url = ctx.hosts.map ctx.url) :
    (ctx.bindHosts x cipher verifyTls hosts lastErr).run.wp (contract base x cipher) (Reached x s) s := by
  induction hosts generalizing s lastErr with
  | nil =>
    exact ⟨rfl, rfl, rfl, fun _ => ⟨hfree, .inl ⟨ctx, hctx, (List.append_nil _).symm.trans hall⟩⟩⟩
  | cons host hosts ih =>
    have hurl : s.attempted ++ [ctx.url host] <+: ctx.hosts.map ctx.url := ⟨hosts.map ctx.url, by simpa using hall⟩
    refine wp_lift_bind (wp_bindHost host hfree htls hctx hurl) fun r s₁ ⟨connected, hs₁⟩ => ?_
    subst hs₁
    rcases r with e | ldap
    · have hrest : (s.attempted ++ [ctx.url host]) ++ hosts.map ctx.url = ctx.hosts.map ctx.url := by
        rw [List.append_assoc]
        exact hall
      exact ih (s := { s with attempted := _, connected := connected, bound := false }) (some e) rfl htls hctx hrest
    · exact ⟨rfl, rfl, rfl, nofun⟩

theorem wp_connectForest {ctx : ForestContext} (opTarget : Option String) {verifyTls : Bool} (hfree : s.bound = false)
    (hnone : s.attempted = []) (htls : verifyTls = s.config.server.verifyTls)
    (hctx : s.For x (.ok ctx)) :
    (LdapConnector.connectForest x ctx opTarget cipher verifyTls).run.wp (contract base x cipher) (Reached x s) s := by
  unfold LdapConnector.connectForest
  split
  next hhosts =>
    refine ⟨rfl, rfl, rfl, fun _ => ⟨hfree, .inl ⟨ctx, hctx, ?_⟩⟩⟩
    rw [hnone, hhosts]
    rfl
  next =>
    refine (wp_bindHosts ctx.hosts none hfree htls hctx (by rw [hnone]; rfl)).bindE (fun _ _ h => h) fun ldap s' h => ?_
    exact ⟨h.1, h.2.1, h.2.2.1, nofun⟩

/-! ### A batch -/

/-- A call that changes nothing of what has been tried. -/
def Aside : Call → Prop
  | .connect .. | .simpleBind .. | .gssapiBind .. | .started _ | .routed .. | .decodeConfig
  | .send _ .fetchConfig | .send _ (.complete ..) => False
  | _ => True

theorem aside_steady (base : Config) (x : Externals) (cipher : Cipher) {c : Call} (h : Aside c) :
    May x cipher s c ∧ ∀ r, next base s ⟨c, r⟩ = s := by
  cases c with
  | send _ request => cases request <;> first | exact h.elim | exact ⟨trivial, fun _ => rfl⟩
  | _ => first | exact h.elim | exact ⟨trivial, fun _ => rfl⟩

theorem wp_aside {α : Type} {p : Task α} (hp : p.AllCalls Aside) (s : Access) :
    p.wp (contract base x cipher) (fun _ s' => s' = s) s := by
  refine hp.wp rfl ?_ ?_
  · rintro c _ hc rfl
    exact (aside_steady base x cipher hc).1
  · rintro c r _ _ hc rfl rfl
    exact (aside_steady base x cipher hc).2 r

theorem aside_on {ldap : Ldap} {c : Call} (h : c.On ldap) : Aside c := by
  cases c <;> first | exact h.elim | trivial

/-- An operation that is routed, or that could not be. -/
def Ended (x : Externals) (config : Config) (s : Access) : Prop :=
  s.config = config ∧ (s.routed = false → s.Exhausted x)

theorem wp_processOn (conn : LdapConnector) : (m.processOn x op conn).run.wp (contract base x cipher)
    (fun _ => Ended x s.config) s := by
  refine wp_ask.2 ⟨trivial, ?_⟩
  rintro _ _ rfl
  refine (wp_aside ((m.allCalls_process x op conn).mono fun _ => aside_on) _).mono ?_
  rintro _ _ rfl
  exact ⟨rfl, nofun⟩

theorem wp_routeAndProcess (htls : m.verifyTls = s.config.server.verifyTls) (hcipher : m.cipher = cipher)
    (defaultLdap : LdapConnector) (conns : Conns) :
    (m.routeAndProcess x op defaultLdap conns).wp (contract base x cipher) (fun _ => Ended x s.config)
      { config := s.config, op := some op } := by
  have hprocess (conn : LdapConnector) (conns' : Conns) (s' : Access) (hs' : s'.config = s.config) :
      ((m.processOn x op conn).run >>= fun r => pure (r, conns')).wp (contract base x cipher)
        (fun _ => Ended x s.config) s' := by
    rw [← hs']
    exact (wp_processOn conn).bind fun _ _ h => h
  unfold AdMode.routeAndProcess
  split
  · exact hprocess _ _ _ rfl
  next json hjson =>
    split
    next e hread =>
      exact ⟨rfl, fun _ => ⟨rfl, .inr ⟨e, ⟨op, json, rfl, hjson, hread⟩, rfl⟩⟩⟩
    next ctx hread =>
      split
      · exact hprocess _ _ _ rfl
      have hctx : For x { config := s.config, op := some op } (.ok ctx) := ⟨op, json, rfl, hjson, hread⟩
      subst hcipher
      have hconnect : (LdapConnector.connectForest x ctx op.targetBaseDn m.cipher m.verifyTls).run.wp
          (contract base x m.cipher) (Reached x { config := s.config, op := some op })
          { config := s.config, op := some op } := wp_connectForest op.targetBaseDn rfl rfl htls hctx
      refine hconnect.bind fun r s₁ hs₁ => ?_
      rcases r with e | conn
      · exact ⟨hs₁.1, fun _ => hs₁.2.2.2 rfl⟩
      · exact hprocess _ _ _ hs₁.1

theorem wp_report (r : Except AgentError Json) (config : Config) (h : Ended x config s) :
    (m.report x op r).run.wp (contract base x cipher) (fun _ s => s.config = config) s := by
  rw [AdMode.report_eq]
  refine wp_lift_bind (P := fun _ s => s.config = config) (wp_request.2 ?_) fun _ s hs => ?_
  · rcases r with e | result <;> exact ⟨h.2, fun _ _ hs => hs ▸ h.1⟩
  · exact wp_append.2 ⟨trivial, fun _ _ h => h ▸ hs⟩

theorem wp_drain (hcipher : m.cipher = cipher) (defaultLdap : LdapConnector) (ops : List Operation) (conns : Conns)
    (counters : SyncCounters) (htls : m.verifyTls = s.config.server.verifyTls) :
    (m.drain x defaultLdap ops conns counters).run.wp (contract base x cipher) (fun _ _ => True) s := by
  induction ops generalizing conns counters s with
  | nil => trivial
  | cons op ops ih =>
    refine wp_ask.2 ⟨trivial, ?_⟩
    rintro _ _ rfl
    refine wp_lift_bind (wp_routeAndProcess htls hcipher defaultLdap conns) fun p s₁ hs₁ => ?_
    refine (wp_report p.1 s.config hs₁).bindE (fun _ _ _ => trivial) fun _ s₂ hs₂ => ?_
    exact ih _ _ (htls.trans (by rw [hs₂]))

theorem wp_connectDefault {pw : String} (had : s.config.ad = some m.ad) (htls : m.verifyTls = s.config.server.verifyTls)
    (hpw : Config.resolve x m.ad.bindPassword = .ok pw) (hop : s.op = none) (hfree : s.bound = false)
    (hnone : s.attempted = []) :
    (m.connectDefault x pw).run.wp (contract base x cipher) (fun _ s' => s'.config = s.config) s := by
  have ht : s.target x cipher = some (ofDirectory x m.ad) := by simp [target, hop, had]
  have hcred : (ofDirectory x m.ad).credentials = .ok (m.ad.bindDn, pw) := by simp [ofDirectory, hpw, Except.map]
  have htried {α : Type} {p : Agent α} (h : p.run.wp (contract base x cipher) (Tried s m.ad.url) s) :
      p.run.wp (contract base x cipher) (fun _ s' => s'.config = s.config) s := by
    refine h.mono ?_
    rintro _ _ ⟨_, rfl⟩
    rfl
  refine htried (wp_openUrl hfree htls ht (by rw [hnone]; exact List.prefix_rfl) ?_)
  split
  next hkerberos =>
    exact (wp_kerberosBind hfree ht hkerberos).bindE (fun _ _ h => h) fun _ _ h => h
  next hkerberos =>
    exact (wp_simpleBind hfree ht (Bool.not_eq_true _ ▸ hkerberos) hcred).bindE (fun _ _ h => h) fun _ _ h => h

theorem aside_polling {c : Call} (h : c.Polling) : Aside c := by
  unfold Call.Polling at h
  split at h <;> first | exact h.elim | trivial

theorem aside_unbinding {c : Call} (h : c.Unbinding) : Aside c := by
  cases c <;> first | exact h.elim | trivial

theorem wp_runOnce (had : s.config.ad = some m.ad) (htls : m.verifyTls = s.config.server.verifyTls)
    (hcipher : m.cipher = cipher) (hop : s.op = none) (hfree : s.bound = false) (hnone : s.attempted = []) :
    (m.runOnce x).run.wp (contract base x cipher) (fun _ _ => True) s := by
  rw [AdMode.runOnce_eq]
  refine wp_result_bind (fun _ _ => trivial) fun pw hpw => ?_
  refine (wp_connectDefault had htls hpw hop hfree hnone).bindE (fun _ _ _ => trivial) fun ldap s₁ hs₁ => ?_
  have hpoll : (m.server.pollOperations m.batch).run.AllCalls Aside :=
    (m.server.allCalls_pollOperations _).mono fun _ => aside_polling
  refine (wp_aside hpoll s₁).bindE (fun _ _ _ => trivial) fun ops s₂ hs₂ => ?_
  subst hs₂
  refine (wp_drain hcipher ldap ops [] {} (htls.trans (by rw [hs₁]))).bindE (fun _ _ h => h) fun p s₃ _ => ?_
  exact (wp_aside ((AdMode.allCalls_close ..).mono fun _ => aside_unbinding) s₃).mono fun _ _ _ => trivial

/-! ### The service -/

theorem aside_of_inDbPass {c : Call} (h : c.InDbPass) : Aside c := by
  unfold Call.InDbPass at h
  split at h <;> first | exact h.elim | trivial

theorem may_outside {c : Call} (h : c.Outside) : May x cipher s c := by
  cases c with
  | send _ request => cases request <;> first | exact h.elim | trivial
  | _ => first | exact h.elim | trivial

variable {config : Config} {sess : Session}

/-- The settings in force are the fetched ones, or the local ones where there are none, and nothing has been tried. -/
def Ready (base : Config) (remote : Except AgentError RemoteConfig) (s : Access) : Prop :=
  s = { config := effective base remote }

theorem wp_fetchConfig : sess.server.fetchConfig.run.wp (contract base x cipher) (Ready base) s := by
  have hsend : (sess.server.request .fetchConfig "fetch config" "config").run.wp (contract base x cipher)
      (fun _ s' => s' = { config := base }) s := wp_request.2 ⟨trivial, fun _ _ h => h⟩
  refine hsend.bindE (fun _ _ h => h) fun _ s₁ hs₁ => wp_ask.2 ⟨trivial, ?_⟩
  subst hs₁
  rintro reply _ rfl
  rcases reply with e | remote <;> rfl

theorem wp_heartbeat (remote : Except AgentError RemoteConfig) (mode : String) (h : Ready base remote s) :
    (sess.server.heartbeat mode sess.hostname version sess.directoryId).wp (contract base x cipher)
      (fun _ => Ready base remote) s := by
  refine ⟨trivial, ?_⟩
  rintro _ _ rfl
  exact h

theorem wp_runMode (remote : Except AgentError RemoteConfig) (h : Ready config remote s) :
    (runMode x (runDb x) (effective config remote) sess).run.wp (contract config x sess.cipher)
      (fun _ _ => True) s := by
  subst h
  unfold runMode
  split
  next hmode => exact wp_runOnce (Option.some_get _).symm rfl rfl rfl rfl rfl
  next => exact (wp_aside ((DbMode.allCalls_runOnce x).mono fun _ => aside_of_inDbPass) _).mono fun _ _ _ => trivial

theorem obeys_of_service {first cut last : Trace} {cycles : List Trace}
    (h : ServiceRun x (runDb x) config sess first cycles cut last) :
    (contract config x sess.cipher).Obeys { config := config } (first ++ (cycles.flatten ++ (cut ++ last))) := by
  refine obeys_of_fetched (I := fun _ => True) (K := Ready config) ?_ ?_ ?_ h trivial ?_ ?_
  · intro c s hc _
    exact ⟨may_outside hc, fun _ _ _ => trivial⟩
  · intro remote mode s hs
    exact wp_heartbeat remote mode hs
  · intro remote s hs
    exact wp_runMode remote hs
  · intro s _
    exact wp_fetchConfig
  · intro s
    refine (allCalls_stop_outside.wp (I := fun _ => True) trivial ?_ fun _ _ _ _ _ _ _ => trivial)
    intro c s hc _
    exact may_outside hc

end Access

/-- In every run of the service the agent connects only to the directories that it is told of, in their order, and
binds there as it is told. -/
theorem access_as_configured {x : Externals} {config : Config} {sess : Session} {first cut last : Trace}
    {cycles : List Trace} (h : ServiceRun x (runDb x) config sess first cycles cut last) :
    (Access.contract config x sess.cipher).Obeys { config := config } (first ++ (cycles.flatten ++ (cut ++ last))) :=
  Access.obeys_of_service h

/-- The first host of the forest refuses, and the agent is bound at the second. -/
theorem access_as_configured_corp :
    ServiceRun corp (runDb corp) corpConfig corpSession corpStart [corpCycle] corpCut corpStop ∧
      (⟨.connect (emea.url "dc1") false, .error "connection refused"⟩ : Event Reply) ∈ corpCycle ∧
      (⟨.connect (emea.url "dc2") false, .ok ()⟩ : Event Reply) ∈ corpCycle ∧
      (⟨.simpleBind ⟨emea.url "dc2", none⟩ "CN=svc,DC=emea" "hunter2", .ok ()⟩ : Event Reply) ∈ corpCycle ∧
      (Access.contract corpConfig corp corpSession.cipher).Obeys { config := corpConfig }
        (corpStart ++ ([corpCycle].flatten ++ (corpCut ++ corpStop))) := by
  have hreached {e : Event Reply} (he : e ∈ emeaReached) : e ∈ corpCycle := by
    simp [corpCycle, corpLoop, reported, AdMode.mem_opTrace, he]
  refine ⟨serviceRun_corp _, hreached ?_, hreached ?_, hreached ?_, access_as_configured (serviceRun_corp _)⟩
  · simp [emeaReached]
  · simp [emeaReached]
  · simp [emeaReached]

end NexusAgent
