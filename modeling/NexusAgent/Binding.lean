import NexusAgent.Frames

/-!
# The connections that are bound

What `connect` and `connect_forest` return has the parameters they are asked for (`params_of_connect`,
`params_of_connectForest`); with answers that allow it they do return a connection, and with others they fail.
-/

namespace NexusAgent

/-- The scheme of a URL as it is parsed: after leading blanks, without tabs and line ends, in lower case. -/
def urlScheme (url : String) : String :=
  let text := (url.toList.dropWhile (· ≤ ' ')).filter fun c => c != '\t' && c != '\n' && c != '\r'
  String.ofList ((text.takeWhile (· != ':')).map Char.toLower)

/-- What the operations on a connection depend on, the host apart. -/
structure Params where
  baseDn : String
  scheme : String
  auth : Option Auth
  passwordWriteback : Bool
  deriving DecidableEq

def LdapConnector.params (c : LdapConnector) : Params :=
  ⟨c.baseDn, urlScheme c.ldap.url, c.ldap.auth, c.passwordWriteback⟩

variable {x : Externals} {tr : Trace}

/-! ### The steps -/

namespace LdapConnector

variable {ldap ldap' : Ldap} {url dn pw what lost rejected : String} {auth : Auth} {verifyTls : Bool}

def opened (url : String) : Except String Unit → Except AgentError Ldap
  | .error e => .error (.ldap s!"connect {url}: {e}")
  | .ok () => .ok ⟨url, none⟩

theorem runs_openUrl {r : Except AgentError Ldap} : (openUrl url verifyTls).run.Runs tr r ↔
    ∃ reply, tr = [⟨.connect url !verifyTls, reply⟩] ∧ r = opened url reply :=
  runs_ask_result fun reply => by cases reply <;> rfl

/-- What the outcome of a bind makes of the connection. -/
def bound (ldap : Ldap) (auth : Auth) (lost rejected : String) : LdapReply Unit → Except AgentError Ldap
  | .lost e => .error (.ldap s!"{lost}: {e}")
  | .rejected e => .error (.ldap s!"{rejected}: {e}")
  | .ok () => .ok { ldap with auth := some auth }

theorem bindReply_eq (reply : LdapReply Unit) :
    bindReply ldap auth reply lost rejected = liftResult (bound ldap auth lost rejected reply) := by
  cases reply <;> rfl

theorem runs_simpleBind {r : Except AgentError Ldap} : (simpleBind ldap dn pw what).run.Runs tr r ↔
    ∃ reply, tr = [⟨.simpleBind ldap dn pw, reply⟩] ∧
      r = bound ldap (.simple dn pw) what s!"{what} rejected" reply :=
  runs_ask_result fun _ => bindReply_eq _

theorem of_bound {reply : LdapReply Unit} (h : .ok ldap' = bound ldap auth lost rejected reply) :
    ldap' = { ldap with auth := some auth } := by
  rcases reply with e | e | _ <;> cases h
  rfl

/-- How the agent binds: with Kerberos, if it was built with that, or with a name and a password. -/
def bindAuth (x : Externals) (useKerberos : Bool) (credentials : Option (String × String)) : Option Auth :=
  if useKerberos then (if x.kerberos then some .kerberos else none)
  else credentials.map fun (dn, pw) => .simple dn pw

theorem of_kerberosBind (h : (kerberosBind x ldap url).run.Runs tr (.ok ldap')) :
    x.kerberos = true ∧ ldap' = { ldap with auth := some .kerberos } := by
  unfold kerberosBind at h
  split at h
  next hk =>
    obtain ⟨reply, tr', -, hr⟩ := h
    change (bindReply ..).run.Runs _ _ at hr
    rw [bindReply_eq] at hr
    exact ⟨hk, of_bound hr.2⟩
  next => cases h.2

theorem exists_kerberosBind (ldap : Ldap) (url : String) (hk : x.kerberos = true) :
    ∃ tr, (kerberosBind x ldap url).run.Runs tr (.ok { ldap with auth := some .kerberos }) := by
  unfold kerberosBind
  rw [if_pos hk]
  exact ⟨_, .ok (), [], rfl, rfl, rfl⟩

theorem exists_openUrl (url : String) (verifyTls : Bool) :
    ∃ tr, (openUrl url verifyTls).run.Runs tr (.ok ⟨url, none⟩) :=
  ⟨_, runs_openUrl.2 ⟨.ok (), rfl, rfl⟩⟩

theorem exists_simpleBind (ldap : Ldap) (dn pw what : String) :
    ∃ tr, (simpleBind ldap dn pw what).run.Runs tr (.ok { ldap with auth := some (.simple dn pw) }) :=
  ⟨_, runs_simpleBind.2 ⟨.ok (), rfl, rfl⟩⟩

/-! ### The default directory -/

variable {bindDn bindPassword baseDn : String} {useKerberos passwordWriteback : Bool} {c : LdapConnector}

theorem params_of_connect (h : (connect x url bindDn bindPassword baseDn verifyTls useKerberos
    passwordWriteback).run.Runs tr (.ok c)) : c.ldap.url = url ∧
      some c.params = (bindAuth x useKerberos (some (bindDn, bindPassword))).map fun a =>
        ⟨baseDn, urlScheme url, some a, passwordWriteback⟩ := by
  rcases Prog.runs_bindE.1 h with ⟨e, -, ⟨⟩⟩ | ⟨tr₁, tr₂, ldap, -, hopen, hbind⟩
  obtain ⟨reply, -, hopened⟩ := runs_openUrl.1 hopen
  rcases reply with e | _ <;> cases hopened
  split at hbind
  next hk =>
    rcases Prog.runs_bindE.1 hbind with ⟨e, -, ⟨⟩⟩ | ⟨_, _, ldap, -, hkerberos, -, ⟨⟩⟩
    obtain ⟨hx, rfl⟩ := of_kerberosBind hkerberos
    exact ⟨rfl, by simp [bindAuth, hk, hx, params]⟩
  next hk =>
    rcases Prog.runs_bindE.1 hbind with ⟨e, -, ⟨⟩⟩ | ⟨_, _, ldap, -, hsimple, -, ⟨⟩⟩
    obtain ⟨reply, -, hr⟩ := runs_simpleBind.1 hsimple
    obtain rfl := of_bound hr
    exact ⟨rfl, by simp [bindAuth, hk, params]⟩

theorem exists_connect (hauth : bindAuth x useKerberos (some (bindDn, bindPassword)) ≠ none) :
    ∃ tr c, (connect x url bindDn bindPassword baseDn verifyTls useKerberos passwordWriteback).run.Runs tr (.ok c) := by
  obtain ⟨tr₁, hopen⟩ := exists_openUrl url verifyTls
  rcases useKerberos with _ | _
  · obtain ⟨tr₂, hbind⟩ := exists_simpleBind ⟨url, none⟩ bindDn bindPassword "bind"
    exact ⟨_, _, hopen.bindE (hbind.bindE (runs_pure.2 ⟨rfl, rfl⟩))⟩
  · have hx : x.kerberos = true := by
      rcases hx : x.kerberos with _ | _
      · simp [bindAuth, hx] at hauth
      · rfl
    obtain ⟨tr₂, hbind⟩ := exists_kerberosBind ⟨url, none⟩ url hx
    exact ⟨_, _, hopen.bindE (hbind.bindE (runs_pure.2 ⟨rfl, rfl⟩))⟩

end LdapConnector

/-! ### Forests -/

namespace ForestContext

variable {ctx : ForestContext} {cipher : Cipher} {verifyTls : Bool} {ldap : Ldap} {a : Auth}

def auth (x : Externals) (ctx : ForestContext) (cipher : Cipher) : Option Auth :=
  LdapConnector.bindAuth x ctx.kerberos (ctx.credentials x cipher).toOption

/-- The parameters of a connection to a forest, if there can be one. -/
def params (x : Externals) (ctx : ForestContext) (opTargetBaseDn : Option String) (cipher : Cipher) :
    Option Params :=
  if ctx.hosts = [] then none
  else (ctx.auth x cipher).map fun a => ⟨ctx.baseDn opTargetBaseDn, ctx.scheme, some a, ctx.passwordWriteback⟩

theorem urlScheme_url (host : String) : urlScheme (ctx.url host) = ctx.scheme := by
  have hurl : ctx.url host = ctx.scheme ++ ("://" ++ (host ++ (":" ++ toString ctx.port))) := by
    simp [url, toString, String.append_assoc]
  generalize host ++ (":" ++ toString ctx.port) = rest at hurl
  have hcolon : ("://" ++ rest).toList = ':' :: '/' :: '/' :: rest.toList := by
    rw [String.toList_append]; rfl
  rw [hurl, urlScheme, String.toList_append, hcolon, scheme]
  rcases ctx.useTls with _ | _ <;> rfl

theorem of_bindHost {host : String} (h : (ctx.bindHost x cipher verifyTls host).run.Runs tr (.ok ldap)) :
    ∃ a, ctx.auth x cipher = some a ∧ ldap = ⟨ctx.url host, some a⟩ := by
  rcases Prog.runs_bindE.1 h with ⟨e, -, ⟨⟩⟩ | ⟨tr₁, tr₂, ldap, -, hopen, hbind⟩
  obtain ⟨reply, -, hopened⟩ := LdapConnector.runs_openUrl.1 hopen
  rcases reply with e | _ <;> cases hopened
  split at hbind
  next hk =>
    obtain ⟨hx, rfl⟩ := LdapConnector.of_kerberosBind hbind
    exact ⟨.kerberos, by simp [auth, LdapConnector.bindAuth, hk, hx], rfl⟩
  next hk =>
    rcases Prog.runs_bindE.1 hbind with ⟨e, -, ⟨⟩⟩ | ⟨_, _, ⟨principal, pw⟩, -, hcred, hsimple⟩
    obtain ⟨-, hcred⟩ := runs_liftResult.1 hcred
    obtain ⟨reply, -, hr⟩ := LdapConnector.runs_simpleBind.1 hsimple
    obtain rfl := LdapConnector.of_bound hr
    exact ⟨.simple principal pw, by simp [auth, LdapConnector.bindAuth, hk, ← hcred, Except.toOption], rfl⟩

theorem of_bindHosts {hosts : List String} {lastErr : Option AgentError}
    (h : (ctx.bindHosts x cipher verifyTls hosts lastErr).run.Runs tr (.ok ldap)) :
    ∃ host ∈ hosts, ∃ a, ctx.auth x cipher = some a ∧ ldap = ⟨ctx.url host, some a⟩ := by
  induction hosts generalizing lastErr tr with
  | nil => cases h.2
  | cons host hosts ih =>
    rcases Prog.runs_bindE.1 h with ⟨e, -, ⟨⟩⟩ | ⟨tr₁, tr₂, r, -, hlift, hrest⟩
    obtain ⟨_, hhost, ⟨⟩⟩ := runs_lift.1 hlift
    rcases r with e | ldap'
    · obtain ⟨host', hmem, hldap⟩ := ih hrest
      exact ⟨host', List.mem_cons_of_mem _ hmem, hldap⟩
    · obtain ⟨-, ⟨⟩⟩ := hrest
      exact ⟨host, List.mem_cons_self .., of_bindHost hhost⟩

theorem exists_bindHost (verifyTls : Bool) (host : String) (ha : ctx.auth x cipher = some a) :
    ∃ tr, (ctx.bindHost x cipher verifyTls host).run.Runs tr (.ok ⟨ctx.url host, some a⟩) := by
  obtain ⟨tr₁, hopen⟩ := LdapConnector.exists_openUrl (ctx.url host) verifyTls
  unfold auth LdapConnector.bindAuth at ha
  split at ha
  next hk =>
    split at ha
    next hx =>
      cases ha
      obtain ⟨tr₂, hbind⟩ := LdapConnector.exists_kerberosBind ⟨ctx.url host, none⟩ (ctx.url host) hx
      refine ⟨tr₁ ++ tr₂, hopen.bindE ?_⟩
      rw [if_pos hk]
      exact hbind
    next => cases ha
  next hk =>
    rcases hcred : ctx.credentials x cipher with e | ⟨principal, pw⟩
    · rw [hcred] at ha; cases ha
    rw [hcred] at ha
    cases ha
    obtain ⟨tr₂, hbind⟩ := LdapConnector.exists_simpleBind ⟨ctx.url host, none⟩ principal pw "forest bind"
    refine ⟨tr₁ ++ tr₂, hopen.bindE ?_⟩
    rw [if_neg hk, hcred]
    exact hbind

theorem exists_bindHosts_error (hosts : List String) (lastErr : Option AgentError) :
    ∃ tr e, (ctx.bindHosts x cipher verifyTls hosts lastErr).run.Runs tr (.error e) := by
  induction hosts generalizing lastErr with
  | nil => exact ⟨[], _, rfl, rfl⟩
  | cons host hosts ih =>
    obtain ⟨tr₁, e₁, hhost⟩ : ∃ tr e, (ctx.bindHost x cipher verifyTls host).run.Runs tr (.error e) :=
      ⟨_, _, Prog.runs_bindE.2 (.inl ⟨_, LdapConnector.runs_openUrl.2 ⟨.error "", rfl, rfl⟩, rfl⟩)⟩
    obtain ⟨tr₂, e₂, hrest⟩ := ih (some e₁)
    exact ⟨_, e₂, Prog.Runs.bindE (runs_lift.2 ⟨_, hhost, rfl⟩) hrest⟩

end ForestContext

namespace LdapConnector

variable {ctx : ForestContext} {cipher : Cipher} {verifyTls : Bool} {target : Option String} {c : LdapConnector}
  {p : Params}

theorem params_of_connectForest (h : (connectForest x ctx target cipher verifyTls).run.Runs tr (.ok c)) :
    ctx.params x target cipher = some c.params := by
  unfold connectForest at h
  split at h
  next => cases h.2
  next hhosts =>
    rcases Prog.runs_bindE.1 h with ⟨e, -, ⟨⟩⟩ | ⟨_, _, ldap, -, hbind, -, ⟨⟩⟩
    obtain ⟨host, -, a, ha, rfl⟩ := ForestContext.of_bindHosts hbind
    rw [ForestContext.params, if_neg hhosts, ha, Option.map_some, params, ForestContext.urlScheme_url]

theorem exists_connectForest (verifyTls : Bool) (hp : ctx.params x target cipher = some p) :
    ∃ tr c, (connectForest x ctx target cipher verifyTls).run.Runs tr (.ok c) := by
  unfold ForestContext.params at hp
  split at hp
  next => cases hp
  next hhosts =>
    obtain ⟨a, ha, -⟩ := Option.map_eq_some_iff.1 hp
    obtain ⟨host, hosts, hcons⟩ := List.exists_cons_of_ne_nil hhosts
    obtain ⟨tr, hbind⟩ := ForestContext.exists_bindHost verifyTls host ha
    unfold connectForest
    rw [if_neg hhosts, hcons]
    have hbinds : (ctx.bindHosts x cipher verifyTls (host :: hosts) none).run.Runs (tr ++ [])
        (.ok ⟨ctx.url host, some a⟩) := Prog.Runs.bindE (runs_lift.2 ⟨_, hbind, rfl⟩) ⟨rfl, rfl⟩
    exact ⟨_, _, hbinds.bindE (runs_pure.2 ⟨rfl, rfl⟩)⟩

variable (x ctx target cipher verifyTls) in
theorem exists_connectForest_error :
    ∃ tr e, (connectForest x ctx target cipher verifyTls).run.Runs tr (.error e) := by
  unfold connectForest
  split
  next => exact ⟨[], _, rfl, rfl⟩
  next =>
    obtain ⟨tr, e, h⟩ := ForestContext.exists_bindHosts_error ctx.hosts none
    exact ⟨tr, e, Prog.runs_bindE.2 (.inl ⟨e, h, rfl⟩)⟩

end LdapConnector

end NexusAgent
