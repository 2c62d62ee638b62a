import NexusAgent.Cycle
import NexusAgent.Lib.Mirror
import NexusAgent.Rules

/-!
# Runs without their secrets

`Event.hide` blacks out the secrets of an event: the passwords of binds, the values of `unicodePwd`, the URL of the
database, the token and the secrets of requests. `runs_redacted`: if the secrets of a configuration resolve to other
values, the service can do all it does with the first ones with the others too, and both runs look the same. So the
records, the completions and the reports depend on no secret.
-/

namespace NexusAgent

/-! ### What is hidden -/

def Auth.hide : Auth → Auth
  | .simple dn _ => .simple dn ""
  | .kerberos => .kerberos

def Ldap.hide (ldap : Ldap) : Ldap := { ldap with auth := ldap.auth.map Auth.hide }

def LdapConnector.hide (c : LdapConnector) : LdapConnector := { c with ldap := c.ldap.hide }

def Mod.hide : Mod → Mod
  | .replace attr values => if attr = "unicodePwd" then .replace attr [] else .replace attr values

def ServerClient.hide (c : ServerClient) : ServerClient := { c with agentToken := "" }

def Request.hide : Request → Request
  | .pushRecord path _ record => .pushRecord path "" record
  | .pullWriteback path _ => .pullWriteback path ""
  | r => r

/-- An event without its secrets. -/
def Event.hide : Event Reply → Event Reply
  | ⟨.simpleBind ldap dn _, r⟩ => ⟨.simpleBind ldap.hide dn "", r⟩
  | ⟨.gssapiBind ldap fqdn, r⟩ => ⟨.gssapiBind ldap.hide fqdn, r⟩
  | ⟨.add ldap dn attrs, r⟩ => ⟨.add ldap.hide dn attrs, r⟩
  | ⟨.modify ldap dn mods, r⟩ => ⟨.modify ldap.hide dn (mods.map Mod.hide), r⟩
  | ⟨.search ldap base scope filter attrs, r⟩ => ⟨.search ldap.hide base scope filter attrs, r⟩
  | ⟨.unbind ldap, r⟩ => ⟨.unbind ldap.hide, r⟩
  | ⟨.send client request, r⟩ => ⟨.send client.hide request.hide, r⟩
  | ⟨.dbConnect _, r⟩ => ⟨.dbConnect "", r⟩
  | ⟨.routed op conn, r⟩ => ⟨.routed op conn.hide, r⟩
  | e => e

namespace Redacted
variable {α β γ δ : Type}

/-- The second program can do what the first one does, and it looks the same. -/
abbrev Looks (Q : α → β → Prop) (t : Task α) (t' : Task β) : Prop := t.Mirrors Event.hide Call.isAwait Q t'

/-- As `Looks`, where the errors are the same. -/
abbrev Same (Q : α → β → Prop) (p : Agent α) (p' : Agent β) : Prop := Looks (Except.Alike Q) p.run p'.run

/-- Values that stand for the same secret may be any. -/
def Any : α → β → Prop := fun _ _ => True

/-- Secrets are there or are not, in both cases. -/
abbrev Both (r : Except AgentError α) (r' : Except AgentError β) : Prop := r.Alike Any r'

section
variable {Q : α → β → Prop} {P : γ → δ → Prop}

theorem same_result {r : Except AgentError α} {r' : Except AgentError β} {f : α → Agent γ} {f' : β → Agent δ}
    (hr : r.Alike Q r') (hf : ∀ a b, Q a b → Same P (f a) (f' b)) :
    Same P (liftResult r >>= f) (liftResult r' >>= f') := Prog.Mirrors.bindE hr hf

/-- Two calls that look the same, with the same answer. -/
theorem same_ask {c c' : Call} {f : Reply c → Agent α} {f' : Reply c' → Agent β} (hawait : c.isAwait → c'.isAwait)
    (hf : ∀ r, ∃ r', Event.hide ⟨c, r⟩ = Event.hide ⟨c', r'⟩ ∧ Same Q (f r) (f' r')) :
    Same Q (perform c >>= f) (perform c' >>= f') := ⟨hawait, hf⟩

theorem same_reply {reply : LdapReply γ} {lost rejected : String} {f : γ → Agent α} {f' : γ → Agent β}
    (hf : ∀ a, Same Q (f a) (f' a)) :
    Same Q (reply.orFail lost rejected >>= f) (reply.orFail lost rejected >>= f') := by
  refine Prog.Mirrors.bindE (Prog.mirrors_self (Except.Alike.refl fun _ => rfl) _) ?_
  rintro a _ rfl
  exact hf a

theorem same_self (p : Agent α) : Same Eq p p := Prog.mirrors_self (Except.Alike.refl fun _ => rfl) _

theorem same_return {p p' : Agent α} (g : α → γ) (h : Same Eq p p') :
    Same Eq (p >>= fun a => pure (g a)) (p' >>= fun a => pure (g a)) :=
  Prog.Mirrors.bindE h fun _ _ ha => congrArg g ha

theorem looks_lift {t : Task α} {t' : Task β} {f : α → Agent γ} {f' : β → Agent δ} (ht : Looks Q t t')
    (hf : ∀ a b, Q a b → Same P (f a) (f' b)) : Same P (ExceptT.lift t >>= f) (ExceptT.lift t' >>= f') :=
  Prog.Mirrors.bindE (Prog.Mirrors.bind ht fun _ _ h => h) hf

end

/-! ### Connections -/

def Ldaps (l l' : Ldap) : Prop := l.hide = l'.hide

def Conn (c c' : LdapConnector) : Prop := c.hide = c'.hide

theorem ldap_of_conn {c c' : LdapConnector} (h : Conn c c') : Ldaps c.ldap c'.ldap := congrArg LdapConnector.ldap h

theorem baseDn_of_conn {c c' : LdapConnector} (h : Conn c c') : c'.baseDn = c.baseDn :=
  (congrArg LdapConnector.baseDn h).symm

theorem writeback_of_conn {c c' : LdapConnector} (h : Conn c c') : c'.passwordWriteback = c.passwordWriteback :=
  (congrArg LdapConnector.passwordWriteback h).symm

theorem conn_mk {l l' : Ldap} (baseDn : String) (passwordWriteback : Bool) (h : Ldaps l l') :
    Conn ⟨l, baseDn, passwordWriteback⟩ ⟨l', baseDn, passwordWriteback⟩ := by
  show LdapConnector.mk _ _ _ = LdapConnector.mk _ _ _
  rw [show l.hide = l'.hide from h]

variable {x x' : Externals}

theorem same_bindReply {l l' : Ldap} {auth auth' : Auth} (reply : LdapReply Unit) (lost rejected : String)
    (hl : Ldaps l l') (ha : auth.hide = auth'.hide) :
    Same Ldaps (LdapConnector.bindReply l auth reply lost rejected)
      (LdapConnector.bindReply l' auth' reply lost rejected) := by
  refine same_reply fun _ => ?_
  have hurl : l.hide.url = l'.hide.url := congrArg Ldap.url hl
  show Ldap.mk l.hide.url (some auth.hide) = Ldap.mk l'.hide.url (some auth'.hide)
  rw [hurl, ha]

theorem same_simpleBind {l l' : Ldap} (dn pw pw' what : String) (hl : Ldaps l l') :
    Same Ldaps (LdapConnector.simpleBind l dn pw what) (LdapConnector.simpleBind l' dn pw' what) := by
  refine same_ask id fun reply => ⟨reply, ?_, same_bindReply _ _ _ hl rfl⟩
  show (⟨.simpleBind l.hide dn "", reply⟩ : Event Reply) = ⟨.simpleBind l'.hide dn "", reply⟩
  rw [show l.hide = l'.hide from hl]

theorem same_kerberosBind {l l' : Ldap} (url : String) (hkerberos : x'.kerberos = x.kerberos) (hl : Ldaps l l') :
    Same Ldaps (LdapConnector.kerberosBind x l url) (LdapConnector.kerberosBind x' l' url) := by
  unfold LdapConnector.kerberosBind
  rw [hkerberos]
  split
  · refine same_ask id fun reply => ⟨reply, ?_, same_bindReply _ _ _ hl rfl⟩
    show (⟨.gssapiBind l.hide _, reply⟩ : Event Reply) = ⟨.gssapiBind l'.hide _, reply⟩
    rw [show l.hide = l'.hide from hl]
  · exact rfl

theorem same_connect {url bindDn baseDn pw pw' : String} (verifyTls useKerberos passwordWriteback : Bool)
    (hkerberos : x'.kerberos = x.kerberos) :
    Same Conn (LdapConnector.connect x url bindDn pw baseDn verifyTls useKerberos passwordWriteback)
      (LdapConnector.connect x' url bindDn pw' baseDn verifyTls useKerberos passwordWriteback) := by
  refine Prog.Mirrors.bindE (same_self _) ?_
  rintro ldap _ rfl
  split
  · exact Prog.Mirrors.bindE (same_kerberosBind url hkerberos rfl) fun _ _ h => conn_mk baseDn passwordWriteback h
  · exact Prog.Mirrors.bindE (same_simpleBind bindDn pw pw' "bind" rfl) fun _ _ h => conn_mk baseDn passwordWriteback h

/-! ### Forests -/

/-- What one cipher opens the other one opens. -/
def Ciphers (x x' : Externals) (c c' : Cipher) : Prop :=
  ∀ enc, Both (c.decryptSerialized x enc) (c'.decryptSerialized x' enc)

/-- Libraries that decode and decrypt alike. -/
theorem ciphers_self (hdecode : x'.base64Decode = x.base64Decode) (hdecrypt : x'.aesDecrypt = x.aesDecrypt)
    (hutf8 : x'.utf8Error = x.utf8Error) (c : Cipher) : Ciphers x x' c c := by
  intro enc
  have heq : c.decryptSerialized x' enc = c.decryptSerialized x enc := by
    simp only [Cipher.decryptSerialized, Cipher.decryptB64, hdecode, hdecrypt, hutf8]
  rw [heq]
  exact .refl (fun _ => trivial) _

section
variable {ctx : ForestContext} {c c' : Cipher} (verifyTls : Bool) (hkerberos : x'.kerberos = x.kerberos)
  (hc : Ciphers x x' c c')
include hc

theorem credentials_alike : (ctx.credentials x c).Alike (fun p p' => p.1 = p'.1) (ctx.credentials x' c') := by
  unfold ForestContext.credentials
  split
  · exact rfl
  split
  · exact rfl
  · exact (hc _).map fun _ _ _ => rfl

include hkerberos

theorem same_bindHost (host : String) :
    Same Ldaps (ctx.bindHost x c verifyTls host) (ctx.bindHost x' c' verifyTls host) := by
  refine Prog.Mirrors.bindE (same_self _) ?_
  rintro ldap _ rfl
  split
  · exact same_kerberosBind _ hkerberos rfl
  · refine same_result (credentials_alike hc) ?_
    rintro ⟨principal, pw⟩ ⟨_, pw'⟩ rfl
    exact same_simpleBind principal pw pw' "forest bind" rfl

theorem same_bindHosts (hosts : List String) (lastErr : Option AgentError) :
    Same Ldaps (ctx.bindHosts x c verifyTls hosts lastErr) (ctx.bindHosts x' c' verifyTls hosts lastErr) := by
  induction hosts generalizing lastErr with
  | nil => exact rfl
  | cons host hosts ih =>
    refine looks_lift (same_bindHost verifyTls hkerberos hc host) fun r r' hr => ?_
    rcases r with e | ldap <;> rcases r' with e' | ldap'
    · obtain rfl : e = e' := hr
      exact ih (some e)
    · exact hr.elim
    · exact hr.elim
    · exact hr

theorem same_connectForest (opTarget : Option String) :
    Same Conn (LdapConnector.connectForest x ctx opTarget c verifyTls)
      (LdapConnector.connectForest x' ctx opTarget c' verifyTls) := by
  unfold LdapConnector.connectForest
  split
  · exact rfl
  · refine Prog.Mirrors.bindE (same_bindHosts verifyTls hkerberos hc ctx.hosts none) fun _ _ h => ?_
    exact conn_mk _ _ h

end

/-! ### Requests -/

section
variable {c c' : ServerClient} (hc : c.hide = c'.hide)
include hc

theorem hide_send {r r' : Request} (hr : r.hide = r'.hide) (reply : Except String Status) :
    Event.hide ⟨.send c r, reply⟩ = Event.hide ⟨.send c' r', reply⟩ := by
  show (⟨.send c.hide r.hide, reply⟩ : Event Reply) = ⟨.send c'.hide r'.hide, reply⟩
  rw [hc, hr]

theorem same_request {r r' : Request} (what refused : String) (hr : r.hide = r'.hide) :
    Same Eq (c.request r what refused) (c'.request r' what refused) := by
  refine same_ask id fun reply => ⟨reply, hide_send hc hr reply, ?_⟩
  rcases reply with e | status
  · exact rfl
  · exact same_self _

theorem looks_notify (r : Request) : Looks Eq (c.notify r) (c'.notify r) :=
  ⟨id, fun reply => ⟨reply, hide_send hc rfl reply, rfl⟩⟩

theorem same_pollOperations (limit : Nat) : Same Eq (c.pollOperations limit) (c'.pollOperations limit) :=
  Prog.Mirrors.bindE (same_request hc "poll" "poll" rfl) fun _ _ _ => same_self _

theorem same_fetchConfig : Same Eq c.fetchConfig c'.fetchConfig :=
  Prog.Mirrors.bindE (same_request hc "fetch config" "config" rfl) fun _ _ _ => same_self _

theorem same_pullWriteback (path secret secret' : String) :
    Same Eq (c.pullWriteback path secret) (c'.pullWriteback path secret') := by
  refine same_ask id fun reply => ⟨reply, hide_send hc rfl reply, ?_⟩
  rcases reply with e | status
  · exact rfl
  · exact same_self _

end

/-! ### Operations -/

section
variable {conn conn' : LdapConnector} (hconn : Conn conn conn')
include hconn

theorem same_modify {Q : α → β → Prop} {dn : String} {mods mods' : List Mod} {f : LdapReply Unit → Agent α}
    {f' : LdapReply Unit → Agent β} (hmods : mods.map Mod.hide = mods'.map Mod.hide)
    (hf : ∀ reply, Same Q (f reply) (f' reply)) :
    Same Q (perform (.modify conn.ldap dn mods) >>= f) (perform (.modify conn'.ldap dn mods') >>= f') := by
  refine same_ask id fun reply => ⟨reply, ?_, hf reply⟩
  show (⟨.modify conn.ldap.hide dn (mods.map Mod.hide), reply⟩ : Event Reply) = ⟨.modify conn'.ldap.hide dn _, reply⟩
  rw [hmods, show conn.ldap.hide = conn'.ldap.hide from ldap_of_conn hconn]

theorem same_search {Q : α → β → Prop} {base filter : String} {scope : Scope} {attrs : List String}
    {f : LdapReply (List SearchEntry) → Agent α} {f' : LdapReply (List SearchEntry) → Agent β}
    (hf : ∀ reply, Same Q (f reply) (f' reply)) :
    Same Q (perform (.search conn.ldap base scope filter attrs) >>= f)
      (perform (.search conn'.ldap base scope filter attrs) >>= f') := by
  refine same_ask id fun reply => ⟨reply, ?_, hf reply⟩
  show (⟨.search conn.ldap.hide base scope filter attrs, reply⟩ : Event Reply) = ⟨.search conn'.ldap.hide .., reply⟩
  rw [show conn.ldap.hide = conn'.ldap.hide from ldap_of_conn hconn]

theorem same_setPassword (dn pw pw' : String) : Same Eq (conn.setPassword dn pw) (conn'.setPassword dn pw') :=
  same_modify hconn rfl fun _ => same_self _

theorem same_createAccount (attrs : SortedMap String String) {pw pw' : Option String} (hpw : pw.isSome = pw'.isSome) :
    Same Eq (conn.createAccount attrs pw) (conn'.createAccount attrs pw') := by
  unfold LdapConnector.createAccount
  split
  · exact rfl
  next dn _ =>
    refine same_ask id fun reply => ⟨reply, ?_, same_reply fun _ => ?_⟩
    · show (⟨.add conn.ldap.hide dn _, reply⟩ : Event Reply) = ⟨.add conn'.ldap.hide dn _, reply⟩
      rw [show conn.ldap.hide = conn'.ldap.hide from ldap_of_conn hconn]
    · rw [writeback_of_conn hconn]
      rcases conn.passwordWriteback with _ | _
      · exact rfl
      rcases pw with _ | pw <;> rcases pw' with _ | pw'
      · exact rfl
      · cases hpw
      · cases hpw
      · exact Prog.Mirrors.bindE (same_setPassword hconn dn pw pw') fun _ _ _ => rfl

theorem same_findDn (email : String) : Same Eq (conn.findDn email) (conn'.findDn email) := by
  unfold LdapConnector.findDn
  rw [baseDn_of_conn hconn]
  exact same_search hconn fun _ => same_self _

theorem same_setUac (email uac : String) : Same Eq (conn.setUac email uac) (conn'.setUac email uac) := by
  refine Prog.Mirrors.bindE (same_findDn hconn email) ?_
  rintro dn _ rfl
  exact same_modify hconn rfl fun _ => same_self _

theorem same_updateAttributes (email : String) (attrs : SortedMap String String) :
    Same Eq (conn.updateAttributes email attrs) (conn'.updateAttributes email attrs) := by
  refine Prog.Mirrors.bindE (same_findDn hconn email) ?_
  rintro dn _ rfl
  split
  · exact same_modify hconn rfl fun _ => same_self _
  · exact rfl

theorem same_testBase : Same Eq conn.testBase conn'.testBase := by
  unfold LdapConnector.testBase
  rw [baseDn_of_conn hconn]
  exact same_search hconn fun _ => same_self _

theorem same_searchUsers (base filter : String) :
    Same Eq (conn.searchUsers base filter) (conn'.searchUsers base filter) := same_search hconn fun _ => same_self _

end

/-! ### A batch -/

/-- Libraries that differ in what the secrets of the environment and of the ciphers are. -/
structure Libraries (x x' : Externals) : Prop where
  crates : x'.toCrates = x.toCrates
  readAttributes : x'.readAttributes = x.readAttributes
  readForest : x'.readForest = x.readForest
  kerberos : x'.kerberos = x.kerberos
  directoryId : directoryIdFrom x' = directoryIdFrom x

/-- Modes that differ in their secrets. -/
structure Modes (x x' : Externals) (m m' : AdMode) : Prop where
  server : m.server.hide = m'.server.hide
  ad : m'.ad = m.ad
  cipher : Ciphers x x' m.cipher m'.cipher
  verifyTls : m'.verifyTls = m.verifyTls
  batch : m'.batch = m.batch

section
variable {m m' : AdMode} (hx : Libraries x x') (hm : Modes x x' m m')

theorem parseAttrs_eq (hx : Libraries x x') (json : Option String) :
    AdMode.parseAttrs x' json = AdMode.parseAttrs x json := by
  unfold AdMode.parseAttrs
  rw [hx.readAttributes]

theorem password_alike (hm : Modes x x' m m') (op : Operation) :
    (m.password x op).Alike (fun pw pw' => pw.isSome = pw'.isSome) (m'.password x' op) := by
  unfold AdMode.password
  split
  · exact (hm.cipher _).map fun _ _ _ => rfl
  · exact rfl

include hx hm

theorem same_process {conn conn' : LdapConnector} (op : Operation) (hconn : Conn conn conn') :
    Same Eq (m.process x op conn) (m'.process x' op conn') := by
  have hattrs : (AdMode.parseAttrs x op.attributesJson).Alike Eq (AdMode.parseAttrs x' op.attributesJson) := by
    rw [parseAttrs_eq hx]
    exact .refl (fun _ => rfl) _
  have hemail : (AdMode.email op).Alike Eq (AdMode.email op) := .refl (fun _ => rfl) _
  unfold AdMode.process
  split
  · refine same_result hattrs ?_
    rintro attrs _ rfl
    refine same_result (password_alike hm op) fun pw pw' hpw => ?_
    exact same_return _ (same_createAccount hconn attrs hpw)
  · refine same_result hemail ?_
    rintro email _ rfl
    exact same_return _ (same_setUac hconn email uacEnabled)
  · refine same_result hemail ?_
    rintro email _ rfl
    exact same_return _ (same_setUac hconn email uacDisabled)
  · refine same_result hattrs ?_
    rintro attrs _ rfl
    refine same_result hemail ?_
    rintro email _ rfl
    exact same_return _ (same_updateAttributes hconn email attrs)
  · exact same_return _ (same_testBase hconn)
  · refine same_result hattrs ?_
    rintro params _ rfl
    refine same_result (Except.Alike.refl (P := Eq) (fun _ => rfl) _) ?_
    rintro base _ rfl
    exact same_return _ (same_searchUsers hconn base _)
  · exact rfl

theorem same_processOn {conn conn' : LdapConnector} (op : Operation) (hconn : Conn conn conn') :
    Same Eq (m.processOn x op conn) (m'.processOn x' op conn') := by
  refine same_ask id fun _ => ⟨(), ?_, same_process hx hm op hconn⟩
  show (⟨.routed op conn.hide, ()⟩ : Event Reply) = ⟨.routed op conn'.hide, ()⟩
  rw [show conn.hide = conn'.hide from hconn]

/-- Connections that differ in their secrets, by the same forests. -/
def Caches : Conns → Conns → Prop := List.Forall₂ fun e e' => e.1 = e'.1 ∧ Conn e.2 e'.2

omit hx hm in
theorem lookup_alike {conns conns' : Conns} (h : Caches conns conns') (forestId : String) :
    (conns.lookup forestId = none ∧ conns'.lookup forestId = none) ∨
      ∃ conn conn', conns.lookup forestId = some conn ∧ conns'.lookup forestId = some conn' ∧ Conn conn conn' := by
  induction h with
  | nil => exact .inl ⟨rfl, rfl⟩
  | @cons e e' conns conns' he _ ih =>
    obtain ⟨key, conn⟩ := e
    obtain ⟨key', conn'⟩ := e'
    obtain ⟨rfl, hconn⟩ : key = key' ∧ Conn conn conn' := he
    rw [List.lookup_cons, List.lookup_cons]
    split
    · exact .inr ⟨conn, conn', rfl, rfl, hconn⟩
    · exact ih

theorem looks_routeAndProcess {conn conn' : LdapConnector} {conns conns' : Conns} (op : Operation)
    (hconn : Conn conn conn') (hconns : Caches conns conns') :
    Looks (fun p p' => p.1 = p'.1 ∧ Caches p.2 p'.2) (m.routeAndProcess x op conn conns)
      (m'.routeAndProcess x' op conn' conns') := by
  have hprocess {c c' : LdapConnector} {cs cs' : Conns} (hc : Conn c c') (hcs : Caches cs cs') :
      Looks (fun p p' => p.1 = p'.1 ∧ Caches p.2 p'.2) ((m.processOn x op c).run >>= fun r => pure (r, cs))
        ((m'.processOn x' op c').run >>= fun r => pure (r, cs')) := by
    exact Prog.Mirrors.bind (same_processOn hx hm op hc) fun r r' hr => ⟨hr.eq, hcs⟩
  unfold AdMode.routeAndProcess
  rw [hx.readForest, hm.verifyTls]
  split
  · exact hprocess hconn hconns
  split
  · exact ⟨rfl, hconns⟩
  next ctx _ =>
    rcases lookup_alike hconns ctx.forestId with ⟨hnone, hnone'⟩ | ⟨c, c', hsome, hsome', hc⟩
    · rw [hnone, hnone']
      refine Prog.Mirrors.bind (same_connectForest m.verifyTls hx.kerberos hm.cipher op.targetBaseDn) fun r r' hr => ?_
      rcases r with e | c <;> rcases r' with e' | c'
      · obtain rfl : e = e' := hr
        exact ⟨rfl, hconns⟩
      · exact hr.elim
      · exact hr.elim
      · exact hprocess hr (.cons ⟨rfl, hr⟩ hconns)
    · rw [hsome, hsome']
      exact hprocess hc hconns

theorem same_report (op : Operation) (r : Except AgentError Json) : Same Eq (m.report x op r) (m'.report x' op r) := by
  have hcompletion : AdMode.completion x' op r = AdMode.completion x op r := by
    rcases r with e | detail
    · rfl
    · exact congrArg (fun k : Crates => Request.complete op.id true (some (k.valueText detail)) none) hx.crates
  rw [AdMode.report_eq, AdMode.report_eq, hcompletion]
  refine looks_lift (same_request hm.server "complete" "complete" rfl) fun _ _ _ => same_self _

theorem same_drain {conn conn' : LdapConnector} {conns conns' : Conns} (ops : List Operation) (counters : SyncCounters)
    (hconn : Conn conn conn') (hconns : Caches conns conns') :
    Same (fun p p' => p.1 = p'.1 ∧ Caches p.2 p'.2) (m.drain x conn ops conns counters)
      (m'.drain x' conn' ops conns' counters) := by
  induction ops generalizing conns conns' counters with
  | nil => exact ⟨rfl, hconns⟩
  | cons op ops ih =>
    refine same_ask id fun _ => ⟨(), rfl, looks_lift (looks_routeAndProcess hx hm op hconn hconns) ?_⟩
    rintro ⟨r, conns⟩ ⟨_, conns'⟩ ⟨rfl, hconns⟩
    exact Prog.Mirrors.bindE (same_report hx hm op r) fun _ _ _ => ih _ hconns

omit hx hm in
theorem looks_unbind {c c' : LdapConnector} (h : Conn c c') : Looks Eq c.unbind c'.unbind := by
  refine ⟨id, fun _ => ⟨(), ?_, rfl⟩⟩
  show (⟨.unbind c.ldap.hide, ()⟩ : Event Reply) = ⟨.unbind c'.ldap.hide, ()⟩
  rw [show c.ldap.hide = c'.ldap.hide from ldap_of_conn h]

omit hx hm in
theorem looks_unbindAll {conns conns' : Conns} (h : Caches conns conns') :
    Looks Eq (AdMode.unbindAll conns) (AdMode.unbindAll conns') := by
  induction h with
  | nil => exact rfl
  | @cons e e' _ _ he _ ih => exact Prog.Mirrors.bind (looks_unbind he.2) fun _ _ _ => ih

theorem same_runOnce (hpw : Both (Config.resolve x m.ad.bindPassword) (Config.resolve x' m.ad.bindPassword)) :
    Same Eq (m.runOnce x) (m'.runOnce x') := by
  unfold AdMode.runOnce
  rw [hm.ad, hm.verifyTls, hm.batch]
  refine same_result hpw fun pw pw' _ => ?_
  refine Prog.Mirrors.bindE (same_connect _ _ _ hx.kerberos) fun ldap ldap' hldap => ?_
  refine Prog.Mirrors.bindE (same_pollOperations hm.server m.batch) ?_
  rintro ops _ rfl
  refine Prog.Mirrors.bindE (same_drain hx hm ops {} hldap .nil) ?_
  rintro ⟨counters, conns⟩ ⟨_, conns'⟩ ⟨rfl, hconns⟩
  exact looks_lift (looks_unbind hldap) fun _ _ _ => looks_lift (looks_unbindAll hconns) fun _ _ _ => rfl

end

/-! ### A pass in DB mode -/

section
variable {c c' : ServerClient} (hc : c.hide = c'.hide) {db : DbSection}
include hc

theorem same_pushAll (secret secret' : String) (records : List Json) (counters : SyncCounters) :
    Same Eq (DbMode.pushAll ⟨c, db⟩ secret records counters) (DbMode.pushAll ⟨c', db⟩ secret' records counters) := by
  induction records generalizing counters with
  | nil => exact rfl
  | cons record records ih =>
    refine looks_lift (same_request hc "push" "push" rfl) fun r r' hr => ?_
    obtain rfl := hr.eq
    rcases r with e | _
    · exact Prog.Mirrors.bindE (same_self _) fun _ _ _ => ih _
    · exact ih _

theorem same_inbound (conn : DbConnector) (secret secret' : String) (counters : SyncCounters) :
    Same Eq (DbMode.inbound ⟨c, db⟩ conn secret counters) (DbMode.inbound ⟨c', db⟩ conn secret' counters) := by
  unfold DbMode.inbound
  dsimp only
  split
  · refine Prog.Mirrors.bindE (same_pullWriteback hc _ secret secret') ?_
    rintro changes _ rfl
    exact same_self _
  · exact rfl

theorem same_runDb (hurl : Both (Config.resolve x db.url) (Config.resolve x' db.url))
    (hsecret : Both (Config.resolve x db.pushSecret) (Config.resolve x' db.pushSecret)) :
    Same Eq (runDb x db c) (runDb x' db c') := by
  refine same_result hurl fun url url' _ => same_result hsecret fun secret secret' _ => ?_
  have hconnect : Same Eq (DbConnector.connect url db.driver db.table db.keyColumn db.fields)
      (DbConnector.connect url' db.driver db.table db.keyColumn db.fields) := by
    refine same_ask id fun reply => ⟨reply, rfl, ?_⟩
    rcases reply with e | _ <;> exact rfl
  refine Prog.Mirrors.bindE hconnect ?_
  rintro conn _ rfl
  refine Prog.Mirrors.bindE (same_self _) ?_
  rintro records _ rfl
  refine Prog.Mirrors.bindE (same_pushAll hc secret secret' records {}) ?_
  rintro counters _ rfl
  exact Prog.Mirrors.bindE (same_self _) fun _ _ _ => same_inbound hc conn secret secret' counters

end

/-! ### The service -/

/-- The secrets of the configuration resolve to other values, or fail in the same way. -/
structure Secrets (x x' : Externals) (config : Config) : Prop where
  token : Both (Config.resolve x config.server.agentToken) (Config.resolve x' config.server.agentToken)
  cipher : (config.serverCipher x).Alike (Ciphers x x') (config.serverCipher x')
  bindPassword : ∀ ad, config.ad = some ad → Both (Config.resolve x ad.bindPassword) (Config.resolve x' ad.bindPassword)
  url : ∀ db, config.db = some db → Both (Config.resolve x db.url) (Config.resolve x' db.url)
  pushSecret : ∀ db, config.db = some db → Both (Config.resolve x db.pushSecret) (Config.resolve x' db.pushSecret)

/-- Sessions that differ in their secrets. -/
structure Logins (x x' : Externals) (sess sess' : Session) : Prop where
  server : sess.server.hide = sess'.server.hide
  cipher : Ciphers x x' sess.cipher sess'.cipher
  hostname : sess'.hostname = sess.hostname
  directoryId : sess'.directoryId = sess.directoryId

section
variable {config : Config}

/-- The broker changes no secret. -/
theorem Secrets.effective (h : Secrets x x' config) (remote : Except AgentError RemoteConfig) :
    Secrets x x' (NexusAgent.effective config remote) := by
  rcases remote with e | remote
  · exact h
  refine ⟨h.token, h.cipher, fun ad had => ?_, h.url, h.pushSecret⟩
  rw [show (NexusAgent.effective config (.ok remote)).ad = (Config.applySections config.toSections remote).ad from rfl,
    Config.applySections] at had
  dsimp only at had
  split at had
  next dir ad' _ had' =>
    obtain rfl := Option.some.inj had
    exact h.bindPassword ad' had'
  · exact h.bindPassword ad had

theorem same_new (baseUrl agentId : String) (token token' : String) (verifyTls : Bool) :
    Same (fun c c' => c.hide = c'.hide) (ServerClient.new baseUrl token agentId verifyTls)
      (ServerClient.new baseUrl token' agentId verifyTls) := by
  refine same_ask id fun reply => ⟨reply, rfl, ?_⟩
  rcases reply with e | _ <;> exact rfl

theorem same_start (hx : Libraries x x') (hs : Secrets x x' config) :
    Same (Logins x x') (start x config) (start x' config) := by
  refine same_ask id fun opened => ⟨opened, rfl, same_result (Q := Any) (.refl (fun _ => trivial) _) fun _ _ _ => ?_⟩
  refine same_result hs.token fun token token' _ => ?_
  refine Prog.Mirrors.bindE (same_new _ _ token token' _) fun server server' hserver => ?_
  refine same_result hs.cipher fun cipher cipher' hcipher => same_ask id fun hostname => ⟨hostname, rfl, ?_⟩
  refine Prog.Mirrors.bindE (same_self _) fun _ _ _ => ?_
  refine ⟨hserver, hcipher, rfl, ?_⟩
  show directoryId x' config = directoryId x config
  rw [directoryId, directoryId, hx.directoryId]

variable {sess sess' : Session} (hx : Libraries x x') (hs : Secrets x x' config) (hsess : Logins x x' sess sess')

theorem looks_stop (hsess : Logins x x' sess sess') : Looks Eq (stop config sess) (stop config sess') :=
  Prog.Mirrors.bind (looks_notify hsess.server _) fun _ _ _ => Prog.mirrors_self (fun _ => rfl) _

include hx hs hsess

theorem same_runMode : Same Eq (runMode x (runDb x) config sess) (runMode x' (runDb x') config sess') := by
  rcases hmode : config.agent.mode with _ | _
  · rw [runMode_ad hmode, runMode_ad hmode]
    exact same_runOnce hx ⟨hsess.server, rfl, hsess.cipher, rfl, rfl⟩ (hs.bindPassword _ (Option.some_get _).symm)
  · rw [runMode_db hmode, runMode_db hmode]
    exact same_runDb hsess.server (hs.url _ (Option.some_get _).symm) (hs.pushSecret _ (Option.some_get _).symm)

theorem looks_runCycle : Looks Eq (runCycle x (runDb x) config sess) (runCycle x' (runDb x') config sess') := by
  have hbeat (mode : String) : Looks Eq (sess.server.heartbeat mode sess.hostname version sess.directoryId)
      (sess'.server.heartbeat mode sess'.hostname version sess'.directoryId) := by
    rw [hsess.hostname, hsess.directoryId]
    exact looks_notify hsess.server _
  have hpass : Same Eq (runPass x (runDb x) config sess) (runPass x' (runDb x') config sess') := by
    refine Prog.Mirrors.bindE (same_runMode hx hs hsess) ?_
    rintro counters _ rfl
    exact same_self _
  refine Prog.Mirrors.bind (hbeat _) fun _ _ _ => Prog.Mirrors.bind hpass fun r r' hr => ?_
  obtain rfl := hr.eq
  rcases r with e | counters
  · exact Prog.mirrors_self (fun _ => rfl) _
  · dsimp only
    split
    · exact Prog.Mirrors.bind (looks_notify hsess.server _) fun _ _ _ => Prog.mirrors_self (fun _ => rfl) _
    · exact Prog.mirrors_self (fun _ => rfl) _

theorem looks_runOne : Looks Eq (runOne x (runDb x) config sess) (runOne x' (runDb x') config sess') := by
  refine Prog.Mirrors.bind (same_fetchConfig hsess.server) fun r r' hr => ?_
  obtain rfl := hr.eq
  exact looks_runCycle hx (hs.effective r) hsess

theorem exists_loopRun {cycles : List Trace} {cut : Trace} (h : LoopRun x (runDb x) config sess cycles cut) :
    ∃ cycles' cut', LoopRun x' (runDb x') config sess' cycles' cut' ∧
      cycles.map (List.map Event.hide) = cycles'.map (List.map Event.hide) ∧
      cut.map Event.hide = cut'.map Event.hide := by
  have hone := looks_runOne hx hs hsess
  induction h with
  | cut h =>
    obtain ⟨cut', hcut', heq⟩ := hone.exists_cut h
    exact ⟨[], cut', .cut hcut', rfl, heq⟩
  | cycle h hrest ih =>
    obtain ⟨cycles', cut', hloop, hcycles, hcut⟩ := ih
    obtain ⟨cycle', _, hcycle', heq, -⟩ := hone.exists_runs h
    refine ⟨cycle' :: cycles', cut', .cycle hcycle' hloop, ?_, hcut⟩
    rw [List.map_cons, List.map_cons, heq, hcycles]

end

end Redacted

/-- With other secrets the service can do all that it does, and without the secrets it looks the same. -/
theorem runs_redacted {x x' : Externals} {config : Config} {sess : Session} {first cut last : Trace}
    {cycles : List Trace} (hx : Redacted.Libraries x x') (hs : Redacted.Secrets x x' config)
    (h : ServiceRun x (runDb x) config sess first cycles cut last) :
    ∃ sess' first' cycles' cut' last', ServiceRun x' (runDb x') config sess' first' cycles' cut' last' ∧
      first.map Event.hide = first'.map Event.hide ∧
      cycles.map (List.map Event.hide) = cycles'.map (List.map Event.hide) ∧
      cut.map Event.hide = cut'.map Event.hide ∧ last.map Event.hide = last'.map Event.hide := by
  obtain ⟨first', r, hfirst', hfirst, hr⟩ := (Redacted.same_start hx hs).exists_runs h.start
  rcases r with e | sess'
  · exact hr.elim
  obtain ⟨cycles', cut', hloop, hcycles, hcut⟩ := Redacted.exists_loopRun hx hs hr h.loop
  obtain ⟨last', _, hlast', hlast, -⟩ := (Redacted.looks_stop hr).exists_runs h.stop
  exact ⟨sess', first', cycles', cut', last', ⟨hfirst', hloop, hlast'⟩, hfirst, hcycles, hcut, hlast⟩

/-- Libraries with the password of the directory in the environment. -/
def Externals.withPassword (pw : String) : Externals :=
  Externals.plain.sample fun var => if var = "AD_PASSWORD" then some pw else none

/-- An agent that takes the password of its directory from the environment. -/
def envConfig : Config :=
  ⟨⟨⟨"agent-1", .ad, 60, "audit.jsonl", none⟩,
    ⟨"https://broker", "token", "AAAAAAAAAAAAAAAAAAAAAAAAAAAAAAAAAAAAAAAAAAA=", true⟩,
    some ⟨"ldaps://dc01:636", "CN=agent", "env:AD_PASSWORD", "DC=corp", false, true⟩, none⟩, rfl⟩

theorem serverCipher_env (pw : String) : envConfig.serverCipher (.withPassword pw) = .ok (.zero "local-default") := by
  rfl

/-- Only the password differs. -/
theorem secrets_env {x x' : Externals} {c : Cipher} {pw pw' : String} (hc : envConfig.serverCipher x = .ok c)
    (hc' : envConfig.serverCipher x' = .ok c) (hdecode : x'.base64Decode = x.base64Decode)
    (hdecrypt : x'.aesDecrypt = x.aesDecrypt) (hutf8 : x'.utf8Error = x.utf8Error)
    (hpw : Config.resolve x "env:AD_PASSWORD" = .ok pw) (hpw' : Config.resolve x' "env:AD_PASSWORD" = .ok pw') :
    Redacted.Secrets x x' envConfig := by
  refine ⟨trivial, ?_, ?_, nofun, nofun⟩
  · rw [hc, hc']
    exact Redacted.ciphers_self hdecode hdecrypt hutf8 c
  · rintro _ ⟨⟩
    rw [hpw, hpw']
    trivial

theorem runs_redacted_password :
    ServiceRun (.withPassword "summer") (runDb (.withPassword "summer")) envConfig corpSession corpStart
      [disablingCycle (.withPassword "summer") "summer" envConfig corpSession rfl]
      (disablingCut "summer" envConfig corpSession rfl) corpStop ∧
      ∃ sess' first' cycles' cut' last',
        ServiceRun (.withPassword "winter") (runDb (.withPassword "winter")) envConfig sess' first' cycles' cut' last' ∧
        corpStart.map Event.hide = first'.map Event.hide ∧
        [disablingCycle (.withPassword "summer") "summer" envConfig corpSession rfl].map (List.map Event.hide) =
          cycles'.map (List.map Event.hide) ∧
        (disablingCut "summer" envConfig corpSession rfl).map Event.hide = cut'.map Event.hide ∧
        corpStop.map Event.hide = last'.map Event.hide := by
  have hsecrets : Redacted.Secrets (.withPassword "summer") (.withPassword "winter") envConfig :=
    secrets_env (serverCipher_env _) (serverCipher_env _) rfl rfl rfl rfl rfl
  have hlibraries : Redacted.Libraries (.withPassword "summer") (.withPassword "winter") := ⟨rfl, rfl, rfl, rfl, rfl⟩
  have h := serviceRun_disabling (runDb (.withPassword "summer")) rfl rfl rfl
    (runs_booted rfl (serverCipher_env "summer"))
  exact ⟨h, runs_redacted hlibraries hsecrets h⟩

end NexusAgent
