import NexusAgent.Cycle
import NexusAgent.Rules
import NexusAgent.Writes
import NexusAgent.Lib.Utf16

/-!
# What the broker is told

`Effort` is what the agent has asked the directory for an operation since it took it up, with the answers. `Done` says
of each kind of operation what has to be granted, and the result then. `verdicts_earned`: in every run of the service
each thing the directory is asked is one on the way to `Done`, with everything before it granted; the broker is told a
success with the result of what is done, and a failure only where nothing was asked or the last thing was denied.
`passwords_exact`: the password of a new account reaches the directory as its quoted UTF-16 text.
-/

namespace NexusAgent
open Text

structure Effort where
  op : Option Operation := none
  conn : Option LdapConnector := none
  events : Trace := []

namespace Effort

/-- The effort after an event. -/
def next (s : Effort) : Event Reply → Effort
  | ⟨.started op, _⟩ => ⟨some op, none, []⟩
  | ⟨.routed _ conn, _⟩ => { s with conn := some conn }
  | ⟨.add ldap dn attrs, r⟩ => { s with events := s.events ++ [⟨.add ldap dn attrs, r⟩] }
  | ⟨.modify ldap dn mods, r⟩ => { s with events := s.events ++ [⟨.modify ldap dn mods, r⟩] }
  | ⟨.search ldap base scope filter attrs, r⟩ =>
    { s with events := s.events ++ [⟨.search ldap base scope filter attrs, r⟩] }
  | _ => s

section
variable (x : Externals) (cipher : Cipher) (op : Operation) (conn : LdapConnector)

def password : Except AgentError (Option String) :=
  match op.encryptedPassword with
  | some enc => (cipher.decryptSerialized x enc).map some
  | none => .ok none

/-- All that the operation asks for has been granted, and it has the result. -/
inductive Done : Trace → Json → Prop
  | created {attrs : SortedMap String String} {dn : String} {pw : Option String} (htype : op.opType = "CREATE_ACCOUNT")
    (hattrs : AdMode.parseAttrs x op.attributesJson = .ok attrs) (hdn : attrs.get? "distinguishedName" = some dn)
    (hpw : password x cipher op = .ok pw) (hnone : conn.passwordWriteback = true → pw = none) :
    Done [⟨.add conn.ldap dn (LdapConnector.newAccount attrs), .ok ()⟩] (.obj [("dn", .str dn)])
  | createdWithPassword {attrs : SortedMap String String} {dn pw : String} (htype : op.opType = "CREATE_ACCOUNT")
    (hattrs : AdMode.parseAttrs x op.attributesJson = .ok attrs) (hdn : attrs.get? "distinguishedName" = some dn)
    (hpw : password x cipher op = .ok (some pw)) (hwriteback : conn.passwordWriteback = true) :
    Done [⟨.add conn.ldap dn (LdapConnector.newAccount attrs), .ok ()⟩,
      ⟨.modify conn.ldap dn [.replace "unicodePwd" [utf16Le s!"\"{pw}\""]], .ok ()⟩] (.obj [("dn", .str dn)])
  | enabled {email : String} (entry : SearchEntry) (entries : List SearchEntry) (htype : op.opType = "ENABLE_ACCOUNT")
    (hemail : op.userEmail = some email) :
    Done [⟨conn.findCall email, .ok (entry :: entries)⟩,
      ⟨.modify conn.ldap entry.dn [.replace "userAccountControl" [utf8 uacEnabled]], .ok ()⟩]
      (.obj [("dn", .str entry.dn), ("state", .str "enabled")])
  | disabled {email : String} (entry : SearchEntry) (entries : List SearchEntry) (htype : op.opType = "DISABLE_ACCOUNT")
    (hemail : op.userEmail = some email) :
    Done [⟨conn.findCall email, .ok (entry :: entries)⟩,
      ⟨.modify conn.ldap entry.dn [.replace "userAccountControl" [utf8 uacDisabled]], .ok ()⟩]
      (.obj [("dn", .str entry.dn), ("state", .str "disabled")])
  | updated {attrs : SortedMap String String} {email : String} (entry : SearchEntry) (entries : List SearchEntry)
    (htype : op.opType = "UPDATE_ATTRIBUTES") (hattrs : AdMode.parseAttrs x op.attributesJson = .ok attrs)
    (hemail : op.userEmail = some email) (hmods : LdapConnector.updateMods attrs ≠ []) :
    Done [⟨conn.findCall email, .ok (entry :: entries)⟩,
      ⟨.modify conn.ldap entry.dn (LdapConnector.updateMods attrs), .ok ()⟩]
      (.obj [("dn", .str entry.dn), ("updated", .ofNat attrs.entries.length)])
  | unchanged {attrs : SortedMap String String} {email : String} (entry : SearchEntry) (entries : List SearchEntry)
    (htype : op.opType = "UPDATE_ATTRIBUTES") (hattrs : AdMode.parseAttrs x op.attributesJson = .ok attrs)
    (hemail : op.userEmail = some email) (hmods : LdapConnector.updateMods attrs = []) :
    Done [⟨conn.findCall email, .ok (entry :: entries)⟩]
      (.obj [("dn", .str entry.dn), ("updated", .ofNat attrs.entries.length)])
  | tested (entries : List SearchEntry) (htype : op.opType = "TEST_CONNECTION") :
    Done [⟨.search conn.ldap conn.baseDn .base "(objectClass=*)" ["distinguishedName"], .ok entries⟩]
      (.obj [("base_dn_entries", .ofNat entries.length), ("ok", .bool true)])
  | synced {params : SortedMap String String} {base : String} {users : List (SortedMap String String)}
    (entries : List SearchEntry) (htype : op.opType = "SYNC_USERS")
    (hparams : AdMode.parseAttrs x op.attributesJson = .ok params) (hbase : AdMode.syncBase op params = .ok base)
    (husers : users = (entries.map LdapConnector.firstValues).filter fun m => !m.entries.isEmpty) :
    Done [⟨.search conn.ldap base .subtree (AdMode.syncFilter params) LdapConnector.userAttrs, .ok entries⟩]
      (.obj [("inspected", .ofNat users.length), ("users", .arr (users.map AdMode.userJson))])

end

/-- The directory has done what it was asked; of a search, it has found something. -/
def Granted : Event Reply → Prop
  | ⟨.add .., r⟩ => r = .ok ()
  | ⟨.modify .., r⟩ => r = .ok ()
  | ⟨.search .., r⟩ => ∃ entries, r = .ok entries ∧ entries ≠ []
  | _ => True

variable (x : Externals) (cipher : Cipher)

/-- After these events the call is asked on the way to what the operation asks for. -/
def Leads (op : Operation) (conn : LdapConnector) (events : Trace) (c : Call) : Prop :=
  ∃ answer rest result, Done x cipher op conn (events ++ ⟨c, answer⟩ :: rest) result

/-- Nothing has been asked, or the last thing that was asked has been denied. -/
def Denied (op : Operation) (conn : LdapConnector) (events : Trace) : Prop :=
  events = [] ∨ ∃ before e, events = before ++ [e] ∧ Leads x cipher op conn before e.1 ∧ ¬ Granted e

/-- The result is the one of the effort. -/
def Earned (op : Operation) (s : Effort) : Except AgentError Json → Prop
  | .ok result => ∃ conn, s.conn = some conn ∧ Done x cipher op conn s.events result
  | .error _ => ∀ conn, s.conn = some conn → Denied x cipher op conn s.events

/-- The calls that may be made with this effort. -/
def May (s : Effort) : Call → Prop
  | .add ldap dn attrs => ∃ op conn, s.op = some op ∧ s.conn = some conn ∧
      Leads x cipher op conn s.events (.add ldap dn attrs)
  | .modify ldap dn mods => ∃ op conn, s.op = some op ∧ s.conn = some conn ∧
      Leads x cipher op conn s.events (.modify ldap dn mods)
  | .search ldap base scope filter attrs => ∃ op conn, s.op = some op ∧ s.conn = some conn ∧
      Leads x cipher op conn s.events (.search ldap base scope filter attrs)
  | .send _ (.complete opId success resultJson error) =>
    ∃ op r, s.op = some op ∧ opId = op.id ∧ s.Earned x cipher op r ∧
      success = r.isOk ∧ resultJson = r.toOption.map x.valueText ∧ (success = true ↔ error = none)
  | _ => True

def contract : Contract Reply Effort := .monitor (May x cipher) next

variable {x cipher} {m : AdMode} {s : Effort} {op : Operation} {conn : LdapConnector}

/-! ### One operation -/

/-- An operation with the result `r` on the connection it is routed to. -/
def Judged (x : Externals) (cipher : Cipher) (op : Operation) (conn : LdapConnector) (r : Except AgentError Json)
    (s : Effort) : Prop := s.op = some op ∧ s.conn = some conn ∧ s.Earned x cipher op r

theorem judged_ok {events : Trace} {result : Json} (h : Done x cipher op conn events result) :
    Judged x cipher op conn (.ok result) ⟨some op, some conn, events⟩ := ⟨rfl, rfl, conn, rfl, h⟩

theorem judged_error {events : Trace} (e : AgentError) (h : Denied x cipher op conn events) :
    Judged x cipher op conn (.error e) ⟨some op, some conn, events⟩ := by
  refine ⟨rfl, rfl, ?_⟩
  rintro _ ⟨⟩
  exact h

/-- An operation that fails before it asks anything. -/
theorem judged_invalid (e : AgentError) : Judged x cipher op conn (.error e) ⟨some op, some conn, []⟩ :=
  judged_error e (.inl rfl)

section
variable {α : Type} {before rest : Trace} {result : Json} {g : α → Json}

/-- The result of a step, converted to the result of the operation. -/
def Judging (x : Externals) (cipher : Cipher) (op : Operation) (conn : LdapConnector) (g : α → Json)
    (r : Except AgentError α) : Effort → Prop := Judged x cipher op conn (r.map g)

theorem wp_convert {p : Agent α} (h : p.run.wp (contract x cipher) (Judging x cipher op conn g) s) :
    (p >>= fun a => pure (g a)).run.wp (contract x cipher) (Judged x cipher op conn) s :=
  h.bindE (fun _ _ he => he) fun _ _ ha => ha

/-- One thing that is asked of the directory: it is denied, or the operation goes on from there. -/
theorem wp_asks {c : Call} {f : Reply c → Agent α} {answer : Reply c}
    (hmay : (∃ op' conn', some op = some op' ∧ some conn = some conn' ∧ Leads x cipher op' conn' before c) →
      May x cipher ⟨some op, some conn, before⟩ c)
    (hnext : ∀ reply, next ⟨some op, some conn, before⟩ ⟨c, reply⟩ = ⟨some op, some conn, before ++ [⟨c, reply⟩]⟩)
    (hdone : Done x cipher op conn (before ++ ⟨c, answer⟩ :: rest) result)
    (hf : ∀ reply, (¬ Granted ⟨c, reply⟩ ∧ ∃ e, f reply = throw e) ∨
      (f reply).run.wp (contract x cipher) (Judging x cipher op conn g)
        ⟨some op, some conn, before ++ [⟨c, reply⟩]⟩) :
    (perform c >>= f).run.wp (contract x cipher) (Judging x cipher op conn g) ⟨some op, some conn, before⟩ := by
  have hleads : Leads x cipher op conn before c := ⟨answer, rest, result, hdone⟩
  refine wp_ask.2 ⟨hmay ⟨op, conn, rfl, rfl, hleads⟩, ?_⟩
  rintro reply _ rfl
  rw [hnext reply]
  rcases hf reply with ⟨hdenied, e, he⟩ | hgoes
  · rw [he]
    exact judged_error e (.inr ⟨before, _, rfl, hleads, hdenied⟩)
  · exact hgoes

theorem wp_modify {dn : String} {mods : List Mod} {lost rejected : String} {f : Unit → Agent α}
    (hdone : Done x cipher op conn (before ++ ⟨.modify conn.ldap dn mods, .ok ()⟩ :: rest) result)
    (hok : (f ()).run.wp (contract x cipher) (Judging x cipher op conn g)
      ⟨some op, some conn, before ++ [⟨.modify conn.ldap dn mods, .ok ()⟩]⟩) :
    (perform (.modify conn.ldap dn mods) >>= fun reply => reply.orFail lost rejected >>= f).run.wp (contract x cipher)
      (Judging x cipher op conn g) ⟨some op, some conn, before⟩ := by
  refine wp_asks id (fun _ => rfl) hdone fun reply => ?_
  rcases reply with e | e | _
  · exact .inl ⟨nofun, _, rfl⟩
  · exact .inl ⟨nofun, _, rfl⟩
  · exact .inr hok

theorem wp_search {base filter : String} {scope : Scope} {attrs : List String} {lost rejected : String}
    {f : List SearchEntry → Agent α} {entries : List SearchEntry}
    (hdone : Done x cipher op conn ([] ++ ⟨.search conn.ldap base scope filter attrs, .ok entries⟩ :: rest) result)
    (hok : ∀ entries, (entries = [] ∧ ∃ e, f entries = throw e) ∨
      (f entries).run.wp (contract x cipher) (Judging x cipher op conn g)
        ⟨some op, some conn, [⟨.search conn.ldap base scope filter attrs, .ok entries⟩]⟩) :
    (perform (.search conn.ldap base scope filter attrs) >>= fun reply => reply.orFail lost rejected >>= f).run.wp
      (contract x cipher) (Judging x cipher op conn g) ⟨some op, some conn, []⟩ := by
  refine wp_asks id (fun _ => rfl) hdone fun reply => ?_
  rcases reply with e | e | found
  · exact .inl ⟨by rintro ⟨_, ⟨⟩, -⟩, _, rfl⟩
  · exact .inl ⟨by rintro ⟨_, ⟨⟩, -⟩, _, rfl⟩
  · rcases hok found with ⟨rfl, e, he⟩ | hgoes
    · exact .inl ⟨by rintro ⟨_, ⟨⟩, h⟩; exact h rfl, e, he⟩
    · exact .inr hgoes

/-- The account is looked up, and then the operation goes on with its DN. -/
theorem wp_findDn {email : String} {f : String → Agent α} (rest : SearchEntry → Trace) {result : SearchEntry → Json}
    (hdone : ∀ entry entries, Done x cipher op conn (⟨conn.findCall email, .ok (entry :: entries)⟩ :: rest entry)
      (result entry))
    (hok : ∀ entry entries, (f entry.dn).run.wp (contract x cipher) (Judging x cipher op conn g)
      ⟨some op, some conn, [⟨conn.findCall email, .ok (entry :: entries)⟩]⟩) :
    (conn.findDn email >>= f).run.wp (contract x cipher) (Judging x cipher op conn g) ⟨some op, some conn, []⟩ := by
  unfold LdapConnector.findDn
  simp only [bind_assoc]
  refine wp_search (hdone ⟨"", []⟩ []) fun entries => ?_
  rcases entries with _ | ⟨entry, entries⟩
  · exact .inl ⟨rfl, _, rfl⟩
  · exact .inr (hok entry entries)

theorem wp_setUac {email uac : String} (state : Json → Json)
    (hdone : ∀ (entry : SearchEntry) (entries : List SearchEntry), Done x cipher op conn
      [⟨conn.findCall email, .ok (entry :: entries)⟩,
        ⟨.modify conn.ldap entry.dn [.replace "userAccountControl" [utf8 uac]], .ok ()⟩] (state (.str entry.dn))) :
    (conn.setUac email uac).run.wp (contract x cipher) (Judging x cipher op conn fun dn => state (.str dn))
      ⟨some op, some conn, []⟩ := by
  refine wp_findDn _ hdone fun entry entries => ?_
  exact wp_modify (hdone entry entries) (judged_ok (hdone entry entries))

theorem wp_updateAttributes {attrs : SortedMap String String} {email : String} (htype : op.opType = "UPDATE_ATTRIBUTES")
    (hattrs : AdMode.parseAttrs x op.attributesJson = .ok attrs) (hemail : op.userEmail = some email) :
    (conn.updateAttributes email attrs).run.wp (contract x cipher) (Judging x cipher op conn fun dn =>
      .obj [("dn", .str dn), ("updated", .ofNat attrs.entries.length)]) ⟨some op, some conn, []⟩ := by
  by_cases hmods : LdapConnector.updateMods attrs = []
  · have hdone (entry : SearchEntry) (entries : List SearchEntry) : Done x cipher op conn _ _ :=
      .unchanged entry entries htype hattrs hemail hmods
    refine wp_findDn (fun _ => []) hdone fun entry entries => ?_
    rw [if_neg (not_not.2 hmods)]
    exact judged_ok (hdone entry entries)
  · have hdone (entry : SearchEntry) (entries : List SearchEntry) : Done x cipher op conn _ _ :=
      .updated entry entries htype hattrs hemail hmods
    refine wp_findDn _ hdone fun entry entries => ?_
    rw [if_pos hmods]
    exact wp_modify (hdone entry entries) (judged_ok (hdone entry entries))

theorem password_eq (hcipher : m.cipher = cipher) : m.password x op = password x cipher op := by
  subst hcipher
  rfl

theorem wp_createAccount {attrs : SortedMap String String} {pw : Option String} (htype : op.opType = "CREATE_ACCOUNT")
    (hattrs : AdMode.parseAttrs x op.attributesJson = .ok attrs) (hpw : password x cipher op = .ok pw) :
    (conn.createAccount attrs pw).run.wp (contract x cipher) (Judging x cipher op conn fun dn => .obj [("dn", .str dn)])
      ⟨some op, some conn, []⟩ := by
  unfold LdapConnector.createAccount
  split
  · exact judged_invalid _
  next dn hdn =>
    obtain ⟨rest, hdone⟩ : ∃ rest, Done x cipher op conn
        ([] ++ ⟨.add conn.ldap dn (LdapConnector.newAccount attrs), .ok ()⟩ :: rest) (.obj [("dn", .str dn)]) := by
      by_cases hnone : conn.passwordWriteback = true → pw = none
      · exact ⟨[], .created htype hattrs hdn hpw hnone⟩
      · obtain ⟨hwriteback, hsome⟩ := Classical.not_imp.1 hnone
        obtain ⟨pw, rfl⟩ := Option.ne_none_iff_exists'.1 hsome
        exact ⟨_, .createdWithPassword htype hattrs hdn hpw hwriteback⟩
    refine wp_asks (c := .add ..) id (fun _ => rfl) hdone fun reply => ?_
    rcases reply with e | e | _
    · exact .inl ⟨nofun, _, rfl⟩
    · exact .inl ⟨nofun, _, rfl⟩
    refine .inr ?_
    split
    next pw hwriteback =>
      have hset := Done.createdWithPassword htype hattrs hdn hpw hwriteback
      exact wp_modify hset (judged_ok hset)
    next hno =>
      refine judged_ok (.created htype hattrs hdn hpw fun hwriteback => Option.eq_none_iff_forall_ne_some.2 ?_)
      exact fun pw hpw => hno pw hwriteback hpw

end

/-- Processing an operation ends as its effort does. -/
theorem wp_process (hcipher : m.cipher = cipher) : (m.process x op conn).run.wp (contract x cipher)
    (Judged x cipher op conn) ⟨some op, some conn, []⟩ := by
  unfold AdMode.process
  split
  next htype =>
    refine wp_result_bind (fun e _ => judged_invalid e) fun attrs hattrs => ?_
    refine wp_result_bind (fun e _ => judged_invalid e) fun pw hpw => ?_
    exact wp_convert (wp_createAccount htype hattrs ((password_eq hcipher).symm.trans hpw))
  next htype =>
    refine wp_result_bind (fun e _ => judged_invalid e) fun email hemail => wp_convert ?_
    exact wp_setUac (fun dn => .obj [("dn", dn), ("state", .str "enabled")]) fun entry entries =>
      .enabled entry entries htype (AdMode.email_eq_ok.1 hemail)
  next htype =>
    refine wp_result_bind (fun e _ => judged_invalid e) fun email hemail => wp_convert ?_
    exact wp_setUac (fun dn => .obj [("dn", dn), ("state", .str "disabled")]) fun entry entries =>
      .disabled entry entries htype (AdMode.email_eq_ok.1 hemail)
  next htype =>
    refine wp_result_bind (fun e _ => judged_invalid e) fun attrs hattrs => ?_
    refine wp_result_bind (fun e _ => judged_invalid e) fun email hemail => wp_convert ?_
    exact wp_updateAttributes htype hattrs (AdMode.email_eq_ok.1 hemail)
  next htype =>
    refine wp_convert (wp_search (.tested [] htype) fun entries => .inr ?_)
    exact judged_ok (.tested entries htype)
  next htype =>
    refine wp_result_bind (fun e _ => judged_invalid e) fun params hparams => ?_
    refine wp_result_bind (fun e _ => judged_invalid e) fun base hbase => wp_convert ?_
    refine wp_search (.synced [] htype hparams hbase rfl) fun entries => .inr ?_
    exact judged_ok (.synced entries htype hparams hbase rfl)
  · exact judged_invalid _

/-! ### A batch -/

/-- A call that no operation asks of the directory. -/
def Aside (c : Call) : Prop :=
  match c with
  | .started _ | .routed .. | .add .. | .modify .. | .search .. | .send _ (.complete ..) => False
  | _ => True

theorem aside_steady (x : Externals) (cipher : Cipher) {c : Call} (h : Aside c) :
    May x cipher s c ∧ ∀ r, next s ⟨c, r⟩ = s := by
  cases c with
  | send _ request => cases request <;> first | exact h.elim | exact ⟨trivial, fun _ => rfl⟩
  | _ => first | exact h.elim | exact ⟨trivial, fun _ => rfl⟩

theorem wp_aside {α : Type} {t : Task α} (ht : t.AllCalls Aside) (s : Effort) :
    t.wp (contract x cipher) (fun _ s' => s' = s) s := by
  refine ht.wp rfl ?_ ?_
  · rintro c _ hc rfl
    exact (aside_steady x cipher hc).1
  · rintro c r _ _ hc rfl rfl
    exact (aside_steady x cipher hc).2 r

theorem aside_binding {c : Call} (h : c.Binding) : Aside c := by
  cases c <;> first | exact h.elim | trivial

/-- What is known when an operation has been routed and processed. -/
def Ended (x : Externals) (cipher : Cipher) (op : Operation) (r : Except AgentError Json) (s : Effort) : Prop :=
  s.op = some op ∧ s.Earned x cipher op r

theorem wp_processOn (hcipher : m.cipher = cipher) : (m.processOn x op conn).run.wp (contract x cipher)
    (Ended x cipher op) ⟨some op, none, []⟩ := by
  refine wp_ask.2 ⟨trivial, ?_⟩
  rintro _ _ rfl
  exact (wp_process hcipher).mono fun _ _ h => ⟨h.1, h.2.2⟩

theorem ended_unrouted (e : AgentError) : Ended x cipher op (.error e) ⟨some op, none, []⟩ := ⟨rfl, fun _ => nofun⟩

theorem wp_routeAndProcess (hcipher : m.cipher = cipher) (defaultLdap : LdapConnector) (conns : Conns) :
    (m.routeAndProcess x op defaultLdap conns).wp (contract x cipher) (fun p => Ended x cipher op p.1)
      ⟨some op, none, []⟩ := by
  have hprocess (conn : LdapConnector) (conns' : Conns) : ((m.processOn x op conn).run >>= fun r => pure (r, conns')).wp
      (contract x cipher) (fun p => Ended x cipher op p.1) ⟨some op, none, []⟩ :=
    (wp_processOn hcipher).bind fun _ _ h => h
  unfold AdMode.routeAndProcess
  split
  · exact hprocess ..
  split
  · exact ended_unrouted _
  next ctx _ =>
    split
    · exact hprocess ..
    refine (wp_aside ((LdapConnector.allCalls_connectForest ..).mono fun _ => aside_binding) _).bind fun r s hs => ?_
    subst hs
    rcases r with e | conn
    · exact ended_unrouted e
    · exact hprocess ..

theorem wp_report {r : Except AgentError Json} (h : Ended x cipher op r s) :
    (m.report x op r).run.wp (contract x cipher) (fun _ _ => True) s := by
  rw [AdMode.report_eq]
  have hrecord (s : Effort) : (AdMode.append (AdMode.record op r).1 (AdMode.record op r).2).run.wp (contract x cipher)
      (fun _ _ => True) s := wp_append.2 ⟨trivial, fun _ _ _ => trivial⟩
  refine wp_lift_bind (P := fun _ _ => True) (wp_request.2 ?_) fun _ s _ => hrecord s
  rcases r with e | result
  · exact ⟨⟨op, _, h.1, rfl, h.2, rfl, rfl, by simp⟩, fun _ _ _ => trivial⟩
  · exact ⟨⟨op, _, h.1, rfl, h.2, rfl, rfl, by simp⟩, fun _ _ _ => trivial⟩

theorem wp_drain (hcipher : m.cipher = cipher) (defaultLdap : LdapConnector) (ops : List Operation) (conns : Conns)
    (counters : SyncCounters) :
    (m.drain x defaultLdap ops conns counters).run.wp (contract x cipher) (fun _ _ => True) s := by
  induction ops generalizing conns counters s with
  | nil => trivial
  | cons op ops ih =>
    refine wp_ask.2 ⟨trivial, ?_⟩
    rintro _ _ rfl
    refine wp_lift_bind (wp_routeAndProcess hcipher defaultLdap conns) fun p s hs => ?_
    exact (wp_report hs).bindE (fun _ _ h => h) fun _ s _ => ih ..

/-! ### The service -/

theorem aside_polling {c : Call} (h : c.Polling) : Aside c := by
  unfold Call.Polling at h
  split at h <;> first | exact h.elim | trivial

theorem aside_unbinding {c : Call} (h : c.Unbinding) : Aside c := by
  cases c <;> first | exact h.elim | trivial

theorem aside_of_inDbPass {c : Call} (h : c.InDbPass) : Aside c := by
  unfold Call.InDbPass at h
  split at h <;> first | exact h.elim | trivial

theorem aside_outside {c : Call} (h : c.Outside) : Aside c := by
  cases c with
  | send _ request => cases request <;> first | exact h.elim | trivial
  | _ => first | exact h.elim | trivial

theorem wp_free {α : Type} {t : Task α} (ht : t.AllCalls Aside) : t.wp (contract x cipher) (fun _ _ => True) s :=
  (wp_aside ht s).mono fun _ _ _ => trivial

theorem wp_runOnce (hcipher : m.cipher = cipher) : (m.runOnce x).run.wp (contract x cipher) (fun _ _ => True) s := by
  rw [AdMode.runOnce_eq]
  refine wp_result_bind (fun _ _ => trivial) fun pw _ => ?_
  have hconnect : (m.connectDefault x pw).run.AllCalls Aside :=
    (LdapConnector.allCalls_connect ..).mono fun _ => aside_binding
  have hpoll : (m.server.pollOperations m.batch).run.AllCalls Aside :=
    (m.server.allCalls_pollOperations _).mono fun _ => aside_polling
  refine (wp_free hconnect).bindE (fun _ _ h => h) fun ldap s _ => ?_
  refine (wp_free hpoll).bindE (fun _ _ h => h) fun ops s _ => ?_
  refine (wp_drain hcipher ..).bindE (fun _ _ h => h) fun p s _ => ?_
  exact wp_free ((AdMode.allCalls_close ..).mono fun _ => aside_unbinding)

theorem obeys_of_service {config : Config} {sess : Session} {first cut last : Trace} {cycles : List Trace}
    (h : ServiceRun x (runDb x) config sess first cycles cut last) :
    (contract x sess.cipher).Obeys {} (first ++ (cycles.flatten ++ (cut ++ last))) := by
  refine obeys_of_passes (I := fun _ => True) h trivial ?_ ?_ ?_
  · intro c s hc _
    exact ⟨(aside_steady x _ (aside_outside hc)).1, fun _ _ _ => trivial⟩
  · intro remote s _
    unfold runMode
    split
    · exact wp_runOnce rfl
    · exact wp_free ((DbMode.allCalls_runOnce x).mono fun _ => aside_of_inDbPass)
  · intro s
    exact wp_free (allCalls_stop_outside.mono fun _ => aside_outside)

/-! ### Passwords -/

theorem utf16Le_eq (s : String) : utf16Le s = Utf16.encodeLe s.toList := by
  rw [utf16Le, Utf16.encodeLe, Utf16.encode, List.flatMap_assoc]
  refine List.flatMap_congr fun c _ => ?_
  dsimp only
  rw [Utf16.units]
  split
  · simp [Utf16.le]
  · simp [Utf16.le]

/-- While an account is created, a modify only sets the password of the account just added: what the shared key opens
of the operation, in quotes. -/
def MayCarry (x : Externals) (cipher : Cipher) (s : Effort) : Call → Prop
  | .modify ldap dn mods => ∀ op, s.op = some op → op.opType = "CREATE_ACCOUNT" →
      ∃ attrs pw bytes, s.events = [⟨.add ldap dn attrs, .ok ()⟩] ∧ password x cipher op = .ok (some pw) ∧
        mods = [.replace "unicodePwd" [bytes]] ∧ Utf16.decodeLe bytes = some s!"\"{pw}\"".toList
  | _ => True

theorem Leads.password {events : Trace} {ldap : Ldap} {dn : String} {mods : List Mod}
    (h : Leads x cipher op conn events (.modify ldap dn mods)) (htype : op.opType = "CREATE_ACCOUNT") :
    ∃ attrs pw bytes, events = [⟨.add ldap dn attrs, .ok ()⟩] ∧ password x cipher op = .ok (some pw) ∧
      mods = [.replace "unicodePwd" [bytes]] ∧ Utf16.decodeLe bytes = some s!"\"{pw}\"".toList := by
  obtain ⟨answer, rest, result, hdone⟩ := h
  have hother {opType : String} (h : op.opType = opType) (hne : "CREATE_ACCOUNT" ≠ opType) : False :=
    hne (htype.symm.trans h)
  generalize hall : events ++ (⟨.modify ldap dn mods, answer⟩ : Event Reply) :: rest = all at hdone
  cases hdone with
  | created =>
    rcases events with _ | ⟨e, events⟩
    · cases hall
    · simp at hall
  | @createdWithPassword attrs dn pw _ hattrs hdn hpw hwriteback =>
    rcases events with _ | ⟨e, _ | ⟨e', events⟩⟩
    · cases hall
    · cases hall
      refine ⟨_, pw, _, rfl, hpw, rfl, ?_⟩
      rw [utf16Le_eq]
      exact Utf16.decodeLe_encodeLe _
    · simp at hall
  | enabled _ _ h => exact (hother h (by decide)).elim
  | disabled _ _ h => exact (hother h (by decide)).elim
  | updated _ _ h => exact (hother h (by decide)).elim
  | unchanged _ _ h => exact (hother h (by decide)).elim
  | tested _ h => exact (hother h (by decide)).elim
  | synced _ h => exact (hother h (by decide)).elim

theorem May.mayCarry {c : Call} (h : May x cipher s c) : MayCarry x cipher s c := by
  cases c with
  | modify ldap dn mods =>
    obtain ⟨op, conn, hop, -, hleads⟩ := h
    intro op' hop' htype
    obtain rfl : op = op' := Option.some.inj (hop.symm.trans hop')
    exact hleads.password htype
  | _ => trivial

end Effort

/-- In every run of the service the broker is told of each operation what the directory has granted of it. -/
theorem verdicts_earned {x : Externals} {config : Config} {sess : Session} {first cut last : Trace}
    {cycles : List Trace} (h : ServiceRun x (runDb x) config sess first cycles cut last) :
    (Effort.contract x sess.cipher).Obeys {} (first ++ (cycles.flatten ++ (cut ++ last))) :=
  Effort.obeys_of_service h

theorem mem_corpCycle {e : Event Reply} (h : e ∈ corpLoop) : e ∈ corpCycle := by
  simp [corpCycle, h]

/-- The broker is told that the account is created, and that the mover may not be renamed. -/
theorem verdicts_earned_corp :
    ServiceRun corp (runDb corp) corpConfig corpSession corpStart [corpCycle] corpCut corpStop ∧
      (⟨.send corpSession.server (.complete "1" true
          (some (corp.valueText (.obj [("dn", .str "CN=Joiner,DC=corp")]))) none), .ok ⟨200, "OK"⟩⟩ : Event Reply) ∈
        corpCycle ∧
      (⟨.send corpSession.server (.complete "3" false none
          (some (AgentError.ldap "modify rejected CN=Mover,DC=corp: insufficientAccessRights").display)),
        .ok ⟨200, "OK"⟩⟩ : Event Reply) ∈ corpCycle ∧
      (Effort.contract corp corpSession.cipher).Obeys {}
        (corpStart ++ ([corpCycle].flatten ++ (corpCut ++ corpStop))) := by
  refine ⟨serviceRun_corp _, mem_corpCycle ?_, mem_corpCycle ?_, verdicts_earned (serviceRun_corp _)⟩
  · exact List.mem_append_left _ (AdMode.mem_opTrace.2 (.inr (.inr (.inl rfl))))
  · refine List.mem_append_right _ (List.mem_append_right _ (List.mem_append_left _ ?_))
    exact AdMode.mem_opTrace.2 (.inr (.inr (.inl rfl)))

/-- In every run of the service the password set on a new account is the quoted one of its operation, in UTF-16. -/
theorem passwords_exact {x : Externals} {config : Config} {sess : Session} {first cut last : Trace}
    {cycles : List Trace} (h : ServiceRun x (runDb x) config sess first cycles cut last) :
    (Contract.monitor (Effort.MayCarry x sess.cipher) Effort.next).Obeys {}
      (first ++ (cycles.flatten ++ (cut ++ last))) :=
  (Effort.obeys_of_service h).weaken fun _ _ => Effort.May.mayCarry

/-- The password of the joiner is set, between quotes. -/
theorem passwords_exact_corp :
    ServiceRun corp (runDb corp) corpConfig corpSession corpStart [corpCycle] corpCut corpStop ∧
      corpMode.password corp createJoiner = .ok (some "hunter2") ∧
      (⟨.modify corpConn.ldap "CN=Joiner,DC=corp" [.replace "unicodePwd" [utf16Le "\"hunter2\""]], .ok ()⟩ :
        Event Reply) ∈ corpCycle ∧
      (Contract.monitor (Effort.MayCarry corp corpSession.cipher) Effort.next).Obeys {}
        (corpStart ++ ([corpCycle].flatten ++ (corpCut ++ corpStop))) := by
  refine ⟨serviceRun_corp _, password_createJoiner rfl, mem_corpCycle ?_, passwords_exact (serviceRun_corp _)⟩
  refine List.mem_append_left _ (AdMode.mem_opTrace.2 (.inr (.inl ?_)))
  simp [joinerCreated]

end NexusAgent
