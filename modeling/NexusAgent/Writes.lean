import NexusAgent.Routing

/-!
# What an operation writes

`Schema` says which names are for one attribute. `Write` lists the adds and modifies of an operation on a connection.
`allCalls_process_write`: processing it writes nothing else. `Write.issues`: each of them is issued in some run.
-/

namespace NexusAgent
open Text

/-- Which attribute a name is for. A directory compares names without regard to case and knows an attribute by its OID
as well; the names the agent uses are for different attributes. -/
structure Schema (α : Type) where
  attrOf : String → α
  objectClass_ne_uac : attrOf "objectClass" ≠ attrOf "userAccountControl"
  dn_ne_uac : attrOf "distinguishedName" ≠ attrOf "userAccountControl"
  uac_ne_pwd : attrOf "userAccountControl" ≠ attrOf "unicodePwd"

/-- Every attribute has one name, in any case. -/
def Schema.folding : Schema (List Char) where
  attrOf name := name.toList.map Char.toLower
  objectClass_ne_uac := by decide
  dn_ne_uac := by decide
  uac_ne_pwd := by decide

namespace AdMode

variable (x : Externals) (m : AdMode)

/-- A write that an operation can lead to on the connection `conn`. -/
inductive Write (op : Operation) (conn : LdapConnector) : Call → Prop
  | add {attrs : SortedMap String String} {pw : Option String} {dn : String} (htype : op.opType = "CREATE_ACCOUNT")
    (hattrs : parseAttrs x op.attributesJson = .ok attrs) (hpw : m.password x op = .ok pw)
    (hdn : attrs.get? "distinguishedName" = some dn) :
    Write op conn (.add conn.ldap dn (LdapConnector.newAccount attrs))
  | password {attrs : SortedMap String String} {pw dn : String} (htype : op.opType = "CREATE_ACCOUNT")
    (hattrs : parseAttrs x op.attributesJson = .ok attrs) (hpw : m.password x op = .ok (some pw))
    (hdn : attrs.get? "distinguishedName" = some dn) (hwriteback : conn.passwordWriteback = true) :
    Write op conn (.modify conn.ldap dn [.replace "unicodePwd" [utf16Le s!"\"{pw}\""]])
  | enable {email : String} (dn : String) (htype : op.opType = "ENABLE_ACCOUNT") (hemail : op.userEmail = some email) :
    Write op conn (.modify conn.ldap dn [.replace "userAccountControl" [utf8 uacEnabled]])
  | disable {email : String} (dn : String) (htype : op.opType = "DISABLE_ACCOUNT")
    (hemail : op.userEmail = some email) :
    Write op conn (.modify conn.ldap dn [.replace "userAccountControl" [utf8 uacDisabled]])
  | update {attrs : SortedMap String String} {email : String} (dn : String) (htype : op.opType = "UPDATE_ATTRIBUTES")
    (hattrs : parseAttrs x op.attributesJson = .ok attrs) (hemail : op.userEmail = some email)
    (hmods : LdapConnector.updateMods attrs ≠ []) :
    Write op conn (.modify conn.ldap dn (LdapConnector.updateMods attrs))

variable {x m} {op : Operation} {conn : LdapConnector}

/-! ### Nothing else is written -/

/-- A call is a write only if it is one of the operation's. -/
def Writes (x : Externals) (m : AdMode) (op : Operation) (conn : LdapConnector) (c : Call) : Prop :=
  c.Writing → Write x m op conn c

theorem email_eq_ok {email : String} : AdMode.email op = .ok email ↔ op.userEmail = some email := by
  rw [AdMode.email]
  rcases op.userEmail with _ | email' <;> simp

theorem allCalls_createAccount_write {attrs : SortedMap String String} {pw : Option String}
    (htype : op.opType = "CREATE_ACCOUNT") (hattrs : parseAttrs x op.attributesJson = .ok attrs)
    (hpw : m.password x op = .ok pw) : (conn.createAccount attrs pw).run.AllCalls (Writes x m op conn) := by
  unfold LdapConnector.createAccount
  split
  · trivial
  next dn hdn =>
    refine allCalls_ask (fun _ => .add htype hattrs hpw hdn) fun _ => allCalls_reply fun _ => ?_
    split
    next hwriteback =>
      refine Prog.AllCalls.bindE ?_ fun _ => trivial
      exact allCalls_ask (fun _ => .password htype hattrs hpw hdn hwriteback) fun _ => allCalls_orFail _
    · trivial

theorem allCalls_findDn_write {β : Type} {email : String} {k : String → Agent β}
    (hk : ∀ dn, (k dn).run.AllCalls (Writes x m op conn)) :
    (conn.findDn email >>= k).run.AllCalls (Writes x m op conn) := by
  refine Prog.AllCalls.bindE (allCalls_ask (fun h => h.elim) fun _ => allCalls_reply fun entries => ?_) hk
  cases entries <;> trivial

theorem allCalls_setUac_write {email uac : String}
    (hwrite : ∀ dn, Write x m op conn (.modify conn.ldap dn [.replace "userAccountControl" [utf8 uac]])) :
    (conn.setUac email uac).run.AllCalls (Writes x m op conn) :=
  allCalls_findDn_write fun dn => allCalls_ask (fun _ => hwrite dn) fun _ => allCalls_reply fun _ => trivial

theorem allCalls_updateAttributes_write {attrs : SortedMap String String} {email : String}
    (htype : op.opType = "UPDATE_ATTRIBUTES") (hattrs : parseAttrs x op.attributesJson = .ok attrs)
    (hemail : op.userEmail = some email) :
    (conn.updateAttributes email attrs).run.AllCalls (Writes x m op conn) := by
  refine allCalls_findDn_write fun dn => ?_
  split
  next hmods =>
    exact allCalls_ask (fun _ => .update dn htype hattrs hemail hmods) fun _ => allCalls_reply fun _ => trivial
  · trivial

theorem allCalls_process_write (op : Operation) (conn : LdapConnector) :
    (m.process x op conn).run.AllCalls (Writes x m op conn) := by
  unfold process
  split
  next htype =>
    refine allCalls_result_eq fun attrs hattrs => allCalls_result_eq fun pw hpw => ?_
    exact (allCalls_createAccount_write htype hattrs hpw).bindE fun _ => trivial
  next htype =>
    refine allCalls_result_eq fun email hemail => Prog.AllCalls.bindE ?_ fun _ => trivial
    exact allCalls_setUac_write fun dn => .enable dn htype (email_eq_ok.1 hemail)
  next htype =>
    refine allCalls_result_eq fun email hemail => Prog.AllCalls.bindE ?_ fun _ => trivial
    exact allCalls_setUac_write fun dn => .disable dn htype (email_eq_ok.1 hemail)
  next htype =>
    refine allCalls_result_eq fun attrs hattrs => allCalls_result_eq fun email hemail => ?_
    exact (allCalls_updateAttributes_write htype hattrs (email_eq_ok.1 hemail)).bindE fun _ => trivial
  · refine Prog.AllCalls.bindE ?_ fun _ => trivial
    exact allCalls_ask (fun h => h.elim) fun _ => allCalls_reply fun _ => trivial
  · refine allCalls_result fun _ => allCalls_result fun _ => Prog.AllCalls.bindE ?_ fun _ => trivial
    exact allCalls_ask (fun h => h.elim) fun _ => allCalls_reply fun _ => trivial
  · trivial

theorem write_of_processOn {tr : Trace} {r : Except AgentError Json} (h : (m.processOn x op conn).run.Runs tr r)
    {e : Event Reply} (he : e ∈ tr) (hw : e.1.Writing) : Write x m op conn e.1 := by
  obtain ⟨_, tr', rfl, h'⟩ := runs_ask.1 h
  rcases List.mem_cons.1 he with rfl | he
  · exact hw.elim
  · exact (allCalls_process_write op conn).of_runs h' e he hw

/-! ### All of it can be written -/

/-- In some run the program makes the call and gets the answer. -/
def Issues {α : Type} (p : Agent α) (e : Event Reply) : Prop := ∃ tr r, p.run.Runs tr r ∧ e ∈ tr

section
variable {α β : Type} {e : Event Reply}

theorem issues_ask {c : Call} (f : Reply c → Agent α) (reply : Reply c) : Issues (perform c >>= f) ⟨c, reply⟩ := by
  obtain ⟨tr, r, h, -⟩ := Prog.exists_runs exists_recorded (f reply).run
  exact ⟨_, r, runs_ask.2 ⟨reply, tr, rfl, h⟩, List.mem_cons_self ..⟩

theorem Issues.bind {p : Agent α} (h : Issues p e) (f : α → Agent β) : Issues (p >>= f) e := by
  obtain ⟨tr, r, hrun, he⟩ := h
  rcases r with err | a
  · exact ⟨tr, _, Prog.runs_bindE.2 (.inl ⟨err, hrun, rfl⟩), he⟩
  · obtain ⟨tr', r, hrest, -⟩ := Prog.exists_runs exists_recorded (f a).run
    exact ⟨_, r, hrun.bindE hrest, List.mem_append_left _ he⟩

theorem Issues.after {p : Agent α} {f : α → Agent β} {tr : Trace} {a : α} (hp : p.run.Runs tr (.ok a))
    (h : Issues (f a) e) : Issues (p >>= f) e := by
  obtain ⟨tr', r, hrun, he⟩ := h
  exact ⟨_, r, hp.bindE hrun, List.mem_append_right _ he⟩

end

theorem exists_findDn (conn : LdapConnector) (email dn : String) :
    ∃ tr, (conn.findDn email).run.Runs tr (.ok dn) :=
  ⟨_, LdapConnector.runs_findDn.2 ⟨.ok [⟨dn, []⟩], rfl, rfl⟩⟩

theorem issues_setUac (conn : LdapConnector) (email uac dn : String) (reply : LdapReply Unit) :
    Issues (conn.setUac email uac) ⟨.modify conn.ldap dn [.replace "userAccountControl" [utf8 uac]], reply⟩ := by
  obtain ⟨tr, hfind⟩ := exists_findDn conn email dn
  exact .after hfind (issues_ask (c := .modify ..) _ reply)

theorem issues_updateAttributes (conn : LdapConnector) {attrs : SortedMap String String} (email dn : String)
    (hmods : LdapConnector.updateMods attrs ≠ []) (reply : LdapReply Unit) :
    Issues (conn.updateAttributes email attrs) ⟨.modify conn.ldap dn (LdapConnector.updateMods attrs), reply⟩ := by
  obtain ⟨tr, hfind⟩ := exists_findDn conn email dn
  refine .after hfind ?_
  rw [if_pos hmods]
  exact issues_ask (c := .modify ..) _ reply

theorem issues_setPassword (conn : LdapConnector) (dn pw : String) (reply : LdapReply Unit) :
    Issues (conn.setPassword dn pw) ⟨.modify conn.ldap dn [.replace "unicodePwd" [utf16Le s!"\"{pw}\""]], reply⟩ :=
  issues_ask (c := .modify ..) _ reply

/-- Each write of an operation is issued in some run, with any answer. -/
theorem Write.issues {c : Call} (h : Write x m op conn c) (reply : Reply c) :
    Issues (m.processOn x op conn) ⟨c, reply⟩ := by
  refine .after (runs_perform.2 ⟨(), rfl, rfl⟩) ?_
  unfold process
  cases h with
  | add htype hattrs hpw hdn =>
    rw [htype, hattrs, hpw]
    refine Issues.bind (p := conn.createAccount _ _) ?_ _
    unfold LdapConnector.createAccount
    rw [hdn]
    exact issues_ask _ reply
  | password htype hattrs hpw hdn hwriteback =>
    rw [htype, hattrs, hpw]
    refine Issues.bind (p := conn.createAccount _ _) ?_ _
    unfold LdapConnector.createAccount
    rw [hdn]
    refine .after (runs_perform.2 ⟨.ok (), rfl, rfl⟩) (.after (a := ()) ⟨rfl, rfl⟩ ?_)
    rw [hwriteback]
    exact (issues_setPassword conn _ _ reply).bind _
  | enable dn htype hemail =>
    rw [htype, email_eq_ok.2 hemail]
    exact (issues_setUac conn _ _ dn reply).bind _
  | disable dn htype hemail =>
    rw [htype, email_eq_ok.2 hemail]
    exact (issues_setUac conn _ _ dn reply).bind _
  | update dn htype hattrs hemail hmods =>
    rw [htype, hattrs, email_eq_ok.2 hemail]
    exact (issues_updateAttributes conn _ dn hmods reply).bind _

end AdMode

end NexusAgent
