import NexusAgent.Accounts

/-!
# Creations that fail

`Outcomes` is what the directory makes of the add and of the modify of a creation. `creation_atomic_iff`: a creation
that returns an error has left the directories alone, and a later one can do all that it could have done before,
unless the add is carried out and its answer is lost or the password is not set.
-/

namespace NexusAgent
open Text

/-! ### Patterns of failures -/

/-- What the directory makes of a request: it carries it out, refuses it, or does either and the answer is lost. -/
inductive Outcome where
  | ok
  | rejected (e : String)
  | lost (e : String) (done : Bool)

namespace Outcome

def reply : Outcome → LdapReply Unit
  | .ok => .ok ()
  | .rejected e => .rejected e
  | .lost e _ => .lost e

def done : Outcome → Bool
  | .ok => true
  | .rejected _ => false
  | .lost _ done => done

end Outcome

/-- What becomes of the requests of a creation. -/
structure Outcomes where
  add : Outcome
  modify : Outcome

section
variable {κ α : Type} [DecidableEq κ] [DecidableEq α] (schema : Schema α) (entry : Ldap → String → κ)

def Outcome.Takes (o : Outcome) (s : Directories κ α) (c : Call) (s' : Directories κ α) : Prop :=
  if o.done then Effect schema entry s c s' else s' = s

/-- An event that the pattern allows, and what it does to the directories. -/
def Outcomes.Step (o : Outcomes) (s : Directories κ α) : Event Reply → Directories κ α → Prop
  | ⟨.add ldap dn attrs, reply⟩, s' => reply = o.add.reply ∧ o.add.Takes schema entry s (.add ldap dn attrs) s'
  | ⟨.modify ldap dn mods, reply⟩, s' =>
    reply = o.modify.reply ∧ o.modify.Takes schema entry s (.modify ldap dn mods) s'
  | _, s' => s' = s

def Outcomes.Steps (o : Outcomes) (s : Directories κ α) : Trace → Directories κ α → Prop
  | [], s' => s' = s
  | e :: tr, s' => ∃ s₁, o.Step schema entry s e s₁ ∧ o.Steps s₁ tr s'

variable {schema entry} {s s' : Directories κ α} {o : Outcomes}

theorem Outcome.done_of_ok {o : Outcome} (h : o.reply = .ok ()) : o.done = true := by
  rcases o with _ | e | ⟨e, done⟩
  · rfl
  · cases h
  · cases h

namespace Outcome.Takes
variable {o : Outcome} {c : Call}

theorem unchanged (h : o.Takes schema entry s c s') (hdone : o.done ≠ true) : s' = s := by
  rwa [Outcome.Takes, if_neg hdone] at h

theorem effect (h : o.Takes schema entry s c s') (hdone : o.done = true) : Effect schema entry s c s' := by
  rwa [Outcome.Takes, if_pos hdone] at h

end Outcome.Takes

/-- A modify leaves its entry there, whether or not it is carried out. -/
theorem Outcome.exists_takes_modify (o : Outcome) {ldap : Ldap} {dn : String} {vals : Attrs α}
    (h : s (entry ldap dn) = some vals) (mods : List Mod) :
    ∃ s', o.Takes schema entry s (.modify ldap dn mods) s' ∧ s' (entry ldap dn) ≠ none := by
  by_cases hdone : o.done = true
  · refine ⟨Function.update s (entry ldap dn) (some (mods.foldl (Attrs.apply schema) vals)), ?_, ?_⟩
    · rw [Outcome.Takes, if_pos hdone]
      exact ⟨vals, h, rfl⟩
    · rw [Function.update_self]
      nofun
  · refine ⟨s, ?_, ?_⟩
    · rw [Outcome.Takes, if_neg hdone]
    · rw [h]
      nofun

/-- What the answer to a write says about the directories. -/
def AnswerMeans (schema : Schema α) (entry : Ldap → String → κ) (s : Directories κ α) (c : Call)
    (s' : Directories κ α) : LdapReply Unit → Prop
  | .ok () => Effect schema entry s c s'
  | .rejected _ => s' = s
  | .lost _ => s' = s ∨ Effect schema entry s c s'

theorem answerMeans_iff {c : Call} {reply : LdapReply Unit} :
    AnswerMeans schema entry s c s' reply ↔ ∃ o : Outcome, reply = o.reply ∧ o.Takes schema entry s c s' := by
  constructor
  · intro h
    rcases reply with e | e | _
    · rcases h with rfl | h
      · exact ⟨.lost e false, rfl, rfl⟩
      · exact ⟨.lost e true, rfl, h⟩
    · exact ⟨.rejected e, rfl, h⟩
    · exact ⟨.ok, rfl, h⟩
  · rintro ⟨o, rfl, h⟩
    rcases o with _ | e | ⟨e, _ | _⟩
    · exact h
    · exact h
    · exact .inl h
    · exact .inr h

theorem change_add {ldap : Ldap} {dn : String} {attrs : List (String × List String)} {reply : LdapReply Unit} :
    Change schema entry s ⟨.add ldap dn attrs, reply⟩ s' ↔
      AnswerMeans schema entry s (.add ldap dn attrs) s' reply := by
  rcases reply with e | e | _ <;> exact Iff.rfl

theorem change_modify {ldap : Ldap} {dn : String} {mods : List Mod} {reply : LdapReply Unit} :
    Change schema entry s ⟨.modify ldap dn mods, reply⟩ s' ↔
      AnswerMeans schema entry s (.modify ldap dn mods) s' reply := by
  rcases reply with e | e | _ <;> exact Iff.rfl

theorem Outcomes.Step.change {e : Event Reply} (h : o.Step schema entry s e s') : Change schema entry s e s' := by
  obtain ⟨c, reply⟩ := e
  cases c with
  | add => exact change_add.2 (answerMeans_iff.2 ⟨o.add, h⟩)
  | modify => exact change_modify.2 (answerMeans_iff.2 ⟨o.modify, h⟩)
  | _ => exact h

/-- What a pattern does to the directories, the answers say about them. -/
theorem Outcomes.Steps.changes {tr : Trace} (h : o.Steps schema entry s tr s') : Changes schema entry s tr s' := by
  induction tr generalizing s with
  | nil => exact h
  | cons e tr ih =>
    obtain ⟨s₁, he, htr⟩ := h
    exact ⟨s₁, he.change, ih htr⟩

end

/-! ### The steps of a creation -/

namespace AdMode

/-- What a creation sends to the directory. -/
structure Planned (x : Externals) (m : AdMode) (op : Operation) (attrs : SortedMap String String) (pw : Option String)
    (dn : String) : Prop where
  parsed : parseAttrs x op.attributesJson = .ok attrs
  decrypted : m.password x op = .ok pw
  named : attrs.get? "distinguishedName" = some dn

abbrev addCall (conn : LdapConnector) (attrs : SortedMap String String) (dn : String) : Call :=
  .add conn.ldap dn (LdapConnector.newAccount attrs)

abbrev passwordCall (conn : LdapConnector) (dn pw : String) : Call :=
  .modify conn.ldap dn [.replace "unicodePwd" [utf16Le s!"\"{pw}\""]]

/-- How far a creation gets. -/
inductive Creation (x : Externals) (m : AdMode) (op : Operation) (conn : LdapConnector) :
    Trace → Except AgentError Json → Prop
  | unplanned (e : AgentError) : Creation x m op conn [⟨.routed op conn, ()⟩] (.error e)
  | notAdded {attrs : SortedMap String String} {pw : Option String} {dn : String} {reply : LdapReply Unit}
    (hp : Planned x m op attrs pw dn) (hreply : reply ≠ .ok ()) (e : AgentError) :
    Creation x m op conn [⟨.routed op conn, ()⟩, ⟨addCall conn attrs dn, reply⟩] (.error e)
  | added {attrs : SortedMap String String} {pw : Option String} {dn : String} (hp : Planned x m op attrs pw dn)
    (r : Json) : Creation x m op conn [⟨.routed op conn, ()⟩, ⟨addCall conn attrs dn, .ok ()⟩] (.ok r)
  | noPassword {attrs : SortedMap String String} {pw dn : String} {reply : LdapReply Unit}
    (hp : Planned x m op attrs (some pw) dn) (hwriteback : conn.passwordWriteback = true) (hreply : reply ≠ .ok ())
    (e : AgentError) : Creation x m op conn
      [⟨.routed op conn, ()⟩, ⟨addCall conn attrs dn, .ok ()⟩, ⟨passwordCall conn dn pw, reply⟩] (.error e)
  | withPassword {attrs : SortedMap String String} {pw dn : String} (hp : Planned x m op attrs (some pw) dn)
    (r : Json) :
    Creation x m op conn
      [⟨.routed op conn, ()⟩, ⟨addCall conn attrs dn, .ok ()⟩, ⟨passwordCall conn dn pw, .ok ()⟩] (.ok r)

variable {x : Externals} {m : AdMode} {op : Operation} {conn : LdapConnector} {tr : Trace} {r : Except AgentError Json}

theorem creation_of_runs (htype : op.opType = "CREATE_ACCOUNT") (h : (m.processOn x op conn).run.Runs tr r) :
    Creation x m op conn tr r := by
  obtain ⟨_, tr, rfl, hrun⟩ := runs_ask.1 h
  have hrun : (m.process x op conn).run.Runs tr r := hrun
  simp only [process, htype] at hrun
  rcases hattrs : parseAttrs x op.attributesJson with e | attrs
  · rw [hattrs] at hrun
    obtain ⟨rfl, rfl⟩ := hrun
    exact .unplanned e
  rcases hpw : m.password x op with e | pw
  · rw [hattrs, hpw] at hrun
    obtain ⟨rfl, rfl⟩ := hrun
    exact .unplanned e
  rw [hattrs, hpw, liftResult_ok_bind, liftResult_ok_bind, LdapConnector.createAccount] at hrun
  rcases hdn : attrs.get? "distinguishedName" with _ | dn
  · rw [hdn] at hrun
    obtain ⟨rfl, rfl⟩ := hrun
    exact .unplanned _
  have hp : Planned x m op attrs pw dn := ⟨hattrs, hpw, hdn⟩
  rw [hdn] at hrun
  simp only [bind_assoc] at hrun
  obtain ⟨reply, tr, rfl, hadd⟩ := runs_ask.1 hrun
  rcases reply with e | e | _
  · obtain ⟨rfl, rfl⟩ := hadd
    exact .notAdded hp (by simp) _
  · obtain ⟨rfl, rfl⟩ := hadd
    exact .notAdded hp (by simp) _
  rcases pw with _ | pw
  · cases hwriteback : conn.passwordWriteback <;> rw [hwriteback] at hadd <;> obtain ⟨rfl, rfl⟩ := hadd <;>
      exact .added hp _
  cases hwriteback : conn.passwordWriteback with
  | false =>
    rw [hwriteback] at hadd
    obtain ⟨rfl, rfl⟩ := hadd
    exact .added hp _
  | true =>
    rw [hwriteback] at hadd
    obtain ⟨reply, tr, rfl, hset⟩ := hadd
    rcases reply with e | e | _
    · obtain ⟨rfl, rfl⟩ := hset
      exact .noPassword hp hwriteback (by simp) _
    · obtain ⟨rfl, rfl⟩ := hset
      exact .noPassword hp hwriteback (by simp) _
    · obtain ⟨rfl, rfl⟩ := hset
      exact .withPassword hp _

section
variable {attrs : SortedMap String String} {pw : Option String} {dn : String}

theorem process_planned (htype : op.opType = "CREATE_ACCOUNT") (hp : Planned x m op attrs pw dn) :
    m.process x op conn = conn.createAccount attrs pw >>= fun dn => pure (.obj [("dn", .str dn)]) := by
  simp only [process, htype]
  rw [hp.parsed, hp.decrypted]
  rfl

theorem exists_notAdded (htype : op.opType = "CREATE_ACCOUNT") (hp : Planned x m op attrs pw dn)
    {reply : LdapReply Unit} (hreply : reply ≠ .ok ()) :
    ∃ e, (m.processOn x op conn).run.Runs [⟨.routed op conn, ()⟩, ⟨addCall conn attrs dn, reply⟩] (.error e) := by
  suffices hrun : ∃ e, (m.process x op conn).run.Runs [⟨addCall conn attrs dn, reply⟩] (.error e) by
    obtain ⟨e, hrun⟩ := hrun
    exact ⟨e, runs_ask.2 ⟨(), _, rfl, hrun⟩⟩
  rw [process_planned htype hp, LdapConnector.createAccount, hp.named]
  rcases reply with e | e | _
  · exact ⟨_, _, _, rfl, rfl, rfl⟩
  · exact ⟨_, _, _, rfl, rfl, rfl⟩
  · exact absurd rfl hreply

theorem exists_noPassword {pw : String} (htype : op.opType = "CREATE_ACCOUNT")
    (hp : Planned x m op attrs (some pw) dn) (hwriteback : conn.passwordWriteback = true)
    {reply : LdapReply Unit} (hreply : reply ≠ .ok ()) :
    ∃ e, (m.processOn x op conn).run.Runs
      [⟨.routed op conn, ()⟩, ⟨addCall conn attrs dn, .ok ()⟩, ⟨passwordCall conn dn pw, reply⟩] (.error e) := by
  suffices hrun : ∃ e, (m.process x op conn).run.Runs
      [⟨addCall conn attrs dn, .ok ()⟩, ⟨passwordCall conn dn pw, reply⟩] (.error e) by
    obtain ⟨e, hrun⟩ := hrun
    exact ⟨e, runs_ask.2 ⟨(), _, rfl, hrun⟩⟩
  rw [process_planned htype hp, LdapConnector.createAccount, hp.named, hwriteback]
  rcases reply with e | e | _
  · exact ⟨_, .ok (), _, rfl, .lost e, _, rfl, rfl, rfl⟩
  · exact ⟨_, .ok (), _, rfl, .rejected e, _, rfl, rfl, rfl⟩
  · exact absurd rfl hreply

end

/-- Every way a creation can go is one of the patterns. -/
theorem changes_iff_exists_steps {κ α : Type} [DecidableEq κ] [DecidableEq α] {schema : Schema α}
    {entry : Ldap → String → κ} {s s' : Directories κ α}
    (htype : op.opType = "CREATE_ACCOUNT") (h : (m.processOn x op conn).run.Runs tr r) :
    Changes schema entry s tr s' ↔ ∃ o : Outcomes, o.Steps schema entry s tr s' := by
  constructor
  · intro hs
    cases creation_of_runs htype h with
    | unplanned => exact ⟨⟨.ok, .ok⟩, hs⟩
    | notAdded | added =>
      obtain ⟨_, hrouted, s₁, hadd, hs⟩ := hs
      obtain ⟨o, ho⟩ := answerMeans_iff.1 (change_add.1 hadd)
      exact ⟨⟨o, .ok⟩, _, hrouted, s₁, ho, hs⟩
    | noPassword | withPassword =>
      obtain ⟨_, hrouted, s₁, hadd, s₂, hmodify, hs⟩ := hs
      obtain ⟨o, ho⟩ := answerMeans_iff.1 (change_add.1 hadd)
      obtain ⟨o', ho'⟩ := answerMeans_iff.1 (change_modify.1 hmodify)
      exact ⟨⟨o, o'⟩, _, hrouted, s₁, ho, s₂, ho', hs⟩
  · rintro ⟨o, hs⟩
    exact hs.changes

/-! ### What a failed creation leaves -/

section
variable {κ α : Type} [DecidableEq κ] [DecidableEq α] (schema : Schema α) (x : Externals) (m : AdMode) (op : Operation)
  (conn : LdapConnector) (entry : Ldap → String → κ) (s : Directories κ α) (o : Outcomes)

/-- A creation that returns an error has left the directories alone, and whatever a later attempt could have got
before, on this connection or another, it can get now. -/
def FailsCleanly : Prop :=
  ∀ tr r s', (m.processOn x op conn).run.Runs tr r → o.Steps schema entry s tr s' → (∃ e, r = .error e) →
    s' = s ∧ ∀ conn' tr' r', (m.processOn x op conn').run.Runs tr' r' → (∃ s₁, Changes schema entry s tr' s₁) →
      ∃ s₁, Changes schema entry s' tr' s₁

/-- The account is new and its add is carried out, but the answer to the add is lost or the password is not set. -/
def LeavesAccount : Prop :=
  ∃ attrs pw dn, Planned x m op attrs pw dn ∧ s (entry conn.ldap dn) = none ∧ o.add.done = true ∧
    (o.add.reply ≠ .ok () ∨ conn.passwordWriteback = true ∧ pw ≠ none ∧ o.modify.reply ≠ .ok ())

variable {schema x m op conn entry s o} {s' : Directories κ α}

/-- A failed creation that changes the directories leaves the account. -/
theorem leavesAccount_of_runs (htype : op.opType = "CREATE_ACCOUNT") (h : (m.processOn x op conn).run.Runs tr r)
    (hs : o.Steps schema entry s tr s') (herr : ∃ e, r = .error e) (hne : s' ≠ s) :
    LeavesAccount x m op conn entry s o := by
  obtain ⟨e, rfl⟩ := herr
  cases creation_of_runs htype h with
  | unplanned =>
    obtain ⟨_, rfl, rfl⟩ := hs
    exact absurd rfl hne
  | notAdded hp hreply =>
    obtain ⟨_, rfl, _, ⟨rfl, htakes⟩, rfl⟩ := hs
    by_cases hdone : o.add.done = true
    · exact ⟨_, _, _, hp, (Outcome.Takes.effect htakes hdone).1, hdone, .inl hreply⟩
    · exact absurd (Outcome.Takes.unchanged htakes hdone) hne
  | noPassword hp hwriteback hreply =>
    obtain ⟨_, rfl, _, ⟨hok, htakes⟩, _, ⟨rfl, -⟩, rfl⟩ := hs
    have hdone := Outcome.done_of_ok hok.symm
    exact ⟨_, _, _, hp, (Outcome.Takes.effect htakes hdone).1, hdone, .inr ⟨hwriteback, nofun, hreply⟩⟩

/-- The failures that leave the account do leave it. -/
theorem LeavesAccount.exists_left (htype : op.opType = "CREATE_ACCOUNT") (h : LeavesAccount x m op conn entry s o) :
    ∃ tr e s' attrs pw dn, (m.processOn x op conn).run.Runs tr (.error e) ∧ o.Steps schema entry s tr s' ∧
      Planned x m op attrs pw dn ∧ s (entry conn.ldap dn) = none ∧ s' (entry conn.ldap dn) ≠ none := by
  obtain ⟨attrs, pw, dn, hp, hnew, hdone, hlost⟩ := h
  let vals : Attrs α := .ofAdd schema (LdapConnector.newAccount attrs)
  let added : Directories κ α := Function.update s (entry conn.ldap dn) (some vals)
  have hadded : added (entry conn.ldap dn) = some vals := Function.update_self ..
  have htakes : o.add.Takes schema entry s (addCall conn attrs dn) added := by
    rw [Outcome.Takes, if_pos hdone]
    exact ⟨hnew, rfl⟩
  by_cases hok : o.add.reply = .ok ()
  · obtain ⟨hwriteback, hpw, hreply⟩ := hlost.resolve_left (fun hne => hne hok)
    obtain ⟨pw, rfl⟩ := Option.ne_none_iff_exists'.1 hpw
    obtain ⟨e, hrun⟩ := exists_noPassword htype hp hwriteback hreply
    obtain ⟨s', hs', hk⟩ := Outcome.exists_takes_modify o.modify hadded [.replace "unicodePwd" [utf16Le s!"\"{pw}\""]]
    exact ⟨_, e, s', attrs, some pw, dn, hrun, ⟨s, rfl, added, ⟨hok.symm, htakes⟩, s', ⟨rfl, hs'⟩, rfl⟩, hp, hnew, hk⟩
  · obtain ⟨e, hrun⟩ := exists_notAdded htype hp hok
    refine ⟨_, e, added, attrs, pw, dn, hrun, ⟨s, rfl, added, ⟨rfl, htakes⟩, rfl⟩, hp, hnew, ?_⟩
    rw [hadded]
    nofun

/-- A creation that returns an error leaves the directories as they were and does not stand in the way of a later
attempt, unless it leaves the account. -/
theorem creation_atomic_iff (schema : Schema α) (x : Externals) (m : AdMode) (op : Operation) (conn : LdapConnector)
    (entry : Ldap → String → κ) (s : Directories κ α) (o : Outcomes) (htype : op.opType = "CREATE_ACCOUNT") :
    FailsCleanly schema x m op conn entry s o ↔ ¬ LeavesAccount x m op conn entry s o := by
  constructor
  · intro h hleaves
    obtain ⟨tr, e, s', attrs, pw, dn, hrun, hs, -, hnew, hk⟩ := hleaves.exists_left htype
    obtain ⟨rfl, -⟩ := h tr _ s' hrun hs ⟨e, rfl⟩
    exact hk hnew
  · intro h tr r s' hrun hs herr
    obtain rfl : s' = s := by
      by_contra hne
      exact h (leavesAccount_of_runs htype hrun hs herr hne)
    exact ⟨rfl, fun conn' tr' r' _ hs₁ => hs₁⟩

theorem Planned.unique {attrs attrs' : SortedMap String String} {pw pw' : Option String} {dn dn' : String}
    (h : Planned x m op attrs pw dn) (h' : Planned x m op attrs' pw' dn') : dn = dn' := by
  obtain rfl : attrs = attrs' := Except.ok.inj (h.parsed.symm.trans h'.parsed)
  exact Option.some.inj (h.named.symm.trans h'.named)

/-- While there is an entry with the DN of the account, every creation of the account fails. -/
theorem creation_fails (htype : op.opType = "CREATE_ACCOUNT") {attrs : SortedMap String String} {pw : Option String}
    {dn : String} (hp : Planned x m op attrs pw dn) (hk : s (entry conn.ldap dn) ≠ none)
    (h : (m.processOn x op conn).run.Runs tr r) (hs : Changes schema entry s tr s') : ∃ e, r = .error e := by
  cases creation_of_runs htype h with
  | unplanned e => exact ⟨e, rfl⟩
  | notAdded _ _ e => exact ⟨e, rfl⟩
  | noPassword _ _ _ e => exact ⟨e, rfl⟩
  | added hp' =>
    obtain ⟨_, rfl, _, ⟨hnone, -⟩, -⟩ := hs
    rw [← hp.unique hp'] at hnone
    exact absurd hnone hk
  | withPassword hp' =>
    obtain ⟨_, rfl, _, ⟨hnone, -⟩, -⟩ := hs
    rw [← hp.unique hp'] at hnone
    exact absurd hnone hk

theorem planned_createJoiner : Planned corp corpMode createJoiner joinerAttrs (some "hunter2") "CN=Joiner,DC=corp" :=
  ⟨parseAttrs_createJoiner, password_createJoiner rfl, rfl⟩

/-- The password policy of the domain refuses the password: the operation fails, the account is there, and every
later attempt fails. -/
theorem account_left_behind :
    ¬ FailsCleanly Schema.folding corp corpMode createJoiner corpConn (fun _ dn => dn) (fun _ => none)
        ⟨.ok, .rejected "unwillingToPerform"⟩ ∧
    ∃ tr e s', (corpMode.processOn corp createJoiner corpConn).run.Runs tr (.error e) ∧
      Changes Schema.folding (fun _ dn => dn) (fun _ => none) tr s' ∧
      ∀ tr' r s₁, (corpMode.processOn corp createJoiner corpConn).run.Runs tr' r →
        Changes Schema.folding (fun _ dn => dn) s' tr' s₁ → ∃ e, r = .error e := by
  have hleaves : LeavesAccount (α := List Char) corp corpMode createJoiner corpConn (fun _ dn => dn)
      (fun _ => none) ⟨.ok, .rejected "unwillingToPerform"⟩ :=
    ⟨_, _, _, planned_createJoiner, rfl, rfl, .inr ⟨rfl, nofun, nofun⟩⟩
  obtain ⟨tr, e, s', attrs, pw, dn, hrun, hs, hp, hnew, hk⟩ := hleaves.exists_left rfl
  constructor
  · intro h
    obtain ⟨rfl, -⟩ := h tr _ s' hrun hs ⟨e, rfl⟩
    exact hk hnew
  · exact ⟨tr, e, s', hrun, hs.changes, fun tr' r s₁ hrun' hs' => creation_fails rfl hp hk hrun' hs'⟩

/-- Where the add is refused, the directories stay as they were. -/
theorem creation_atomic_iff_refused :
    FailsCleanly Schema.folding corp corpMode createJoiner corpConn (fun _ dn => dn) (fun _ => none)
      ⟨.rejected "insufficientAccessRights", .ok⟩ := by
  refine (creation_atomic_iff _ _ _ _ _ _ _ _ rfl).2 ?_
  rintro ⟨attrs, pw, dn, -, -, hdone, -⟩
  cases hdone

end

end AdMode

end NexusAgent
