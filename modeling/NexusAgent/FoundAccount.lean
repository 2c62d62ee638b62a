import Mathlib.Data.Bool.AllAny
import NexusAgent.Cycle
import NexusAgent.FindDn
import NexusAgent.Writes

/-!
# The account an operation finds

`find_dn` takes the first of the entries a search yields, and a server may yield them in any order.
`account_well_defined_iff`: the account that is modified does not depend on that order exactly if no entry matches, or
all that match have one DN and the operation has something to send.
-/

namespace NexusAgent
open Text Rfc4515

/-- The entries below `base` that the filter is true of; `under` says which entries are below which. -/
def Directory.matching (d : Directory) (under : String → SearchEntry → Bool) (base filter : String) :
    Option (List SearchEntry) :=
  (Filter.parse filter).map fun f => d.entries.filter fun e => under base e && f.eval (d.sat e) == some true

/-- A search yields all entries that match, in some order. -/
def Directory.Returns (d : Directory) (under : String → SearchEntry → Bool) : Event Reply → Prop
  | ⟨.search _ base _ filter _, .ok found⟩ => ∃ es, d.matching under base filter = some es ∧ found.Perm es
  | _ => True

/-- The DNs of the entries that are modified. -/
def modified (tr : Trace) : List String :=
  tr.filterMap fun
    | ⟨.modify _ dn _, _⟩ => some dn
    | _ => none

namespace AdMode

/-- What an operation that modifies the account of a user asks for. -/
def mods (x : Externals) (op : Operation) : List Mod :=
  match op.opType with
  | "ENABLE_ACCOUNT" => [.replace "userAccountControl" [utf8 uacEnabled]]
  | "DISABLE_ACCOUNT" => [.replace "userAccountControl" [utf8 uacDisabled]]
  | _ =>
    match parseAttrs x op.attributesJson with
    | .ok attrs => LdapConnector.updateMods attrs
    | .error _ => []

/-- The operation gets to its search: the attributes of an update can be read. -/
def Searches (x : Externals) (op : Operation) : Prop :=
  op.opType = "UPDATE_ATTRIBUTES" → ∃ attrs, parseAttrs x op.attributesJson = .ok attrs

variable {x : Externals} {m : AdMode} {op : Operation} {conn : LdapConnector} {email : String} {tr : Trace}
  {r : Except AgentError Json}

/-- What becomes of a step on the account that is found: it fails if there is none, else it modifies the first one,
if there is something to change. -/
structure FirstModified {β : Type} (found : List SearchEntry) (ms : List Mod) (tr : Trace) (res : Except AgentError β) :
    Prop where
  none : found = [] → modified tr = [] ∧ ∃ e, res = .error e
  first : ∀ entry rest, found = entry :: rest → modified tr = if ms = [] then [] else [entry.dn]

theorem firstModified {β : Type} {k : String → Agent β} {res : Except AgentError β} {found : List SearchEntry}
    {ms : List Mod} (hk : ∀ dn tr r, (k dn).run.Runs tr r → (∃ reply : LdapReply Unit, ms ≠ [] ∧
      tr = [⟨.modify conn.ldap dn ms, reply⟩]) ∨ (ms = [] ∧ tr = []))
    (h : (conn.findDn email >>= k).run.Runs tr res)
    (hfound : (⟨conn.findCall email, .ok found⟩ : Event Reply) ∈ tr) : FirstModified found ms tr res := by
  rcases Prog.runs_bindE.1 h with ⟨e, hfind, rfl⟩ | ⟨tr₁, tr₂, dn, rfl, hfind, hrest⟩
  · obtain ⟨reply, rfl, herr⟩ := LdapConnector.runs_findDn.1 hfind
    obtain rfl : reply = .ok found := by cases List.mem_singleton.1 hfound; rfl
    refine ⟨fun _ => ⟨rfl, e, rfl⟩, ?_⟩
    rintro entry rest rfl
    cases herr
  · obtain ⟨reply, rfl, hok⟩ := LdapConnector.runs_findDn.1 hfind
    have hreply : reply = .ok found := by
      rcases List.mem_append.1 hfound with hmem | hmem
      · cases List.mem_singleton.1 hmem
        rfl
      · rcases hk dn tr₂ res hrest with ⟨_, -, rfl⟩ | ⟨-, rfl⟩
        · cases List.mem_singleton.1 hmem
        · cases hmem
    subst hreply
    constructor
    · rintro rfl
      cases hok
    · rintro entry rest rfl
      cases hok
      rcases hk _ tr₂ res hrest with ⟨_, hne, rfl⟩ | ⟨hnil, rfl⟩
      · rw [if_neg hne]
        rfl
      · rw [if_pos hnil]
        rfl

theorem email_bind (hemail : op.userEmail = some email) {β : Type} (f : String → Agent β) :
    (liftResult (AdMode.email op) >>= f) = f email := by
  rw [AdMode.email, hemail]
  rfl

theorem mods_enable (ht : op.opType = "ENABLE_ACCOUNT") :
    mods x op = [.replace "userAccountControl" [utf8 uacEnabled]] := by
  rw [mods, ht]
  rfl

theorem mods_disable (ht : op.opType = "DISABLE_ACCOUNT") :
    mods x op = [.replace "userAccountControl" [utf8 uacDisabled]] := by
  rw [mods, ht]
  rfl

theorem mods_update (ht : op.opType = "UPDATE_ATTRIBUTES") :
    mods x op = match parseAttrs x op.attributesJson with
      | .ok attrs => LdapConnector.updateMods attrs
      | .error _ => [] := by
  rw [mods, ht]
  rfl

theorem firstModified_setUac {found : List SearchEntry} {uac : String} (f : String → Json)
    (h : (conn.setUac email uac >>= fun dn => pure (f dn)).run.Runs tr r)
    (hfound : (⟨conn.findCall email, .ok found⟩ : Event Reply) ∈ tr) :
    FirstModified found [.replace "userAccountControl" [utf8 uac]] tr r := by
  rw [LdapConnector.setUac, bind_assoc] at h
  refine firstModified (fun dn tr r hrun => .inl ?_) h hfound
  rw [bind_assoc] at hrun
  obtain ⟨reply, tr', rfl, hrest⟩ := runs_ask.1 hrun
  refine ⟨reply, List.cons_ne_nil _ _, ?_⟩
  rcases reply with e | e | _ <;> rw [hrest.1]

theorem firstModified_process {found : List SearchEntry} (hemail : op.userEmail = some email)
    (htype : op.opType ∈ modifying) (h : (m.process x op conn).run.Runs tr r)
    (hfound : (⟨conn.findCall email, .ok found⟩ : Event Reply) ∈ tr) : FirstModified found (mods x op) tr r := by
  simp only [modifying, List.mem_cons, List.not_mem_nil, or_false] at htype
  rcases htype with ht | ht | ht <;> simp only [AdMode.process, ht, email_bind hemail] at h
  · rw [mods_enable ht]
    exact firstModified_setUac _ h hfound
  · rw [mods_disable ht]
    exact firstModified_setUac _ h hfound
  · rw [mods_update ht]
    rcases hattrs : parseAttrs x op.attributesJson with e | attrs
    · rw [hattrs] at h
      obtain ⟨rfl, -⟩ := h
      cases hfound
    · rw [hattrs, liftResult_ok_bind, LdapConnector.updateAttributes, bind_assoc] at h
      refine firstModified (fun dn tr r hrun => ?_) h hfound
      by_cases hne : LdapConnector.updateMods attrs ≠ []
      · simp only [if_pos hne, bind_assoc] at hrun
        obtain ⟨reply, tr', rfl, hrest⟩ := runs_ask.1 hrun
        refine .inl ⟨reply, hne, ?_⟩
        rcases reply with e | e | _ <;> rw [hrest.1]
      · simp only [if_neg hne] at hrun
        exact .inr ⟨not_not.1 hne, hrun.1⟩

/-- An operation whose search is answered has read its attributes. -/
theorem searches_of_found {found : List SearchEntry} (hemail : op.userEmail = some email)
    (h : (m.process x op conn).run.Runs tr r) (hfound : (⟨conn.findCall email, .ok found⟩ : Event Reply) ∈ tr) :
    Searches x op := by
  intro ht
  simp only [AdMode.process, ht, email_bind hemail] at h
  rcases hattrs : parseAttrs x op.attributesJson with e | attrs
  · rw [hattrs] at h
    obtain ⟨rfl, -⟩ := h
    cases hfound
  · exact ⟨attrs, rfl⟩

/-- What the operation sends if the search yields `entry` first and the directory does as it is asked. -/
def foundTrace (x : Externals) (op : Operation) (conn : LdapConnector) (email : String) (entry : SearchEntry)
    (rest : List SearchEntry) : Trace :=
  ⟨conn.findCall email, .ok (entry :: rest)⟩ ::
    if mods x op = [] then [] else [⟨.modify conn.ldap entry.dn (mods x op), .ok ()⟩]

/-- An operation can run on any entries that the search yields, and succeeds. -/
theorem exists_found (hemail : op.userEmail = some email) (htype : op.opType ∈ modifying) (hsearches : Searches x op)
    (m : AdMode) (conn : LdapConnector) (entry : SearchEntry) (rest : List SearchEntry) :
    ∃ json, (m.process x op conn).run.Runs (foundTrace x op conn email entry rest) (.ok json) := by
  simp only [modifying, List.mem_cons, List.not_mem_nil, or_false] at htype
  rcases htype with ht | ht | ht <;> simp only [AdMode.process, ht, email_bind hemail, foundTrace]
  · rw [mods_enable ht, if_neg (List.cons_ne_nil _ _)]
    exact ⟨_, .ok (entry :: rest), _, rfl, .ok (), _, rfl, rfl, rfl⟩
  · rw [mods_disable ht, if_neg (List.cons_ne_nil _ _)]
    exact ⟨_, .ok (entry :: rest), _, rfl, .ok (), _, rfl, rfl, rfl⟩
  · obtain ⟨attrs, hattrs⟩ := hsearches ht
    have hmods : mods x op = LdapConnector.updateMods attrs := by
      rw [mods_update ht, hattrs]
    rw [hmods, hattrs, liftResult_ok_bind, LdapConnector.updateAttributes]
    by_cases hne : LdapConnector.updateMods attrs ≠ []
    · simp only [if_pos hne, if_neg hne]
      exact ⟨_, .ok (entry :: rest), _, rfl, .ok (), _, rfl, rfl, rfl⟩
    · simp only [if_neg hne, if_pos (not_not.1 hne)]
      exact ⟨_, .ok (entry :: rest), _, rfl, rfl, rfl⟩

theorem modified_foundTrace (entry : SearchEntry) (rest : List SearchEntry) :
    modified (foundTrace x op conn email entry rest) = if mods x op = [] then [] else [entry.dn] := by
  by_cases hmods : mods x op = []
  · rw [foundTrace, if_pos hmods, if_pos hmods]
    rfl
  · rw [foundTrace, if_neg hmods, if_neg hmods]
    rfl

/-- Whatever the order in which the entries are returned, the same account is modified, or the operation fails in
both and modifies none. -/
def WellDefined (x : Externals) (m : AdMode) (d : Directory) (under : String → SearchEntry → Bool) (op : Operation)
    (conn : LdapConnector) (email : String) : Prop :=
  ∀ tr r tr' r' found found', (m.process x op conn).run.Runs tr r → (m.process x op conn).run.Runs tr' r' →
    (∀ e ∈ tr, d.Returns under e) → (∀ e ∈ tr', d.Returns under e) →
    (⟨conn.findCall email, .ok found⟩ : Event Reply) ∈ tr → (⟨conn.findCall email, .ok found'⟩ : Event Reply) ∈ tr' →
    (∃ dn, modified tr = [dn] ∧ modified tr' = [dn]) ∨
      (modified tr = [] ∧ modified tr' = [] ∧ (∃ e, r = .error e) ∧ ∃ e, r' = .error e)

variable {d : Directory} {under : String → SearchEntry → Bool}

theorem wellDefined_of_agree (hemail : op.userEmail = some email) (htype : op.opType ∈ modifying)
    (hagree : Searches x op → ∀ es, d.matching under conn.baseDn (LdapConnector.findFilter email) = some es →
      es = [] ∨ (mods x op ≠ [] ∧ ∀ e ∈ es, ∀ e' ∈ es, e.dn = e'.dn)) : WellDefined x m d under op conn email := by
  intro tr r tr' r' found found' h h' hd hd' hfound hfound'
  have hfirst := firstModified_process hemail htype h hfound
  have hfirst' := firstModified_process hemail htype h' hfound'
  obtain ⟨es, hes, hperm⟩ := hd _ hfound
  obtain ⟨es', hes', hperm'⟩ := hd' _ hfound'
  rw [hes] at hes'
  cases hes'
  rcases hagree (searches_of_found hemail h hfound) es hes with rfl | ⟨hmods, hdns⟩
  · obtain ⟨hnone, hfail⟩ := hfirst.none hperm.eq_nil
    obtain ⟨hnone', hfail'⟩ := hfirst'.none hperm'.eq_nil
    exact .inr ⟨hnone, hnone', hfail, hfail'⟩
  rcases found with _ | ⟨entry, rest⟩
  · obtain rfl : found' = [] := (hperm'.trans hperm.symm).eq_nil
    exact .inr ⟨(hfirst.none rfl).1, (hfirst'.none rfl).1, (hfirst.none rfl).2, (hfirst'.none rfl).2⟩
  rcases found' with _ | ⟨entry', rest'⟩
  · cases (hperm.trans hperm'.symm).eq_nil
  have hdn : entry.dn = entry'.dn :=
    hdns entry (hperm.subset (List.mem_cons_self ..)) entry' (hperm'.subset (List.mem_cons_self ..))
  rw [hfirst.first entry rest rfl, hfirst'.first entry' rest' rfl, if_neg hmods, if_neg hmods]
  exact .inl ⟨entry.dn, rfl, by rw [hdn]⟩

/-- The server may return the matching entries with any of them first. -/
theorem returns_foundTrace {es : List SearchEntry} {e : SearchEntry}
    (hes : d.matching under conn.baseDn (LdapConnector.findFilter email) = some es) (he : e ∈ es) :
    ∀ event ∈ foundTrace x op conn email e (es.erase e), d.Returns under event := by
  refine List.forall_mem_cons.2 ⟨⟨es, hes, (List.perm_cons_erase he).symm⟩, ?_⟩
  intro event hevent
  by_cases hmods : mods x op = []
  · rw [if_pos hmods] at hevent
    cases hevent
  · rw [if_neg hmods] at hevent
    rw [List.mem_singleton.1 hevent]
    trivial

theorem agree_of_wellDefined (hemail : op.userEmail = some email) (htype : op.opType ∈ modifying)
    (hsearches : Searches x op) (h : WellDefined x m d under op conn email) {es : List SearchEntry}
    (hes : d.matching under conn.baseDn (LdapConnector.findFilter email) = some es) {e e' : SearchEntry}
    (he : e ∈ es) (he' : e' ∈ es) : mods x op ≠ [] ∧ e.dn = e'.dn := by
  -- two orders that differ in the entry that comes first
  obtain ⟨json, hrun⟩ := exists_found hemail htype hsearches m conn e (es.erase e)
  obtain ⟨json', hrun'⟩ := exists_found hemail htype hsearches m conn e' (es.erase e')
  rcases h _ _ _ _ _ _ hrun hrun' (returns_foundTrace hes he) (returns_foundTrace hes he') (List.mem_cons_self ..)
    (List.mem_cons_self ..) with ⟨dn, hdn, hdn'⟩ | ⟨-, -, ⟨_, herr⟩, -⟩
  · rw [modified_foundTrace] at hdn hdn'
    by_cases hmods : mods x op = []
    · rw [if_pos hmods] at hdn
      cases hdn
    · rw [if_neg hmods] at hdn hdn'
      exact ⟨hmods, (List.singleton_inj.1 hdn).trans (List.singleton_inj.1 hdn').symm⟩
  · cases herr

/-- The account does not depend on the order of the entries exactly if none matches, or all that match have one DN
and there is something to send. -/
theorem account_well_defined_iff (x : Externals) (m : AdMode) (d : Directory) (under : String → SearchEntry → Bool)
    (op : Operation) (conn : LdapConnector) (email : String) (hemail : op.userEmail = some email)
    (htype : op.opType ∈ modifying) : WellDefined x m d under op conn email ↔
      (Searches x op → ∀ es, d.matching under conn.baseDn (LdapConnector.findFilter email) = some es →
        es = [] ∨ (mods x op ≠ [] ∧ ∀ e ∈ es, ∀ e' ∈ es, e.dn = e'.dn)) := by
  refine ⟨fun h hsearches es hes => ?_, wellDefined_of_agree hemail htype⟩
  rcases es with _ | ⟨entry, rest⟩
  · exact .inl rfl
  · have hentry : entry ∈ entry :: rest := List.mem_cons_self ..
    exact .inr ⟨(agree_of_wellDefined hemail htype hsearches h hes hentry hentry).1,
      fun e he e' he' => (agree_of_wellDefined hemail htype hsearches h hes he he').2⟩

/-- A person, and another whose mail is read at the address of the first. -/
def homonyms : List SearchEntry :=
  [⟨"CN=Leaver,DC=corp", [("userPrincipalName", ["leaver@corp"])]⟩, ⟨"CN=Chief,DC=corp", [("mail", ["leaver@corp"])]⟩]

theorem matching_homonyms (n : Nat) : (Directory.exact (homonyms.take n)).matching (fun _ _ => true) corpConn.baseDn
    (LdapConnector.findFilter "leaver@corp") = some (homonyms.take n) := by
  have hparse : Filter.parse (LdapConnector.findFilter "leaver@corp") = some (byEmail "leaver@corp") :=
    (parse_findFilter_iff _).2 (List.all_iff_forall_prop.1 (by decide))
  rw [Directory.matching, hparse, Option.map_some, Option.some_inj]
  refine List.filter_eq_self.2 fun e he => ?_
  have hmem : e ∈ homonyms := List.mem_of_mem_take he
  simp only [homonyms, List.mem_cons, List.not_mem_nil, or_false] at hmem
  rcases hmem with rfl | rfl <;> rfl

/-- It depends on the server which of the two is disabled: the search may yield either of them first. -/
theorem either_disabled : ∃ json json',
    (corpMode.process corp disableLeaver corpConn).run.Runs
      (foundTrace corp disableLeaver corpConn "leaver@corp" homonyms[0] [homonyms[1]]) (.ok json) ∧
    (corpMode.process corp disableLeaver corpConn).run.Runs
      (foundTrace corp disableLeaver corpConn "leaver@corp" homonyms[1] [homonyms[0]]) (.ok json') ∧
    (Directory.exact homonyms).matching (fun _ _ => true) corpConn.baseDn (LdapConnector.findFilter "leaver@corp") =
      some [homonyms[0], homonyms[1]] ∧
    modified (foundTrace corp disableLeaver corpConn "leaver@corp" homonyms[0] [homonyms[1]]) =
      ["CN=Leaver,DC=corp"] ∧
    modified (foundTrace corp disableLeaver corpConn "leaver@corp" homonyms[1] [homonyms[0]]) =
      ["CN=Chief,DC=corp"] ∧
    ¬ WellDefined corp corpMode (.exact homonyms) (fun _ _ => true) disableLeaver corpConn
      "leaver@corp" := by
  have hsearches : Searches corp disableLeaver := fun ht => absurd ht (by decide)
  have hmods : mods corp disableLeaver ≠ [] := by decide
  obtain ⟨json, hrun⟩ := exists_found rfl (by decide) hsearches corpMode corpConn homonyms[0] [homonyms[1]]
  obtain ⟨json', hrun'⟩ := exists_found rfl (by decide) hsearches corpMode corpConn homonyms[1] [homonyms[0]]
  refine ⟨json, json', hrun, hrun', matching_homonyms 2, ?_, ?_, fun h => ?_⟩
  · rw [modified_foundTrace, if_neg hmods]
    rfl
  · rw [modified_foundTrace, if_neg hmods]
    rfl
  · have hsame := (agree_of_wellDefined rfl (by decide) hsearches h (matching_homonyms 2) (List.mem_cons_self ..)
      (List.mem_cons_of_mem _ (List.mem_cons_self ..))).2
    revert hsame
    decide

/-- Without the second person it is the first, in every order. -/
theorem account_well_defined_iff_leaver :
    WellDefined corp corpMode (.exact (homonyms.take 1)) (fun _ _ => true) disableLeaver corpConn
      "leaver@corp" := by
  refine (account_well_defined_iff _ corpMode _ _ disableLeaver corpConn "leaver@corp" rfl (by decide)).2 ?_
  intro _ es hes
  rw [matching_homonyms 1, Option.some_inj] at hes
  subst hes
  refine .inr ⟨by decide, fun e he e' he' => ?_⟩
  rw [List.mem_singleton.1 he, List.mem_singleton.1 he']

end AdMode

end NexusAgent
