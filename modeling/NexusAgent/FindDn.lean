import NexusAgent.Frames
import NexusAgent.Lib.Filter

/-!
# Whose account an operation modifies

`find_dn` puts the e-mail address into a filter as it is. `modified_by_email_iff`: the filter is the
disjunction of the two equality tests on that address, and what is modified is an account that passes one of
them, exactly if the address is free of the characters the grammar of filters reserves.
-/

namespace NexusAgent
open Text Rfc4515

/-- The entries of a directory and what its matching rules make of a test on one of them. -/
structure Directory where
  entries : List SearchEntry
  sat : SearchEntry → Test → Option Bool

/-- A search yields entries that the filter, read by the grammar, is true of. -/
def Directory.Answers (d : Directory) : Event Reply → Prop
  | ⟨.search _ _ _ filter _, .ok found⟩ =>
    ∃ f, Filter.parse filter = some f ∧ ∀ e ∈ found, e ∈ d.entries ∧ f.eval (d.sat e) = some true
  | _ => True

namespace LdapConnector

variable {c : LdapConnector} {email : String} {tr : Trace}
variable {ldap : Ldap} {dn : String} {mods : List Mod} {reply : LdapReply Unit}

/-- A step that only modifies the account the search has found. -/
theorem found_of_modify {β : Type} {k : String → Agent β} {r : Except AgentError β}
    (hk : ∀ dn, (k dn).run.AllCalls fun call => ∃ ldap mods, call = .modify ldap dn mods)
    (h : (c.findDn email >>= k).run.Runs tr r) (hmem : (⟨.modify ldap dn mods, reply⟩ : Event Reply) ∈ tr) :
    ∃ entry rest, (⟨c.findCall email, .ok (entry :: rest)⟩ : Event Reply) ∈ tr ∧ dn = entry.dn := by
  rcases Prog.runs_bindE.1 h with ⟨e, hfind, -⟩ | ⟨tr₁, tr₂, a, rfl, hfind, hrest⟩
  · obtain ⟨found, rfl, -⟩ := runs_findDn.1 hfind
    cases List.mem_singleton.1 hmem
  · obtain ⟨found, rfl, ha⟩ := runs_findDn.1 hfind
    rcases List.mem_append.1 hmem with hmem | hmem
    · cases List.mem_singleton.1 hmem
    · obtain ⟨ldap', mods', hcall⟩ := (hk a).of_runs hrest _ hmem
      rcases found with e | e | _ | ⟨entry, rest⟩ <;> cases ha
      cases hcall
      exact ⟨entry, rest, by simp, rfl⟩

end LdapConnector

/-- The types of the operations that modify the account of a user. -/
def modifying : List String := ["ENABLE_ACCOUNT", "DISABLE_ACCOUNT", "UPDATE_ATTRIBUTES"]

section
variable {x : Externals} {m : AdMode} {op : Operation} {conn : LdapConnector} {email : String} {tr : Trace}
  {r : Except AgentError Json} {ldap : Ldap} {dn : String} {mods : List Mod} {reply : LdapReply Unit}

theorem found_of_process (hemail : op.userEmail = some email) (htype : op.opType ∈ modifying)
    (h : (m.process x op conn).run.Runs tr r) (hmem : (⟨.modify ldap dn mods, reply⟩ : Event Reply) ∈ tr) :
    ∃ entry rest, (⟨conn.findCall email, .ok (entry :: rest)⟩ : Event Reply) ∈ tr ∧ dn = entry.dn := by
  have hlift {β : Type} (f : String → Agent β) : (liftResult (AdMode.email op) >>= f) = f email := by
    rw [AdMode.email, hemail]; rfl
  have hset (uac : String) (f : String → Json) (h : (conn.setUac email uac >>= fun dn => pure (f dn)).run.Runs tr r) :
      ∃ entry rest, (⟨conn.findCall email, .ok (entry :: rest)⟩ : Event Reply) ∈ tr ∧ dn = entry.dn := by
    rw [LdapConnector.setUac, bind_assoc] at h
    refine LdapConnector.found_of_modify (fun dn => ?_) h hmem
    exact Prog.AllCalls.bindE (allCalls_ask ⟨_, _, rfl⟩ fun _ => allCalls_reply fun _ => trivial) fun _ => trivial
  simp only [modifying, List.mem_cons, List.not_mem_nil, or_false] at htype
  rcases htype with ht | ht | ht <;> simp only [AdMode.process, ht, hlift] at h
  · exact hset _ _ h
  · exact hset _ _ h
  · rcases Prog.runs_bindE.1 h with ⟨e, hattrs, -⟩ | ⟨tr₁, tr₂, attrs, rfl, hattrs, hrest⟩
    · rw [hattrs.1] at hmem; cases hmem
    · obtain rfl := hattrs.1
      rw [LdapConnector.updateAttributes, bind_assoc] at hrest
      refine LdapConnector.found_of_modify (fun dn => ?_) hrest hmem
      refine Prog.AllCalls.bindE ?_ fun _ => trivial
      split
      · exact allCalls_ask ⟨_, _, rfl⟩ fun _ => allCalls_reply fun _ => trivial
      · trivial

end

/-! ### The filter -/

/-- An account with the user principal name or the mail address `email`. -/
def byEmail (email : String) : Filter :=
  .or [.test (.equal "userPrincipalName" (utf8 email)), .test (.equal "mail" (utf8 email))]

theorem toList_findFilter (email : String) : (LdapConnector.findFilter email).toList =
    '(' :: '|' :: '(' :: ("userPrincipalName".toList ++ '=' :: (email.toList ++ ')' :: '(' ::
      ("mail".toList ++ '=' :: (email.toList ++ [')', ')'])))) := by
  have hopen : "(|(userPrincipalName=".toList = '(' :: '|' :: '(' :: ("userPrincipalName".toList ++ ['=']) := rfl
  have hmid : ")(mail=".toList = ')' :: '(' :: ("mail".toList ++ ['=']) := rfl
  have hclose : "))".toList = [')', ')'] := rfl
  change ("(|(userPrincipalName=" ++ email ++ ")(mail=" ++ email ++ "))").toList = _
  simp only [String.toList_append, hopen, hmid, hclose, List.append_assoc, List.cons_append, List.nil_append]

theorem parse_findFilter_iff (email : String) :
    Filter.parse (LdapConnector.findFilter email) = some (byEmail email) ↔
      ∀ c ∈ email.toList, Filter.reserved c = false := by
  obtain ⟨n, hn⟩ : ∃ n, (LdapConnector.findFilter email).toList.length + 1 = n + 4 := by
    refine ⟨(LdapConnector.findFilter email).toList.length - 3, ?_⟩
    rw [toList_findFilter]
    simp only [List.length_cons]
    omega
  rw [Filter.parse_eq_some, hn, toList_findFilter]
  exact Filter.parseFilter_either_iff (a := "userPrincipalName".toList) (b := "mail".toList)
    (by decide) (by decide) (by decide) (by decide) (by decide) (by decide) n

/-- What the operations on `email` modify is an entry of the directory with that user principal name or
that mail address. -/
def ModifiesByEmail (x : Externals) (email : String) : Prop :=
  ∀ (m : AdMode) (op : Operation) (conn : LdapConnector) (d : Directory) (tr : Trace) (r : Except AgentError Json),
    op.userEmail = some email → op.opType ∈ modifying → (m.process x op conn).run.Runs tr r →
      (∀ e ∈ tr, d.Answers e) → ∀ (ldap : Ldap) (dn : String) (mods : List Mod) (reply : LdapReply Unit),
        (⟨.modify ldap dn mods, reply⟩ : Event Reply) ∈ tr → ∃ entry ∈ d.entries, entry.dn = dn ∧
          (d.sat entry (.equal "userPrincipalName" (utf8 email)) = some true ∨
            d.sat entry (.equal "mail" (utf8 email)) = some true)

/-- The filter is the one meant, and only accounts with the address are modified, exactly if the address has
no reserved character. -/
theorem modified_by_email_iff (x : Externals) (email : String) :
    (Filter.parse (LdapConnector.findFilter email) = some (byEmail email) ∧ ModifiesByEmail x email) ↔
      ∀ c ∈ email.toList, Filter.reserved c = false := by
  rw [← parse_findFilter_iff]
  refine ⟨And.left, fun hparse => ⟨hparse, ?_⟩⟩
  intro m op conn d tr r hemail htype h hd ldap dn mods reply hmem
  obtain ⟨entry, rest, hfind, rfl⟩ := found_of_process hemail htype h hmem
  obtain ⟨f, hf, hfound⟩ := hd _ hfind
  obtain ⟨hentry, heval⟩ := hfound entry (List.mem_cons_self ..)
  rw [hparse] at hf
  cases hf
  exact ⟨entry, hentry, rfl, Filter.eval_or_pair.1 heval⟩

/-- A directory that matches values byte by byte. -/
def Directory.exact (entries : List SearchEntry) : Directory where
  entries := entries
  sat e
    | .present a => some (e.attrs.any fun (k, _) => k == a)
    | .equal a v => some (e.attrs.any fun (k, vs) => k == a && vs.any fun s => utf8 s == v)
    | _ => none

/-- The address `*` reads as a test for any address at all, and disables the account found first. -/
theorem star_disables_another :
    Filter.parse (LdapConnector.findFilter "*") =
      some (.or [.test (.present "userPrincipalName"), .test (.present "mail")]) ∧
    ∀ x : Externals, ¬ ModifiesByEmail x "*" := by
  have hparse : Filter.parse (LdapConnector.findFilter "*") =
      some (.or [.test (.present "userPrincipalName"), .test (.present "mail")]) := by rfl
  refine ⟨hparse, fun x h => ?_⟩
  let chief : SearchEntry := ⟨"CN=Chief,DC=corp", [("mail", ["chief@corp"])]⟩
  let m : AdMode := ⟨⟨"", "", ""⟩, ⟨"", "", "", "", false, false⟩, ⟨List.replicate 32 0, rfl, ""⟩, true, 25⟩
  let op : Operation := ⟨"1", "DISABLE_ACCOUNT", "7", some "*", none, none, none, none, none⟩
  let conn : LdapConnector := ⟨⟨"ldaps://dc:636", some .kerberos⟩, "DC=corp", false⟩
  have hrun : (m.process x op conn).run.Runs
      [⟨conn.findCall "*", .ok [chief]⟩,
        ⟨.modify conn.ldap chief.dn [.replace "userAccountControl" [utf8 uacDisabled]], .ok ()⟩]
      (.ok (.obj [("dn", .str chief.dn), ("state", .str "disabled")])) :=
    ⟨.ok [chief], _, rfl, .ok (), _, rfl, rfl, rfl⟩
  have hd : ∀ e ∈ [(⟨conn.findCall "*", .ok [chief]⟩ : Event Reply), ⟨.modify conn.ldap chief.dn
      [.replace "userAccountControl" [utf8 uacDisabled]], .ok ()⟩], (Directory.exact [chief]).Answers e := by
    refine List.forall_mem_cons.2 ⟨⟨_, hparse, ?_⟩, List.forall_mem_singleton.2 trivial⟩
    intro e he
    obtain rfl := List.mem_singleton.1 he
    exact ⟨he, Filter.eval_or_pair.2 (.inr (by decide))⟩
  obtain ⟨entry, hentry, -, hsat⟩ := h m op conn (.exact [chief]) _ _ rfl (by decide) hrun hd _ _ _ _
    (List.mem_cons_of_mem _ (List.mem_singleton_self _))
  obtain rfl := List.mem_singleton.1 hentry
  revert hsat
  decide

end NexusAgent
