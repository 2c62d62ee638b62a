import NexusAgent.Frames

/-!
# The name of the Kerberos target

`kerberos_bind` cuts the name of the server out of the URL: what follows the last slash, up to a colon.
`kerberos_name_iff`: that is the host exactly if the host is no address with colons and the URL has no path, or one
whose last segment begins like the host.
-/

namespace NexusAgent

/-! ### URLs -/

/-- A DNS name, or an address in dotted form. -/
def isDnsName (s : String) : Bool := s != "" && s.toList.all fun c => c.isAlphanum || c == '-' || c == '.' || c == '_'

/-- What stands between the brackets of an address. -/
def isIpLiteral (s : String) : Bool :=
  s != "" && s.toList.all fun c => c.isAlphanum || c == ':' || c == '.' || c == '-' || c == '~' || c == '%'

inductive UrlHost where
  | dns (name : String) (h : isDnsName name)
  | ip (literal : String) (h : isIpLiteral literal)

def UrlHost.text : UrlHost → String
  | .dns name _ => name
  | .ip literal _ => "[" ++ literal ++ "]"

/-- `scheme://host[:port][/path]` -/
structure LdapUrl where
  tls : Bool
  host : UrlHost
  port : Option String
  isPort : (port.getD "").toList.all Char.isDigit
  path : Option String

namespace LdapUrl

def scheme (u : LdapUrl) : String := if u.tls then "ldaps" else "ldap"

def authority (u : LdapUrl) : String :=
  match u.port with
  | some port => u.host.text ++ ":" ++ port
  | none => u.host.text

def text (u : LdapUrl) : String :=
  match u.path with
  | some path => u.scheme ++ "://" ++ u.authority ++ "/" ++ path
  | none => u.scheme ++ "://" ++ u.authority

/-- The host has no colon, and the path, if there is one, ends in a segment that begins like the host. -/
def NamesHost (u : LdapUrl) : Prop :=
  ':' ∉ u.host.text.toList ∧ ∀ path, u.path = some path → ∃ front rest : List Char,
    '/' :: path.toList = front ++ '/' :: (u.host.text.toList ++ rest) ∧ '/' ∉ rest ∧ ∀ c ∈ rest.head?, c = ':'

end LdapUrl

theorem UrlHost.slash_not_mem (h : UrlHost) : '/' ∉ h.text.toList := by
  cases h with
  | dns name h => exact Text.not_mem_of_all (Bool.and_eq_true_iff.1 h).2 rfl
  | ip literal h =>
    have hliteral : '/' ∉ literal.toList := Text.not_mem_of_all (Bool.and_eq_true_iff.1 h).2 rfl
    simp [UrlHost.text, hliteral]

namespace LdapUrl

theorem slash_not_mem_authority (u : LdapUrl) : '/' ∉ u.authority.toList := by
  have hhost := u.host.slash_not_mem
  have hport := u.isPort
  unfold authority
  rcases hp : u.port with _ | port
  · exact hhost
  · rw [hp, Option.getD_some] at hport
    have hslash : '/' ∉ port.toList := Text.not_mem_of_all hport rfl
    simp [hhost, hslash]

end LdapUrl

/-! ### The name -/

/-- The name `kerberos_bind` binds to. -/
def kerberosName (url : String) : String := ((rsplitNext '/' url).bind (splitNext ':')).getD url

theorem kerberosName_eq_iff {url name : String} : kerberosName url = name ↔
    ∃ seg, rsplitNext '/' url = some seg ∧ splitNext ':' seg = some name := by
  have hsome (sep : Char) (s : String) : ∃ t, rsplitNext sep s = some t := ⟨_, rfl⟩
  obtain ⟨seg, hseg⟩ := hsome '/' url
  rw [kerberosName, hseg]
  simp [splitNext]

theorem runs_kerberosBind {x : Externals} (hk : x.kerberos = true) {ldap : Ldap} {url : String} {tr : Trace}
    {r : Except AgentError Ldap} (h : (LdapConnector.kerberosBind x ldap url).run.Runs tr r) :
    ∃ reply, tr = [⟨.gssapiBind ldap (kerberosName url), reply⟩] := by
  unfold LdapConnector.kerberosBind at h
  rw [if_pos hk] at h
  obtain ⟨reply, tr', rfl, hrest⟩ := runs_ask.1 h
  refine ⟨reply, ?_⟩
  rcases reply with e | e | _ <;> rw [hrest.1] <;> rfl

/-- The last slash of a text. -/
theorem last_slash_eq {front front' seg rest : List Char} (hseg : '/' ∉ seg)
    (h : front ++ '/' :: rest = front' ++ '/' :: seg) : ∃ between, '/' :: rest = between ++ '/' :: seg := by
  rcases List.append_eq_append_iff.1 h with ⟨between, -, hrest⟩ | ⟨between, -, hseg'⟩
  · exact ⟨between, hrest⟩
  · rcases between with _ | ⟨a, between⟩
    · exact ⟨[], hseg'.symm⟩
    · rw [List.cons_append, List.cons.injEq] at hseg'
      exact absurd (by rw [hseg'.2]; simp) hseg

namespace LdapUrl

variable {u : LdapUrl}

theorem authority_eq (u : LdapUrl) :
    u.authority = u.host.text ∨ ∃ rest, u.authority = u.host.text ++ String.singleton ':' ++ rest := by
  unfold authority
  rcases u.port with _ | port
  · exact .inl rfl
  · exact .inr ⟨port, rfl⟩

theorem kerberosName_of_no_path (hpath : u.path = none) :
    kerberosName u.text = u.host.text ↔ ':' ∉ u.host.text.toList := by
  rw [kerberosName_eq_iff]
  have htext : u.text = u.scheme ++ ":/" ++ String.singleton '/' ++ u.authority := by
    rw [text, hpath]
    simp [String.ext_iff]
  constructor
  · rintro ⟨seg, -, hname⟩
    exact (splitNext_eq_some.1 hname).1
  · intro hcolon
    exact ⟨u.authority, rsplitNext_eq_some.2 ⟨u.slash_not_mem_authority, .inr ⟨_, htext⟩⟩,
      splitNext_eq_some.2 ⟨hcolon, u.authority_eq⟩⟩

/-- With a path, the name is looked for in the last segment of it. -/
theorem kerberosName_of_path {path : String} (hpath : u.path = some path) :
    kerberosName u.text = u.host.text ↔ ':' ∉ u.host.text.toList ∧ ∃ front rest : List Char,
      '/' :: path.toList = front ++ '/' :: (u.host.text.toList ++ rest) ∧ '/' ∉ rest ∧ ∀ c ∈ rest.head?, c = ':' := by
  rw [kerberosName_eq_iff]
  have hlist : u.text.toList = (u.scheme ++ "://" ++ u.authority).toList ++ '/' :: path.toList := by
    rw [text, hpath]
    simp
  constructor
  · rintro ⟨seg, hseg, hname⟩
    obtain ⟨hseg, rfl | ⟨front, hfront⟩⟩ := rsplitNext_eq_some.1 hseg
    · exact absurd (by rw [hlist]; simp) hseg
    obtain ⟨hcolon, hname⟩ := splitNext_eq_some.1 hname
    refine ⟨hcolon, ?_⟩
    have hsplit :
        (u.scheme ++ "://" ++ u.authority).toList ++ '/' :: path.toList = front.toList ++ '/' :: seg.toList := by
      rw [← hlist, hfront]
      simp
    obtain ⟨between, hbetween⟩ := last_slash_eq hseg hsplit
    rcases hname with rfl | ⟨rest, rfl⟩
    · exact ⟨between, [], by rw [hbetween, List.append_nil], by simp, by simp⟩
    · refine ⟨between, ':' :: rest.toList, by rw [hbetween]; simp, ?_, by simp⟩
      intro hmem
      have hrest : '/' ∈ rest.toList := by simpa using hmem
      exact hseg (by simp [hrest])
  · rintro ⟨hcolon, front, rest, hrest, hslash, hhead⟩
    refine ⟨String.ofList (u.host.text.toList ++ rest), rsplitNext_eq_some.2 ⟨?_, .inr ?_⟩,
      splitNext_eq_some.2 ⟨hcolon, ?_⟩⟩
    · simp [u.host.slash_not_mem, hslash]
    · refine ⟨String.ofList ((u.scheme ++ "://" ++ u.authority).toList ++ front), String.toList_inj.1 ?_⟩
      rw [hlist, hrest]
      simp
    · rcases rest with _ | ⟨a, rest⟩
      · left
        simp
      · right
        rw [hhead a rfl]
        exact ⟨String.ofList rest, String.toList_inj.1 (by simp)⟩

theorem kerberosName_text_iff (u : LdapUrl) : kerberosName u.text = u.host.text ↔ u.NamesHost := by
  rw [NamesHost]
  rcases hpath : u.path with _ | path
  · rw [kerberosName_of_no_path hpath]
    simp
  · rw [kerberosName_of_path hpath]
    refine and_congr_right fun _ => ⟨?_, fun h => h path rfl⟩
    rintro h _ ⟨⟩
    exact h

end LdapUrl

theorem exists_kerberosBind {x : Externals} (hk : x.kerberos = true) (ldap : Ldap) (url : String) :
    ∃ r, (LdapConnector.kerberosBind x ldap url).run.Runs [⟨.gssapiBind ldap (kerberosName url), .ok ()⟩] r := by
  unfold LdapConnector.kerberosBind
  rw [if_pos hk]
  exact ⟨_, .ok (), _, rfl, rfl, rfl⟩

/-- The GSSAPI bind on the URL is to its host. -/
def BindsToHost (x : Externals) (u : LdapUrl) : Prop :=
  ∀ ldap tr r, (LdapConnector.kerberosBind x ldap u.text).run.Runs tr r →
    ∃ reply, tr = [⟨.gssapiBind ldap u.host.text, reply⟩]

theorem BindsToHost.name_eq {x : Externals} {u : LdapUrl} (h : BindsToHost x u) (hk : x.kerberos = true) :
    kerberosName u.text = u.host.text := by
  obtain ⟨r, hrun⟩ := exists_kerberosBind hk ⟨u.text, none⟩ u.text
  obtain ⟨reply, htr⟩ := h _ _ _ hrun
  have hcalls := congrArg (List.map Sigma.fst) htr
  simp only [List.map_cons, List.cons.injEq, Call.gssapiBind.injEq, true_and, and_true, List.map_nil] at hcalls
  exact hcalls

/-- A build with the `kerberos` feature binds to the host of the URL exactly if the host has no colon, and the URL has
no path, or one that ends in a segment that begins like the host. -/
theorem kerberos_name_iff (x : Externals) (u : LdapUrl) (hk : x.kerberos = true) : BindsToHost x u ↔ u.NamesHost := by
  rw [← u.kerberosName_text_iff]
  constructor
  · intro h
    exact h.name_eq hk
  · intro heq ldap tr r hrun
    obtain ⟨reply, rfl⟩ := runs_kerberosBind hk hrun
    rw [heq]
    exact ⟨reply, rfl⟩

/-! ### A slash at the end -/

def domainController : LdapUrl := ⟨true, .dns "dc1.corp.local" (by decide), some "636", by decide, none⟩

/-- The URL with a slash after it. -/
def slashed : LdapUrl := ⟨true, .dns "dc1.corp.local" (by decide), some "636", by decide, some ""⟩

def bracketed : LdapUrl := ⟨true, .ip "2001:db8::1" (by decide), none, by decide, none⟩

/-- Libraries with the `kerberos` feature. -/
def Externals.sasl : Externals := .reading readStrings (fun _ => .error "EOF while parsing a value") true

/-- The agent binds to no host, and to a part of an address. -/
theorem bind_to_no_host : ¬ BindsToHost .sasl slashed ∧ ¬ BindsToHost .sasl bracketed := by
  have hslashed : kerberosName slashed.text = "" := by decide
  have hbracketed : kerberosName bracketed.text = "[2001" := by decide
  constructor
  · intro h
    have heq := h.name_eq rfl
    rw [hslashed] at heq
    revert heq
    decide
  · intro h
    have heq := h.name_eq rfl
    rw [hbracketed] at heq
    revert heq
    decide

theorem kerberos_name_iff_dc1 : BindsToHost .sasl domainController := by
  refine (kerberos_name_iff .sasl domainController rfl).2 ⟨by decide, ?_⟩
  rintro path ⟨⟩

end NexusAgent
