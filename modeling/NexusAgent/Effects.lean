import NexusAgent.Config
import NexusAgent.Lib.Prog

/-!
# The calls of the agent

`Call` lists what the agent asks of `ldap3`, of `sqlx`, of the HTTP client, of the timer, of its event log and,
in its setup, of the file system and the terminal, and `Reply` what each call may answer. An `Ldap` is a connection
by what has been done on it: the URL it was opened with and the bind that succeeded on it.

`started` and `routed` are no calls of the source. They mark in a trace where the loop over a batch comes
to an operation, and the connection the operation is then processed on.
-/

namespace NexusAgent
open Text

/-- How a connection is bound. -/
inductive Auth where
  | simple (dn pw : String)
  | kerberos
  deriving DecidableEq, Repr

structure Ldap where
  url : String
  auth : Option Auth
  deriving DecidableEq, Repr

structure LdapConnector where
  ldap : Ldap
  baseDn : String
  passwordWriteback : Bool
  deriving DecidableEq, Repr

/-- `ldap3::Mod`; the agent only replaces. -/
inductive Mod where
  | replace (attr : String) (values : List Bytes)
  deriving DecidableEq

inductive Scope where
  | base
  | subtree
  deriving DecidableEq

structure SearchEntry where
  dn : String
  attrs : List (String × List String)
  deriving DecidableEq

/-- The outcome of an LDAP operation: no answer, a result code other than success, or success. -/
inductive LdapReply (α : Type) where
  | lost (e : String)
  | rejected (e : String)
  | ok (a : α)

structure Status where
  code : Nat
  reason : String
  deriving DecidableEq

def Status.isSuccess (s : Status) : Bool := 200 ≤ s.code && s.code < 300

def Status.display (s : Status) : String := s!"{s.code} {s.reason}"

structure ServerClient where
  baseUrl : String
  agentToken : String
  agentId : String
  deriving DecidableEq

/-- The requests to the broker. -/
inductive Request where
  | fetchConfig
  | pollOperations (limit : Nat)
  | complete (opId : String) (success : Bool) (resultJson error : Option String)
  | heartbeat (mode hostname version : String) (directoryIntegrationId : Option String)
  | reportRun (mode : String) (counters : SyncCounters)
  | disconnect (reason : String)
  | pushRecord (path secret : String) (record : Json)
  | pullWriteback (path secret : String)
  deriving DecidableEq

/-- What a column of a result row holds; of a number with a fraction, the JSON value it converts to. -/
inductive DbValue where
  | null
  | text (s : String)
  | int (n : Int)
  | float (json : Json)
  | bool (b : Bool)
  | blob

/-- The columns of a result row, by name. -/
abbrev DbRow := List (String × DbValue)

inductive Call where
  -- ldap3
  | connect (url : String) (noTlsVerify : Bool)
  | simpleBind (ldap : Ldap) (dn pw : String)
  | gssapiBind (ldap : Ldap) (fqdn : String)
  | add (ldap : Ldap) (dn : String) (attrs : List (String × List String))
  | modify (ldap : Ldap) (dn : String) (mods : List Mod)
  | search (ldap : Ldap) (base : String) (scope : Scope) (filter : String) (attrs : List String)
  | unbind (ldap : Ldap)
  -- reqwest
  | send (client : ServerClient) (request : Request)
  | decodeConfig
  | decodeOperations
  | decodeChanges
  -- sqlx
  | dbConnect (url : String)
  | dbFetch (sql : String)
  | dbExecute (sql : String) (binds : List String)
  -- the timer
  | sleep (secs : Nat)
  -- the event log
  | append (event : String) (detail : Json)
  -- what `run` does before it starts
  | openLog (path : String)
  | buildClient (verifyTls : Bool)
  | hostname
  -- the setup
  | createParentDir (path : String)
  | fillBytes
  | writeFile (path text : String)
  | readFile (path : String)
  | println (line : String)
  -- marks
  | started (op : Operation)
  | routed (op : Operation) (conn : LdapConnector)

abbrev Reply : Call → Type
  | .connect .. => Except String Unit
  | .simpleBind .. | .gssapiBind .. | .add .. | .modify .. => LdapReply Unit
  | .search .. => LdapReply (List SearchEntry)
  | .unbind .. => Unit
  | .send .. => Except String Status
  | .decodeConfig => Except String RemoteConfig
  | .decodeOperations => Except String (List Operation)
  | .decodeChanges => Except String (List WritebackChange)
  | .dbConnect .. => Except String Unit
  | .dbFetch .. => Except String (List DbRow)
  | .dbExecute .. => Except String Nat
  | .sleep .. => Unit
  | .append .. => Except AgentError Unit
  | .openLog .. => Except AgentError Unit
  | .buildClient .. => Except String Unit
  | .hostname => String
  | .createParentDir .. => Unit
  | .fillBytes => Iv
  | .writeFile .. => Except String Unit
  | .readFile .. => Except String String
  | .println .. => Unit
  | .started .. | .routed .. => Unit

/-- The calls that are awaited; at any of them a running cycle may be dropped. -/
def Call.isAwait : Call → Prop
  | .append .. | .openLog .. | .buildClient .. | .hostname | .createParentDir .. | .fillBytes | .writeFile ..
  | .readFile .. | .println .. | .started .. | .routed .. => False
  | _ => True

abbrev Trace := List (Event Reply)

/-- The event log takes what is appended to it. -/
def Recorded : Event Reply → Prop
  | ⟨.append .., answer⟩ => answer = .ok ()
  | _ => True

theorem exists_recorded (c : Call) : ∃ r, Recorded ⟨c, r⟩ := by
  cases c with
  | append => exact ⟨.ok (), rfl⟩
  | fillBytes => exact ⟨⟨List.replicate ivSize 0, rfl⟩, trivial⟩
  | _ => first | exact ⟨(), trivial⟩ | exact ⟨.ok (), trivial⟩ | exact ⟨.lost "", trivial⟩ |
      exact ⟨.error "", trivial⟩ | exact ⟨"", trivial⟩

/-- A part of the agent that cannot fail. -/
abbrev Task := Prog Call Reply

/-- A part of the agent that may return an error. -/
abbrev Agent := ExceptT AgentError Task

def perform (c : Call) : Agent (Reply c) := ExceptT.lift (Prog.perform c)

/-- `?` on a value that is there already. -/
def liftResult {α : Type} (r : Except AgentError α) : Agent α := ExceptT.mk (pure r)

/-- `?` on the outcome of an LDAP operation. -/
def LdapReply.orFail {α : Type} (lost rejected : String) : LdapReply α → Agent α
  | .lost e => throw (.ldap s!"{lost}: {e}")
  | .rejected e => throw (.ldap s!"{rejected}: {e}")
  | .ok a => pure a

/-! ### Traces of the basic steps -/

section
variable {α : Type} {tr : Trace}

theorem runs_pure {a : α} {r : Except AgentError α} :
    (pure a : Agent α).run.Runs tr r ↔ tr = [] ∧ r = .ok a := Iff.rfl

theorem runs_throw {e : AgentError} {r : Except AgentError α} :
    (throw e : Agent α).run.Runs tr r ↔ tr = [] ∧ r = .error e := Iff.rfl

theorem runs_liftResult {q r : Except AgentError α} :
    (liftResult q).run.Runs tr r ↔ tr = [] ∧ r = q := Iff.rfl

theorem liftResult_ok_bind {β : Type} {a : α} {f : α → Agent β} : (liftResult (.ok a) >>= f) = f a := rfl

theorem runs_lift {t : Task α} {r : Except AgentError α} :
    (ExceptT.lift t : Agent α).run.Runs tr r ↔ ∃ a, t.Runs tr a ∧ r = .ok a := Prog.runs_bind_pure

theorem runs_perform {c : Call} {r : Except AgentError (Reply c)} :
    (perform c).run.Runs tr r ↔ ∃ a, tr = [⟨c, a⟩] ∧ r = .ok a := by
  rw [perform, runs_lift]
  simp only [Prog.runs_perform]

theorem runs_ask {c : Call} {f : Reply c → Agent α} {res : Except AgentError α} :
    (perform c >>= f).run.Runs tr res ↔ ∃ r tr', tr = ⟨c, r⟩ :: tr' ∧ (f r).run.Runs tr' res := Iff.rfl

/-- A step that asks for something and converts the answer. -/
theorem runs_ask_result {c : Call} {f : Reply c → Agent α} {g : Reply c → Except AgentError α}
    {res : Except AgentError α} (hf : ∀ r, f r = liftResult (g r)) :
    (perform c >>= f).run.Runs tr res ↔ ∃ r, tr = [⟨c, r⟩] ∧ res = g r := by
  simp only [runs_ask, hf, runs_liftResult]
  constructor
  · rintro ⟨r, _, rfl, rfl, h⟩
    exact ⟨r, rfl, h⟩
  · rintro ⟨r, rfl, h⟩
    exact ⟨r, [], rfl, rfl, h⟩

theorem cut_lift {t : Task α} : (ExceptT.lift t : Agent α).run.Cut Call.isAwait tr ↔ t.Cut Call.isAwait tr := by
  refine Prog.cut_bind.trans ⟨?_, .inl⟩
  rintro (h | ⟨_, _, _, _, _, h⟩)
  · exact h
  · exact h.elim

theorem not_cut_perform {c : Call} (hc : ¬ c.isAwait) : ¬ (perform c).run.Cut Call.isAwait tr := by
  intro h
  rcases cut_lift.1 h with ⟨h, -⟩ | ⟨_, _, _, h⟩
  · exact hc h
  · exact h

theorem allCalls_lift {φ : Call → Prop} {t : Task α} (h : t.AllCalls φ) :
    (ExceptT.lift t : Agent α).run.AllCalls φ := h.bind fun _ => trivial

theorem allCalls_perform {φ : Call → Prop} {c : Call} (h : φ c) : (perform c).run.AllCalls φ :=
  allCalls_lift (Prog.allCalls_perform.2 h)

theorem allCalls_orFail {φ : Call → Prop} {lost rejected : String} (r : LdapReply α) :
    (r.orFail lost rejected).run.AllCalls φ := by
  rcases r with _ | _ | _ <;> trivial

end

end NexusAgent
