import NexusAgent.AuditRuns
import NexusAgent.FeedOrder
import NexusAgent.Rules

/-!
# The log that the service keeps

`Logged` answers the calls of the service on its event log by `AuditLog`, on the file of one path. Under it every
detail that the service records is one that reads back (`Plain`), and it records nothing on a log that is not open.
`service_log_verifies`: after any number of runs the file verifies, and it has exactly the records that were taken.
-/

namespace NexusAgent

/-! ### Plain details -/

/-- No more than `n` of each kind. -/
structure SyncCounters.Within (c : SyncCounters) (n : Nat) : Prop where
  inspected : c.inspected ≤ n
  created : c.created ≤ n
  updated : c.updated ≤ n
  disabled : c.disabled ≤ n
  failed : c.failed ≤ n

namespace SyncCounters.Within
variable {c : SyncCounters} {n : Nat}

theorem zero : SyncCounters.Within {} 0 := ⟨le_rfl, le_rfl, le_rfl, le_rfl, le_rfl⟩

theorem mono {k : Nat} (h : c.Within n) (hk : n ≤ k) : c.Within k :=
  ⟨h.inspected.trans hk, h.created.trans hk, h.updated.trans hk, h.disabled.trans hk, h.failed.trans hk⟩

theorem recordOk (h : c.Within n) (op : String) : (c.recordOk op).Within (n + 1) := by
  obtain ⟨h₁, h₂, h₃, h₄, h₅⟩ := h
  unfold SyncCounters.recordOk
  dsimp only
  split
  · constructor <;> dsimp only <;> omega
  split
  · constructor <;> dsimp only <;> omega
  split
  · constructor <;> dsimp only <;> omega
  · constructor <;> dsimp only <;> omega

theorem recordFailure (h : c.Within n) : c.recordFailure.Within (n + 1) := by
  obtain ⟨h₁, h₂, h₃, h₄, h₅⟩ := h
  constructor <;> dsimp only [SyncCounters.recordFailure] <;> omega

theorem count (h : c.Within n) (op : Operation) (r : Except AgentError Json) :
    (AdMode.count c op r).Within (n + 1) := by
  rcases r with e | result
  · exact h.recordFailure
  · exact h.recordOk op.opType

end SyncCounters.Within

theorem plain_ofNat {n : Nat} (h : n < 2 ^ 64) (depth : Nat) : plainWithin depth (.ofNat n) = true := by
  cases depth <;> simpa [Json.ofNat, plainWithin, plainNumber] using h

theorem plain_str (s : String) (depth : Nat) : plainWithin depth (.str s) = true := by
  cases depth <;> rfl

theorem plain_elems {depth : Nat} {vs : List Json} (h : ∀ v ∈ vs, plainWithin depth v = true) :
    plainElems depth vs = true := by
  induction vs with
  | nil => rfl
  | cons v vs ih =>
    obtain ⟨hv, hvs⟩ := List.forall_mem_cons.1 h
    rw [plainElems, hv, ih hvs]
    rfl

theorem plain_obj {depth : Nat} {fields : List (String × Json)} (hkeys : (fields.map Prod.fst).Pairwise (· < ·))
    (hvalues : ∀ e ∈ fields, plainWithin depth e.2 = true) : plainWithin (depth + 1) (.obj fields) = true := by
  have hfields : plainFields depth fields = true := by
    clear hkeys
    induction fields with
    | nil => rfl
    | cons e fields ih =>
      obtain ⟨he, hrest⟩ := List.forall_mem_cons.1 hvalues
      rw [plainFields, he, ih hrest]
      rfl
  rw [plainWithin, hfields, Bool.and_true, decide_eq_true_eq]
  exact List.pairwise_map.1 hkeys

theorem plain_summaryDetail (mode : String) {c : SyncCounters} {n : Nat} (h : c.Within n) (hn : n < 2 ^ 64) :
    Plain (summaryDetail mode c) := by
  have hnum {k : Nat} (hk : k ≤ n) (depth : Nat) : plainWithin depth (.ofNat k) = true :=
    plain_ofNat (lt_of_le_of_lt hk hn) depth
  have hcounts : plainWithin 125 c.toJson = true := by
    refine plain_obj (show ["created", "disabled", "failed", "inspected", "updated"].Pairwise (· < ·) by decide) ?_
    simp [hnum h.inspected, hnum h.created, hnum h.updated, hnum h.disabled, hnum h.failed]
  exact plain_obj (show ["counts", "mode"].Pairwise (· < ·) by decide) (by simp [hcounts, plain_str])

theorem plain_errorDetail (e : AgentError) : Plain (errorDetail e) :=
  plain_obj (show ["error"].Pairwise (· < ·) by decide) (by simp [plain_str])

theorem plain_record (op : Operation) {r : Except AgentError Json}
    (h : ∀ result, r = .ok result → plainWithin 125 result = true) : Plain (AdMode.record op r).2 := by
  rcases r with e | result
  · exact plain_obj (show ["error", "id", "op"].Pairwise (· < ·) by decide) (by simp [plain_str])
  · exact plain_obj (show ["id", "op", "result"].Pairwise (· < ·) by decide) (by simp [plain_str, h result rfl])

theorem plain_pullDetail (table : String) {rows : Nat} (h : rows < 2 ^ 64) : Plain (DbMode.pullDetail table rows) :=
  plain_obj (show ["rows", "table"].Pairwise (· < ·) by decide) (by simp [plain_str, plain_ofNat h])

theorem plain_writebackFailDetail (key : String) (e : AgentError) : Plain (DbMode.writebackFailDetail key e) :=
  plain_obj (show ["error", "key"].Pairwise (· < ·) by decide) (by simp [plain_str])

theorem plain_writebackDetail (table : String) {applied : Nat} (h : applied < 2 ^ 64) :
    Plain (DbMode.writebackDetail table applied) :=
  plain_obj (show ["applied", "table"].Pairwise (· < ·) by decide) (by simp [plain_str, plain_ofNat h])

theorem plain_userJson (user : SortedMap String String) (depth : Nat) :
    plainWithin (depth + 1) (AdMode.userJson user) = true := by
  refine plain_obj ?_ fun e he => ?_
  · rw [List.map_map]
    exact List.pairwise_map.2 user.sorted
  · obtain ⟨_, -, rfl⟩ := List.mem_map.1 he
    exact plain_str _ depth

/-! ### The log behind the calls -/

/-- An answer has no list that is longer than a vector can be. -/
def Sized : Event Reply → Prop
  | ⟨.search .., .ok entries⟩ => entries.length < 2 ^ 63
  | ⟨.decodeOperations, .ok ops⟩ => ops.length < 2 ^ 63
  | ⟨.decodeChanges, .ok changes⟩ => changes.length < 2 ^ 63
  | ⟨.dbFetch _, .ok rows⟩ => rows.length < 2 ^ 63
  | _ => True

/-- The same of the attribute maps that are read. -/
def Externals.Sized (x : Externals) : Prop :=
  ∀ text attrs, x.readAttributes text = .ok attrs → attrs.entries.length < 2 ^ 63

section
variable (c : Crates)

/-- How the log answers an event. An append that fails leaves the file as it is. -/
def Logged (w : World) : Event Reply → World → Prop
  | ⟨.openLog _, reply⟩, w' =>
    (reply = .ok () ∧ ∃ log, AuditLog.open c (fileOpen w.file) = .ok log ∧ w' = { w with log := some log }) ∨
    (∃ e, reply = .error e ∧ AuditLog.open c (fileOpen w.file) = .error e ∧ w' = { w with log := none })
  | ⟨.append event detail, reply⟩, w' =>
    (reply = .ok () ∧ ∃ log log' ts r file', w.log = some log ∧
      log.append c ts event detail w.file .written = (.ok r, log', file') ∧
      w' = ⟨file', some log', w.appended ++ [r]⟩) ∨
    (∃ e, reply = .error e ∧ w' = w)
  | _, w' => w' = w

/-- Details that read back, on a log that is open. -/
def MayLog (w : World) : Call → Prop
  | .append _ detail => w.log.isSome ∧ Plain detail
  | _ => True

def logContract : Contract Reply World where
  may := MayLog
  step w e w' := Sized e ∧ Logged c w e w'

variable {c} {α β : Type} {x : Externals}

/-! ### What keeps to the log -/

/-- On an open log the program records plain details only, leaves it open, and returns a value with `Q`. -/
def Keeps (c : Crates) (Q : α → Prop) (t : Task α) : Prop :=
  ∀ w : World, w.log.isSome → t.wp (logContract c) (fun a w => w.log.isSome ∧ Q a) w

/-- As `Keeps`, for what may fail. -/
def KeepsE (c : Crates) (Q : α → Prop) (p : Agent α) : Prop := Keeps c (fun r => ∀ a, r = .ok a → Q a) p.run

/-- A call that the log has no part in. -/
def Quiet : Call → Prop
  | .openLog _ | .append .. => False
  | _ => True

section
variable {Q : α → Prop} {P : β → Prop} {call : Call}

theorem mayLog_quiet (h : Quiet call) (w : World) : MayLog w call := by
  cases call <;> first | exact h.elim | trivial

theorem logged_quiet (h : Quiet call) {r : Reply call} {w w' : World} (hstep : Logged c w ⟨call, r⟩ w') : w' = w := by
  cases call <;> first | exact h.elim | exact hstep

theorem keeps_quiet {t : Task α} (ht : t.AllCalls Quiet) : Keeps c (fun _ => True) t := by
  intro w hw
  have hmay (call : Call) (w : World) (hcall : Quiet call) (_ : w.log.isSome) : MayLog w call := mayLog_quiet hcall w
  refine (ht.wp (I := fun w : World => w.log.isSome) hw hmay ?_).mono fun _ _ h => ⟨h, trivial⟩
  rintro call r w w' hcall hw ⟨-, hstep⟩
  rwa [logged_quiet hcall hstep]

theorem Keeps.bind {t : Task α} {f : α → Task β} (ht : Keeps c Q t) (hf : ∀ a, Q a → Keeps c P (f a)) :
    Keeps c P (t >>= f) := fun w hw => (ht w hw).bind fun a w ha => hf a ha.2 w ha.1

theorem KeepsE.bind {p : Agent α} {f : α → Agent β} (hp : KeepsE c Q p) (hf : ∀ a, Q a → KeepsE c P (f a)) :
    KeepsE c P (p >>= f) := by
  refine Keeps.bind hp fun r hr => ?_
  rcases r with e | a
  · exact fun w hw => ⟨hw, nofun⟩
  · exact hf a (hr a rfl)

theorem keeps_pure {a : α} (ha : Q a) : Keeps c Q (pure a) := fun _ hw => ⟨hw, ha⟩

theorem keepsE_pure {a : α} (ha : Q a) : KeepsE c Q (pure a) := by
  rintro w hw
  refine ⟨hw, ?_⟩
  rintro _ ⟨⟩
  exact ha

theorem keepsE_throw (e : AgentError) : KeepsE c Q (throw e : Agent α) := fun _ hw => ⟨hw, nofun⟩

theorem keepsE_lift {t : Task α} (ht : Keeps c Q t) : KeepsE c Q (ExceptT.lift t) := by
  refine Keeps.bind ht fun a ha w hw => ⟨hw, ?_⟩
  rintro _ ⟨⟩
  exact ha

theorem keepsE_quiet {p : Agent α} (hp : p.run.AllCalls Quiet) : KeepsE c (fun _ => True) p :=
  fun w hw => (keeps_quiet hp w hw).mono fun _ _ h => ⟨h.1, fun _ _ => trivial⟩

theorem keepsE_result {r : Except AgentError α} {f : α → Agent β} (hf : ∀ a, r = .ok a → KeepsE c P (f a)) :
    KeepsE c P (liftResult r >>= f) := by
  rcases r with e | a
  · exact keepsE_throw e
  · exact hf a rfl

theorem keepsE_ask {f : Reply call → Agent α} (hcall : Quiet call)
    (hf : ∀ r, Sized ⟨call, r⟩ → KeepsE c Q (f r)) : KeepsE c Q (perform call >>= f) := by
  intro w hw
  refine wp_ask.2 ⟨mayLog_quiet hcall w, ?_⟩
  rintro r w' ⟨hsized, hstep⟩
  rw [logged_quiet hcall hstep]
  exact hf r hsized w hw

theorem keepsE_reply {reply : LdapReply α} {lost rejected : String} {f : α → Agent β}
    (hf : ∀ a, reply = .ok a → KeepsE c P (f a)) : KeepsE c P (reply.orFail lost rejected >>= f) := by
  rcases reply with e | e | a
  · exact keepsE_throw _
  · exact keepsE_throw _
  · exact hf a rfl

theorem keeps_record {event : String} {detail : Json} (hp : Plain detail) :
    Keeps c (fun _ => True) (Prog.perform (.append event detail)) := by
  intro w hw
  refine Prog.wp_perform.2 ⟨⟨hw, hp⟩, ?_⟩
  rintro r w' ⟨-, ⟨-, log, log', ts, rec, file', -, -, rfl⟩ | ⟨e, -, rfl⟩⟩
  · exact ⟨rfl, trivial⟩
  · exact ⟨hw, trivial⟩

theorem keepsE_append {event : String} {detail : Json} (hp : Plain detail) :
    KeepsE c (fun _ => True) (AdMode.append event detail) :=
  KeepsE.bind (keepsE_lift (keeps_record hp)) fun _ _ _ hw => ⟨hw, fun _ _ => trivial⟩

/-! ### A pass in AD mode -/

theorem quiet_on {ldap : Ldap} {call : Call} (h : call.On ldap) : Quiet call := by
  cases call <;> first | exact h.elim | trivial

theorem quiet_binding {call : Call} (h : call.Binding) : Quiet call := by
  cases call <;> first | exact h.elim | trivial

theorem quiet_unbinding {call : Call} (h : call.Unbinding) : Quiet call := by
  cases call <;> first | exact h.elim | trivial

theorem length_parseAttrs (hx : x.Sized) {json : Option String} {attrs : SortedMap String String}
    (h : AdMode.parseAttrs x json = .ok attrs) : attrs.entries.length < 2 ^ 64 := by
  unfold AdMode.parseAttrs at h
  split at h
  next text =>
    rcases hread : x.readAttributes text with e | attrs'
    · rw [hread] at h
      cases h
    · rw [hread] at h
      cases h
      exact lt_trans (hx text attrs hread) (by decide)
  · cases h
    decide

variable {m : AdMode}

/-- A result that can be recorded. -/
def Recordable (result : Json) : Prop := plainWithin 125 result = true

theorem recordable_dn (dn : String) : Recordable (.obj [("dn", .str dn)]) :=
  plain_obj (show ["dn"].Pairwise (· < ·) by decide) (by simp [plain_str])

theorem recordable_state (dn state : String) : Recordable (.obj [("dn", .str dn), ("state", .str state)]) :=
  plain_obj (show ["dn", "state"].Pairwise (· < ·) by decide) (by simp [plain_str])

theorem recordable_users {users : List (SortedMap String String)} (h : users.length < 2 ^ 64) :
    Recordable (.obj [("inspected", .ofNat users.length), ("users", .arr (users.map AdMode.userJson))]) := by
  have husers : plainWithin 124 (.arr (users.map AdMode.userJson)) = true := by
    refine plain_elems fun v hv => ?_
    obtain ⟨user, -, rfl⟩ := List.mem_map.1 hv
    exact plain_userJson user 122
  exact plain_obj (show ["inspected", "users"].Pairwise (· < ·) by decide) (by simp [plain_ofNat h, husers])

theorem keepsE_process (hx : x.Sized) (op : Operation) (conn : LdapConnector) :
    KeepsE c Recordable (m.process x op conn) := by
  have hquiet {γ : Type} {p : Agent γ} (hp : p.run.AllCalls fun call => call.On conn.ldap) :
      KeepsE c (fun _ => True) p := keepsE_quiet (hp.mono fun _ => quiet_on)
  unfold AdMode.process
  split
  · refine keepsE_result fun attrs _ => keepsE_result fun pw _ => ?_
    exact (hquiet (LdapConnector.allCalls_createAccount ..)).bind fun dn _ => keepsE_pure (recordable_dn dn)
  · refine keepsE_result fun email _ => ?_
    exact (hquiet (LdapConnector.allCalls_setUac ..)).bind fun dn _ => keepsE_pure (recordable_state dn "enabled")
  · refine keepsE_result fun email _ => ?_
    exact (hquiet (LdapConnector.allCalls_setUac ..)).bind fun dn _ => keepsE_pure (recordable_state dn "disabled")
  · refine keepsE_result fun attrs hattrs => keepsE_result fun email _ => ?_
    refine (hquiet (LdapConnector.allCalls_updateAttributes ..)).bind fun dn _ => keepsE_pure ?_
    exact plain_obj (show ["dn", "updated"].Pairwise (· < ·) by decide)
      (by simp [plain_str, plain_ofNat (length_parseAttrs hx hattrs)])
  · refine KeepsE.bind (Q := fun n => n < 2 ^ 64) ?_ fun n hn => keepsE_pure ?_
    · refine keepsE_ask trivial fun reply hsized => keepsE_reply fun entries hentries => keepsE_pure ?_
      subst hentries
      exact lt_trans hsized (by decide)
    · exact plain_obj (show ["base_dn_entries", "ok"].Pairwise (· < ·) by decide)
        (by simp [plain_ofNat hn, plainWithin])
  · refine keepsE_result fun params _ => keepsE_result fun base _ => ?_
    refine KeepsE.bind (Q := fun users => users.length < 2 ^ 64) ?_ fun users husers =>
      keepsE_pure (recordable_users husers)
    refine keepsE_ask trivial fun reply hsized => keepsE_reply fun entries hentries => keepsE_pure ?_
    subst hentries
    have hle := List.length_filter_le (fun m => !m.entries.isEmpty) (entries.map LdapConnector.firstValues)
    rw [List.length_map] at hle
    exact lt_trans (lt_of_le_of_lt hle hsized) (by decide)
  · exact keepsE_throw _

theorem keeps_routeAndProcess (hx : x.Sized) (op : Operation) (defaultLdap : LdapConnector) (conns : Conns) :
    Keeps c (fun p => ∀ result, p.1 = .ok result → Recordable result)
      (m.routeAndProcess x op defaultLdap conns) := by
  have hprocess (conn : LdapConnector) (conns' : Conns) : Keeps c
      (fun p => ∀ result, p.1 = .ok result → Recordable result)
      ((m.processOn x op conn).run >>= fun r => pure (r, conns')) :=
    Keeps.bind (keepsE_ask trivial fun _ _ => keepsE_process hx op conn) fun r hr w hw => ⟨hw, hr⟩
  unfold AdMode.routeAndProcess
  split
  · exact hprocess _ _
  split
  · exact fun w hw => ⟨hw, nofun⟩
  split
  · exact hprocess _ _
  refine (keeps_quiet ((LdapConnector.allCalls_connectForest ..).mono fun _ => quiet_binding)).bind fun r _ => ?_
  rcases r with e | conn
  · exact fun w hw => ⟨hw, nofun⟩
  · exact hprocess _ _

theorem keepsE_report (op : Operation) (r : Except AgentError Json)
    (hr : ∀ result, r = .ok result → Recordable result) : KeepsE c (fun _ => True) (m.report x op r) := by
  rw [AdMode.report_eq]
  refine KeepsE.bind (keepsE_quiet ?_) fun _ _ => keepsE_append (plain_record op hr)
  refine allCalls_lift ((m.server.allCalls_request ..).mono fun call hcall => ?_)
  rw [hcall]
  trivial

theorem keepsE_drain (hx : x.Sized) (defaultLdap : LdapConnector) (ops : List Operation) (conns : Conns)
    (counters : SyncCounters) {n : Nat} (hn : counters.Within n) :
    KeepsE c (fun p => p.1.Within (n + ops.length)) (m.drain x defaultLdap ops conns counters) := by
  induction ops generalizing conns counters n with
  | nil => exact keepsE_pure hn
  | cons op ops ih =>
    refine keepsE_ask trivial fun _ _ => ?_
    refine (keepsE_lift (keeps_routeAndProcess hx op defaultLdap conns)).bind fun p hp => ?_
    refine (keepsE_report op p.1 hp).bind fun _ _ => ?_
    rw [List.length_cons, Nat.add_comm ops.length, ← Nat.add_assoc]
    exact ih p.2 _ (hn.count op p.1)

/-- Counters that a record can hold. -/
def Countable (counters : SyncCounters) : Prop := ∃ n, n < 2 ^ 64 ∧ counters.Within n

theorem keepsE_runOnce (hx : x.Sized) : KeepsE c Countable (m.runOnce x) := by
  rw [AdMode.runOnce_eq]
  refine keepsE_result fun pw _ => ?_
  refine (keepsE_quiet ((LdapConnector.allCalls_connect ..).mono fun _ => quiet_binding)).bind fun ldap _ => ?_
  refine KeepsE.bind (Q := fun ops => ops.length < 2 ^ 63) ?_ fun ops hops => ?_
  · refine (keepsE_quiet ((m.server.allCalls_request ..).mono fun _ hcall => hcall ▸ trivial)).bind fun _ _ => ?_
    refine keepsE_ask trivial fun reply hsized => ?_
    rcases reply with e | ops
    · exact keepsE_throw _
    · exact keepsE_pure hsized
  refine (keepsE_drain hx ldap ops [] {} SyncCounters.Within.zero).bind fun p hp => ?_
  have hunbind : ldap.unbind.AllCalls Quiet := Prog.allCalls_perform.2 trivial
  refine (keepsE_lift (keeps_quiet hunbind)).bind fun _ _ => ?_
  refine (keepsE_lift (keeps_quiet ((AdMode.allCalls_unbindAll p.2).mono fun _ => quiet_unbinding))).bind fun _ _ => ?_
  exact keepsE_pure ⟨0 + ops.length, by omega, hp⟩

/-! ### A pass in DB mode -/

theorem keepsE_pushAll (m : DbMode) (secret : String) (records : List Json) (counters : SyncCounters) {n : Nat}
    (hn : counters.Within n) : KeepsE c (fun counters => counters.Within (n + records.length))
      (m.pushAll secret records counters) := by
  induction records generalizing counters n with
  | nil => exact keepsE_pure hn
  | cons record records ih =>
    have hpush : KeepsE c (fun _ => True) (ExceptT.lift (m.server.pushRecord m.db.pushPath secret record).run) :=
      keepsE_lift (keeps_quiet ((m.server.allCalls_request ..).mono fun _ hcall => hcall ▸ trivial))
    refine hpush.bind fun r _ => ?_
    rw [List.length_cons, Nat.add_comm records.length, ← Nat.add_assoc]
    obtain ⟨h₁, h₂, h₃, h₄, h₅⟩ := hn
    rcases r with e | _
    · refine (keepsE_append (plain_errorDetail e)).bind fun _ _ => ih _ ?_
      constructor <;> dsimp only <;> omega
    · refine ih _ ?_
      constructor <;> dsimp only <;> omega

theorem keepsE_applyAll (conn : DbConnector) (changes : List WritebackChange) (counters : SyncCounters) {n : Nat}
    (hn : counters.Within n) : KeepsE c (fun counters => counters.Within (n + changes.length))
      (DbMode.applyAll conn changes counters) := by
  induction changes generalizing counters n with
  | nil => exact keepsE_pure hn
  | cons change changes ih =>
    have happly : KeepsE c (fun _ => True) (ExceptT.lift (conn.applyWriteback change.key change.fields).run) := by
      refine keepsE_lift (keeps_quiet ?_)
      unfold DbConnector.applyWriteback
      dsimp only
      split
      · trivial
      · exact allCalls_ask trivial fun r => by cases r <;> trivial
    refine happly.bind fun r _ => ?_
    rw [List.length_cons, Nat.add_comm changes.length, ← Nat.add_assoc]
    obtain ⟨h₁, h₂, h₃, h₄, h₅⟩ := hn
    rcases r with e | k
    · refine (keepsE_append (plain_writebackFailDetail change.key e)).bind fun _ _ => ih _ ?_
      constructor <;> dsimp only <;> omega
    · dsimp only
      split
      · refine ih _ ?_
        constructor <;> dsimp only <;> omega
      · refine ih _ ?_
        constructor <;> dsimp only <;> omega

theorem keepsE_pullWriteback (server : ServerClient) (path secret : String) :
    KeepsE c (fun changes => changes.length < 2 ^ 63) (server.pullWriteback path secret) := by
  refine keepsE_ask trivial fun reply _ => ?_
  rcases reply with e | status
  · exact keepsE_throw _
  dsimp only
  split
  · exact keepsE_pure (by decide)
  split
  · exact keepsE_throw _
  · refine keepsE_ask trivial fun reply hsized => ?_
    rcases reply with e | changes
    · exact keepsE_throw _
    · exact keepsE_pure hsized

theorem keepsE_runDb (db : DbSection) (server : ServerClient) : KeepsE c Countable (runDb x db server) := by
  refine keepsE_result fun url _ => keepsE_result fun secret _ => ?_
  have hconnect : KeepsE c (fun _ => True)
      (DbConnector.connect url db.driver db.table db.keyColumn db.fields) :=
    keepsE_quiet (allCalls_ask trivial fun r => by cases r <;> trivial)
  refine hconnect.bind fun conn _ => ?_
  have hpull : KeepsE c (fun records => records.length < 2 ^ 63) conn.pullRecords := by
    refine keepsE_ask trivial fun reply hsized => ?_
    rcases reply with e | rows
    · exact keepsE_throw _
    · exact keepsE_pure (by rw [List.length_map]; exact hsized)
  refine hpull.bind fun records hrecords => ?_
  refine (keepsE_pushAll _ secret records {} SyncCounters.Within.zero).bind fun counters hcounters => ?_
  refine (keepsE_append (plain_pullDetail db.table (by omega))).bind fun _ _ => ?_
  unfold DbMode.inbound
  split
  · refine (keepsE_pullWriteback _ _ _).bind fun changes hchanges => ?_
    refine (keepsE_applyAll conn changes counters hcounters).bind fun counters hcounters => ?_
    have hcountable : Countable counters := ⟨_, by omega, hcounters⟩
    dsimp only
    split
    · exact (keepsE_append (plain_writebackDetail db.table (by omega))).bind fun _ _ => keepsE_pure hcountable
    · exact keepsE_pure hcountable
  · exact keepsE_pure ⟨_, by omega, hcounters⟩

/-! ### The service -/

variable {config : Config} {sess : Session}

theorem keepsE_runPass (hx : x.Sized) : KeepsE c Countable (runPass x (runDb x) config sess) := by
  have hmode : KeepsE c Countable (runMode x (runDb x) config sess) := by
    unfold runMode
    split
    · exact keepsE_runOnce hx
    · exact keepsE_runDb _ _
  refine hmode.bind fun counters ⟨n, hn, hcounters⟩ => ?_
  exact (keepsE_append (plain_summaryDetail _ hcounters hn)).bind fun _ _ => keepsE_pure ⟨n, hn, hcounters⟩

theorem keeps_notify (server : ServerClient) (r : Request) : Keeps c (fun _ => True) (server.notify r) :=
  keeps_quiet ((server.allCalls_notify r).mono fun _ hcall => hcall ▸ trivial)

theorem keeps_runOne (hx : x.Sized) : Keeps c (fun _ => True) (runOne x (runDb x) config sess) := by
  have hfetch : sess.server.fetchConfig.run.AllCalls Quiet := by
    refine sess.server.allCalls_fetchConfig.mono ?_
    rintro call (rfl | rfl) <;> trivial
  have hsleep (secs : Nat) : Keeps c (fun _ => True) (Prog.perform (Call.sleep secs)) :=
    keeps_quiet (Prog.allCalls_perform.2 trivial)
  refine (keeps_quiet hfetch).bind fun remote _ => (keeps_notify _ _).bind fun _ _ => ?_
  refine Keeps.bind (keepsE_runPass hx) fun r _ => ?_
  rcases r with e | counters
  · exact (keeps_record (plain_errorDetail e)).bind fun _ _ => hsleep _
  · dsimp only
    split
    · exact (keeps_notify _ _).bind fun _ _ => hsleep _
    · exact hsleep _

theorem keeps_stop : Keeps c (fun _ => True) (stop config sess) :=
  (keeps_notify _ _).bind fun _ _ =>
    (keeps_record (plain_runStartDetail _)).bind fun _ _ => keeps_pure trivial

/-- A start opens the log before it records anything. -/
theorem wp_start (w : World) : (start x config).run.wp (logContract c) (fun r w => r.isOk → w.log.isSome) w := by
  refine wp_ask.2 ⟨trivial, ?_⟩
  rintro reply w' ⟨-, ⟨rfl, log, -, rfl⟩ | ⟨e, rfl, -, -⟩⟩
  · have hrest : KeepsE c (fun _ => True) (do
        liftResult (.ok ())
        let token ← liftResult (Config.resolve x config.server.agentToken)
        let server ← ServerClient.new config.server.baseUrl token config.agent.id config.server.verifyTls
        let cipher ← liftResult (config.serverCipher x)
        let hostname ← perform .hostname
        AdMode.append "RUN_START" (runStartDetail config.agent.mode.asStr)
        return (⟨server, cipher, hostname, directoryId x config⟩ : Session)) := by
      refine keepsE_result fun _ _ => keepsE_result fun token _ => ?_
      refine (keepsE_quiet ((ServerClient.allCalls_new ..).mono fun _ hcall => hcall ▸ trivial)).bind fun server _ => ?_
      refine keepsE_result fun cipher _ => keepsE_ask trivial fun hostname _ => ?_
      exact (keepsE_append (plain_runStartDetail _)).bind fun _ _ => keepsE_pure trivial
    exact (hrest { w with log := some log } rfl).mono fun _ _ h _ => h.1
  · exact nofun

theorem isSome_of_logged {call : Call} {r : Reply call} {w w' : World} (hcall : call.InCycle) (hw : w.log.isSome)
    (hstep : Logged c w ⟨call, r⟩ w') : w'.log.isSome := by
  cases call with
  | append event detail =>
    rcases hstep with ⟨-, log, log', ts, rec, file', -, -, rfl⟩ | ⟨e, -, rfl⟩
    · rfl
    · exact hw
  | openLog path => rcases hcall with h | h | h <;> exact h.elim
  | _ =>
    obtain rfl : w' = w := hstep
    exact hw

/-- In every run of the service the log is open when something is recorded, and what is recorded reads back. -/
theorem obeys_logContract (hx : x.Sized) {first cut last : Trace} {cycles : List Trace}
    (h : ServiceRun x (runDb x) config sess first cycles cut last) (w : World) :
    (logContract c).Obeys w (first ++ (cycles.flatten ++ (cut ++ last))) := by
  refine obeys_of_serviceRun (I := fun w => w.log.isSome) (J := fun w => w.log.isSome) h ?_ ?_ ?_ ?_
  · refine (wp_start w).mono fun r w hw hr => hw ?_
    rw [hr]
    rfl
  · exact fun w hw => (keeps_runOne hx w hw).mono fun _ _ h => h.1
  · intro w tr w' hw hcut hsteps
    refine hsteps.invariant (I := fun w : World => w.log.isSome) hw fun e he w₁ w₂ hw₁ hstep => ?_
    exact isSome_of_logged (allCalls_runOne.of_cut hcut e he) hw₁ hstep.2
  · exact fun w hw => (keeps_stop w hw).mono fun _ _ _ => trivial

end

/-- What the service has done on the log, up to its end or to where it was killed. -/
def ServiceTrace (tr : Trace) : Prop :=
  ∃ x config, x.Sized ∧ ((∃ e, (start x config).run.Runs tr (.error e)) ∨
    ∃ sess first cycles cut last, ServiceRun x (runDb x) config sess first cycles cut last ∧
      tr <+: first ++ (cycles.flatten ++ (cut ++ last)))

theorem ServiceTrace.obeys {tr : Trace} (h : ServiceTrace tr) (w : World) : (logContract c).Obeys w tr := by
  obtain ⟨x, config, hx, ⟨e, hstart⟩ | ⟨sess, first, cycles, cut, last, hrun, rest, heq⟩⟩ := h
  · exact ((wp_start w).of_runs hstart).1
  · have hobeys := obeys_logContract (c := c) hx hrun w
    rw [← heq] at hobeys
    exact (Contract.obeys_append.1 hobeys).1

/-- The records that the log has taken. -/
def takenOf : Event Reply → Option (String × Json)
  | ⟨.append event detail, .ok ()⟩ => some (event, detail)
  | _ => none

/-- What the log has of a record. -/
def AuditRecord.entry (r : AuditRecord) : String × Json := (r.event, r.detail)

theorem Logged.ok (hc : c.Lawful) {w w' : World} {e : Event Reply} (h : w.Ok c) (hmay : MayLog w e.1)
    (hstep : Logged c w e w') :
    w'.Ok c ∧ w'.appended.map AuditRecord.entry = w.appended.map AuditRecord.entry ++ (takenOf e).toList := by
  obtain ⟨call, reply⟩ := e
  cases call with
  | openLog path =>
    rcases hstep with ⟨-, log, hopen, rfl⟩ | ⟨e, -, hopen, -⟩
    · exact ⟨h.step hc (.opened hopen), (List.append_nil _).symm⟩
    · rw [h.intact.open_eq hc] at hopen
      cases hopen
  | append event detail =>
    rcases hstep with ⟨rfl, log, log', ts, rec, file', hlog, happend, rfl⟩ | ⟨e, rfl, rfl⟩
    · refine ⟨h.step hc (.appended hlog hmay.2 happend), ?_⟩
      obtain ⟨rfl, -⟩ := append_ok happend
      rw [List.map_append]
      rfl
    · exact ⟨h, (List.append_nil _).symm⟩
  | _ =>
    obtain rfl : w' = w := hstep
    exact ⟨h, (List.append_nil _).symm⟩

theorem ok_of_steps (hc : c.Lawful) {tr : Trace} {w w' : World} (h : w.Ok c) (hobeys : (logContract c).Obeys w tr)
    (hsteps : (logContract c).Steps w tr w') :
    w'.Ok c ∧ w'.appended.map AuditRecord.entry = w.appended.map AuditRecord.entry ++ tr.filterMap takenOf := by
  induction tr generalizing w with
  | nil =>
    obtain rfl : w' = w := hsteps
    exact ⟨h, (List.append_nil _).symm⟩
  | cons e tr ih =>
    obtain ⟨w₁, hstep, hrest⟩ := hsteps
    obtain ⟨hmay, hobeys⟩ := Contract.obeys_cons.1 hobeys
    obtain ⟨hok, happended⟩ := Logged.ok hc h hmay hstep.2
    obtain ⟨hok', happended'⟩ := ih hok (hobeys w₁ hstep) hrest
    refine ⟨hok', ?_⟩
    rw [happended', happended, List.append_assoc, List.filterMap_cons]
    rcases takenOf e with _ | entry <;> rfl

theorem ok_of_runs (hc : c.Lawful) {runs : List Trace} (hruns : ∀ tr ∈ runs, ServiceTrace tr) {w w' : World}
    (h : w.Ok c) (hsteps : (logContract c).Steps w runs.flatten w') : w'.Ok c ∧
      w'.appended.map AuditRecord.entry = w.appended.map AuditRecord.entry ++ runs.flatten.filterMap takenOf := by
  induction runs generalizing w with
  | nil =>
    obtain rfl : w' = w := hsteps
    exact ⟨h, (List.append_nil _).symm⟩
  | cons tr runs ih =>
    obtain ⟨htr, hrest⟩ := List.forall_mem_cons.1 hruns
    rw [List.flatten_cons] at hsteps ⊢
    obtain ⟨w₁, h₁, h₂⟩ := Contract.steps_append.1 hsteps
    obtain ⟨hok, happended⟩ := ok_of_steps hc h (htr.obeys w) h₁
    obtain ⟨hok', happended'⟩ := ih hrest hok h₂
    exact ⟨hok', by rw [happended', happended, List.filterMap_append, List.append_assoc]⟩

/-- After any number of runs of the service on a log, ended or killed, the file verifies and has exactly the records
that the log has taken from them, in their order. -/
theorem service_log_verifies (hc : c.Lawful) {runs : List Trace} (hruns : ∀ tr ∈ runs, ServiceTrace tr) {w : World}
    (h : (logContract c).Steps World.start runs.flatten w) :
    AuditLog.verify c (.ok (w.file.getD .empty)) = .ok ⟨.ofNat w.appended.length, true, none⟩ ∧
      w.appended.map AuditRecord.entry = runs.flatten.filterMap takenOf ∧
      ∃ log, AuditLog.open c (fileOpen w.file) = .ok log ∧ log.lastSeq = .ofNat w.appended.length := by
  obtain ⟨hok, happended⟩ := ok_of_runs hc hruns World.Ok.start h
  exact ⟨hok.intact.verify_eq hc, happended, _, hok.intact.open_eq hc, rfl⟩

end

/-- An append that the log takes while the file is short. -/
theorem exists_logged {w : World} (h : w.Ok .compact) {log : AuditLog} (hlog : w.log = some log) (event : String)
    (detail : Json) (hsize : (w.file.getD .empty).bytes.length + callSize ("", event, detail) < 2 ^ 63) :
    ∃ w' log', Logged .compact w ⟨.append event detail, .ok ()⟩ w' ∧ w'.log = some log' ∧
      w'.appended.length = w.appended.length + 1 ∧
      (w'.file.getD .empty).bytes.length ≤ (w.file.getD .empty).bytes.length + callSize ("", event, detail) := by
  have hhead : log.lastHash.toList.length = 64 := by
    rw [(h.follows log hlog).hash]
    exact length_head h.intact.valid
  have hline : _ ≤ callSize ("", event, detail) :=
    length_line_le (log.nextRecord .compact "" event detail) hhead (Sha256.length_hexEncode _)
  have hroom : callSize ("", event, detail) ≤ (w.file.getD .empty).room := by
    rw [AuditFile.room]
    omega
  have hroom := hline.trans hroom
  refine ⟨_, _, .inl ⟨rfl, log, _, "", _, _, hlog, append_written rfl hroom, rfl⟩, rfl, by simp, ?_⟩
  show (AuditFile.write _ _).bytes.length ≤ _
  rw [write_of_room hroom, List.length_append]
  omega

def eventSize : Event Reply → Nat
  | ⟨.append event detail, _⟩ => callSize ("", event, detail)
  | _ => 0

/-- The event log is not opened anew. -/
def Call.KeepsLog : Call → Prop
  | .openLog _ => False
  | _ => True

/-- The log takes all the records of a trace while the file is short. -/
theorem exists_steps {tr : Trace} {w : World} (h : w.Ok .compact) (hlog : w.log.isSome)
    (htr : ∀ e ∈ tr, Recorded e ∧ Sized e ∧ e.1.KeepsLog) (hobeys : (logContract .compact).Obeys w tr)
    (hsize : (w.file.getD .empty).bytes.length + (tr.map eventSize).sum < 2 ^ 63) :
    ∃ w', (logContract .compact).Steps w tr w' ∧ w'.Ok .compact ∧
      (w'.file.getD .empty).bytes.length ≤ (w.file.getD .empty).bytes.length + (tr.map eventSize).sum := by
  induction tr generalizing w with
  | nil => exact ⟨w, rfl, h, le_rfl⟩
  | cons e tr ih =>
    obtain ⟨⟨hrecorded, hsized, hkeeps⟩, htr⟩ := List.forall_mem_cons.1 htr
    obtain ⟨hmay, hrest⟩ := Contract.obeys_cons.1 hobeys
    rw [List.map_cons, List.sum_cons] at hsize ⊢
    -- the first event, and what is left of the room
    obtain ⟨w₁, hstep, hlog₁, hgrown⟩ : ∃ w₁, Logged .compact w e w₁ ∧ w₁.log.isSome ∧
        (w₁.file.getD .empty).bytes.length ≤ (w.file.getD .empty).bytes.length + eventSize e := by
      obtain ⟨c, reply⟩ := e
      cases c with
      | append event detail =>
        obtain rfl : reply = .ok () := hrecorded
        obtain ⟨log, hlog⟩ := Option.isSome_iff_exists.1 hlog
        have hroom : (w.file.getD .empty).bytes.length + callSize ("", event, detail) < 2 ^ 63 := by
          have hcall : eventSize ⟨.append event detail, .ok ()⟩ = callSize ("", event, detail) := rfl
          omega
        obtain ⟨w₁, log₁, hstep, hlog₁, -, hgrown⟩ := exists_logged h hlog event detail hroom
        exact ⟨w₁, hstep, by rw [hlog₁]; rfl, hgrown⟩
      | openLog path => exact hkeeps.elim
      | _ => exact ⟨w, rfl, hlog, Nat.le_add_right ..⟩
    have hok₁ := (Logged.ok Crates.compact_lawful h hmay hstep).1
    obtain ⟨w', hsteps, hok', hgrown'⟩ := ih hok₁ hlog₁ htr (hrest w₁ ⟨hsized, hstep⟩) (by omega)
    exact ⟨w', ⟨w₁, ⟨hsized, hstep⟩, hsteps⟩, hok', by omega⟩

/-- The same of a run that opens the log. -/
theorem exists_opened {path : String} {tr : Trace} {w : World} (h : w.Ok .compact)
    (htrace : ServiceTrace (⟨.openLog path, .ok ()⟩ :: tr)) (htr : ∀ e ∈ tr, Recorded e ∧ Sized e ∧ e.1.KeepsLog)
    (hsize : (w.file.getD .empty).bytes.length + (tr.map eventSize).sum < 2 ^ 63) :
    ∃ w', (logContract .compact).Steps w (⟨.openLog path, .ok ()⟩ :: tr) w' ∧ w'.Ok .compact ∧
      (w'.file.getD .empty).bytes.length ≤ (w.file.getD .empty).bytes.length + (tr.map eventSize).sum := by
  obtain ⟨log, hlog⟩ : ∃ log, AuditLog.open .compact (fileOpen w.file) = .ok log :=
    ⟨_, h.intact.open_eq Crates.compact_lawful⟩
  have hopen : Logged .compact w ⟨.openLog path, .ok ()⟩ { w with log := some log } := .inl ⟨rfl, log, hlog, rfl⟩
  obtain ⟨hmay, hrest⟩ := Contract.obeys_cons.1 (htrace.obeys (c := .compact) w)
  have hok := (Logged.ok (e := ⟨.openLog path, .ok ()⟩) Crates.compact_lawful h hmay hopen).1
  obtain ⟨w', hsteps, hok', hgrown⟩ := exists_steps hok rfl htr (hrest _ ⟨trivial, hopen⟩) hsize
  exact ⟨w', ⟨_, ⟨trivial, hopen⟩, hsteps⟩, hok', hgrown⟩

/-- From the start of the log to the record of the change, where the agent is killed. -/
def staffKilled : Trace := staffStart ++ (greeting staffConfig hrSession ++ staffPass DbConnector.staff)

/-- A run that gets through a cycle. -/
def staffWhole : Trace := staffStart ++ (staffCycle DbConnector.staff ++ staffStop)

theorem serviceTrace_staff {tr : Trace} (h : tr <+: staffWhole) : ServiceTrace tr := by
  refine ⟨{ Externals.sampled with readAttributes := fun _ => .error "" }, staffConfig, ?_,
    .inr ⟨hrSession, staffStart, [staffCycle DbConnector.staff], [], staffStop, serviceRun_staff _ _, ?_⟩⟩
  · rintro _ _ ⟨⟩
  · rwa [List.flatten_singleton, List.nil_append]

theorem sized_staffWhole : ∀ e ∈ staffWhole.tail, Recorded e ∧ Sized e ∧ e.1.KeepsLog := by
  have hwhole : staffWhole.tail = staffStart.tail ++ (staffCycle DbConnector.staff ++ staffStop) := rfl
  rw [hwhole]
  simp only [staffCycle, staffPass, staffFetched, List.forall_mem_append]
  refine ⟨?_, ⟨?_, ⟨⟨?_, ?_, ?_⟩, ?_⟩, ?_⟩, ?_⟩
  · simp [staffStart, Recorded, Sized, Call.KeepsLog]
  · simp [greeting, Recorded, Sized, Call.KeepsLog]
  · simp [Recorded, Sized, Call.KeepsLog, staffRows, DbConnector.staff]
  · exact List.forall_mem_map.2 fun _ _ => ⟨trivial, trivial, trivial⟩
  · simp [Recorded, Sized, Call.KeepsLog]
  · simp [titleSet, DbConnector.updateCall, Recorded, Sized, Call.KeepsLog]
  · simp [parting, Recorded, Sized, Call.KeepsLog]
  · simp [staffStop, Recorded, Sized, Call.KeepsLog]

/-- Two runs on one log, of which the first is killed after three records. -/
theorem service_log_verifies_staff : ∃ w : World, (∀ tr ∈ [staffKilled, staffWhole], ServiceTrace tr) ∧
    (logContract .compact).Steps World.start [staffKilled, staffWhole].flatten w ∧ w.appended.length = 8 ∧
    AuditLog.verify .compact (.ok (w.file.getD .empty)) = .ok ⟨.ofNat w.appended.length, true, none⟩ ∧
    w.appended.map AuditRecord.entry = [staffKilled, staffWhole].flatten.filterMap takenOf ∧
    ∃ log, AuditLog.open .compact (fileOpen w.file) = .ok log ∧ log.lastSeq = .ofNat w.appended.length := by
  have hprefix : staffKilled <+: staffWhole :=
    ⟨parting staffConfig hrSession [] (staffCounters DbConnector.staff) ++ staffStop,
      by simp [staffKilled, staffWhole, staffCycle]⟩
  have hkilled : ServiceTrace staffKilled := serviceTrace_staff hprefix
  have hwhole : ServiceTrace staffWhole := serviceTrace_staff List.prefix_rfl
  have htail : staffWhole.tail = staffKilled.tail ++
      (parting staffConfig hrSession [] (staffCounters DbConnector.staff) ++ staffStop) := by
    simp [staffKilled, staffWhole, staffCycle, staffStart]
  have hsized : ∀ e ∈ staffKilled.tail, Recorded e ∧ Sized e ∧ e.1.KeepsLog :=
    fun e he => sized_staffWhole e (htail ▸ List.mem_append_left _ he)
  obtain ⟨w₁, hfirst, hok₁, hgrown⟩ := exists_opened World.Ok.start hkilled hsized (by decide +kernel)
  obtain ⟨w₂, hsecond, -, -⟩ := exists_opened hok₁ hwhole sized_staffWhole
    (Nat.lt_of_le_of_lt (Nat.add_le_add_right hgrown _) (by decide +kernel))
  have hruns : ∀ tr ∈ [staffKilled, staffWhole], ServiceTrace tr :=
    List.forall_mem_cons.2 ⟨hkilled, List.forall_mem_singleton.2 hwhole⟩
  have hsteps : (logContract .compact).Steps World.start [staffKilled, staffWhole].flatten w₂ := by
    rw [List.flatten_cons, List.flatten_singleton]
    exact Contract.steps_append.2 ⟨w₁, hfirst, hsecond⟩
  obtain ⟨hverify, hentries, hopen⟩ := service_log_verifies Crates.compact_lawful hruns hsteps
  refine ⟨w₂, hruns, hsteps, ?_, hverify, hentries, hopen⟩
  have hlength := congrArg List.length hentries
  rw [List.length_map] at hlength
  rw [hlength]
  decide

end NexusAgent
