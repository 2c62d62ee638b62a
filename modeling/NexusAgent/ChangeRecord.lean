import NexusAgent.DbMode

/-!
# What the record of the changes tells

After a loop over the changes a pass appends `DB_WRITEBACK`, with the number of changes it was given.
`applied_told_iff`: that is the number of changes that reached a row exactly if all of them did. The counters of
the pass count these, and the pushes, in any case (`updated_eq`).
-/

namespace NexusAgent

/-- An update that fails or reaches no row. -/
def Event.isMiss : Event Reply → Bool
  | ⟨.dbExecute .., .ok n⟩ => n = 0
  | ⟨.dbExecute .., .error _⟩ => true
  | _ => false

/-- What a pass logs of the changes. -/
def writebackRecord (detail : Json) : Event Reply := ⟨.append "DB_WRITEBACK" detail, .ok ()⟩

section
variable {e : Event Reply} {tr : Trace}

theorem Event.updated_counts (e : Event Reply) :
    (Event.counts e).updated = (if Event.isChange e then 1 else 0) + if Event.isPush e then 1 else 0 := by
  unfold Event.counts Event.isChange Event.isPush
  split <;> simp only [] <;> split <;> simp_all

theorem dbTally_updated : (dbTally tr).updated = tr.countP Event.isChange + tr.countP Event.isPush := by
  induction tr with
  | nil => rfl
  | cons e tr ih =>
    show (Event.counts e).updated + (dbTally tr).updated = _
    rw [ih, Event.updated_counts, List.countP_cons, List.countP_cons]
    omega

theorem recorded_of_ne (h : ∀ event detail, e.1 ≠ .append event detail) : Recorded e := by
  unfold Recorded
  split
  · exact absurd rfl (h _ _)
  · trivial

theorem Call.Outbound.not_isMiss (h : e.1.Outbound) : Event.isMiss e = false := by
  unfold Event.isMiss
  split <;> first | exact h.elim | rfl

end

namespace DbMode

/-- The connector of a pass. -/
def connector (m : DbMode) : DbConnector := ⟨m.db.table, m.db.keyColumn, m.db.fields, m.db.driver⟩

/-- Every change that is pulled has a field with a column, and its update reaches a row. -/
structure AllReach (m : DbMode) (tr : Trace) : Prop where
  mapped : ∀ changes, (⟨.decodeChanges, .ok changes⟩ : Event Reply) ∈ tr →
    ∀ change ∈ changes, m.connector.writable change.fields ≠ []
  reached : ∀ e ∈ tr, Event.isMiss e = false

/-- The record has the number of the changes that reached a row, and the pass counts these and its pushes. -/
def AppliedTold (m : DbMode) (tr : Trace) (res : Except AgentError SyncCounters) (detail : Json) : Prop :=
  detail = writebackDetail m.db.table (tr.countP Event.isChange) ∧
    ∃ counters, res = .ok counters ∧ tr.countP Event.isChange + tr.countP Event.isPush = counters.updated

variable {m : DbMode} {conn : DbConnector} {secret path : String} {counters counters' : SyncCounters} {tr : Trace}
  {res : Except AgentError SyncCounters} {detail : Json}

/-! ### A pass that succeeds has logged everything -/

theorem strict_append (event : String) (detail : Json) : (AdMode.append event detail).run.Strict Recorded := by
  intro tr a h
  obtain rfl := AdMode.runs_append.1 h
  exact List.forall_mem_singleton.2 rfl

theorem strict_pushAll (secret : String) (records : List Json) (counters : SyncCounters) :
    (m.pushAll secret records counters).run.Strict Recorded := by
  induction records generalizing counters with
  | nil => exact Prog.AllCalls.strict (φ := fun _ => False) trivial fun _ h => h.elim
  | cons record records ih =>
    refine Prog.Strict.bindE ?_ fun r => ?_
    · refine Prog.AllCalls.strict (allCalls_lift (m.server.allCalls_request _ _ _)) fun e he => ?_
      exact recorded_of_ne fun event detail => by rw [he]; simp
    rcases r with e | _
    · exact Prog.Strict.bindE (strict_append _ _) fun _ => ih _
    · exact ih _

theorem strict_applyAll (changes : List WritebackChange) (counters : SyncCounters) :
    (applyAll conn changes counters).run.Strict Recorded := by
  induction changes generalizing counters with
  | nil => exact Prog.AllCalls.strict (φ := fun _ => False) trivial fun _ h => h.elim
  | cons change changes ih =>
    refine Prog.Strict.bindE ?_ fun r => ?_
    · refine Prog.AllCalls.strict (allCalls_lift (allCalls_applyWriteback _ _)) fun e he => ?_
      obtain ⟨sql, binds, hcall⟩ := he
      exact recorded_of_ne fun event detail => by rw [hcall]; simp
    rcases r with e | n
    · exact Prog.Strict.bindE (strict_append _ _) fun _ => ih _
    · dsimp only
      split
      · exact ih _
      · exact ih _

/-! ### The loop over the changes -/

/-- The loop over the changes, and how many of them reach a row. -/
theorem applyAll_reached {changes : List WritebackChange}
    (h : (applyAll conn changes counters).run.Runs tr (.ok counters')) :
    tr.countP Event.isChange ≤ changes.length ∧ (tr.countP Event.isChange = changes.length ↔
      (∀ change ∈ changes, conn.writable change.fields ≠ []) ∧ ∀ e ∈ tr, Event.isMiss e = false) := by
  induction changes generalizing counters tr with
  | nil =>
    obtain ⟨rfl, -⟩ := runs_pure.1 h
    simp
  | cons change changes ih =>
    rcases Prog.runs_bindE.1 h with ⟨e, -, he⟩ | ⟨tr₁, tr₂, r, rfl, happly, hrest⟩
    · cases he
    obtain ⟨_, hcall, hr⟩ := runs_lift.1 happly
    cases hr
    rcases DbConnector.runs_applyWriteback.1 hcall with ⟨hw, rfl, rfl⟩ | ⟨hw, reply, rfl, rfl⟩
    · obtain ⟨hle, -⟩ := ih hrest
      rw [List.nil_append, List.length_cons]
      refine ⟨by omega, ?_⟩
      constructor
      · intro heq
        omega
      · rintro ⟨hall, -⟩
        exact absurd hw (hall change (List.mem_cons_self ..))
    rw [List.countP_append, List.length_cons, List.forall_mem_append, List.forall_mem_singleton, List.forall_mem_cons]
    -- an update without effect leaves the count behind the changes
    have hmiss {e : Event Reply} {tr₃ : Trace} (hchange : Event.isChange e = false) (hmiss : Event.isMiss e = true)
        (hle : tr₃.countP Event.isChange ≤ changes.length) {P Q : Prop} :
        [e].countP Event.isChange + tr₃.countP Event.isChange ≤ changes.length + 1 ∧
          ([e].countP Event.isChange + tr₃.countP Event.isChange = changes.length + 1 ↔
            P ∧ Event.isMiss e = false ∧ Q) := by
      rw [List.countP_singleton, hchange, hmiss]
      simp
      omega
    rcases reply with e | n
    · obtain ⟨tr₃, rfl, hnext⟩ := runs_append_ok hrest
      have hle : (⟨.append "DB_WRITEBACK_FAIL" (writebackFailDetail change.key (.db s!"writeback: {e}")), .ok ()⟩ ::
          tr₃ : Trace).countP Event.isChange ≤ changes.length := by
        rw [List.countP_cons_of_neg (by simp [Event.isChange])]
        exact (ih hnext).1
      exact hmiss (by rfl) (by rfl) hle
    by_cases hn : 0 < n
    · simp only [Except.mapError, if_pos hn] at hrest
      obtain ⟨hle, hiff⟩ := ih hrest
      have hcount : [(⟨conn.updateCall change.key change.fields, .ok n⟩ : Event Reply)].countP Event.isChange = 1 := by
        simp [DbConnector.updateCall, Event.isChange, hn]
      have hno : Event.isMiss (⟨conn.updateCall change.key change.fields, .ok n⟩ : Event Reply) = false := by
        simp [DbConnector.updateCall, Event.isMiss]
        omega
      rw [hcount]
      refine ⟨by omega, ?_⟩
      rw [Nat.add_comm 1, Nat.add_right_cancel_iff, hiff, and_assoc]
      simp [hw, hno]
    · simp only [Except.mapError, if_neg hn] at hrest
      obtain rfl : n = 0 := by omega
      exact hmiss (by rfl) (by rfl) (ih hrest).1

/-! ### A pass with the record -/

theorem allCalls_pullWriteback (c : ServerClient) (path secret : String) :
    (c.pullWriteback path secret).run.AllCalls fun call =>
      call = .send c (.pullWriteback path secret) ∨ call = .decodeChanges := by
  refine allCalls_ask (.inl rfl) fun reply => ?_
  rcases reply with e | status
  · trivial
  dsimp only
  split
  · trivial
  split
  · trivial
  refine allCalls_ask (.inr rfl) fun decoded => ?_
  rcases decoded with e | changes <;> trivial

/-- Changes are only pulled with an answer that is decoded. -/
theorem pullWriteback_ok {c : ServerClient} {changes : List WritebackChange}
    (h : (c.pullWriteback path secret).run.Runs tr (.ok changes)) (hne : changes ≠ []) :
    ∃ status, tr = [⟨.send c (.pullWriteback path secret), .ok status⟩, ⟨.decodeChanges, .ok changes⟩] := by
  cases pullRun_of_runs h with
  | notFound status h404 => exact absurd rfl hne
  | pulled status changes hs => exact ⟨status, rfl⟩

/-- What comes after the pushes, in a pass with the record. -/
theorem writeback_record (h : (m.writeback conn path secret counters).run.Runs tr res)
    (hrec : writebackRecord detail ∈ tr) : ∃ status changes tr₁ counters',
      tr = ⟨.send m.server (.pullWriteback path secret), .ok status⟩ :: ⟨.decodeChanges, .ok changes⟩ ::
        (tr₁ ++ [writebackRecord detail]) ∧ (applyAll conn changes counters).run.Runs tr₁ (.ok counters') ∧
      detail = writebackDetail m.db.table changes.length ∧ res = .ok counters' := by
  obtain ⟨trp, tr₂, changes, rfl, -, hpull, hrest, hrec₂⟩ :=
    Prog.runs_bindE_beyond (allCalls_pullWriteback ..) h hrec (by simp [writebackRecord])
  obtain ⟨tr₁, tr₃, counters', rfl, -, happly, hlast, hrec₃⟩ :=
    Prog.runs_bindE_beyond (allCalls_applyAll changes counters) hrest hrec₂ (by simp [writebackRecord, Call.Applying])
  by_cases hne : changes ≠ []
  · obtain ⟨status, rfl⟩ := pullWriteback_ok hpull hne
    simp only [if_pos hne] at hlast
    rcases Prog.runs_bindE.1 hlast with ⟨e, hfail, -⟩ | ⟨tr₄, tr₅, _, rfl, happend, hend⟩
    · obtain rfl := AdMode.runs_append.1 hfail
      cases List.mem_singleton.1 hrec₃
    · obtain rfl := AdMode.runs_append.1 happend
      obtain ⟨rfl, rfl⟩ := runs_pure.1 hend
      cases List.mem_singleton.1 hrec₃
      exact ⟨status, changes, tr₁, counters', rfl, happly, rfl, rfl⟩
  · simp only [if_neg hne] at hlast
    obtain ⟨rfl, -⟩ := runs_pure.1 hlast
    cases hrec₃

/-- A pass with the record has pushed its rows, and goes on with the changes. -/
theorem runOnce_record {x : Externals} (h : (m.runOnce x).run.Runs tr res) (hrec : writebackRecord detail ∈ tr) :
    ∃ tr₀ tr₁ path secret counters, tr = tr₀ ++ tr₁ ∧ (∀ e ∈ tr₀, e.1.Outbound ∧ Recorded e) ∧
      (m.writeback m.connector path secret counters).run.Runs tr₁ res ∧ writebackRecord detail ∈ tr₁ := by
  have hout : ¬ (writebackRecord detail).1.Outbound := by simp [writebackRecord, Call.Outbound]
  rcases runOnce_cases h with ⟨err, rfl, hopening⟩ | ⟨url, secret, conn, reply, reply', records, tr₁, rfl, rfl, hpushes⟩
  · exact absurd (hopening _ hrec).outbound hout
  have hopening : ∀ e ∈ [(⟨.dbConnect url, reply⟩ : Event Reply), ⟨.dbFetch m.connector.selectSql, reply'⟩],
      e.1.Outbound ∧ Recorded e :=
    List.forall_mem_cons.2 ⟨⟨trivial, trivial⟩, List.forall_mem_singleton.2 ⟨trivial, trivial⟩⟩
  have hrec₁ : writebackRecord detail ∈ tr₁ := by
    rcases List.mem_append.1 hrec with hmem | hmem
    · exact absurd (hopening _ hmem).1 hout
    · exact hmem
  obtain ⟨tr₂, tr₃, counters, rfl, hcalls₂, hpush, h₃, hrec₃⟩ :=
    Prog.runs_bindE_beyond (allCalls_pushAll secret records {}) hpushes hrec₁ hout
  obtain ⟨tr₄, tr₅, _, rfl, hcalls₄, happend, h₅, hrec₅⟩ :=
    Prog.runs_bindE_beyond (allCalls_append (.inr rfl)) h₃ hrec₃ hout
  rcases inbound_cases h₅ with ⟨rfl, -⟩ | ⟨path, hwriteback⟩
  · cases hrec₅
  refine ⟨([⟨.dbConnect url, reply⟩, ⟨.dbFetch m.connector.selectSql, reply'⟩] : Trace) ++ (tr₂ ++ tr₄), tr₅, path,
    secret, counters, ?_, ?_, hwriteback, hrec₅⟩
  · rw [List.append_assoc, List.append_assoc]
    rfl
  · refine List.forall_mem_append.2 ⟨hopening, List.forall_mem_append.2 ⟨?_, ?_⟩⟩
    · exact fun e he => ⟨hcalls₂ e he, strict_pushAll secret records {} _ _ hpush e he⟩
    · exact fun e he => ⟨hcalls₄ e he, strict_append _ _ _ _ happend e he⟩

theorem writebackDetail_injective {table : String} {a b : Nat}
    (h : writebackDetail table a = writebackDetail table b) : a = b := by
  simp only [writebackDetail, Json.ofNat, Json.obj.injEq] at h
  cases h
  rfl

/-- The counters of a pass count the changes that reached a row, and the pushes. -/
theorem updated_eq {x : Externals} (h : (m.runOnce x).run.Runs tr res) (hok : ∀ e ∈ tr, Recorded e)
    {counters : SyncCounters} (hres : res = .ok counters) :
    tr.countP Event.isChange + tr.countP Event.isPush = counters.updated := by
  subst hres
  obtain ⟨-, hout⟩ := runOnce_outcome h hok
  cases hout
  exact dbTally_updated.symm

/-- The parts of a pass with the record: what comes before the pull of the changes, and the loop over them. -/
structure Recording (m : DbMode) (tr : Trace) (detail : Json) where
  before : Trace
  path : String
  secret : String
  status : Status
  changes : List WritebackChange
  loop : Trace
  counters : SyncCounters
  total : SyncCounters
  trace : tr = before ++ ⟨.send m.server (.pullWriteback path secret), .ok status⟩ :: ⟨.decodeChanges, .ok changes⟩ ::
    (loop ++ [writebackRecord detail])
  outbound : ∀ e ∈ before, e.1.Outbound ∧ Recorded e
  runs : (applyAll m.connector changes counters).run.Runs loop (.ok total)
  told : detail = writebackDetail m.db.table changes.length

theorem exists_recording {x : Externals} (h : (m.runOnce x).run.Runs tr res) (hrec : writebackRecord detail ∈ tr) :
    ∃ p : Recording m tr detail, res = .ok p.total := by
  obtain ⟨tr₀, tr₁, path, secret, counters, htr, hbefore, hwriteback, hrec₁⟩ := runOnce_record h hrec
  obtain ⟨status, changes, tr₂, total, rfl, happly, hdetail, rfl⟩ := writeback_record hwriteback hrec₁
  exact ⟨⟨tr₀, path, secret, status, changes, tr₂, counters, total, htr, hbefore, happly, hdetail⟩, rfl⟩

namespace Recording
variable (p : Recording m tr detail)
include p

theorem mem_iff (e : Event Reply) : e ∈ tr ↔ e ∈ p.before ∨
    e = ⟨.send m.server (.pullWriteback p.path p.secret), .ok p.status⟩ ∨ e = ⟨.decodeChanges, .ok p.changes⟩ ∨
    e ∈ p.loop ∨ e = writebackRecord detail := by
  conv_lhs => rw [p.trace]
  simp

theorem recorded : ∀ e ∈ tr, Recorded e := by
  intro e he
  rcases (p.mem_iff e).1 he with he | rfl | rfl | he | rfl
  · exact (p.outbound e he).2
  · trivial
  · trivial
  · exact strict_applyAll p.changes p.counters _ _ p.runs e he
  · rfl

theorem countP_isChange : tr.countP Event.isChange = p.loop.countP Event.isChange := by
  have hzero : p.before.countP Event.isChange = 0 := by
    rw [List.countP_eq_zero]
    intro e he
    rw [(p.outbound e he).1.not_isChange]
    simp
  conv_lhs => rw [p.trace]
  rw [List.countP_append, hzero]
  simp [Event.isChange, writebackRecord]

theorem decoded {changes : List WritebackChange} (he : (⟨.decodeChanges, .ok changes⟩ : Event Reply) ∈ tr) :
    changes = p.changes := by
  rcases (p.mem_iff _).1 he with he | he | he | he | he
  · exact (p.outbound _ he).1.elim
  · cases he
  · cases he
    rfl
  · exact ((allCalls_applyAll p.changes p.counters).of_runs p.runs _ he).elim
  · cases he

theorem allReach_iff : m.AllReach tr ↔ (∀ change ∈ p.changes, m.connector.writable change.fields ≠ []) ∧
    ∀ e ∈ p.loop, Event.isMiss e = false := by
  constructor
  · rintro ⟨hmapped, hmiss⟩
    exact ⟨hmapped p.changes ((p.mem_iff _).2 (by simp)), fun e he => hmiss e ((p.mem_iff e).2 (by simp [he]))⟩
  · rintro ⟨hmapped, hmiss⟩
    constructor
    · intro changes he
      rw [p.decoded he]
      exact hmapped
    · intro e he
      rcases (p.mem_iff e).1 he with he | rfl | rfl | he | rfl
      · exact (p.outbound e he).1.not_isMiss
      · rfl
      · rfl
      · exact hmiss e he
      · rfl

end Recording

/-- The record has the number of the changes that reached a row, and the pass counts these and its pushes, exactly if
every change has a field with a column and its update reaches a row. -/
theorem applied_told_iff (m : DbMode) (x : Externals) (tr : Trace) (res : Except AgentError SyncCounters)
    (detail : Json) (h : (m.runOnce x).run.Runs tr res)
    (hrec : (⟨.append "DB_WRITEBACK" detail, .ok ()⟩ : Event Reply) ∈ tr) :
    m.AppliedTold tr res detail ↔ m.AllReach tr := by
  obtain ⟨p, rfl⟩ := exists_recording h hrec
  obtain ⟨-, hreached⟩ := applyAll_reached p.runs
  rw [p.allReach_iff, ← hreached, ← p.countP_isChange]
  constructor
  · rintro ⟨htold, -⟩
    rw [p.told] at htold
    exact (writebackDetail_injective htold).symm
  · intro hcount
    refine ⟨?_, p.total, rfl, updated_eq h p.recorded rfl⟩
    rw [p.told, hcount]

/-! ### An update that reaches no row -/

/-- One change of an employee, whose update reaches `n` rows. -/
def oneChange : WritebackChange := ⟨"7", .insert .empty "employeeId" "8"⟩

def hrMode : DbMode := ⟨hrSession.server, hrConfig.db.get rfl⟩

def oneChangeTrace (n : Nat) : Trace :=
  [⟨.dbConnect "db", .ok ()⟩, ⟨.dbFetch hrMode.connector.selectSql, .ok []⟩,
    ⟨.append "DB_PULL" (pullDetail "employees" 0), .ok ()⟩,
    ⟨.send hrSession.server (.pullWriteback "/changes" "secret"), .ok ⟨200, "OK"⟩⟩, ⟨.decodeChanges, .ok [oneChange]⟩,
    ⟨hrMode.connector.updateCall oneChange.key oneChange.fields, .ok n⟩,
    ⟨.append "DB_WRITEBACK" (writebackDetail "employees" 1), .ok ()⟩]

theorem runs_oneChange_zero : (hrMode.runOnce .plain).run.Runs (oneChangeTrace 0) (.ok { inspected := 1 }) :=
  ⟨.ok (), _, rfl, .ok [], _, rfl, .ok (), _, rfl, .ok ⟨200, "OK"⟩, _, rfl, .ok [oneChange], _, rfl, .ok (0 : Nat), _,
    rfl, .ok (), _, rfl, rfl, rfl⟩

theorem runs_oneChange_one :
    (hrMode.runOnce .plain).run.Runs (oneChangeTrace 1) (.ok { inspected := 1, updated := 1 }) :=
  ⟨.ok (), _, rfl, .ok [], _, rfl, .ok (), _, rfl, .ok ⟨200, "OK"⟩, _, rfl, .ok [oneChange], _, rfl, .ok (1 : Nat), _,
    rfl, .ok (), _, rfl, rfl, rfl⟩

theorem record_mem_oneChange (n : Nat) :
    (⟨.append "DB_WRITEBACK" (writebackDetail "employees" 1), .ok ()⟩ : Event Reply) ∈ oneChangeTrace n := by
  simp [oneChangeTrace]

/-- The record tells of one applied change where none was. -/
theorem applied_not_told :
    (hrMode.runOnce .plain).run.Runs (oneChangeTrace 0) (.ok { inspected := 1 }) ∧
    (⟨.append "DB_WRITEBACK" (writebackDetail "employees" 1), .ok ()⟩ : Event Reply) ∈ oneChangeTrace 0 ∧
    (oneChangeTrace 0).countP Event.isChange = 0 ∧
    ¬ hrMode.AppliedTold (oneChangeTrace 0) (.ok { inspected := 1 }) (writebackDetail "employees" 1) := by
  have hcount : (oneChangeTrace 0).countP Event.isChange = 0 := rfl
  refine ⟨runs_oneChange_zero, record_mem_oneChange 0, hcount, ?_⟩
  rintro ⟨htold, -⟩
  rw [hcount] at htold
  cases writebackDetail_injective htold

theorem applied_told_iff_one : hrMode.AppliedTold (oneChangeTrace 1) (.ok { inspected := 1, updated := 1 })
    (writebackDetail "employees" 1) ↔ hrMode.AllReach (oneChangeTrace 1) :=
  applied_told_iff hrMode .plain _ _ _ runs_oneChange_one (record_mem_oneChange 1)

end DbMode

end NexusAgent
