import NexusAgent.Db
import NexusAgent.Ledger

/-!
# One pass in DB mode (`modes/db.rs`)

`dbTally` counts the pushes and changes of a trace. `summarised_iff`: a pass that has pushed or changed
something is summarised with these counts exactly if it is not the pull of the changes that fails after a
successful push.
-/

namespace NexusAgent

structure DbMode where
  server : ServerClient
  db : DbSection

namespace DbMode

def pullDetail (table : String) (rows : Nat) : Json := .obj [("rows", .ofNat rows), ("table", .str table)]

def writebackFailDetail (key : String) (e : AgentError) : Json := .obj [("error", .str e.display), ("key", .str key)]

def writebackDetail (table : String) (applied : Nat) : Json := .obj [("applied", .ofNat applied), ("table", .str table)]

variable (m : DbMode)

/-- The loop over the rows. -/
def pushAll (secret : String) : List Json → SyncCounters → Agent SyncCounters
  | [], counters => return counters
  | record :: records, counters => do
    let counters := { counters with inspected := counters.inspected + 1 }
    match ← ExceptT.lift (m.server.pushRecord m.db.pushPath secret record).run with
    | .ok () => pushAll secret records { counters with updated := counters.updated + 1 }
    | .error e =>
      AdMode.append "DB_PUSH_FAIL" (errorDetail e)
      pushAll secret records { counters with failed := counters.failed + 1 }

/-- The loop over the changes. -/
def applyAll (conn : DbConnector) : List WritebackChange → SyncCounters → Agent SyncCounters
  | [], counters => return counters
  | change :: changes, counters => do
    let counters := { counters with inspected := counters.inspected + 1 }
    match ← ExceptT.lift (conn.applyWriteback change.key change.fields).run with
    | .ok n =>
      if 0 < n then applyAll conn changes { counters with updated := counters.updated + 1 }
      else applyAll conn changes counters
    | .error e =>
      AdMode.append "DB_WRITEBACK_FAIL" (writebackFailDetail change.key e)
      applyAll conn changes { counters with failed := counters.failed + 1 }

/-- The changes of the broker, applied. -/
def writeback (conn : DbConnector) (path secret : String) (counters : SyncCounters) : Agent SyncCounters := do
  let changes ← m.server.pullWriteback path secret
  let counters ← applyAll conn changes counters
  if changes ≠ [] then AdMode.append "DB_WRITEBACK" (writebackDetail m.db.table changes.length)
  return counters

/-- What follows the pushes. -/
def inbound (conn : DbConnector) (secret : String) (counters : SyncCounters) : Agent SyncCounters := do
  match m.db.writeback, m.db.writebackPullPath with
  | true, some path => m.writeback conn path secret counters
  | _, _ => return counters

def runOnce (x : Externals) : Agent SyncCounters := do
  let url ← liftResult (Config.resolve x m.db.url)
  let secret ← liftResult (Config.resolve x m.db.pushSecret)
  let conn ← DbConnector.connect url m.db.driver m.db.table m.db.keyColumn m.db.fields
  let records ← conn.pullRecords
  let counters ← m.pushAll secret records {}
  AdMode.append "DB_PULL" (pullDetail m.db.table records.length)
  m.inbound conn secret counters

end DbMode

/-- `run_db` -/
def runDb (x : Externals) : RunDb := fun db server => DbMode.runOnce ⟨server, db⟩ x

/-! ### What a trace shows -/

/-- A row that is pushed successfully. -/
def Event.isPush : Event Reply → Bool
  | ⟨.send _ (.pushRecord ..), .ok status⟩ => status.isSuccess
  | _ => false

/-- A change that reaches a row. -/
def Event.isChange : Event Reply → Bool
  | ⟨.dbExecute .., .ok n⟩ => 0 < n
  | _ => false

/-- The pull of the changes fails. -/
def Event.isPullError : Event Reply → Bool
  | ⟨.send _ (.pullWriteback ..), .error _⟩ => true
  | ⟨.send _ (.pullWriteback ..), .ok status⟩ => status.code ≠ 404 && !status.isSuccess
  | ⟨.decodeChanges, .error _⟩ => true
  | _ => false

/-- What an event adds to the counts. -/
def Event.counts : Event Reply → SyncCounters
  | ⟨.send _ (.pushRecord ..), .ok status⟩ =>
    if status.isSuccess then { inspected := 1, updated := 1 } else { inspected := 1, failed := 1 }
  | ⟨.send _ (.pushRecord ..), .error _⟩ => { inspected := 1, failed := 1 }
  | ⟨.decodeChanges, .ok changes⟩ => { inspected := changes.length }
  | ⟨.dbExecute .., .ok n⟩ => if 0 < n then { updated := 1 } else {}
  | ⟨.dbExecute .., .error _⟩ => { failed := 1 }
  | _ => {}

/-- The pushes and changes attempted, succeeded and failed. -/
def dbTally (tr : Trace) : SyncCounters := tr.foldr (fun e counters => (Event.counts e).add counters) {}

/-- The summaries in the event log. -/
def summaries (tr : Trace) : List Json :=
  tr.filterMap fun
    | ⟨.append event detail, .ok ()⟩ => if event = "SYNC_SUMMARY" then some detail else none
    | _ => none

/-- If something has been pushed or changed, there is one summary, and it has the counts. -/
def Summarised (tr : Trace) : Prop :=
  (∃ e ∈ tr, Event.isPush e || Event.isChange e) → summaries tr = [summaryDetail "db" (dbTally tr)]

section
variable {tr tr' : Trace}

theorem dbTally_append : dbTally (tr ++ tr') = (dbTally tr).add (dbTally tr') := by
  induction tr with
  | nil => exact (SyncCounters.zero_add _).symm
  | cons e tr ih =>
    show (Event.counts e).add (dbTally (tr ++ tr')) = ((Event.counts e).add (dbTally tr)).add (dbTally tr')
    rw [ih, SyncCounters.add_assoc]

theorem summaries_append : summaries (tr ++ tr') = summaries tr ++ summaries tr' := List.filterMap_append

end

/-! ### The stages of a pass -/

/-- The calls up to the pull of the changes. -/
def Call.Outbound : Call → Prop
  | .dbConnect .. | .dbFetch .. | .send _ (.pushRecord ..) => True
  | .append event _ => event = "DB_PUSH_FAIL" ∨ event = "DB_PULL"
  | _ => False

/-- The calls after the pull of the changes. -/
def Call.Inbound : Call → Prop
  | .dbExecute .. => True
  | .append event _ => event = "DB_WRITEBACK_FAIL" ∨ event = "DB_WRITEBACK"
  | _ => False

/-- The calls of the loop over the changes. -/
def Call.Applying : Call → Prop
  | .dbExecute .. => True
  | .append event _ => event = "DB_WRITEBACK_FAIL"
  | _ => False

/-- The calls before the pushes. -/
def Call.Opening : Call → Prop
  | .dbConnect .. | .dbFetch .. => True
  | _ => False

section
variable {e : Event Reply} {tr : Trace}

theorem Call.Opening.outbound {c : Call} (h : c.Opening) : c.Outbound := by
  unfold Opening at h
  split at h
  · trivial
  · trivial
  · exact h.elim

theorem Call.Opening.not_isPush (h : e.1.Opening) : Event.isPush e = false := by
  unfold Event.isPush
  split
  · exact h.elim
  · rfl

theorem Call.Applying.inbound {c : Call} (h : c.Applying) : c.Inbound := by
  unfold Applying at h
  split at h
  · trivial
  · exact .inl h
  · exact h.elim

theorem Call.Outbound.not_isChange (h : e.1.Outbound) : Event.isChange e = false := by
  unfold Event.isChange
  split
  · exact h.elim
  · rfl

theorem Call.Outbound.not_isPullError (h : e.1.Outbound) : Event.isPullError e = false := by
  unfold Event.isPullError
  split <;> first | exact h.elim | rfl

theorem Call.Inbound.not_isPullError (h : e.1.Inbound) : Event.isPullError e = false := by
  unfold Event.isPullError
  split <;> first | exact h.elim | rfl

theorem summaries_eq_nil (h : ∀ e ∈ tr, e.1.Outbound ∨ e.1.Inbound) : summaries tr = [] := by
  refine List.filterMap_eq_nil_iff.2 fun e he => ?_
  split
  next event detail _ =>
    refine if_neg ?_
    rintro rfl
    rcases h _ he with (h | h) | (h | h) <;> exact absurd h (by decide)
  · rfl

end

namespace DbMode

variable {m : DbMode} {conn : DbConnector} {secret path : String} {counters : SyncCounters} {tr : Trace}
  {res : Except AgentError SyncCounters}

theorem add_dbTally_nil (counters : SyncCounters) : counters.add (dbTally []) = counters := rfl

theorem add_dbTally_cons (counters : SyncCounters) (e : Event Reply) (tr : Trace) :
    counters.add (dbTally (e :: tr)) = (counters.add (Event.counts e)).add (dbTally tr) :=
  (SyncCounters.add_assoc ..).symm

theorem dbTally_record (event : String) (detail : Json) (r : Except AgentError Unit) (tr : Trace) :
    dbTally (⟨.append event detail, r⟩ :: tr) = dbTally tr := SyncCounters.zero_add _

/-- A log that takes every record lets the pass go on. -/
theorem runs_append_next {α : Type} {event : String} {detail : Json} {f : Agent α} {res : Except AgentError α}
    (h : (AdMode.append event detail >>= fun _ => f).run.Runs tr res) (hok : ∀ e ∈ tr, Recorded e) :
    ∃ tr', tr = ⟨.append event detail, .ok ()⟩ :: tr' ∧ f.run.Runs tr' res ∧ ∀ e ∈ tr', Recorded e := by
  rcases Prog.runs_bindE.1 h with ⟨e, happend, -⟩ | ⟨tr₁, tr₂, _, rfl, happend, hnext⟩
  · obtain rfl := AdMode.runs_append.1 happend
    cases hok _ (List.mem_singleton_self _)
  · obtain rfl := AdMode.runs_append.1 happend
    exact ⟨tr₂, rfl, hnext, fun e he => hok e (List.mem_append_right _ he)⟩

/-- What succeeds after a record is appended has appended it. -/
theorem runs_append_ok {α : Type} {event : String} {detail : Json} {f : Agent α} {a : α}
    (h : (AdMode.append event detail >>= fun _ => f).run.Runs tr (.ok a)) :
    ∃ tr', tr = ⟨.append event detail, .ok ()⟩ :: tr' ∧ f.run.Runs tr' (.ok a) := by
  rcases Prog.runs_bindE.1 h with ⟨e, -, he⟩ | ⟨tr₁, tr₂, _, rfl, happend, hnext⟩
  · cases he
  · obtain rfl := AdMode.runs_append.1 happend
    exact ⟨tr₂, rfl, hnext⟩

/-- The loop over the rows counts its pushes. -/
theorem pushAll_counts {records : List Json} (h : (m.pushAll secret records counters).run.Runs tr res)
    (hok : ∀ e ∈ tr, Recorded e) : res = .ok (counters.add (dbTally tr)) := by
  induction records generalizing counters tr with
  | nil =>
    obtain ⟨rfl, rfl⟩ := runs_pure.1 h
    rw [add_dbTally_nil]
  | cons record records ih =>
    rcases Prog.runs_bindE.1 h with ⟨e, hpush, -⟩ | ⟨tr₁, tr₂, r, rfl, hpush, hrest⟩
    · obtain ⟨_, -, ⟨⟩⟩ := runs_lift.1 hpush
    obtain ⟨_, hsend, hr⟩ := runs_lift.1 hpush
    cases hr
    obtain ⟨reply, rfl, rfl⟩ := ServerClient.runs_request.1 hsend
    have hok₂ : ∀ e ∈ tr₂, Recorded e := fun e he => hok e (List.mem_append_right _ he)
    have hfail (e : AgentError) (hnext : (AdMode.append "DB_PUSH_FAIL" (errorDetail e) >>= fun _ =>
        m.pushAll secret records { counters with inspected := counters.inspected + 1, failed := counters.failed + 1 }
        ).run.Runs tr₂ res) :
        res = .ok ((counters.add { inspected := 1, failed := 1 }).add (dbTally tr₂)) := by
      obtain ⟨tr₃, rfl, hnext, hok₃⟩ := runs_append_next hnext hok₂
      rw [dbTally_record]
      exact ih hnext hok₃
    rw [List.singleton_append, add_dbTally_cons]
    rcases reply with e | status
    · exact hfail _ hrest
    · rcases hs : status.isSuccess
      · simp only [ServerClient.accepted, hs] at hrest
        simp only [Event.counts, hs]
        exact hfail _ hrest
      · simp only [ServerClient.accepted, hs] at hrest
        simp only [Event.counts, hs]
        exact ih hrest hok₂

/-- The loop over the changes counts those it comes to, and what became of them. -/
theorem applyAll_counts {changes : List WritebackChange} (h : (applyAll conn changes counters).run.Runs tr res)
    (hok : ∀ e ∈ tr, Recorded e) :
    res = .ok ((counters.add { inspected := changes.length }).add (dbTally tr)) := by
  induction changes generalizing counters tr with
  | nil =>
    obtain ⟨rfl, rfl⟩ := runs_pure.1 h
    rw [add_dbTally_nil]
    rfl
  | cons change changes ih =>
    -- what the step counts is either counted at once or seen in its trace
    have hstep (c d : SyncCounters) : ((counters.add (SyncCounters.add { inspected := 1 } c)).add
        { inspected := changes.length }).add d =
          (counters.add { inspected := (change :: changes).length }).add (c.add d) := by
      simp only [SyncCounters.add, List.length_cons, SyncCounters.mk.injEq]
      omega
    rcases Prog.runs_bindE.1 h with ⟨e, happly, -⟩ | ⟨tr₁, tr₂, r, rfl, happly, hrest⟩
    · obtain ⟨_, -, ⟨⟩⟩ := runs_lift.1 happly
    obtain ⟨_, hcall, hr⟩ := runs_lift.1 happly
    cases hr
    have hok₂ : ∀ e ∈ tr₂, Recorded e := fun e he => hok e (List.mem_append_right _ he)
    rcases DbConnector.runs_applyWriteback.1 hcall with ⟨-, rfl, rfl⟩ | ⟨-, reply, rfl, rfl⟩
    · rw [List.nil_append, ← SyncCounters.zero_add (dbTally tr₂), ← hstep]
      exact ih hrest hok₂
    · show res = .ok ((counters.add _).add ((Event.counts ⟨.dbExecute .., reply⟩).add (dbTally tr₂)))
      rw [← hstep]
      rcases reply with e | n
      · obtain ⟨tr₃, rfl, hnext, hok₃⟩ := runs_append_next hrest hok₂
        rw [dbTally_record]
        exact ih hnext hok₃
      · by_cases hn : 0 < n
        · simp only [Event.counts, if_pos hn]
          simp only [Except.mapError, if_pos hn] at hrest
          exact ih hrest hok₂
        · simp only [Event.counts, if_neg hn]
          simp only [Except.mapError, if_neg hn] at hrest
          exact ih hrest hok₂

/-! ### Which calls a stage makes -/

theorem allCalls_append {φ : Call → Prop} {event : String} {detail : Json} (h : φ (.append event detail)) :
    (AdMode.append event detail).run.AllCalls φ := allCalls_ask h fun _ => trivial

theorem allCalls_pushAll (secret : String) (records : List Json) (counters : SyncCounters) :
    (m.pushAll secret records counters).run.AllCalls Call.Outbound := by
  induction records generalizing counters with
  | nil => trivial
  | cons record records ih =>
    refine Prog.AllCalls.bindE (allCalls_lift ?_) fun r => ?_
    · exact (m.server.allCalls_request _ _ _).mono fun c hc => by rw [hc]; trivial
    rcases r with e | _
    · exact Prog.AllCalls.bindE (allCalls_append (.inl rfl)) fun _ => ih _
    · exact ih _

theorem allCalls_applyWriteback (key : String) (changes : SortedMap String String) :
    (conn.applyWriteback key changes).run.AllCalls fun c => ∃ sql binds, c = .dbExecute sql binds := by
  unfold DbConnector.applyWriteback
  dsimp only
  split
  · trivial
  · refine allCalls_ask ⟨_, _, rfl⟩ fun r => ?_
    rcases r with _ | _ <;> trivial

theorem allCalls_applyAll (changes : List WritebackChange) (counters : SyncCounters) :
    (applyAll conn changes counters).run.AllCalls Call.Applying := by
  induction changes generalizing counters with
  | nil => trivial
  | cons change changes ih =>
    refine Prog.AllCalls.bindE (allCalls_lift ?_) fun r => ?_
    · refine (allCalls_applyWriteback change.key change.fields).mono ?_
      rintro _ ⟨sql, binds, rfl⟩
      trivial
    rcases r with e | n
    · exact Prog.AllCalls.bindE (allCalls_append rfl) fun _ => ih _
    · dsimp only
      split
      · exact ih _
      · exact ih _

/-! ### A pass -/

/-- How the pull of the changes goes. -/
inductive PullRun (c : ServerClient) (path secret : String) : Trace → Except AgentError (List WritebackChange) → Prop
  | unsent (e : String) (err : AgentError) :
    PullRun c path secret [⟨.send c (.pullWriteback path secret), .error e⟩] (.error err)
  | notFound (status : Status) (h404 : status.code = 404) :
    PullRun c path secret [⟨.send c (.pullWriteback path secret), .ok status⟩] (.ok [])
  | refused (status : Status) (err : AgentError) (h404 : status.code ≠ 404) (hs : status.isSuccess = false) :
    PullRun c path secret [⟨.send c (.pullWriteback path secret), .ok status⟩] (.error err)
  | undecoded (status : Status) (e : String) (err : AgentError) (hs : status.isSuccess = true) :
    PullRun c path secret [⟨.send c (.pullWriteback path secret), .ok status⟩, ⟨.decodeChanges, .error e⟩] (.error err)
  | pulled (status : Status) (changes : List WritebackChange) (hs : status.isSuccess = true) :
    PullRun c path secret [⟨.send c (.pullWriteback path secret), .ok status⟩, ⟨.decodeChanges, .ok changes⟩]
      (.ok changes)

theorem pullRun_of_runs {c : ServerClient} {res : Except AgentError (List WritebackChange)}
    (h : (c.pullWriteback path secret).run.Runs tr res) : PullRun c path secret tr res := by
  obtain ⟨reply, tr', rfl, hrest⟩ := runs_ask.1 h
  rcases reply with e | status
  · obtain ⟨rfl, rfl⟩ := runs_throw.1 hrest
    exact .unsent e _
  by_cases h404 : status.code = 404
  · simp only [if_pos h404] at hrest
    obtain ⟨rfl, rfl⟩ := runs_pure.1 hrest
    exact .notFound status h404
  simp only [if_neg h404] at hrest
  rcases hs : status.isSuccess
  · simp only [hs] at hrest
    obtain ⟨rfl, rfl⟩ := runs_throw.1 hrest
    exact .refused status _ h404 hs
  · simp only [hs] at hrest
    obtain ⟨decoded, tr₂, rfl, hlast⟩ := runs_ask.1 hrest
    rcases decoded with e | changes
    · obtain ⟨rfl, rfl⟩ := runs_throw.1 hlast
      exact .undecoded status e _ hs
    · obtain ⟨rfl, rfl⟩ := runs_pure.1 hlast
      exact .pulled status changes hs

/-- How the pull of the changes ends. -/
theorem pullWriteback_cases {c : ServerClient} {res : Except AgentError (List WritebackChange)}
    (h : (c.pullWriteback path secret).run.Runs tr res) :
    summaries tr = [] ∧ (∀ e ∈ tr, Event.isChange e = false) ∧
      ((∃ changes, res = .ok changes ∧ dbTally tr = { inspected := changes.length } ∧
        ∀ e ∈ tr, Event.isPullError e = false) ∨ ∃ err, res = .error err ∧ ∃ e ∈ tr, Event.isPullError e) := by
  cases pullRun_of_runs h with
  | unsent e err =>
    exact ⟨rfl, List.forall_mem_singleton.2 rfl, .inr ⟨_, rfl, _, List.mem_singleton_self _, rfl⟩⟩
  | notFound status h404 =>
    refine ⟨rfl, List.forall_mem_singleton.2 rfl, .inl ⟨[], rfl, rfl, List.forall_mem_singleton.2 ?_⟩⟩
    simp [Event.isPullError, h404]
  | refused status err h404 hs =>
    refine ⟨rfl, List.forall_mem_singleton.2 rfl, .inr ⟨_, rfl, _, List.mem_singleton_self _, ?_⟩⟩
    simp [Event.isPullError, h404, hs]
  | undecoded status e err hs =>
    refine ⟨rfl, List.forall_mem_cons.2 ⟨rfl, List.forall_mem_singleton.2 rfl⟩,
      .inr ⟨_, rfl, ⟨.decodeChanges, .error e⟩, ?_, rfl⟩⟩
    exact List.mem_cons_of_mem _ (List.mem_singleton_self _)
  | pulled status changes hs =>
    have hsend : Event.isPullError ⟨.send c (.pullWriteback path secret), .ok status⟩ = false := by
      simp [Event.isPullError, hs]
    refine ⟨rfl, List.forall_mem_cons.2 ⟨rfl, List.forall_mem_singleton.2 rfl⟩, .inl ⟨changes, rfl, ?_, ?_⟩⟩
    · show SyncCounters.add {} (SyncCounters.add { inspected := changes.length } {}) = _
      rw [SyncCounters.zero_add]
      rfl
    · exact List.forall_mem_cons.2 ⟨hsend, List.forall_mem_singleton.2 rfl⟩

/-- How a pass ends: with its counts, before it has done anything, or because the changes cannot be pulled. -/
inductive Outcome (tr : Trace) : Except AgentError SyncCounters → Prop
  | counted (hpull : ∀ e ∈ tr, Event.isPullError e = false) : Outcome tr (.ok (dbTally tr))
  | idle (err : AgentError) (hpush : ∀ e ∈ tr, Event.isPush e = false) (hchange : ∀ e ∈ tr, Event.isChange e = false) :
    Outcome tr (.error err)
  | unpulled (err : AgentError) (hchange : ∀ e ∈ tr, Event.isChange e = false) (hpull : ∃ e ∈ tr, Event.isPullError e) :
    Outcome tr (.error err)

theorem writeback_outcome (h : (m.writeback conn path secret counters).run.Runs tr res) (hok : ∀ e ∈ tr, Recorded e) :
    summaries tr = [] ∧ ((res = .ok (counters.add (dbTally tr)) ∧ ∀ e ∈ tr, Event.isPullError e = false) ∨
      ∃ err, res = .error err ∧ (∀ e ∈ tr, Event.isChange e = false) ∧ ∃ e ∈ tr, Event.isPullError e) := by
  rcases Prog.runs_bindE.1 h with ⟨err, hpull, rfl⟩ | ⟨tr₁, tr₂, changes, rfl, hpull, hrest⟩
  · obtain ⟨hsum, hchange, ⟨_, ⟨⟩, -⟩ | ⟨_, -, herr⟩⟩ := pullWriteback_cases hpull
    exact ⟨hsum, .inr ⟨err, rfl, hchange, herr⟩⟩
  obtain ⟨hsum, -, ⟨_, hres, htally, hnone⟩ | ⟨_, ⟨⟩, -⟩⟩ := pullWriteback_cases hpull
  cases hres
  have hok₂ : ∀ e ∈ tr₂, Recorded e := fun e he => hok e (List.mem_append_right _ he)
  -- the loop over the changes and the record after it
  have hinbound : (∀ e ∈ tr₂, e.1.Inbound) ∧
      res = .ok ((counters.add { inspected := changes.length }).add (dbTally tr₂)) := by
    rcases Prog.runs_bindE.1 hrest with ⟨err, happly, -⟩ | ⟨tr₃, tr₄, counters', rfl, happly, hlast⟩
    · cases applyAll_counts happly hok₂
    have hcalls := ((allCalls_applyAll changes counters).mono fun _ => Call.Applying.inbound).of_runs happly
    have hcounts := applyAll_counts happly fun e he => hok₂ e (List.mem_append_left _ he)
    cases hcounts
    have hok₄ : ∀ e ∈ tr₄, Recorded e := fun e he => hok₂ e (List.mem_append_right _ he)
    by_cases hne : changes ≠ []
    · simp only [if_pos hne] at hlast
      obtain ⟨tr₅, rfl, hend, -⟩ := runs_append_next hlast hok₄
      obtain ⟨rfl, rfl⟩ := runs_pure.1 hend
      refine ⟨List.forall_mem_append.2 ⟨hcalls, List.forall_mem_singleton.2 (.inr rfl)⟩, ?_⟩
      rw [dbTally_append]
      rfl
    · simp only [if_neg hne] at hlast
      obtain ⟨rfl, rfl⟩ := runs_pure.1 hlast
      rw [List.append_nil]
      exact ⟨hcalls, rfl⟩
  refine ⟨?_, .inl ⟨?_, ?_⟩⟩
  · rw [summaries_append, hsum, summaries_eq_nil fun e he => .inr (hinbound.1 e he)]
    rfl
  · rw [hinbound.2, dbTally_append, htally, SyncCounters.add_assoc]
  · exact List.forall_mem_append.2 ⟨hnone, fun e he => (hinbound.1 e he).not_isPullError⟩

/-- After the pushes a pass is done, or looks for changes. -/
theorem inbound_cases (h : (m.inbound conn secret counters).run.Runs tr res) :
    (tr = [] ∧ res = .ok counters) ∨ ∃ path, (m.writeback conn path secret counters).run.Runs tr res := by
  rw [inbound] at h
  rcases hw : m.db.writeback with _ | _
  · rw [hw] at h
    exact .inl (runs_pure.1 h)
  rcases hp : m.db.writebackPullPath with _ | path
  · rw [hw, hp] at h
    exact .inl (runs_pure.1 h)
  rw [hw, hp] at h
  exact .inr ⟨path, h⟩

/-- A pass that has pushed its rows. -/
theorem outcome_of_pushed {tr₀ tr₁ : Trace} (hcalls₀ : ∀ e ∈ tr₀, e.1.Outbound) (htally₀ : dbTally tr₀ = {})
    {records : List Json} (hpush : (m.pushAll secret records {}).run.Runs tr₁ (.ok counters))
    (hok₁ : ∀ e ∈ tr₁, Recorded e) (h : (AdMode.append "DB_PULL" (pullDetail m.db.table records.length) >>= fun _ =>
      m.inbound conn secret counters).run.Runs tr res) (hok : ∀ e ∈ tr, Recorded e) :
    summaries (tr₀ ++ (tr₁ ++ tr)) = [] ∧ Outcome (tr₀ ++ (tr₁ ++ tr)) res := by
  have hcounts := pushAll_counts hpush hok₁
  rw [SyncCounters.zero_add] at hcounts
  cases hcounts
  obtain ⟨tr₂, rfl, hnext, hok₂⟩ := runs_append_next h hok
  have hcalls : ∀ e ∈ tr₀ ++ (tr₁ ++ [⟨.append "DB_PULL" (pullDetail m.db.table records.length), .ok ()⟩]),
      e.1.Outbound := by
    refine List.forall_mem_append.2 ⟨hcalls₀, List.forall_mem_append.2 ⟨?_, List.forall_mem_singleton.2 (.inr rfl)⟩⟩
    exact (allCalls_pushAll secret records {}).of_runs hpush
  have htally : dbTally (tr₀ ++ (tr₁ ++
      [(⟨.append "DB_PULL" (pullDetail m.db.table records.length), .ok ()⟩ : Event Reply)])) = dbTally tr₁ := by
    rw [dbTally_append, dbTally_append, htally₀, SyncCounters.zero_add]
    rfl
  have htrace (e : Event Reply) : tr₀ ++ (tr₁ ++ e :: tr₂) = tr₀ ++ (tr₁ ++ [e]) ++ tr₂ := by simp
  rw [htrace]
  generalize tr₀ ++ (tr₁ ++ [_]) = tr₃ at hcalls htally ⊢
  have hsum := summaries_eq_nil fun e he => .inl (hcalls e he)
  rcases inbound_cases hnext with ⟨rfl, rfl⟩ | ⟨path, hnext⟩
  · rw [List.append_nil, ← htally]
    exact ⟨hsum, .counted fun e he => (hcalls e he).not_isPullError⟩
  obtain ⟨hsum₂, hout⟩ := writeback_outcome hnext hok₂
  refine ⟨by rw [summaries_append, hsum, hsum₂]; rfl, ?_⟩
  rcases hout with ⟨rfl, hnone⟩ | ⟨err, rfl, hchange, e, he, herr⟩
  · rw [← htally, ← dbTally_append]
    exact .counted (List.forall_mem_append.2 ⟨fun e he => (hcalls e he).not_isPullError, hnone⟩)
  · exact .unpulled err (List.forall_mem_append.2 ⟨fun e he => (hcalls e he).not_isChange, hchange⟩)
      ⟨e, List.mem_append_right _ he, herr⟩

/-- A pass fails before the pushes, or goes on with them. -/
theorem runOnce_cases {x : Externals} (h : (m.runOnce x).run.Runs tr res) :
    (∃ err, res = .error err ∧ ∀ e ∈ tr, e.1.Opening) ∨
    ∃ url secret conn reply reply' records tr₁,
      tr = [⟨.dbConnect url, reply⟩, ⟨.dbFetch conn.selectSql, reply'⟩] ++ tr₁ ∧
      conn = ⟨m.db.table, m.db.keyColumn, m.db.fields, m.db.driver⟩ ∧
      (m.pushAll secret records {} >>= fun counters =>
        AdMode.append "DB_PULL" (pullDetail m.db.table records.length) >>= fun _ =>
          m.inbound conn secret counters).run.Runs tr₁ res := by
  rcases Prog.runs_bindE.1 h with ⟨err, hurl, rfl⟩ | ⟨tr₀, tr₁, url, rfl, hurl, h₁⟩
  · obtain ⟨rfl, -⟩ := runs_liftResult.1 hurl
    exact .inl ⟨err, rfl, by simp⟩
  obtain ⟨rfl, -⟩ := runs_liftResult.1 hurl
  rcases Prog.runs_bindE.1 h₁ with ⟨err, hsecret, rfl⟩ | ⟨tr₀, tr₂, secret, rfl, hsecret, h₂⟩
  · obtain ⟨rfl, -⟩ := runs_liftResult.1 hsecret
    exact .inl ⟨err, rfl, by simp⟩
  obtain ⟨rfl, -⟩ := runs_liftResult.1 hsecret
  rcases Prog.runs_bindE.1 h₂ with ⟨err, hconn, rfl⟩ | ⟨tr₀, tr₃, conn, rfl, hconn, h₃⟩
  · obtain ⟨reply, rfl, -⟩ := DbConnector.runs_connect.1 hconn
    exact .inl ⟨err, rfl, List.forall_mem_singleton.2 trivial⟩
  obtain ⟨reply, rfl, hres⟩ := DbConnector.runs_connect.1 hconn
  rcases Prog.runs_bindE.1 h₃ with ⟨err, hpull, rfl⟩ | ⟨tr₀, tr₄, records, rfl, hpull, h₄⟩
  · obtain ⟨reply', rfl, -⟩ := DbConnector.runs_pullRecords.1 hpull
    exact .inl ⟨err, rfl, List.forall_mem_cons.2 ⟨trivial, List.forall_mem_singleton.2 trivial⟩⟩
  obtain ⟨reply', rfl, -⟩ := DbConnector.runs_pullRecords.1 hpull
  refine .inr ⟨url, secret, conn, reply, reply', records, tr₄, rfl, ?_, h₄⟩
  rcases reply with e | _
  · cases hres
  · exact Except.ok.inj hres

theorem runOnce_outcome {x : Externals} (h : (m.runOnce x).run.Runs tr res) (hok : ∀ e ∈ tr, Recorded e) :
    summaries tr = [] ∧ Outcome tr res := by
  rcases runOnce_cases h with ⟨err, rfl, hopening⟩ | ⟨url, secret, conn, reply, reply', records, tr₁, rfl, -, hpushes⟩
  · refine ⟨summaries_eq_nil fun e he => .inl (hopening e he).outbound, .idle err ?_ ?_⟩
    · exact fun e he => (hopening e he).not_isPush
    · exact fun e he => (hopening e he).outbound.not_isChange
  have hok₁ : ∀ e ∈ tr₁, Recorded e := fun e he => hok e (List.mem_append_right _ he)
  rcases Prog.runs_bindE.1 hpushes with ⟨err, hpush, -⟩ | ⟨tr₂, tr₃, counters, rfl, hpush, hrest⟩
  · cases pushAll_counts hpush hok₁
  exact outcome_of_pushed (List.forall_mem_cons.2 ⟨trivial, List.forall_mem_singleton.2 trivial⟩) rfl hpush
    (fun e he => hok₁ e (List.mem_append_left _ he)) hrest fun e he => hok₁ e (List.mem_append_right _ he)

end DbMode

/-- A pass that has pushed or changed something is summarised with its counts exactly if the pull of the changes
does not fail after a push. -/
theorem summarised_iff (x : Externals) (config : Config) (s : Session) (hmode : config.agent.mode = .db) (tr : Trace)
    (res : Except AgentError SyncCounters) (h : (runPass x (runDb x) config s).run.Runs tr res)
    (hok : ∀ e ∈ tr, Recorded e) :
    Summarised tr ↔ ¬ ((∃ e ∈ tr, Event.isPullError e) ∧ ∃ e ∈ tr, Event.isPush e) := by
  rw [runPass, runMode_db hmode] at h
  rcases Prog.runs_bindE.1 h with ⟨err, hpass, rfl⟩ | ⟨tr₁, tr₂, counters, rfl, hpass, hafter⟩
  · obtain ⟨hsum, hout⟩ := DbMode.runOnce_outcome hpass hok
    unfold Summarised
    rw [hsum]
    cases hout with
    | idle _ hpush hchange =>
      constructor
      · rintro - ⟨-, e, he, hpushed⟩
        rw [hpush e he] at hpushed
        cases hpushed
      · rintro - ⟨e, he, hdone⟩
        rw [hpush e he, hchange e he] at hdone
        cases hdone
    | unpulled _ hchange hpull =>
      constructor
      · rintro hall ⟨-, e, he, hpushed⟩
        cases hall ⟨e, he, by rw [hpushed]; rfl⟩
      · rintro hnot ⟨e, he, hdone⟩
        rw [hchange e he, Bool.or_false] at hdone
        exact absurd ⟨hpull, e, he, hdone⟩ hnot
  · obtain ⟨hsum, hout⟩ := DbMode.runOnce_outcome hpass fun e he => hok e (List.mem_append_left _ he)
    cases hout with
    | counted hpull =>
      obtain ⟨tr₃, rfl, hend, -⟩ := DbMode.runs_append_next hafter fun e he => hok e (List.mem_append_right _ he)
      obtain ⟨rfl, -⟩ := runs_pure.1 hend
      constructor
      · rintro - ⟨⟨e, he, herr⟩, -⟩
        rcases List.mem_append.1 he with he | he
        · rw [hpull e he] at herr
          cases herr
        · rw [List.mem_singleton.1 he] at herr
          cases herr
      · intro _ _
        have htally : dbTally (tr₁ ++ [(⟨.append "SYNC_SUMMARY" (summaryDetail config.agent.mode.asStr (dbTally tr₁)),
            .ok ()⟩ : Event Reply)]) = dbTally tr₁ := by
          rw [dbTally_append]
          rfl
        rw [htally, summaries_append, hsum, hmode]
        rfl

/-! ### A broker that stops answering -/

/-- An agent that synchronizes a table both ways. -/
def hrConfig : Config :=
  ⟨⟨⟨"agent-1", .db, 60, "audit.jsonl", none⟩,
    ⟨"https://broker", "token", "AAAAAAAAAAAAAAAAAAAAAAAAAAAAAAAAAAAAAAAAAAA=", true⟩, none,
    some ⟨"db", "postgres", "employees", "employee_id", .insert .empty "employee_id" "employeeId", "/push", "secret",
      true, some "/changes"⟩⟩, rfl⟩

def hrSession : Session := ⟨⟨"https://broker", "token", "agent-1"⟩, .zero "local-default", "host", none⟩

def hrConnector : DbConnector := ⟨"employees", "employee_id", .insert .empty "employee_id" "employeeId", "postgres"⟩

def hrRow : DbRow := [("employee_id", .text "7")]

/-- One row is pushed, and the pull of the changes answers 500. -/
def unpulled : Trace :=
  [⟨.dbConnect "db", .ok ()⟩, ⟨.dbFetch hrConnector.selectSql, .ok [hrRow]⟩,
    ⟨.send hrSession.server (.pushRecord "/push" "secret" (.obj (hrConnector.record hrRow).entries)), .ok ⟨200, "OK"⟩⟩,
    ⟨.append "DB_PULL" (DbMode.pullDetail "employees" 1), .ok ()⟩,
    ⟨.send hrSession.server (.pullWriteback "/changes" "secret"), .ok ⟨500, "Internal Server Error"⟩⟩]

theorem runs_unpulled : (runPass .plain (runDb .plain) hrConfig hrSession).run.Runs unpulled
    (.error (.server "writeback pull HTTP 500 Internal Server Error")) := by
  have hrun : (runDb .plain (hrConfig.db.get rfl) hrSession.server).run.Runs unpulled
      (.error (.server "writeback pull HTTP 500 Internal Server Error")) :=
    ⟨.ok (), _, rfl, .ok [hrRow], _, rfl, .ok ⟨200, "OK"⟩, _, rfl, .ok (), _, rfl,
      .ok ⟨500, "Internal Server Error"⟩, _, rfl, rfl, rfl⟩
  exact Prog.runs_bindE.2 (.inl ⟨_, hrun, rfl⟩)

theorem push_mem_unpulled : ∃ e ∈ unpulled, Event.isPush e :=
  ⟨_, List.mem_cons_of_mem _ (List.mem_cons_of_mem _ (List.mem_cons_self ..)), rfl⟩

theorem recorded_unpulled : ∀ e ∈ unpulled, Recorded e := by simp [unpulled, Recorded]

/-- The row is pushed and not summarised. -/
theorem push_not_summarised :
    (runPass .plain (runDb .plain) hrConfig hrSession).run.Runs unpulled
      (.error (.server "writeback pull HTTP 500 Internal Server Error")) ∧
    (∀ e ∈ unpulled, Recorded e) ∧ (∃ e ∈ unpulled, Event.isPush e) ∧ summaries unpulled = [] ∧
    ¬ Summarised unpulled := by
  refine ⟨runs_unpulled, recorded_unpulled, push_mem_unpulled, rfl, fun hall => ?_⟩
  obtain ⟨e, he, hpush⟩ := push_mem_unpulled
  have hone := hall ⟨e, he, by rw [hpush]; rfl⟩
  cases hone

theorem summarised_iff_hr : (∃ e ∈ unpulled, Event.isPush e) ∧
    (Summarised unpulled ↔ ¬ ((∃ e ∈ unpulled, Event.isPullError e) ∧ ∃ e ∈ unpulled, Event.isPush e)) :=
  ⟨push_mem_unpulled, summarised_iff .plain hrConfig hrSession rfl unpulled _ runs_unpulled recorded_unpulled⟩

end NexusAgent
