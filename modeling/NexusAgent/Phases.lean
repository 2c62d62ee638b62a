import NexusAgent.Cycle
import NexusAgent.Rules

/-!
# The phases of a run

`Phase` is where a run of the service is. `phases_in_order`: whatever its calls answer, the service starts before it
talks to anyone, then goes round from refreshing its configuration over the heartbeat, the pass and the report of
the pass to its sleep, and when it is shut down, at any call that it awaits, it takes leave of the broker and records
that, and does nothing after that. It reports to the broker what its event log has of the pass.
-/

namespace NexusAgent

inductive Phase where
  | boot
  | idle
  | refreshing (answered : Bool)
  | passing
  | failed
  | summed (detail : Json)
  | reported
  | stopping
  | stopped
  deriving DecidableEq

namespace Phase

/-- The phase after an event. -/
def next (p : Phase) : Event Reply → Phase
  | ⟨.append event detail, answer⟩ =>
    if event = "RUN_START" then (if answer.isOk then idle else p)
    else if event = "SYNC_SUMMARY" then (if answer.isOk then summed detail else p)
    else if event = "RUN_ERROR" then failed
    else if event = "RUN_STOP" then stopped
    else p
  | ⟨.send _ .fetchConfig, answer⟩ => refreshing (answer.toOption.any Status.isSuccess)
  | ⟨.decodeConfig, _⟩ => refreshing false
  | ⟨.send _ (.heartbeat ..), _⟩ => passing
  | ⟨.send _ (.reportRun ..), _⟩ => reported
  | ⟨.send _ (.disconnect _), _⟩ => stopping
  | ⟨.sleep _, _⟩ => idle
  | _ => p

/-- The service runs, and has not been shut down. -/
def Live (p : Phase) : Prop := p ≠ boot ∧ p ≠ stopping ∧ p ≠ stopped

variable (mode : Mode) (sess : Session)

/-- The pass has been reported as it is recorded, or there is nothing to report. -/
def Settled : Phase → Prop
  | failed | reported => True
  | summed detail => ∃ counters, detail = summaryDetail mode.asStr counters ∧ counters.inspected = 0
  | _ => False

def MayAppend (p : Phase) (event : String) (detail : Json) : Prop :=
  if event = "RUN_START" then p = boot ∧ detail = runStartDetail mode.asStr
  else if event = "SYNC_SUMMARY" then p = passing ∧ ∃ counters, detail = summaryDetail mode.asStr counters
  else if event = "RUN_STOP" then p = stopping ∧ detail = runStartDetail mode.asStr
  else p = passing

/-- The calls of a phase. -/
def May (p : Phase) : Call → Prop
  | .openLog _ | .buildClient _ | .hostname => p = boot
  | .append event detail => MayAppend mode p event detail
  | .send client .fetchConfig => client = sess.server ∧ p = idle
  | .decodeConfig => p = refreshing true
  | .send client (.heartbeat mode' hostname version' directoryId) =>
    client = sess.server ∧ (∃ answered, p = refreshing answered) ∧
      (mode', hostname, version', directoryId) = (mode.asStr, sess.hostname, version, sess.directoryId)
  | .send client (.reportRun mode' counters) => client = sess.server ∧ mode' = mode.asStr ∧ 0 < counters.inspected ∧
      p = summed (summaryDetail mode.asStr counters)
  | .sleep _ => p.Settled mode
  | .send client (.disconnect reason) => client = sess.server ∧ p.Live ∧ reason = "agent shutdown"
  | .createParentDir _ | .fillBytes | .writeFile .. | .readFile _ | .println _ => False
  | _ => p = passing

def contract : Contract Reply Phase := .monitor (May mode sess) next

variable {mode sess} {p : Phase} {x : Externals} {config : Config}

/-! ### Passes -/

/-- A call of a pass. -/
def InPass (mode : Mode) (sess : Session) (c : Call) : Prop :=
  May mode sess passing c ∧ ∀ r, next passing ⟨c, r⟩ = passing

theorem inPass_append {event : String} (detail : Json)
    (h : event ≠ "RUN_START" ∧ event ≠ "SYNC_SUMMARY" ∧ event ≠ "RUN_ERROR" ∧ event ≠ "RUN_STOP") :
    InPass mode sess (.append event detail) := by
  obtain ⟨hstart, hsum, herr, hstop⟩ := h
  constructor
  · show MayAppend mode passing event detail
    rw [MayAppend, if_neg hstart, if_neg hsum, if_neg hstop]
  · intro r
    show (if event = "RUN_START" then _ else _) = _
    rw [if_neg hstart, if_neg hsum, if_neg herr, if_neg hstop]

theorem inPass_of_inAdPass {c : Call} (h : c.InAdPass) : InPass mode sess c := by
  cases c with
  | append event detail =>
    refine inPass_append detail ?_
    rcases List.mem_pair.1 h with rfl | rfl <;> decide
  | send _ r => cases r <;> first | exact h.elim | exact ⟨rfl, fun _ => rfl⟩
  | _ => first | exact h.elim | exact ⟨rfl, fun _ => rfl⟩

theorem inPass_of_inDbPass {c : Call} (h : c.InDbPass) : InPass mode sess c := by
  cases c with
  | append event detail =>
    refine inPass_append detail ?_
    simp only [Call.InDbPass, List.mem_cons, List.not_mem_nil, or_false] at h
    rcases h with rfl | rfl | rfl | rfl <;> decide
  | send _ r => cases r <;> first | exact h.elim | exact ⟨rfl, fun _ => rfl⟩
  | _ => first | exact h.elim | exact ⟨rfl, fun _ => rfl⟩

theorem wp_inPass {α : Type} {t : Task α} (ht : t.AllCalls (InPass mode sess)) :
    t.wp (contract mode sess) (fun _ p => p = passing) passing := by
  refine ht.wp rfl ?_ ?_
  · rintro c _ hc rfl
    exact hc.1
  · rintro c r _ _ hc rfl rfl
    exact hc.2 r

theorem wp_runMode : (runMode x (runDb x) config sess).run.wp (contract config.agent.mode sess)
    (fun _ p => p = passing) passing := by
  unfold runMode
  split
  · exact wp_inPass (AdMode.allCalls_runOnce.mono fun _ => inPass_of_inAdPass)
  · exact wp_inPass ((DbMode.allCalls_runOnce x).mono fun _ => inPass_of_inDbPass)

/-- A pass that fails is not summarised, one that returns is. -/
def Passed (mode : Mode) : Except AgentError SyncCounters → Phase → Prop
  | .ok counters, p => p = summed (summaryDetail mode.asStr counters)
  | .error _, p => p = passing

theorem wp_runPass : (runPass x (runDb x) config sess).run.wp (contract config.agent.mode sess)
    (Passed config.agent.mode) passing := by
  refine wp_runMode.bindE (fun _ _ h => h) fun counters p hp => ?_
  subst hp
  have hsum : (AdMode.append "SYNC_SUMMARY" (summaryDetail config.agent.mode.asStr counters)).run.wp
      (contract config.agent.mode sess)
      (fun r p => p = if r.isOk then summed (summaryDetail config.agent.mode.asStr counters) else passing) passing := by
    refine wp_append.2 ⟨⟨rfl, counters, rfl⟩, ?_⟩
    rintro reply _ rfl
    rfl
  exact hsum.bindE (fun _ _ h => h) fun _ _ h => h

/-! ### Cycles -/

theorem wp_fetchConfig :
    sess.server.fetchConfig.run.wp (contract mode sess) (fun _ p => ∃ b, p = refreshing b) idle := by
  have hsend : (sess.server.request .fetchConfig "fetch config" "config").run.wp (contract mode sess)
      (fun r p => (∃ b, p = refreshing b) ∧ (r = .ok () → p = refreshing true)) idle := by
    refine wp_request.2 ⟨⟨rfl, rfl⟩, ?_⟩
    rintro reply _ rfl
    refine ⟨⟨_, rfl⟩, fun hr => ?_⟩
    rcases reply with e | status
    · cases hr
    · rcases hs : status.isSuccess with _ | _
      · simp only [ServerClient.accepted, hs] at hr
        cases hr
      · show refreshing status.isSuccess = _
        rw [hs]
  refine hsend.bindE (fun _ _ h => h.1) fun _ p hp => wp_ask.2 ⟨hp.2 rfl, ?_⟩
  rintro reply _ rfl
  rcases reply with e | remote <;> exact ⟨false, rfl⟩

theorem wp_notify {r : Request} {Q : Unit → Phase → Prop} (hmay : May mode sess p (.send sess.server r))
    (hnext : ∀ reply, Q () (next p ⟨.send sess.server r, reply⟩)) :
    (sess.server.notify r).wp (contract mode sess) Q p := by
  refine ⟨hmay, ?_⟩
  rintro reply _ rfl
  exact hnext reply

theorem wp_sleep (secs : Nat) (h : p.Settled mode) :
    (Prog.perform (Call.sleep secs) : Task Unit).wp (contract mode sess) (fun _ p => p = idle) p := by
  refine Prog.wp_perform.2 ⟨h, ?_⟩
  rintro _ _ rfl
  rfl

theorem wp_runCycle (answered : Bool) : (runCycle x (runDb x) config sess).wp (contract config.agent.mode sess)
    (fun _ p => p = idle) (refreshing answered) := by
  have hbeat : (sess.server.heartbeat config.agent.mode.asStr sess.hostname version sess.directoryId).wp
      (contract config.agent.mode sess) (fun _ p => p = passing) (refreshing answered) :=
    wp_notify ⟨rfl, ⟨answered, rfl⟩, rfl⟩ fun _ => rfl
  refine hbeat.bind fun _ p hp => ?_
  subst hp
  refine wp_runPass.bind fun r p hp => ?_
  rcases r with e | counters
  · obtain rfl : p = passing := hp
    refine Prog.wp.bind ((Prog.wp_perform (Q := fun _ p => p = failed)).2 ⟨rfl, ?_⟩) fun _ p hp => ?_
    · rintro _ _ rfl
      rfl
    · subst hp
      exact wp_sleep _ trivial
  · obtain rfl : p = summed (summaryDetail config.agent.mode.asStr counters) := hp
    dsimp only
    split
    next hpos =>
      refine Prog.wp.bind (wp_notify (Q := fun _ p => p = reported) ⟨rfl, rfl, hpos, rfl⟩ fun _ => rfl) fun _ p hp => ?_
      subst hp
      exact wp_sleep _ trivial
    next hzero => exact wp_sleep _ ⟨counters, rfl, by omega⟩

theorem effective_mode (base : Config) (remote : Except AgentError RemoteConfig) :
    (effective base remote).agent.mode = base.agent.mode := by
  rcases remote with e | remote
  · rfl
  · exact base.applyRemote_mode remote

theorem wp_runOne :
    (runOne x (runDb x) config sess).wp (contract config.agent.mode sess) (fun _ p => p = idle) idle := by
  refine wp_fetchConfig.bind fun remote p hp => ?_
  obtain ⟨answered, rfl⟩ := hp
  rw [← effective_mode config remote]
  exact wp_runCycle answered

/-! ### The start and the end -/

theorem wp_start : (start x config).run.wp (contract config.agent.mode sess) (fun r p => r.isOk → p = idle) boot := by
  have hopen : Prog.wp (contract config.agent.mode sess) (perform (.openLog config.agent.auditLog)).run
      (fun _ p => p = boot) boot := wp_lift.2 ⟨rfl, fun _ _ h => h⟩
  have hclient (token : String) : (ServerClient.new config.server.baseUrl token config.agent.id
      config.server.verifyTls).run.wp (contract config.agent.mode sess) (fun _ p => p = boot) boot := by
    refine wp_ask.2 ⟨rfl, ?_⟩
    rintro reply _ rfl
    rcases reply with e | _ <;> rfl
  refine hopen.bindE (fun _ _ _ => nofun) fun opened p hp => wp_result_bind (fun _ _ => nofun) fun _ _ => ?_
  subst hp
  refine wp_result_bind (fun _ _ => nofun) fun token _ => ?_
  refine (hclient token).bindE (fun _ _ _ => nofun) fun server p hp => ?_
  subst hp
  refine wp_result_bind (fun _ _ => nofun) fun cipher _ => wp_ask.2 ⟨rfl, ?_⟩
  rintro hostname _ rfl
  have hrecord : (AdMode.append "RUN_START" (runStartDetail config.agent.mode.asStr)).run.wp
      (contract config.agent.mode sess) (fun r p => r.isOk → p = idle) boot := by
    refine wp_append.2 ⟨⟨rfl, rfl⟩, ?_⟩
    rintro reply _ rfl
    intro hok
    exact if_pos hok
  exact hrecord.bindE (fun _ _ _ => nofun) fun _ _ h _ => h rfl

theorem live_ite {c : Prop} [Decidable c] {p q : Phase} (hp : p.Live) (hq : q.Live) : (if c then p else q).Live := by
  split
  · exact hp
  · exact hq

/-- A call of a cycle leaves the service running. -/
theorem live_next {c : Call} (hc : c.InCycle) (r : Reply c) (hp : p.Live) : (next p ⟨c, r⟩).Live := by
  have hlive {q : Phase} (hboot : q ≠ boot) (hstopping : q ≠ stopping) (hstopped : q ≠ stopped) : q.Live :=
    ⟨hboot, hstopping, hstopped⟩
  cases c with
  | append event detail =>
    have hstop : event ≠ "RUN_STOP" := by
      rintro rfl
      rcases hc with h | h | h <;> revert h <;> simp [Call.InAdPass, Call.InDbPass, Call.AroundPass]
    show (if event = "RUN_START" then _ else if event = "SYNC_SUMMARY" then _ else if event = "RUN_ERROR" then failed
      else if event = "RUN_STOP" then stopped else p : Phase).Live
    rw [if_neg hstop]
    refine live_ite (live_ite (hlive ?_ ?_ ?_) hp) (live_ite (live_ite (hlive ?_ ?_ ?_) hp)
      (live_ite (hlive ?_ ?_ ?_) hp)) <;> intro h <;> cases h
  | send client request =>
    cases request with
    | disconnect reason => rcases hc with h | h | h <;> exact h.elim
    | fetchConfig | heartbeat | reportRun => refine hlive ?_ ?_ ?_ <;> intro h <;> cases h
    | _ => exact hp
  | decodeConfig | sleep => refine hlive ?_ ?_ ?_ <;> intro h <;> cases h
  | _ => exact hp

theorem live_of_cut {tr : Trace} {p' : Phase} (hp : p.Live) (h : (runOne x (runDb x) config sess).Cut Call.isAwait tr)
    (hsteps : (contract mode sess).Steps p tr p') : p'.Live := by
  refine hsteps.invariant hp fun e he p₁ p₂ hp₁ hstep => ?_
  obtain rfl : p₂ = next p₁ e := hstep
  exact live_next (allCalls_runOne.of_cut h e he) e.2 hp₁

theorem wp_stop (hp : p.Live) : (stop config sess).wp (contract config.agent.mode sess) (fun _ _ => True) p := by
  refine ⟨⟨rfl, hp, rfl⟩, ?_⟩
  rintro _ _ rfl
  exact ⟨⟨rfl, rfl⟩, fun _ _ _ => trivial⟩

end Phase

/-- In every run of the service each call is one of the phase that the run is in. -/
theorem phases_in_order {x : Externals} {config : Config} {sess : Session} {first cut last : Trace}
    {cycles : List Trace} (h : ServiceRun x (runDb x) config sess first cycles cut last) :
    (Phase.contract config.agent.mode sess).Obeys .boot (first ++ (cycles.flatten ++ (cut ++ last))) := by
  have hidle : Phase.idle.Live := ⟨nofun, nofun, nofun⟩
  refine obeys_of_serviceRun (I := fun p => p = .idle) (J := Phase.Live) h ?_ ?_ ?_ fun p hp => Phase.wp_stop hp
  · refine Phase.wp_start.mono fun r p hp hr => hp ?_
    rw [hr]
    rfl
  · rintro _ rfl
    exact Phase.wp_runOne
  · rintro _ tr p rfl hcut hsteps
    exact Phase.live_of_cut hidle hcut hsteps

/-- A cycle with a pass that is summarised and reported, and one that is dropped in its pass. -/
theorem phases_in_order_corp :
    ServiceRun corp (runDb corp) corpConfig corpSession corpStart [corpCycle] corpCut corpStop ∧
      (Phase.contract .ad corpSession).Obeys .boot (corpStart ++ ([corpCycle].flatten ++ (corpCut ++ corpStop))) :=
  ⟨serviceRun_corp _, phases_in_order (serviceRun_corp _)⟩

end NexusAgent
