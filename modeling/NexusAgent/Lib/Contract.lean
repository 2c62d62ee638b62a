import NexusAgent.Lib.Prog

/-!
# Programs under a contract

A `Contract` says, by a state, which calls a program may make and how they may be answered: `may s c`, which the
program has to see to, and `step s e s'`, which it can rely on. `Prog.wp p Q s` is the weakest condition under which the
program `p`, from the state `s` on, makes only such calls and returns with `Q`. `wp.bind`, `wp.bindE` and
`AllCalls.wp` are its rules; `wp.of_runs` and `wp.of_cut` turn it into facts about the traces of whole and of
dropped runs.
-/

structure Contract {C : Type} (R : C → Type) (σ : Type) where
  may : σ → C → Prop
  step : σ → Event R → σ → Prop

/-- A contract whose state is computed from the events, and under which every answer is possible. -/
def Contract.monitor {C : Type} {R : C → Type} {σ : Type} (may : σ → C → Prop) (next : σ → Event R → σ) :
    Contract R σ where
  may := may
  step s e s' := s' = next s e

namespace Contract

variable {C : Type} {R : C → Type} {σ : Type} (W : Contract R σ)

/-- The states that a trace can lead to. -/
def Steps : σ → List (Event R) → σ → Prop
  | s, [], s' => s' = s
  | s, e :: tr, s' => ∃ s₁, W.step s e s₁ ∧ Steps s₁ tr s'

/-- Every call of the trace is one that may be made after what comes before it. -/
def Obeys (s : σ) (tr : List (Event R)) : Prop :=
  ∀ tr₁ e tr₂ s₁, tr = tr₁ ++ e :: tr₂ → W.Steps s tr₁ s₁ → W.may s₁ e.1

variable {W} {s s' : σ} {e : Event R} {tr tr' : List (Event R)}

theorem steps_append : W.Steps s (tr ++ tr') s' ↔ ∃ s₁, W.Steps s tr s₁ ∧ W.Steps s₁ tr' s' := by
  induction tr generalizing s with
  | nil =>
    constructor
    · intro h
      exact ⟨s, rfl, h⟩
    · rintro ⟨_, rfl, h⟩
      exact h
  | cons e tr ih =>
    constructor
    · rintro ⟨s₁, he, h⟩
      obtain ⟨s₂, h₁, h₂⟩ := ih.1 h
      exact ⟨s₂, ⟨s₁, he, h₁⟩, h₂⟩
    · rintro ⟨s₂, ⟨s₁, he, h₁⟩, h₂⟩
      exact ⟨s₁, he, ih.2 ⟨s₂, h₁, h₂⟩⟩

theorem steps_monitor {may : σ → C → Prop} {next : σ → Event R → σ} :
    (monitor may next).Steps s tr s' ↔ s' = tr.foldl next s := by
  induction tr generalizing s with
  | nil => exact Iff.rfl
  | cons e tr ih =>
    constructor
    · rintro ⟨_, rfl, h⟩
      exact ih.1 h
    · intro h
      exact ⟨_, rfl, ih.2 h⟩

/-- A trace that keeps a contract keeps one that allows more. -/
theorem Obeys.weaken {may may' : σ → C → Prop} {next : σ → Event R → σ} (h : (monitor may next).Obeys s tr)
    (hmay : ∀ s c, may s c → may' s c) : (monitor may' next).Obeys s tr := by
  intro tr₁ e tr₂ s₁ htr hsteps
  exact hmay _ _ (h tr₁ e tr₂ s₁ htr (steps_monitor.2 (steps_monitor.1 hsteps)))

theorem obeys_nil : W.Obeys s [] := by
  rintro (_ | ⟨e, tr₁⟩) e' tr₂ s₁ htr <;> cases htr

theorem obeys_cons : W.Obeys s (e :: tr) ↔ W.may s e.1 ∧ ∀ s', W.step s e s' → W.Obeys s' tr := by
  constructor
  · intro h
    refine ⟨h [] e tr s rfl rfl, fun s' hstep tr₁ e' tr₂ s₁ htr hsteps => ?_⟩
    subst htr
    exact h (e :: tr₁) e' tr₂ s₁ rfl ⟨s', hstep, hsteps⟩
  · rintro ⟨hmay, hrest⟩ tr₁ e' tr₂ s₁ htr hsteps
    rcases tr₁ with _ | ⟨e₁, tr₁⟩
    · obtain rfl : s₁ = s := hsteps
      cases htr
      exact hmay
    · obtain ⟨s₂, hstep, hsteps⟩ := hsteps
      cases htr
      exact hrest s₂ hstep tr₁ e' tr₂ s₁ rfl hsteps

theorem obeys_append : W.Obeys s (tr ++ tr') ↔ W.Obeys s tr ∧ ∀ s', W.Steps s tr s' → W.Obeys s' tr' := by
  induction tr generalizing s with
  | nil =>
    constructor
    · rintro h
      refine ⟨obeys_nil, ?_⟩
      rintro _ rfl
      exact h
    · rintro ⟨-, h⟩
      exact h s rfl
  | cons e tr ih =>
    rw [List.cons_append, obeys_cons, obeys_cons]
    constructor
    · rintro ⟨hmay, hrest⟩
      refine ⟨⟨hmay, fun s' hstep => (ih.1 (hrest s' hstep)).1⟩, ?_⟩
      rintro s' ⟨s₁, hstep, hsteps⟩
      exact (ih.1 (hrest s₁ hstep)).2 s' hsteps
    · rintro ⟨⟨hmay, hrest⟩, hafter⟩
      exact ⟨hmay, fun s₁ hstep => ih.2 ⟨hrest s₁ hstep, fun s' hsteps => hafter s' ⟨s₁, hstep, hsteps⟩⟩⟩

/-- A trace that keeps a monitor's contract keeps that of a monitor that follows it and allows what it allows. -/
theorem Obeys.simulate {τ : Type} {may : σ → C → Prop} {next : σ → Event R → σ} {may' : τ → C → Prop}
    {next' : τ → Event R → τ} {Rel : σ → τ → Prop} {t : τ} (h : (monitor may next).Obeys s tr) (hs : Rel s t)
    (hmay : ∀ s t c, Rel s t → may s c → may' t c) (hstep : ∀ s t e, Rel s t → Rel (next s e) (next' t e)) :
    (monitor may' next').Obeys t tr := by
  induction tr generalizing s t with
  | nil => exact obeys_nil
  | cons e tr ih =>
    obtain ⟨hfirst, hrest⟩ := obeys_cons.1 h
    refine obeys_cons.2 ⟨hmay s t e.1 hs hfirst, ?_⟩
    rintro _ rfl
    exact ih (hrest _ rfl) (hstep s t e hs)

/-- What every step of a trace preserves holds after it. -/
theorem Steps.invariant {I : σ → Prop} (h : W.Steps s tr s') (hs : I s)
    (hstep : ∀ e ∈ tr, ∀ s s', I s → W.step s e s' → I s') : I s' := by
  induction tr generalizing s with
  | nil =>
    obtain rfl : s' = s := h
    exact hs
  | cons e tr ih =>
    obtain ⟨s₁, he, hrest⟩ := h
    exact ih hrest (hstep e (List.mem_cons_self ..) s s₁ hs he) fun e' he' => hstep e' (List.mem_cons_of_mem e he')

end Contract

namespace Prog

variable {C : Type} {R : C → Type} {σ α β ε : Type} (W : Contract R σ)

/-- From the state `s` on, the program makes only calls that it may make, and returns with `Q`. -/
def wp : Prog C R α → (α → σ → Prop) → σ → Prop
  | .pure a, Q, s => Q a s
  | .call c k, Q, s => W.may s c ∧ ∀ r s', W.step s ⟨c, r⟩ s' → (k r).wp Q s'

variable {W} {p : Prog C R α} {f : α → Prog C R β} {Q Q' : α → σ → Prop} {P : β → σ → Prop} {s s' : σ} {a : α}
  {c : C} {tr : List (Event R)} {await : C → Prop} {φ : C → Prop}

theorem wp_perform {Q : R c → σ → Prop} :
    (perform c).wp W Q s ↔ W.may s c ∧ ∀ r s', W.step s ⟨c, r⟩ s' → Q r s' := Iff.rfl

theorem wp_bind : (p >>= f).wp W P s ↔ p.wp W (fun a s' => (f a).wp W P s') s := by
  induction p generalizing s with
  | pure a => exact Iff.rfl
  | call c k ih =>
    refine and_congr_right fun _ => forall_congr' fun r => forall_congr' fun s' => imp_congr_right fun _ => ?_
    exact ih r

theorem wp.mono (h : p.wp W Q s) (hQ : ∀ a s, Q a s → Q' a s) : p.wp W Q' s := by
  induction p generalizing s with
  | pure a => exact hQ a s h
  | call c k ih => exact ⟨h.1, fun r s' hstep => ih r (h.2 r s' hstep)⟩

/-- A program whose calls may all be made where `I` holds, and keep it. -/
theorem AllCalls.wp {I : σ → Prop} (hp : p.AllCalls φ) (hs : I s) (hmay : ∀ c s, φ c → I s → W.may s c)
    (hstep : ∀ c r s s', φ c → I s → W.step s ⟨c, r⟩ s' → I s') : p.wp W (fun _ s => I s) s := by
  induction p generalizing s with
  | pure a => exact hs
  | call c k ih => exact ⟨hmay c s hp.1 hs, fun r s' he => ih r (hp.2 r) (hstep c r s s' hp.1 hs he)⟩

theorem wp.bind (h : p.wp W Q s) (hf : ∀ a s, Q a s → (f a).wp W P s) : (p >>= f).wp W P s :=
  wp_bind.2 (h.mono hf)

/-- A failure has to meet the condition at once, and a value after what follows it. -/
theorem wp.bindE {x : ExceptT ε (Prog C R) α} {g : α → ExceptT ε (Prog C R) β} {Q : Except ε α → σ → Prop}
    {P : Except ε β → σ → Prop} (h : x.run.wp W Q s) (herr : ∀ e s, Q (.error e) s → P (.error e) s)
    (hok : ∀ a s, Q (.ok a) s → (g a).run.wp W P s) : (x >>= g).run.wp W P s := by
  refine wp.bind h fun r s hr => ?_
  rcases r with e | a
  · exact herr e s hr
  · exact hok a s hr

/-! ### Runs -/

theorem wp.of_runs (h : p.wp W Q s) (hr : p.Runs tr a) : W.Obeys s tr ∧ ∀ s', W.Steps s tr s' → Q a s' := by
  induction p generalizing s tr with
  | pure b =>
    obtain ⟨rfl, rfl⟩ := hr
    refine ⟨Contract.obeys_nil, ?_⟩
    rintro _ rfl
    exact h
  | call c k ih =>
    obtain ⟨r, tr', rfl, hr⟩ := hr
    refine ⟨Contract.obeys_cons.2 ⟨h.1, fun s₁ hstep => (ih r (h.2 r s₁ hstep) hr).1⟩, ?_⟩
    rintro s' ⟨s₁, hstep, hsteps⟩
    exact (ih r (h.2 r s₁ hstep) hr).2 s' hsteps

theorem wp.of_cut (h : p.wp W Q s) (hc : p.Cut await tr) : W.Obeys s tr := by
  induction p generalizing s tr with
  | pure b => exact hc.elim
  | call c k ih =>
    rcases hc with ⟨-, rfl | ⟨r, rfl⟩⟩ | ⟨r, tr', rfl, hc⟩
    · exact Contract.obeys_nil
    · exact Contract.obeys_cons.2 ⟨h.1, fun _ _ => Contract.obeys_nil⟩
    · exact Contract.obeys_cons.2 ⟨h.1, fun s₁ hstep => ih r (h.2 r s₁ hstep) hc⟩

end Prog
