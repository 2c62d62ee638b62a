import Mathlib.Init

/-!
# Programs that call their environment

`Prog C R α` is a program that makes calls `c : C`, goes on with the answers `R c`, and returns an `α`.
An event is a call with its answer. `Runs p tr a`: the program returns `a` after the events `tr`.
`Cut await p tr`: after the events `tr` the program is dropped at a call of the kind `await`; that call may
have been answered, and is then the last event, but the program does not see the answer.

`runs_bind` and `cut_bind` cut the trace of a sequence in two, `AllCalls` bounds the calls a program can
make at all, and `Cut.extend` completes the trace of a dropped program to one of a whole run.
-/

/-- A call and its answer. -/
abbrev Event {C : Type} (R : C → Type) := Σ c, R c

inductive Prog (C : Type) (R : C → Type) (α : Type) where
  | pure (a : α)
  | call (c : C) (k : R c → Prog C R α)

namespace Prog

variable {C : Type} {R : C → Type} {α β ε : Type}

def bind : Prog C R α → (α → Prog C R β) → Prog C R β
  | .pure a, f => f a
  | .call c k, f => .call c fun r => (k r).bind f

instance : Monad (Prog C R) where
  pure := .pure
  bind := .bind

theorem bind_pure (p : Prog C R α) : p.bind .pure = p := by
  induction p with
  | pure a => rfl
  | call c k ih => exact congrArg _ (funext ih)

theorem bind_assoc {γ : Type} (p : Prog C R α) (f : α → Prog C R β) (g : β → Prog C R γ) :
    (p.bind f).bind g = p.bind fun a => (f a).bind g := by
  induction p with
  | pure a => rfl
  | call c k ih => exact congrArg _ (funext ih)

instance : LawfulMonad (Prog C R) :=
  .mk' _ bind_pure (fun _ _ => rfl) bind_assoc

/-- The program that makes one call. -/
def perform (c : C) : Prog C R (R c) := .call c .pure

/-! ### Runs -/

def Runs : Prog C R α → List (Event R) → α → Prop
  | .pure a, tr, b => tr = [] ∧ b = a
  | .call c k, tr, b => ∃ r tr', tr = ⟨c, r⟩ :: tr' ∧ (k r).Runs tr' b

variable {p : Prog C R α} {f : α → Prog C R β} {tr : List (Event R)} {a : α} {b : β}

theorem runs_pure {b : α} : (Pure.pure a : Prog C R α).Runs tr b ↔ tr = [] ∧ b = a := Iff.rfl

theorem runs_perform {c : C} {r : R c} : (perform c).Runs tr r ↔ tr = [⟨c, r⟩] := by
  constructor
  · rintro ⟨r', tr', rfl, rfl, rfl⟩
    rfl
  · rintro rfl
    exact ⟨r, [], rfl, rfl, rfl⟩

theorem runs_bind : (p >>= f).Runs tr b ↔ ∃ tr₁ tr₂ a, tr = tr₁ ++ tr₂ ∧ p.Runs tr₁ a ∧ (f a).Runs tr₂ b := by
  induction p generalizing tr with
  | pure a =>
    constructor
    · exact fun h => ⟨[], tr, a, rfl, ⟨rfl, rfl⟩, h⟩
    · rintro ⟨_, tr₂, _, rfl, ⟨rfl, rfl⟩, h⟩
      exact h
  | call c k ih =>
    constructor
    · rintro ⟨r, tr', rfl, h⟩
      obtain ⟨tr₁, tr₂, a, rfl, h₁, h₂⟩ := (ih r).1 h
      exact ⟨⟨c, r⟩ :: tr₁, tr₂, a, rfl, ⟨r, tr₁, rfl, h₁⟩, h₂⟩
    · rintro ⟨_, tr₂, a, rfl, ⟨r, tr₁, rfl, h₁⟩, h₂⟩
      exact ⟨r, tr₁ ++ tr₂, rfl, (ih r).2 ⟨tr₁, tr₂, a, rfl, h₁, h₂⟩⟩

theorem Runs.bind {tr₁ tr₂ : List (Event R)} (h₁ : p.Runs tr₁ a) (h₂ : (f a).Runs tr₂ b) :
    (p >>= f).Runs (tr₁ ++ tr₂) b := runs_bind.2 ⟨tr₁, tr₂, a, rfl, h₁, h₂⟩

/-- A program whose result is only converted. -/
theorem runs_bind_pure {g : α → β} : (p >>= fun a => Pure.pure (g a)).Runs tr b ↔ ∃ a, p.Runs tr a ∧ b = g a := by
  refine runs_bind.trans ⟨?_, ?_⟩
  · rintro ⟨tr₁, tr₂, a, rfl, h, rfl, rfl⟩
    exact ⟨a, by rwa [List.append_nil], rfl⟩
  · rintro ⟨a, h, rfl⟩
    exact ⟨tr, [], a, by simp, h, rfl, rfl⟩

/-- Some run of the program has admissible answers only, if every call has one. -/
theorem exists_runs {good : Event R → Prop} (hgood : ∀ c, ∃ r, good ⟨c, r⟩) (p : Prog C R α) :
    ∃ tr a, p.Runs tr a ∧ ∀ e ∈ tr, good e := by
  induction p with
  | pure a => exact ⟨[], a, ⟨rfl, rfl⟩, by simp⟩
  | call c k ih =>
    obtain ⟨r, hr⟩ := hgood c
    obtain ⟨tr, a, h, htr⟩ := ih r
    refine ⟨⟨c, r⟩ :: tr, a, ⟨r, tr, rfl, h⟩, fun e he => ?_⟩
    rcases List.mem_cons.1 he with rfl | he
    · exact hr
    · exact htr e he

/-! ### Programs that are dropped -/

def Cut (await : C → Prop) : Prog C R α → List (Event R) → Prop
  | .pure _, _ => False
  | .call c k, tr =>
    (await c ∧ (tr = [] ∨ ∃ r, tr = [⟨c, r⟩])) ∨ ∃ r tr', tr = ⟨c, r⟩ :: tr' ∧ (k r).Cut await tr'

variable {await : C → Prop}

theorem cut_bind : (p >>= f).Cut await tr ↔
    p.Cut await tr ∨ ∃ tr₁ tr₂ a, tr = tr₁ ++ tr₂ ∧ p.Runs tr₁ a ∧ (f a).Cut await tr₂ := by
  induction p generalizing tr with
  | pure a =>
    constructor
    · exact fun h => .inr ⟨[], tr, a, rfl, ⟨rfl, rfl⟩, h⟩
    · rintro (h | ⟨_, tr₂, _, rfl, ⟨rfl, rfl⟩, h⟩)
      · exact h.elim
      · exact h
  | call c k ih =>
    constructor
    · rintro (h | ⟨r, tr', rfl, h⟩)
      · exact .inl (.inl h)
      · rcases (ih r).1 h with h | ⟨tr₁, tr₂, a, rfl, h₁, h₂⟩
        · exact .inl (.inr ⟨r, tr', rfl, h⟩)
        · exact .inr ⟨⟨c, r⟩ :: tr₁, tr₂, a, rfl, ⟨r, tr₁, rfl, h₁⟩, h₂⟩
    · rintro ((h | ⟨r, tr', rfl, h⟩) | ⟨_, tr₂, a, rfl, ⟨r, tr₁, rfl, h₁⟩, h₂⟩)
      · exact .inl h
      · exact .inr ⟨r, tr', rfl, (ih r).2 (.inl h)⟩
      · exact .inr ⟨r, tr₁ ++ tr₂, rfl, (ih r).2 (.inr ⟨tr₁, tr₂, a, rfl, h₁, h₂⟩)⟩

/-- What a dropped program has done is the beginning of a whole run, with admissible answers from there on. -/
theorem Cut.extend {good : Event R → Prop} (hgood : ∀ c, ∃ r, good ⟨c, r⟩) (h : p.Cut await tr) :
    ∃ tr' a, p.Runs (tr ++ tr') a ∧ ∀ e ∈ tr', good e := by
  induction p generalizing tr with
  | pure a => exact h.elim
  | call c k ih =>
    rcases h with ⟨-, rfl | ⟨r, rfl⟩⟩ | ⟨r, tr', rfl, h⟩
    · exact exists_runs hgood (.call c k)
    · obtain ⟨tr, a, hr, hgood⟩ := exists_runs hgood (k r)
      exact ⟨tr, a, ⟨r, tr, rfl, hr⟩, hgood⟩
    · obtain ⟨tr'', a, hr, hgood⟩ := ih r h
      exact ⟨tr'', a, ⟨r, tr' ++ tr'', rfl, hr⟩, hgood⟩

/-! ### The calls a program can make -/

def AllCalls (φ : C → Prop) : Prog C R α → Prop
  | .pure _ => True
  | .call c k => φ c ∧ ∀ r, (k r).AllCalls φ

variable {φ ψ : C → Prop}

@[simp] theorem allCalls_pure : (Pure.pure a : Prog C R α).AllCalls φ := trivial

@[simp] theorem allCalls_perform {c : C} : (perform c : Prog C R (R c)).AllCalls φ ↔ φ c :=
  ⟨fun h => h.1, fun h => ⟨h, fun _ => trivial⟩⟩

theorem AllCalls.bind (hp : p.AllCalls φ) (hf : ∀ a, (f a).AllCalls φ) : (p >>= f).AllCalls φ := by
  induction p with
  | pure a => exact hf a
  | call c k ih => exact ⟨hp.1, fun r => ih r (hp.2 r)⟩

theorem AllCalls.mono (hp : p.AllCalls φ) (h : ∀ c, φ c → ψ c) : p.AllCalls ψ := by
  induction p with
  | pure a => trivial
  | call c k ih => exact ⟨h c hp.1, fun r => ih r (hp.2 r)⟩

theorem AllCalls.of_runs (hp : p.AllCalls φ) (h : p.Runs tr a) : ∀ e ∈ tr, φ e.1 := by
  induction p generalizing tr with
  | pure a => rw [h.1]; simp
  | call c k ih =>
    obtain ⟨r, tr', rfl, h⟩ := h
    intro e he
    rcases List.mem_cons.1 he with rfl | he
    · exact hp.1
    · exact ih r (hp.2 r) h e he

theorem AllCalls.of_cut (hp : p.AllCalls φ) (h : p.Cut await tr) : ∀ e ∈ tr, φ e.1 := by
  induction p generalizing tr with
  | pure a => exact h.elim
  | call c k ih =>
    rcases h with ⟨-, rfl | ⟨r, rfl⟩⟩ | ⟨r, tr', rfl, h⟩
    · simp
    · exact List.forall_mem_singleton.2 hp.1
    · exact List.forall_mem_cons.2 ⟨hp.1, ih r (hp.2 r) h⟩

/-! ### Programs that may fail -/

theorem AllCalls.bindE {x : ExceptT ε (Prog C R) α} {g : α → ExceptT ε (Prog C R) β}
    (hx : x.run.AllCalls φ) (hg : ∀ a, (g a).run.AllCalls φ) : (x >>= g).run.AllCalls φ := by
  refine AllCalls.bind hx fun r => ?_
  rcases r with e | a
  · trivial
  · exact hg a

/-- A sequence fails in its first part, or goes on with what that returns. -/
theorem runs_bindE {x : ExceptT ε (Prog C R) α} {g : α → ExceptT ε (Prog C R) β} {r : Except ε β} :
    (x >>= g).run.Runs tr r ↔ (∃ e, x.run.Runs tr (.error e) ∧ r = .error e) ∨
      ∃ tr₁ tr₂ a, tr = tr₁ ++ tr₂ ∧ x.run.Runs tr₁ (.ok a) ∧ (g a).run.Runs tr₂ r := by
  refine runs_bind.trans ⟨?_, ?_⟩
  · rintro ⟨tr₁, tr₂, e | a, rfl, h₁, h₂⟩
    · obtain ⟨rfl, rfl⟩ := h₂
      exact .inl ⟨e, by rwa [List.append_nil], rfl⟩
    · exact .inr ⟨tr₁, tr₂, a, rfl, h₁, h₂⟩
  · rintro (⟨e, h, rfl⟩ | ⟨tr₁, tr₂, a, rfl, h₁, h₂⟩)
    · exact ⟨tr, [], .error e, by simp, h, rfl, rfl⟩
    · exact ⟨tr₁, tr₂, .ok a, rfl, h₁, h₂⟩

theorem Runs.bindE {x : ExceptT ε (Prog C R) α} {g : α → ExceptT ε (Prog C R) β} {r : Except ε β}
    {tr₁ tr₂ : List (Event R)} (h₁ : x.run.Runs tr₁ (.ok a)) (h₂ : (g a).run.Runs tr₂ r) :
    (x >>= g).run.Runs (tr₁ ++ tr₂) r := runs_bindE.2 (.inr ⟨tr₁, tr₂, a, rfl, h₁, h₂⟩)

/-- What a sequence does that its first part cannot do, it does after that. -/
theorem runs_bindE_beyond {x : ExceptT ε (Prog C R) α} {g : α → ExceptT ε (Prog C R) β} {r : Except ε β}
    {e : Event R} (hx : x.run.AllCalls φ) (h : (x >>= g).run.Runs tr r) (he : e ∈ tr) (hφ : ¬ φ e.1) :
    ∃ tr₁ tr₂ a, tr = tr₁ ++ tr₂ ∧ (∀ e ∈ tr₁, φ e.1) ∧ x.run.Runs tr₁ (.ok a) ∧ (g a).run.Runs tr₂ r ∧
      e ∈ tr₂ := by
  rcases runs_bindE.1 h with ⟨err, hfail, -⟩ | ⟨tr₁, tr₂, a, rfl, hfirst, hrest⟩
  · exact absurd (hx.of_runs hfail e he) hφ
  · have hall := hx.of_runs hfirst
    refine ⟨tr₁, tr₂, a, rfl, hall, hfirst, hrest, ?_⟩
    rcases List.mem_append.1 he with he | he
    · exact absurd (hall e he) hφ
    · exact he

/-- A program that succeeds on admissible answers only. -/
def Strict (good : Event R → Prop) (p : Prog C R (Except ε α)) : Prop :=
  ∀ tr a, p.Runs tr (.ok a) → ∀ e ∈ tr, good e

theorem AllCalls.strict {good : Event R → Prop} {p : Prog C R (Except ε α)} (hp : p.AllCalls φ)
    (h : ∀ e, φ e.1 → good e) : p.Strict good := fun _ _ hr e he => h e (hp.of_runs hr e he)

theorem Strict.bindE {good : Event R → Prop} {x : ExceptT ε (Prog C R) α} {g : α → ExceptT ε (Prog C R) β}
    (hx : x.run.Strict good) (hg : ∀ a, (g a).run.Strict good) : (x >>= g).run.Strict good := by
  intro tr b h
  rcases runs_bindE.1 h with ⟨e, -, he⟩ | ⟨tr₁, tr₂, a, rfl, h₁, h₂⟩
  · cases he
  · exact List.forall_mem_append.2 ⟨hx tr₁ a h₁, hg a tr₂ b h₂⟩

/-- A sequence is dropped in its first part, or in what follows it. -/
theorem cut_bindE {x : ExceptT ε (Prog C R) α} {g : α → ExceptT ε (Prog C R) β} :
    (x >>= g).run.Cut await tr ↔ x.run.Cut await tr ∨
      ∃ tr₁ tr₂ a, tr = tr₁ ++ tr₂ ∧ x.run.Runs tr₁ (.ok a) ∧ (g a).run.Cut await tr₂ := by
  refine cut_bind.trans ⟨?_, ?_⟩
  · rintro (h | ⟨tr₁, tr₂, e | a, rfl, h₁, h₂⟩)
    · exact .inl h
    · exact h₂.elim
    · exact .inr ⟨tr₁, tr₂, a, rfl, h₁, h₂⟩
  · rintro (h | ⟨tr₁, tr₂, a, rfl, h₁, h₂⟩)
    · exact .inl h
    · exact .inr ⟨tr₁, tr₂, .ok a, rfl, h₁, h₂⟩

end Prog
