import NexusAgent.Lib.Prog

/-!
# Programs that look the same

`p.Mirrors hide await Q q`: whatever `p` is answered, `q` can be answered so that the events of both look the same
through `hide`, and the two return values that are related by `Q`. `mirrors_self`, `Mirrors.bind` and `Mirrors.bindE`
are its rules; `Mirrors.exists_runs` and `Mirrors.exists_cut` turn it into facts about traces.
-/

/-- The same error, or values that are related. -/
def Except.Alike {ε α β : Type} (Q : α → β → Prop) : Except ε α → Except ε β → Prop
  | .error e, .error e' => e = e'
  | .ok a, .ok b => Q a b
  | _, _ => False

namespace Except.Alike
variable {ε α β γ δ : Type} {Q : α → β → Prop}

theorem refl {P : α → α → Prop} (hP : ∀ a, P a a) (r : Except ε α) : r.Alike P r := by
  rcases r with e | a
  · rfl
  · exact hP a

theorem map {P : γ → δ → Prop} {f : α → γ} {g : β → δ} {r : Except ε α} {r' : Except ε β} (h : r.Alike Q r')
    (hP : ∀ a b, Q a b → P (f a) (g b)) : (r.map f).Alike P (r'.map g) := by
  rcases r with e | a <;> rcases r' with e' | b
  · exact h
  · exact h.elim
  · exact h.elim
  · exact hP a b h

theorem eq {r r' : Except ε α} (h : r.Alike Eq r') : r = r' := by
  rcases r with e | a <;> rcases r' with e' | a'
  · exact congrArg _ h
  · exact h.elim
  · exact h.elim
  · exact congrArg _ h

end Except.Alike

namespace Prog

variable {C V : Type} {R : C → Type} {α β γ δ ε : Type} {hide : Event R → V} {await : C → Prop}

def Mirrors (hide : Event R → V) (await : C → Prop) (Q : α → β → Prop) : Prog C R α → Prog C R β → Prop
  | .pure a, .pure b => Q a b
  | .call c k, .call c' k' => (await c → await c') ∧
      ∀ r, ∃ r', hide ⟨c, r⟩ = hide ⟨c', r'⟩ ∧ Mirrors hide await Q (k r) (k' r')
  | _, _ => False

variable {Q : α → β → Prop} {P : γ → δ → Prop} {p : Prog C R α} {q : Prog C R β} {f : α → Prog C R γ}
  {g : β → Prog C R δ} {tr : List (Event R)} {a : α}

theorem mirrors_self {S : α → α → Prop} (hS : ∀ a, S a a) (p : Prog C R α) : p.Mirrors hide await S p := by
  induction p with
  | pure a => exact hS a
  | call c k ih => exact ⟨id, fun r => ⟨r, rfl, ih r⟩⟩

theorem Mirrors.bind (h : p.Mirrors hide await Q q) (hf : ∀ a b, Q a b → (f a).Mirrors hide await P (g b)) :
    (p >>= f).Mirrors hide await P (q >>= g) := by
  induction p generalizing q with
  | pure a =>
    cases q with
    | pure b => exact hf a b h
    | call c' k' => exact h.elim
  | call c k ih =>
    cases q with
    | pure b => exact h.elim
    | call c' k' =>
      refine ⟨h.1, fun r => ?_⟩
      obtain ⟨r', hr', hk⟩ := h.2 r
      exact ⟨r', hr', ih r hk⟩

theorem Mirrors.bindE {p : ExceptT ε (Prog C R) α} {q : ExceptT ε (Prog C R) β} {f : α → ExceptT ε (Prog C R) γ}
    {g : β → ExceptT ε (Prog C R) δ} (h : p.run.Mirrors hide await (Except.Alike Q) q.run)
    (hf : ∀ a b, Q a b → (f a).run.Mirrors hide await (Except.Alike P) (g b).run) :
    (p >>= f).run.Mirrors hide await (Except.Alike P) (q >>= g).run := by
  refine Mirrors.bind h fun r r' hr => ?_
  rcases r with e | a <;> rcases r' with e' | b
  · exact hr
  · exact hr.elim
  · exact hr.elim
  · exact hf a b hr

theorem Mirrors.exists_runs (h : p.Mirrors hide await Q q) (hp : p.Runs tr a) :
    ∃ tr' b, q.Runs tr' b ∧ tr.map hide = tr'.map hide ∧ Q a b := by
  induction p generalizing q tr with
  | pure a' =>
    cases q with
    | pure b =>
      obtain ⟨rfl, rfl⟩ := hp
      exact ⟨[], b, ⟨rfl, rfl⟩, rfl, h⟩
    | call c' k' => exact h.elim
  | call c k ih =>
    cases q with
    | pure b => exact h.elim
    | call c' k' =>
      obtain ⟨r, tr, rfl, hp⟩ := hp
      obtain ⟨r', hr', hk⟩ := h.2 r
      obtain ⟨tr', b, hq, htr, hQ⟩ := ih r hk hp
      refine ⟨⟨c', r'⟩ :: tr', b, ⟨r', tr', rfl, hq⟩, ?_, hQ⟩
      rw [List.map_cons, List.map_cons, hr', htr]

theorem Mirrors.exists_cut (h : p.Mirrors hide await Q q) (hp : p.Cut await tr) :
    ∃ tr', q.Cut await tr' ∧ tr.map hide = tr'.map hide := by
  induction p generalizing q tr with
  | pure a' => exact hp.elim
  | call c k ih =>
    cases q with
    | pure b => exact h.elim
    | call c' k' =>
      rcases hp with ⟨hawait, rfl | ⟨r, rfl⟩⟩ | ⟨r, tr, rfl, hp⟩
      · exact ⟨[], .inl ⟨h.1 hawait, .inl rfl⟩, rfl⟩
      · obtain ⟨r', hr', -⟩ := h.2 r
        exact ⟨[⟨c', r'⟩], .inl ⟨h.1 hawait, .inr ⟨r', rfl⟩⟩, congrArg (fun v => [v]) hr'⟩
      · obtain ⟨r', hr', hk⟩ := h.2 r
        obtain ⟨tr', hq, htr⟩ := ih r hk hp
        refine ⟨⟨c', r'⟩ :: tr', .inr ⟨r', tr', rfl, hq⟩, ?_⟩
        rw [List.map_cons, List.map_cons, hr', htr]

end Prog
