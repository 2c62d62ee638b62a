import Mathlib.Data.List.Forall2
import NexusAgent.Lib.Prog

/-!
# Programs within programs

`p.within f g` is the program `p` where more calls are at hand: each call `c` is made as `f c`, and its answer is read
with `g`. `runs_within` says that it runs as `p` does.
-/

namespace Prog

variable {C C' : Type} {R : C → Type} {R' : C' → Type} {α : Type} (f : C → C') (g : ∀ c, R' (f c) → R c)

/-- A program, run where more calls are at hand. -/
def within : Prog C R α → Prog C' R' α
  | .pure a => .pure a
  | .call c k => .call (f c) fun r => (k (g c r)).within

/-- The event that the outer program sees, and the one that the inner program sees. -/
inductive Seen : Event R' → Event R → Prop
  | mk (c : C) (r : R' (f c)) : Seen ⟨f c, r⟩ ⟨c, g c r⟩

variable {f g} {p : Prog C R α} {tr' : List (Event R')} {a : α}

theorem runs_within : (p.within f g).Runs tr' a ↔ ∃ tr, List.Forall₂ (Seen f g) tr' tr ∧ p.Runs tr a := by
  induction p generalizing tr' with
  | pure b =>
    constructor
    · rintro ⟨rfl, rfl⟩
      exact ⟨[], .nil, rfl, rfl⟩
    · rintro ⟨tr, htr, rfl, rfl⟩
      cases htr
      exact ⟨rfl, rfl⟩
  | call c k ih =>
    constructor
    · rintro ⟨r, tr'', rfl, h⟩
      obtain ⟨tr, htr, h⟩ := (ih (g c r)).1 h
      exact ⟨⟨c, g c r⟩ :: tr, .cons (.mk c r) htr, g c r, tr, rfl, h⟩
    · rintro ⟨_, htr, r, tr, rfl, h⟩
      cases htr with
      | cons hseen htr =>
        cases hseen with
        | mk c r' => exact ⟨r', _, rfl, (ih (g c r')).2 ⟨tr, htr, h⟩⟩

/-- What the outer program sees, the inner one sees as well. -/
theorem exists_seen {tr : List (Event R)} (h : List.Forall₂ (Seen f g) tr' tr) {e : Event R'} (he : e ∈ tr') :
    ∃ e' ∈ tr, Seen f g e e' := by
  induction h with
  | nil => cases he
  | @cons e₁ e₂ _ tr hseen _ ih =>
    rcases List.mem_cons.1 he with rfl | he
    · exact ⟨e₂, List.mem_cons_self .., hseen⟩
    · obtain ⟨e', he', hseen'⟩ := ih he
      exact ⟨e', List.mem_cons_of_mem _ he', hseen'⟩

end Prog
