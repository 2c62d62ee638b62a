import Mathlib.Data.List.Infix

/-!
# Updates that may be repeated

An action overwrites if it sets a part of the state and leaves the rest: `agree i` says that two states differ at
most in the part that `i` sets. `run_absorb`: a run of overwriting actions makes void what any of them did before it.
-/

/-- A good action changes its part only and keeps the agreement of two states outside the part of any action, and
every action sets its part. -/
structure Overwriting {ι σ : Type} (good : ι → Prop) (act : ι → σ → σ) (agree : ι → σ → σ → Prop) : Prop where
  own : ∀ i s, good i → agree i (act i s) s
  keep : ∀ i j {s s'}, good j → agree i s s' → agree i (act j s) (act j s')
  settle : ∀ i {s s'}, agree i s s' → act i s = act i s'

namespace Overwriting

variable {ι σ : Type} {good : ι → Prop} {act : ι → σ → σ} {agree : ι → σ → σ → Prop} {s s' : σ} {i : ι}
  {is js : List ι}

/-- The actions one after the other. -/
def run (act : ι → σ → σ) (is : List ι) (s : σ) : σ := is.foldl (fun s i => act i s) s

@[simp] theorem run_nil (act : ι → σ → σ) (s : σ) : run act [] s = s := rfl

@[simp] theorem run_cons (act : ι → σ → σ) (i : ι) (is : List ι) (s : σ) :
    run act (i :: is) s = run act is (act i s) := rfl

theorem run_append (act : ι → σ → σ) (is js : List ι) (s : σ) : run act (is ++ js) s = run act js (run act is s) :=
  List.foldl_append

theorem keep_run (h : Overwriting good act agree) (hgood : ∀ j ∈ is, good j) (hs : agree i s s') :
    agree i (run act is s) (run act is s') := by
  induction is generalizing s s' with
  | nil => exact hs
  | cons j is ih =>
    obtain ⟨hj, his⟩ := List.forall_mem_cons.1 hgood
    exact ih his (h.keep i j hj hs)

/-- What an action did before it is done again does not matter. -/
theorem run_again (h : Overwriting good act agree) (hgood : ∀ j ∈ is, good j) (hi : i ∈ is) (s : σ) :
    run act is (act i s) = run act is s := by
  obtain ⟨before, after, rfl⟩ := List.append_of_mem hi
  have hbefore : ∀ j ∈ before, good j := fun j hj => hgood j (List.mem_append_left _ hj)
  have hagree : agree i (run act before (act i s)) (run act before s) := h.keep_run hbefore (h.own i s (hgood i hi))
  rw [run_append, run_append, run_cons, run_cons, h.settle i hagree]

theorem run_absorb (h : Overwriting good act agree) (hgood : ∀ j ∈ js, good j) (his : ∀ i ∈ is, i ∈ js) (s : σ) :
    run act js (run act is s) = run act js s := by
  induction is generalizing s with
  | nil => rfl
  | cons i is ih =>
    obtain ⟨hi, his⟩ := List.forall_mem_cons.1 his
    rw [run_cons, ih his, h.run_again hgood hi]

end Overwriting
