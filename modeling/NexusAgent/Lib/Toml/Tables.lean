import NexusAgent.Lib.Toml.Parser

/-!
# Strings stay where they are

`strAt`: the string at a path of tables. A statement never changes one that is there (`extends_step`,
`extends_run`).
-/

namespace Toml

def strAt : List String → Entries → Option String
  | [], _ => none
  | [k], es =>
    match es.lookup k with
    | some (.str s) => some s
    | _ => none
  | k :: ks, es =>
    match es.lookup k with
    | some (.table _ es') => strAt ks es'
    | _ => none

/-- Whatever string stands somewhere in the first table stands there in the second one. -/
def Extends (es es' : Entries) : Prop := ∀ ks s, strAt ks es = some s → strAt ks es' = some s

/-- The strings in the first value are there in the second one. -/
def Value.Extends : Value → Value → Prop
  | .str s, v => v = .str s
  | .table _ es, v => ∃ kind es', v = .table kind es' ∧ Toml.Extends es es'
  | _, _ => True

/-- What `f` makes of a table keeps the strings in it. -/
def Keeps (f : Entries → Option Entries) : Prop := ∀ es es', f es = some es' → Extends es es'

theorem Extends.refl (es : Entries) : Extends es es := fun _ _ h => h

theorem Extends.trans {es₁ es₂ es₃ : Entries} (h : Extends es₁ es₂) (h' : Extends es₂ es₃) : Extends es₁ es₃ :=
  fun ks s hs => h' ks s (h ks s hs)

/-! ### One entry -/

theorem lookup_alter {k : String} {f : Option Value → Option Value} {es es' : Entries}
    (h : alter k f es = some es') :
    (∃ v, f (es.lookup k) = some v ∧ es'.lookup k = some v) ∧ ∀ k' ≠ k, es'.lookup k' = es.lookup k' := by
  induction es generalizing es' with
  | nil =>
    obtain ⟨v, hv, rfl⟩ := Option.map_eq_some_iff.1 h
    refine ⟨⟨v, hv, List.lookup_cons_self⟩, fun k' hk' => ?_⟩
    rw [List.lookup_cons, beq_eq_false_iff_ne.2 hk']
  | cons e es ih =>
    obtain ⟨k₀, v₀⟩ := e
    unfold alter at h
    split at h
    next heq =>
      subst heq
      obtain ⟨v, hv, rfl⟩ := Option.map_eq_some_iff.1 h
      refine ⟨⟨v, by rwa [List.lookup_cons_self], List.lookup_cons_self⟩, fun k' hk' => ?_⟩
      rw [List.lookup_cons, List.lookup_cons, beq_eq_false_iff_ne.2 hk']
    next hne =>
      obtain ⟨es₁, h₁, rfl⟩ := Option.map_eq_some_iff.1 h
      obtain ⟨⟨v, hv, hlookup⟩, hother⟩ := ih h₁
      have hk : (k == k₀) = false := beq_eq_false_iff_ne.2 (Ne.symm hne)
      refine ⟨⟨v, ?_, ?_⟩, fun k' hk' => ?_⟩
      · rwa [List.lookup_cons, hk]
      · rwa [List.lookup_cons, hk]
      · rw [List.lookup_cons, List.lookup_cons, hother k' hk']

theorem keeps_alter {k : String} {f : Option Value → Option Value}
    (hf : ∀ v v', f (some v) = some v' → v.Extends v') : Keeps (alter k f) := by
  intro es es' h ks s hs
  obtain ⟨⟨v', hv', hlookup⟩, hother⟩ := lookup_alter h
  match ks with
  | [] => cases hs
  | [k'] =>
    unfold strAt at hs ⊢
    by_cases hk : k' = k
    · subst hk
      rcases hv : es.lookup k' with _ | v <;> rw [hv] at hs hv'
      · cases hs
      · have hext := hf v v' hv'
        cases v <;> cases hs
        obtain rfl := hext
        rw [hlookup]
    · rwa [hother k' hk]
  | k' :: k'' :: ks =>
    unfold strAt at hs ⊢
    by_cases hk : k' = k
    · subst hk
      rcases hv : es.lookup k' with _ | v <;> rw [hv] at hs hv'
      · cases hs
      · have hext := hf v v' hv'
        rw [hlookup]
        cases v with
        | table kind es₁ =>
          obtain ⟨kind', es₂, rfl, hes⟩ := hext
          exact hes _ s hs
        | _ => cases hs
    · rwa [hother k' hk]

/-! ### Statements -/

theorem keeps_assign (v : Value) (ks : List String) : Keeps (assign v ks) := by
  induction ks with
  | nil =>
    intro es es' h
    cases h
  | cons k ks ih =>
    rcases ks with _ | ⟨k', ks⟩
    · refine keeps_alter fun v₁ v₂ h => ?_
      cases h
    · refine keeps_alter fun v₁ v₂ h => ?_
      split at h
      next heq => cases heq
      next es heq =>
        cases heq
        obtain ⟨es', h', rfl⟩ := Option.map_eq_some_iff.1 h
        exact ⟨_, es', rfl, ih es es' h'⟩
      next es heq =>
        cases heq
        obtain ⟨es', h', rfl⟩ := Option.map_eq_some_iff.1 h
        exact ⟨_, es', rfl, ih es es' h'⟩
      next => cases h

theorem extends_openTable {v v' : Value} (h : openTable (some v) = some v') : v.Extends v' := by
  unfold openTable at h
  split at h
  next heq => cases heq
  next es heq =>
    cases heq
    cases h
    exact ⟨_, es, rfl, .refl es⟩
  next => cases h

theorem extends_openElement {v v' : Value} (h : openElement (some v) = some v') : v.Extends v' := by
  unfold openElement at h
  split at h
  next heq => cases heq
  next elems heq =>
    cases heq
    trivial
  next => cases h

theorem keeps_descend {f : Entries → Option Entries} (hf : Keeps f) (ks : List String) : Keeps (descend f ks) := by
  induction ks with
  | nil => exact hf
  | cons k ks ih =>
    refine keeps_alter fun v v' h => ?_
    split at h
    next heq => cases heq
    next => cases h
    next kind es _ heq =>
      cases heq
      obtain ⟨es', h', rfl⟩ := Option.map_eq_some_iff.1 h
      exact ⟨_, es', rfl, ih es es' h'⟩
    next elems heq =>
      cases heq
      trivial
    next => cases h

theorem extends_step {st st' : State} {stmt : Stmt} (h : step st stmt = some st') : Extends st.root st'.root := by
  cases stmt with
  | header ks =>
    obtain ⟨es, hes, rfl⟩ := Option.map_eq_some_iff.1 h
    exact keeps_descend (keeps_alter fun _ _ => extends_openTable) _ _ _ hes
  | element ks =>
    obtain ⟨es, hes, rfl⟩ := Option.map_eq_some_iff.1 h
    exact keeps_descend (keeps_alter fun _ _ => extends_openElement) _ _ _ hes
  | keyval ks v =>
    obtain ⟨es, hes, rfl⟩ := Option.map_eq_some_iff.1 h
    exact keeps_descend (keeps_assign v ks) _ _ _ hes

theorem extends_run {st st' : State} {stmts : List Stmt} (h : run st stmts = some st') :
    Extends st.root st'.root := by
  induction stmts generalizing st with
  | nil =>
    cases h
    exact .refl _
  | cons stmt stmts ih =>
    unfold run at h
    split at h
    next st₁ hstep => exact (extends_step hstep).trans (ih h)
    next => cases h

end Toml
