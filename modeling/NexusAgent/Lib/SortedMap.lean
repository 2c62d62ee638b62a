import Mathlib.Data.String.Basic

/-!
# Sorted association lists

A map whose keys are kept in ascending order, as a `BTreeMap` iterates over them.
-/

@[ext]
structure SortedMap (κ α : Type) [LT κ] where
  entries : List (κ × α)
  sorted : entries.Pairwise fun a b => a.1 < b.1

namespace SortedMap

variable {κ α : Type} [LinearOrder κ]

def empty : SortedMap κ α := ⟨[], .nil⟩

def get? (m : SortedMap κ α) (k : κ) : Option α := (m.entries.find? fun e => e.1 = k).map (·.2)

def insertEntry (k : κ) (a : α) : List (κ × α) → List (κ × α)
  | [] => [(k, a)]
  | e :: es =>
    if k < e.1 then (k, a) :: e :: es
    else if k = e.1 then (k, a) :: es
    else e :: insertEntry k a es

theorem mem_insertEntry {k : κ} {a : α} {es : List (κ × α)} {e : κ × α} (h : e ∈ insertEntry k a es) :
    e = (k, a) ∨ e ∈ es := by
  induction es with
  | nil => exact .inl (List.mem_singleton.1 h)
  | cons f es ih =>
    unfold insertEntry at h
    split at h
    · exact List.mem_cons.1 h
    split at h
    · exact (List.mem_cons.1 h).imp_right (List.mem_cons_of_mem f)
    · rcases List.mem_cons.1 h with rfl | h
      · exact .inr (List.mem_cons_self ..)
      · exact (ih h).imp_right (List.mem_cons_of_mem f)

theorem pairwise_insertEntry (k : κ) (a : α) {es : List (κ × α)}
    (h : es.Pairwise fun a b => a.1 < b.1) : (insertEntry k a es).Pairwise fun a b => a.1 < b.1 := by
  induction es with
  | nil => exact List.pairwise_singleton _ _
  | cons f es ih =>
    obtain ⟨hf, hes⟩ := List.pairwise_cons.1 h
    unfold insertEntry
    split
    · rename_i hlt
      refine List.pairwise_cons.2 ⟨fun e he => ?_, h⟩
      rcases List.mem_cons.1 he with rfl | he
      · exact hlt
      · exact lt_trans hlt (hf e he)
    split
    · rename_i heq
      exact List.pairwise_cons.2 ⟨fun e he => heq ▸ hf e he, hes⟩
    · rename_i hlt hne
      refine List.pairwise_cons.2 ⟨fun e he => ?_, ih hes⟩
      rcases mem_insertEntry he with rfl | he
      · exact lt_of_le_of_ne (not_lt.1 hlt) (Ne.symm hne)
      · exact hf e he

def insert (m : SortedMap κ α) (k : κ) (a : α) : SortedMap κ α :=
  ⟨insertEntry k a m.entries, pairwise_insertEntry k a m.sorted⟩

/-- A key beyond those of the entries goes to their end. -/
theorem insertEntry_of_lt {k : κ} {a : α} {es : List (κ × α)} (h : ∀ e ∈ es, e.1 < k) :
    insertEntry k a es = es ++ [(k, a)] := by
  induction es with
  | nil => rfl
  | cons e es ih =>
    obtain ⟨he, hes⟩ := List.forall_mem_cons.1 h
    rw [insertEntry, if_neg (not_lt.2 he.le), if_neg (ne_of_gt he), ih hes, List.cons_append]

theorem foldl_insertEntry {es es' : List (κ × α)} (h : (es ++ es').Pairwise fun a b => a.1 < b.1) :
    es'.foldl (fun es e => insertEntry e.1 e.2 es) es = es ++ es' := by
  induction es' generalizing es with
  | nil => rw [List.foldl_nil, List.append_nil]
  | cons e es' ih =>
    rw [List.append_cons] at h
    have hbefore := (List.pairwise_append.1 (List.pairwise_append.1 h).1).2.2
    rw [List.foldl_cons, insertEntry_of_lt fun f hf => hbefore f hf e (List.mem_singleton_self _), ih h,
      ← List.append_cons]

/-- A map is what its entries make, one after the other. -/
theorem foldl_insert (m : SortedMap κ α) : m.entries.foldl (fun m' e => m'.insert e.1 e.2) empty = m := by
  have hentries (es : List (κ × α)) (m' : SortedMap κ α) :
      (es.foldl (fun m' e => m'.insert e.1 e.2) m').entries =
        es.foldl (fun es e => insertEntry e.1 e.2 es) m'.entries := by
    induction es generalizing m' with
    | nil => rfl
    | cons e es ih => exact ih (m'.insert e.1 e.2)
  ext1
  rw [hentries]
  exact foldl_insertEntry m.sorted

/-! ### Lookups -/

section
variable {β : Type} {m : SortedMap κ α} {k k' : κ} {a : α}

theorem get?_eq_some : m.get? k = some a ↔ (k, a) ∈ m.entries := by
  unfold get?
  constructor
  · intro h
    obtain ⟨⟨k', a'⟩, hfind, rfl⟩ := Option.map_eq_some_iff.1 h
    have hk : k' = k := by simpa using List.find?_some hfind
    subst hk
    exact List.mem_of_find?_eq_some hfind
  · intro h
    have hnodup : m.entries.Pairwise fun a b => a.1 ≠ b.1 := m.sorted.imp fun hlt => ne_of_lt hlt
    have hfind : m.entries.find? (fun e => decide (e.1 = k)) = some (k, a) := by
      generalize m.entries = es at h hnodup
      induction es with
      | nil => cases h
      | cons e es ih =>
        obtain ⟨he, hes⟩ := List.pairwise_cons.1 hnodup
        rcases List.mem_cons.1 h with rfl | h
        · simp
        · rw [List.find?_cons_of_neg (by simpa using he _ h)]
          exact ih h hes
    rw [hfind]
    rfl

theorem get?_insertEntry (k : κ) (a : α) (es : List (κ × α)) (k' : κ) :
    (insertEntry k a es).find? (fun e => decide (e.1 = k')) =
      if k' = k then some (k, a) else es.find? fun e => decide (e.1 = k') := by
  induction es with
  | nil => by_cases hk : k' = k <;> simp [insertEntry, hk, Ne.symm, eq_comm]
  | cons e es ih =>
    unfold insertEntry
    by_cases hk : k' = k
    · subst hk
      split
      · simp
      split
      · simp
      · rename_i hne
        rw [List.find?_cons_of_neg (by simpa using Ne.symm hne), ih]
        simp
    · rw [if_neg hk] at ih ⊢
      split
      · rw [List.find?_cons_of_neg (by simpa using Ne.symm hk)]
      split
      · rename_i heq
        subst heq
        rw [List.find?_cons_of_neg (by simpa using Ne.symm hk), List.find?_cons_of_neg (by simpa using Ne.symm hk)]
      · rw [List.find?_cons, List.find?_cons, ih]

theorem get?_insert : (m.insert k a).get? k' = if k' = k then some a else m.get? k' := by
  unfold get? insert
  rw [get?_insertEntry]
  split <;> rfl

/-- The values converted, under their keys. -/
def map (f : κ → α → β) (m : SortedMap κ α) : SortedMap κ β :=
  ⟨m.entries.map fun e => (e.1, f e.1 e.2), List.pairwise_map.2 m.sorted⟩

theorem map_insert (f : κ → α → β) : (m.insert k a).map f = (m.map f).insert k (f k a) := by
  ext1
  show (insertEntry k a m.entries).map _ = insertEntry k (f k a) (m.entries.map _)
  induction m.entries with
  | nil => rfl
  | cons e es ih =>
    simp only [insertEntry, List.map_cons]
    split
    · rfl
    split
    · rfl
    · rw [List.map_cons, ih]

end

end SortedMap
