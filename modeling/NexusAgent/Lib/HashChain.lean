import Mathlib.Data.List.Infix
import Mathlib.Data.List.Induction

/-!
# Hash chains

A log of records of any type in which every record carries its position, the hash of its predecessor
and its own hash. `Valid n p rs`: the records `rs` continue a chain whose next position is `n` and
whose last hash is `p`.

`Valid.prefix_of_subset`: a valid chain made of records of another valid chain is a prefix of it, so
positions alone rule out every deletion and reordering but a cut at the end. `Valid.commit`: chains
that agree on the last hash agree on everything, if their records do not collide.
-/

/-- How a record is read: its position, the hash of its predecessor, its own hash, and the hash its
contents should have after a given predecessor. -/
structure HashChain (R H : Type*) where
  seq : R → Nat
  prev : R → H
  hash : R → H
  digest : R → H → H

namespace HashChain

variable {R H : Type*} (C : HashChain R H) {n : Nat} {p : H} {rs ss : List R} {r : R}

/-- `r` may follow a record with hash `p` at position `n`. -/
def Links (n : Nat) (p : H) (r : R) : Prop := C.seq r = n ∧ C.prev r = p ∧ C.hash r = C.digest r p

instance [DecidableEq H] (n : Nat) (p : H) (r : R) : Decidable (C.Links n p r) :=
  inferInstanceAs (Decidable (_ ∧ _ ∧ _))

def Valid : Nat → H → List R → Prop
  | _, _, [] => True
  | n, p, r :: rs => C.Links n p r ∧ Valid (n + 1) (C.hash r) rs

/-- The last hash of a chain that started after the hash `p`. -/
def head : H → List R → H
  | p, [] => p
  | _, r :: rs => head (C.hash r) rs

@[simp] theorem valid_nil : C.Valid n p [] := trivial

@[simp] theorem valid_cons :
    C.Valid n p (r :: rs) ↔ C.Links n p r ∧ C.Valid (n + 1) (C.hash r) rs := Iff.rfl

@[simp] theorem head_nil : C.head p [] = p := rfl

@[simp] theorem head_cons : C.head p (r :: rs) = C.head (C.hash r) rs := rfl

theorem head_append : C.head p (rs ++ ss) = C.head (C.head p rs) ss := by
  induction rs generalizing p with
  | nil => rfl
  | cons r rs ih => exact ih

theorem head_snoc : C.head p (rs ++ [r]) = C.hash r := by rw [head_append]; rfl

theorem head_eq_getLast? : C.head p rs = (rs.getLast?.map C.hash).getD p := by
  rcases List.eq_nil_or_concat' rs with rfl | ⟨rs, r, rfl⟩
  · rfl
  · rw [head_snoc, List.getLast?_concat]; rfl

theorem valid_append :
    C.Valid n p (rs ++ ss) ↔ C.Valid n p rs ∧ C.Valid (n + rs.length) (C.head p rs) ss := by
  induction rs generalizing n p with
  | nil => simp
  | cons r rs ih =>
    rw [List.cons_append, valid_cons, valid_cons, ih, and_assoc, List.length_cons, head_cons,
      Nat.add_right_comm, Nat.add_assoc]

theorem valid_snoc :
    C.Valid n p (rs ++ [r]) ↔ C.Valid n p rs ∧ C.Links (n + rs.length) (C.head p rs) r := by
  rw [valid_append]; simp

theorem valid_iff_getElem :
    C.Valid n p rs ↔ ∀ i (hi : i < rs.length), C.Links (n + i) (C.head p (rs.take i)) rs[i] := by
  induction rs generalizing n p with
  | nil => simp
  | cons r rs ih =>
    rw [valid_cons, ih]
    constructor
    · rintro ⟨hr, hrs⟩ i hi
      cases i with
      | zero => exact hr
      | succ i =>
        have := hrs i (by simpa using hi)
        rw [Nat.add_right_comm, Nat.add_assoc] at this
        exact this
    · intro h
      refine ⟨h 0 (by simp), ?_⟩
      intro i hi
      have := h (i + 1) (by simpa using hi)
      rw [Nat.add_right_comm, Nat.add_assoc]
      exact this

/-- The valid beginning of what is read, up to an error or a record that does not link. -/
theorem exists_valid_front {E : Type*} (n : Nat) (p : H) (ls : List (Except E R)) :
    ∃ rs rest, ls = rs.map .ok ++ rest ∧ C.Valid n p rs ∧
      ∀ r rest', rest = .ok r :: rest' → ¬ C.Links (n + rs.length) (C.head p rs) r := by
  induction ls generalizing n p with
  | nil => exact ⟨[], [], rfl, trivial, by simp⟩
  | cons l ls ih =>
    rcases l with e | r
    · exact ⟨[], .error e :: ls, rfl, trivial, by simp⟩
    by_cases hr : C.Links n p r
    · obtain ⟨rs, rest, rfl, hv, hend⟩ := ih (n + 1) (C.hash r)
      refine ⟨r :: rs, rest, rfl, ⟨hr, hv⟩, ?_⟩
      intro s rest' hs
      have := hend s rest' hs
      rw [Nat.add_right_comm, Nat.add_assoc] at this
      exact this
    · refine ⟨[], .ok r :: ls, rfl, trivial, ?_⟩
      rintro s rest' hs
      cases hs
      exact hr

variable {C}

theorem Valid.of_prefix (h : C.Valid n p rs) (hs : ss <+: rs) : C.Valid n p ss := by
  obtain ⟨ts, rfl⟩ := hs
  exact (C.valid_append.1 h).1

theorem Valid.seq_getElem (h : C.Valid n p rs) (i : Nat) (hi : i < rs.length) :
    C.seq rs[i] = n + i := by
  induction rs generalizing n p i with
  | nil => simp at hi
  | cons r rs ih =>
    obtain ⟨hr, h⟩ := h
    cases i with
    | zero => exact hr.1
    | succ i =>
      rw [List.getElem_cons_succ, ih h i (by simpa using hi)]
      omega

theorem Valid.le_seq (h : C.Valid n p rs) (hr : r ∈ rs) : n ≤ C.seq r := by
  obtain ⟨i, hi, rfl⟩ := List.mem_iff_getElem.1 hr
  rw [h.seq_getElem i hi]; omega

theorem Valid.hash_eq (h : C.Valid n p rs) : ∀ r ∈ rs, C.hash r = C.digest r (C.prev r) := by
  induction rs generalizing n p with
  | nil => simp
  | cons r rs ih =>
    obtain ⟨hr, h⟩ := h
    intro s hs
    rcases List.mem_cons.1 hs with rfl | hs
    · rw [hr.2.1]; exact hr.2.2
    · exact ih h s hs

/-- What holds of the start and of every hash holds of the hash every record refers to. -/
theorem Valid.forall_prev {P : H → Prop} (h : C.Valid n p rs) (hp : P p)
    (hd : ∀ r q, P (C.digest r q)) : ∀ r ∈ rs, P (C.prev r) := by
  induction rs generalizing n p with
  | nil => simp
  | cons r rs ih =>
    obtain ⟨hr, h⟩ := h
    intro s hs
    rcases List.mem_cons.1 hs with rfl | hs
    · rw [hr.2.1]; exact hp
    · exact ih h (by rw [hr.2.2]; exact hd r p) s hs

/-- A valid chain whose records all occur in another valid chain is a prefix of it. -/
theorem Valid.prefix_of_subset (h : C.Valid n p rs) (hs : C.Valid n p ss) (hsub : ss ⊆ rs) :
    ss <+: rs := by
  induction ss generalizing n p rs with
  | nil => exact List.nil_prefix
  | cons s ss ih =>
    obtain ⟨hlink, hs⟩ := hs
    cases rs with
    | nil => exact absurd (hsub (List.mem_cons_self ..)) List.not_mem_nil
    | cons r rs =>
      obtain ⟨hr, h⟩ := h
      -- only the first record of the whole chain has the first position
      obtain rfl : s = r := by
        rcases List.mem_cons.1 (hsub (List.mem_cons_self ..)) with h' | h'
        · exact h'
        · have := h.le_seq h'; rw [hlink.1] at this; omega
      refine List.cons_prefix_cons.2 ⟨rfl, ih h hs fun t ht => ?_⟩
      rcases List.mem_cons.1 (hsub (List.mem_cons_of_mem _ ht)) with rfl | h'
      · have := hs.le_seq ht; rw [hlink.1] at this; omega
      · exact h'

/-- Two valid chains with the same last hash are equal, if no record of one collides with a record
of the other. -/
theorem Valid.commit (hr : C.Valid n p rs) (hs : C.Valid n p ss) (hne : rs ≠ []) (hne' : ss ≠ [])
    (hhead : C.head p rs = C.head p ss)
    (hinj : ∀ r ∈ rs, ∀ s ∈ ss, C.digest r (C.prev r) = C.digest s (C.prev s) → C.hash r = C.hash s →
      r = s) : rs = ss := by
  induction rs using List.reverseRecOn generalizing ss with
  | nil => exact absurd rfl hne
  | append_singleton rs r ih =>
    obtain ⟨ss, s, rfl⟩ := List.eq_nil_or_concat' ss |>.resolve_left hne'
    rw [head_snoc, head_snoc] at hhead
    obtain ⟨hr', hlr⟩ := C.valid_snoc.1 hr
    obtain ⟨hs', hls⟩ := C.valid_snoc.1 hs
    have hd : C.digest r (C.prev r) = C.digest s (C.prev s) := by
      rw [hlr.2.1, hls.2.1, ← hlr.2.2, ← hls.2.2, hhead]
    obtain rfl := hinj r (by simp) s (by simp) hd hhead
    have hlen : rs.length = ss.length := by have := hlr.1.symm.trans hls.1; omega
    have hh : C.head p rs = C.head p ss := hlr.2.1.symm.trans hls.2.1
    by_cases h0 : rs = []
    · subst h0
      rw [List.length_nil] at hlen
      rw [List.length_eq_zero_iff.1 hlen.symm]
    · have h0' : ss ≠ [] := fun h => h0 (List.length_eq_zero_iff.1 (by rw [hlen, h]; rfl))
      rw [ih hr' hs' h0 h0' hh fun a ha b hb => hinj a (by simp [ha]) b (by simp [hb])]

end HashChain
