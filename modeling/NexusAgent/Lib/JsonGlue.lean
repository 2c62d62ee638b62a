import NexusAgent.Lib.Json

/-!
# An object after other text

Text followed by the text of an object is no document (`read_glued`). Wherever a reader stops, it has the
object before it as a whole, or stands inside its first key (`Left`). In the first case the document goes
on, in the second no reader does.
-/

namespace Json

/-- The text of one object, its first key beginning with `k`. -/
structure Whole (k : Char) (u : List Char) : Prop where
  letter : k ≠ ',' ∧ k ≠ ':' ∧ k ≠ ']' ∧ k ≠ '}'
  ends : ∀ n v r, readValue n ('{' :: '"' :: k :: u) = some (v, r) → r = []

/-- What a reader leaves of a text that goes on with the object. -/
inductive Left (k : Char) (u : List Char) : List Char → Prop
  | whole (s : List Char) : Left k u (s ++ '{' :: '"' :: k :: u)
  | key : Left k u (k :: u)

theorem append_brace {p s s' t : List Char} (h : p ++ s' = s ++ '{' :: t) (hp : '{' ∉ p) :
    ∃ a, s = p ++ a ∧ s' = a ++ '{' :: t := by
  rcases List.append_eq_append_iff.1 h with ⟨a, hs, hs'⟩ | ⟨a, hs, ht⟩
  · exact ⟨a, hs, hs'⟩
  rcases a with _ | ⟨x, a⟩
  · exact ⟨[], by rw [hs]; simp, ht.symm⟩
  · rw [List.cons_append, List.cons.injEq] at ht
    refine absurd ?_ hp
    rw [hs, ← ht.1]
    simp

/-! ### Numbers -/

section
variable {s r t : List Char}

theorem dropWhile_digit_brace (s t : List Char) :
    (s ++ '{' :: t).dropWhile Char.isDigit = s.dropWhile Char.isDigit ++ '{' :: t := by
  rw [List.dropWhile_append]
  by_cases h : (s.dropWhile Char.isDigit).isEmpty = true
  · rw [if_pos h, List.isEmpty_iff.1 h, List.nil_append]
    rfl
  · rw [if_neg h]

theorem readNat_left {n : Nat} (h : readNat (s ++ '{' :: t) = some (n, r)) :
    ∃ a, r = a ++ '{' :: t := by
  simp only [readNat, Option.ite_none_right_eq_some, Option.some.injEq, Prod.mk.injEq] at h
  exact ⟨_, by rw [← h.2.2, dropWhile_digit_brace]⟩

theorem readFrac_left {ds : List (Fin 10)} (h : readFrac (s ++ '{' :: t) = some (ds, r)) :
    ∃ a, r = a ++ '{' :: t := by
  unfold readFrac at h
  split at h
  · rename_i s' hs
    obtain ⟨a, -, rfl⟩ := append_brace (p := ['.']) hs.symm (by simp)
    simp only [Option.ite_none_left_eq_some, Option.some.injEq, Prod.mk.injEq] at h
    exact ⟨_, by rw [← h.2.2, dropWhile_digit_brace]⟩
  · cases h
    exact ⟨s, rfl⟩

theorem readExp_left {e : Option Int} (h : readExp (s ++ '{' :: t) = some (e, r)) :
    ∃ a, r = a ++ '{' :: t := by
  unfold readExp at h
  split at h
  · rename_i s' hs
    obtain ⟨a, -, rfl⟩ := append_brace (p := ['e', '-']) hs.symm (by simp)
    obtain ⟨p, hp, he⟩ := Option.map_eq_some_iff.1 h
    cases he
    exact readNat_left hp
  · rename_i s' _ hs
    obtain ⟨a, -, rfl⟩ := append_brace (p := ['e']) hs.symm (by simp)
    obtain ⟨p, hp, he⟩ := Option.map_eq_some_iff.1 h
    cases he
    exact readNat_left hp
  · cases h
    exact ⟨s, rfl⟩

theorem readAbs_left {neg : Bool} {n : JsonNumber} (h : readAbs neg (s ++ '{' :: t) = some (n, r)) :
    ∃ a, r = a ++ '{' :: t := by
  simp only [readAbs, Option.bind_eq_bind, Option.bind_eq_some_iff] at h
  obtain ⟨⟨i, s₁⟩, hi, ⟨f, s₂⟩, hf, ⟨e, s₃⟩, he, h⟩ := h
  cases h
  obtain ⟨a, rfl⟩ := readNat_left hi
  obtain ⟨b, rfl⟩ := readFrac_left hf
  exact readExp_left he

theorem readNum_left {n : JsonNumber} (h : readNum (s ++ '{' :: t) = some (n, r)) :
    ∃ a, r = a ++ '{' :: t := by
  unfold readNum at h
  split at h
  · rename_i s' hs
    obtain ⟨a, -, rfl⟩ := append_brace (p := ['-']) hs.symm (by simp)
    exact readAbs_left h
  · exact readAbs_left h

end

/-! ### Strings -/

variable {k : Char} {u : List Char}

theorem readStr_left {s cs r : List Char} (h : readStr (s ++ '{' :: '"' :: k :: u) = some (cs, r)) :
    Left k u r := by
  generalize hx : s ++ '{' :: '"' :: k :: u = x at h
  induction x using readStr.induct generalizing s cs r with
  | case1 => simp at hx
  | case2 x =>
    obtain ⟨a, -, rfl⟩ := append_brace (p := ['"']) hx.symm (by simp)
    rw [readStr] at h
    cases h
    exact .whole a
  | case3 d e x hd ih =>
    have hnot : '{' ∉ ['\\', 'u', '0', '0', d, e] := by
      rw [Bool.and_eq_true] at hd
      have hbrace : isHexDigit '{' = false := by rfl
      intro hm
      simp only [List.mem_cons, List.not_mem_nil, or_false] at hm
      rcases hm with hm | hm | hm | hm | hm | hm
      · cases hm
      · cases hm
      · cases hm
      · cases hm
      · rw [← hm, hbrace] at hd; cases hd.1
      · rw [← hm, hbrace] at hd; cases hd.2
    obtain ⟨a, -, rfl⟩ := append_brace hx.symm hnot
    rw [readStr, if_pos hd] at h
    obtain ⟨p, hp, he⟩ := Option.map_eq_some_iff.1 h
    cases he
    exact ih rfl hp
  | case4 d e x hd => simp [readStr, hd] at h
  | case5 e x hu a b hf ih =>
    have hnot : '{' ∉ ['\\', e] := by
      intro hm
      simp only [List.mem_cons, List.not_mem_nil, or_false] at hm
      rcases hm with hm | rfl
      · cases hm
      · simp [shortEscapes] at hf
    obtain ⟨y, -, rfl⟩ := append_brace hx.symm hnot
    rw [readStr.eq_4 _ _ hu, hf] at h
    obtain ⟨p, hp, he⟩ := Option.map_eq_some_iff.1 h
    cases he
    exact ih rfl hp
  | case6 e x hu hf => rw [readStr.eq_4 _ _ hu, hf] at h; cases h
  | case7 c x hq hu he ih =>
    rw [readStr.eq_5 _ _ hq hu he] at h
    obtain ⟨p, hp, hpe⟩ := Option.map_eq_some_iff.1 h
    cases hpe
    rcases s with _ | ⟨c', s⟩
    · -- the string takes the opening brace, and the object's first quote ends it
      rw [List.nil_append, List.cons.injEq] at hx
      rw [← hx.2, readStr] at hp
      cases hp
      exact .key
    · rw [List.cons_append, List.cons.injEq] at hx
      exact ih hx.2 hp

/-! ### Values -/

/-- Where what is left begins with a mark of the syntax, the rest goes on with the object. -/
theorem Left.tail {c : Char} {s : List Char} (h : Left k u (c :: s)) (hbrace : c ≠ '{') (hk : k ≠ c) :
    ∃ a, s = a ++ '{' :: '"' :: k :: u := by
  generalize hx : c :: s = x at h
  rcases h with a | _
  · obtain ⟨b, -, hb⟩ := append_brace (p := [c]) hx (by simpa using hbrace.symm)
    exact ⟨b, hb⟩
  · exact absurd (List.cons.inj hx).1.symm hk

/-- What the four readers leave of text that goes on with the object. A value that is the object itself
leaves nothing. -/
structure ReadsLeft (k : Char) (u : List Char) (n : Nat) : Prop where
  value : ∀ {s v r}, s ≠ [] → readValue n (s ++ '{' :: '"' :: k :: u) = some (v, r) → Left k u r
  elems : ∀ {s xs r}, s = [] ∨ Left k u s → readElems n s = some (xs, r) → Left k u r
  field : ∀ {s kv r}, readField n (s ++ '{' :: '"' :: k :: u) = some (kv, r) → r = [] ∨ Left k u r
  fields : ∀ {s kvs r}, s = [] ∨ Left k u s → readFields n s = some (kvs, r) → Left k u r

namespace ReadsLeft
variable {n : Nat} {s r : List Char}

theorem value_or_object (hw : Whole k u) (ih : ReadsLeft k u n) {v : Json}
    (h : readValue n (s ++ '{' :: '"' :: k :: u) = some (v, r)) : r = [] ∨ Left k u r := by
  by_cases hs : s = []
  · rw [hs] at h
    exact .inl (hw.ends _ _ _ h)
  · exact .inr (ih.value hs h)

theorem value_succ (hw : Whole k u) (ih : ReadsLeft k u n) {v : Json} (hs : s ≠ [])
    (h : readValue (n + 1) (s ++ '{' :: '"' :: k :: u) = some (v, r)) : Left k u r := by
  rw [readValue.eq_def] at h
  split at h
  · rename_i h0; cases h0
  · rename_i s' hn
    obtain ⟨a, -, rfl⟩ := append_brace (p := ['n', 'u', 'l', 'l']) hn.symm (by simp)
    cases h
    exact .whole a
  · rename_i s' hn
    obtain ⟨a, -, rfl⟩ := append_brace (p := ['t', 'r', 'u', 'e']) hn.symm (by simp)
    cases h
    exact .whole a
  · rename_i s' hn
    obtain ⟨a, -, rfl⟩ := append_brace (p := ['f', 'a', 'l', 's', 'e']) hn.symm (by simp)
    cases h
    exact .whole a
  · rename_i s' hn
    obtain ⟨a, -, rfl⟩ := append_brace (p := ['"']) hn.symm (by simp)
    obtain ⟨p, hp, he⟩ := Option.map_eq_some_iff.1 h
    cases he
    exact readStr_left hp
  · rename_i s' hn
    obtain ⟨a, -, rfl⟩ := append_brace (p := ['[', ']']) hn.symm (by simp)
    cases h
    exact .whole a
  · rename_i m s' hne hm hn
    cases hm
    obtain ⟨a, -, rfl⟩ := append_brace (p := ['[']) hn.symm (by simp)
    simp only [Option.bind_eq_bind, Option.bind_eq_some_iff] at h
    obtain ⟨⟨x, s₁⟩, hx, ⟨xs, s₂⟩, hxs, h⟩ := h
    cases h
    exact ih.elems (ih.value_or_object hw hx) hxs
  -- the brace is not that of the object, which has text before it
  · rename_i s' hn
    rcases s with _ | ⟨c, s⟩
    · exact absurd rfl hs
    rw [List.cons_append, List.cons.injEq] at hn
    obtain ⟨a, -, rfl⟩ := append_brace (p := ['}']) hn.2.symm (by simp)
    cases h
    exact .whole a
  · rename_i m s' hne hm hn
    cases hm
    rcases s with _ | ⟨c, s⟩
    · exact absurd rfl hs
    rw [List.cons_append, List.cons.injEq] at hn
    rw [← hn.2] at h
    simp only [Option.bind_eq_bind, Option.bind_eq_some_iff] at h
    obtain ⟨⟨x, s₁⟩, hx, ⟨xs, s₂⟩, hxs, h⟩ := h
    cases h
    exact ih.fields (ih.field hx) hxs
  · obtain ⟨p, hp, he⟩ := Option.map_eq_some_iff.1 h
    cases he
    obtain ⟨a, ha⟩ := readNum_left hp
    rw [ha]
    exact .whole a

theorem elems_succ (hw : Whole k u) (ih : ReadsLeft k u n) {xs : List Json} (hs : s = [] ∨ Left k u s)
    (h : readElems (n + 1) s = some (xs, r)) : Left k u r := by
  rcases hs with rfl | hs
  · cases h
  rw [readElems.eq_def] at h
  split at h
  · rename_i h0; cases h0
  · cases h
    obtain ⟨a, rfl⟩ := hs.tail (by decide) hw.letter.2.2.1
    exact .whole a
  · rename_i m s' hm
    cases hm
    obtain ⟨a, rfl⟩ := hs.tail (by decide) hw.letter.1
    simp only [Option.bind_eq_bind, Option.bind_eq_some_iff] at h
    obtain ⟨⟨x, s₁⟩, hx, ⟨xs, s₂⟩, hxs, h⟩ := h
    cases h
    exact ih.elems (ih.value_or_object hw hx) hxs
  · cases h

theorem field_succ (hw : Whole k u) (ih : ReadsLeft k u n) {kv : String × Json}
    (h : readField (n + 1) (s ++ '{' :: '"' :: k :: u) = some (kv, r)) : r = [] ∨ Left k u r := by
  rw [readField.eq_def] at h
  split at h
  · rename_i h0; cases h0
  · rename_i m s' hm hn
    cases hm
    obtain ⟨a, -, rfl⟩ := append_brace (p := ['"']) hn.symm (by simp)
    simp only [Option.bind_eq_bind, Option.bind_eq_some_iff] at h
    obtain ⟨⟨key, s₁⟩, hkey, h⟩ := h
    have hleft := readStr_left hkey
    dsimp only at h
    split at h
    · obtain ⟨b, rfl⟩ := hleft.tail (by decide) hw.letter.2.1
      simp only [Option.bind_eq_some_iff] at h
      obtain ⟨⟨v, s₃⟩, hv, h⟩ := h
      cases h
      exact ih.value_or_object hw hv
    · cases h
  · cases h

theorem fields_succ (hw : Whole k u) (ih : ReadsLeft k u n) {kvs : List (String × Json)}
    (hs : s = [] ∨ Left k u s) (h : readFields (n + 1) s = some (kvs, r)) : Left k u r := by
  rcases hs with rfl | hs
  · cases h
  rw [readFields.eq_def] at h
  split at h
  · rename_i h0; cases h0
  · cases h
    obtain ⟨a, rfl⟩ := hs.tail (by decide) hw.letter.2.2.2
    exact .whole a
  · rename_i m s' hm
    cases hm
    obtain ⟨a, rfl⟩ := hs.tail (by decide) hw.letter.1
    simp only [Option.bind_eq_bind, Option.bind_eq_some_iff] at h
    obtain ⟨⟨x, s₁⟩, hx, ⟨xs, s₂⟩, hxs, h⟩ := h
    cases h
    exact ih.fields (ih.field hx) hxs
  · cases h

end ReadsLeft

theorem readsLeft (hw : Whole k u) (n : Nat) : ReadsLeft k u n := by
  induction n with
  | zero =>
    refine ⟨?_, ?_, ?_, ?_⟩
    · intro s v r _ h; cases h
    · intro s xs r _ h; cases h
    · intro s kv r h; cases h
    · intro s kvs r _ h; cases h
  | succ n ih =>
    exact ⟨fun hs h => ih.value_succ hw hs h, fun hs h => ih.elems_succ hw hs h, fun h => ih.field_succ hw h,
      fun hs h => ih.fields_succ hw hs h⟩

/-- However much fuel there is, reading an object's text takes all of it. -/
theorem readValue_obj {kvs : List (String × Json)} {n : Nat} {v : Json} {r : List Char}
    (h : readValue n (text (.obj kvs)) = some (v, r)) : r = [] := by
  have hnum : isNum v = false := by
    obtain ⟨s, hs⟩ := text_obj_head kvs
    rw [hs] at h
    exact isNum_of_brace h
  have hmore := (read_extend n).value h (.inl hnum) (Nat.le_add_right n (text (.obj kvs)).length) []
  have hfull := readValue_text (.obj kvs) (n + (text (.obj kvs)).length) [] (by omega) trivial
  rw [hmore, List.append_nil, Option.some.injEq, Prod.mk.injEq] at hfull
  exact hfull.2

/-- Text followed by an object is no document, when the object's first key begins with a letter. -/
theorem read_glued {key : String} {cs : List Char} (hkey : key.toList = k :: cs)
    (hk : escapeChar k = [k]) (hletter : k ≠ ',' ∧ k ≠ ':' ∧ k ≠ ']' ∧ k ≠ '}')
    (v : Json) (kvs : List (String × Json)) {s : List Char} (hs : s ≠ []) :
    read (s ++ text (.obj ((key, v) :: kvs))) = none := by
  obtain ⟨u, hu⟩ : ∃ u, text (.obj ((key, v) :: kvs)) = '{' :: '"' :: k :: u := by
    refine ⟨cs.flatMap escapeChar ++ '"' :: ':' :: (text v ++ moreFields kvs), ?_⟩
    rw [text, strText, hkey, List.flatMap_cons, hk]
    simp
  have hw : Whole k u := by
    refine ⟨hletter, ?_⟩
    intro n v r h
    rw [← hu] at h
    exact readValue_obj h
  unfold read
  split
  · rename_i v' hv
    rw [hu] at hv
    have hleft := (readsLeft hw _).value hs hv
    generalize hnil : ([] : List Char) = x at hleft
    rcases hleft with a | _
    · simp at hnil
    · cases hnil
  · rfl

end Json
