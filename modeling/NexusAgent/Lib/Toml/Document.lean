import NexusAgent.Lib.Toml.Tables

/-!
# Documents written line by line

An `Item` is a line that a program writes: a blank line, a header, or a key with a quoted text or with a token.
The texts are written as they are. `parse_text`: if they are free of quotes, backslashes and control characters,
the document says what was meant. `basic_of_parse`: if what the document says at their keys is what was meant,
they are.
-/

namespace Toml

inductive Item where
  | blank
  | header (k : String)
  | quoted (k v : String)
  | token (k t : String)

namespace Item

def text : Item → List Char
  | .blank => ['\n']
  | .header k => '[' :: (k.toList ++ [']', '\n'])
  | .quoted k v => k.toList ++ (' ' :: '=' :: ' ' :: '"' :: (v.toList ++ ['"', '\n']))
  | .token k t => k.toList ++ (' ' :: '=' :: ' ' :: (t.toList ++ ['\n']))

/-- What the line is meant to say. -/
def stmts : Item → List Stmt
  | .blank => []
  | .header k => [.header [k]]
  | .quoted k v => [.keyval [k] (.str v)]
  | .token k t => (bare t.toList).toList.map (.keyval [k])

end Item

/-- A key that needs no quotes. -/
def Bare (k : String) : Prop := k.toList ≠ [] ∧ ∀ c ∈ k.toList, isBare c = true

instance (k : String) : Decidable (Bare k) :=
  decidable_of_iff (k.toList ≠ [] ∧ k.toList.all isBare) (by rw [List.all_eq_true]; rfl)

/-- A text that reads as a value without quotes. -/
def Token (t : String) : Prop :=
  t.toList ≠ [] ∧ (∀ c ∈ t.toList, isToken c = true) ∧ (bare t.toList).isSome = true

instance (t : String) : Decidable (Token t) :=
  decidable_of_iff (t.toList ≠ [] ∧ t.toList.all isToken ∧ (bare t.toList).isSome) (by rw [List.all_eq_true]; rfl)

/-- The keys need no quotes, and the tokens are tokens. -/
def Item.Plain : Item → Prop
  | .blank => True
  | .header k | .quoted k _ => Bare k
  | .token k t => Bare k ∧ Token t

def text (items : List Item) : List Char := items.flatMap Item.text

/-! ### Keys -/

section
variable {k : String} {n : Nat} {s : List Char}

theorem Bare.exists_cons (h : Bare k) : ∃ c cs, k.toList = c :: cs ∧ isBare c = true := by
  obtain ⟨c, cs, hk⟩ := List.exists_cons_of_ne_nil h.1
  exact ⟨c, cs, hk, h.2 c (hk ▸ List.mem_cons_self ..)⟩

theorem key_bare (h : Bare k) (hs : ∀ c ∈ s.head?, isBare c = false) : key (k.toList ++ s) = some (k, s) := by
  have htake : (k.toList ++ s).takeWhile isBare = k.toList := by
    rw [List.takeWhile_append_of_pos h.2]
    rcases s with _ | ⟨c, s⟩
    · simp
    · rw [List.takeWhile_cons_of_neg (by simp [hs c rfl]), List.append_nil]
  have hdrop : (k.toList ++ s).dropWhile isBare = s := by
    rw [List.dropWhile_append_of_pos h.2]
    rcases s with _ | ⟨c, s⟩
    · rfl
    · rw [List.dropWhile_cons_of_neg (by simp [hs c rfl])]
  obtain ⟨c, cs, hk, hc⟩ := h.exists_cons
  unfold key
  split
  next heq =>
    rw [hk] at heq
    cases heq
    cases hc
  next heq =>
    rw [hk] at heq
    cases heq
    cases hc
  next => rw [if_neg (by rw [htake]; exact h.1), htake, hdrop, String.ofList_toList]

theorem keys_bare {c : Char} {s' : List Char} (h : Bare k) (hs : ∀ c ∈ s.head?, isBare c = false)
    (hskip : skipWs s = c :: s') (hdot : c ≠ '.') : keys (n + 1) (k.toList ++ s) = some ([k], c :: s') := by
  unfold keys
  rw [key_bare h hs]
  simp only [hskip]
  split
  next heq => exact absurd (List.cons.inj heq).1 hdot
  next => rfl

end

/-! ### Lines -/

section
variable {k : String} {n : Nat} {s tail : List Char}

theorem skipWs_cons {c : Char} (hc : isWs c = false) (s : List Char) : skipWs (c :: s) = c :: s :=
  List.dropWhile_cons_of_neg (by simp [hc])

theorem lineEnd_newline (s : List Char) : lineEnd ('\n' :: s) = some s := rfl

theorem line_blank (n : Nat) (tail : List Char) : line n ('\n' :: tail) = some (none, tail) := rfl

theorem line_header (h : Bare k) :
    line (n + 1) ((Item.header k).text ++ tail) = some (some (.header [k]), tail) := by
  obtain ⟨c, cs, hk, hc⟩ := h.exists_cons
  have hws : isWs c = false := by
    rcases hw : isWs c with _ | _
    · rfl
    · simp only [isWs, Bool.or_eq_true, decide_eq_true_eq] at hw
      rcases hw with rfl | rfl <;> cases hc
  have hheader : header (n + 1) (k.toList ++ ']' :: '\n' :: tail) = some (.header [k], tail) := by
    unfold header
    rw [hk, List.cons_append, skipWs_cons hws, ← List.cons_append, ← hk]
    rw [keys_bare h (fun c hc => by cases hc; rfl) (skipWs_cons rfl _) (by decide)]
    rfl
  have htext : (Item.header k).text ++ tail = '[' :: (k.toList ++ ']' :: '\n' :: tail) := by
    simp [Item.text]
  rw [htext, line, skipWs_cons rfl]
  split
  next heq =>
    have hhead := (List.cons.inj heq).2
    rw [hk] at hhead
    cases hhead
    cases hc
  next heq =>
    cases heq
    rw [hheader]
    rfl
  next heq => cases heq
  next heq => cases heq
  next heq => cases heq
  next heq => cases heq
  next hheader' _ _ _ _ => exact (hheader' _ rfl).elim

/-- A line that starts with a key. -/
theorem line_keyval (h : Bare k) (s : List Char) :
    line n (k.toList ++ s) = (keyval n (k.toList ++ s)).map fun (stmt, s) => (some stmt, s) := by
  obtain ⟨c, cs, hk, hc⟩ := h.exists_cons
  have hne (d : Char) (hd : isBare d = false) : c ≠ d := by
    rintro rfl
    rw [hc] at hd
    cases hd
  have hskip : skipWs (k.toList ++ s) = k.toList ++ s := by
    rw [hk, List.cons_append]
    refine skipWs_cons ?_ _
    simp [isWs, hne ' ' rfl, hne '\t' rfl]
  unfold line
  rw [hskip, hk, List.cons_append]
  split
  next heq => exact absurd (List.cons.inj heq).1 (hne '[' rfl)
  next heq => exact absurd (List.cons.inj heq).1 (hne '[' rfl)
  next heq => cases heq
  next heq => exact absurd (List.cons.inj heq).1 (hne '#' rfl)
  next heq => exact absurd (List.cons.inj heq).1 (hne '\n' rfl)
  next heq => exact absurd (List.cons.inj heq).1 (hne '\r' rfl)
  next => rfl

theorem keyval_eq {c : Char} (h : Bare k) (hc : isWs c = false) (s : List Char) :
    keyval (n + 1) (k.toList ++ ' ' :: '=' :: ' ' :: c :: s) =
      match value (n + 1) (c :: s) with
      | some (v, s) => (lineEnd s).map fun s => (.keyval [k] v, s)
      | none => none := by
  have hskip : skipWs (' ' :: c :: s) = c :: s := skipWs_cons hc s
  have hkeys : keys (n + 1) (k.toList ++ ' ' :: '=' :: ' ' :: c :: s) = some ([k], '=' :: ' ' :: c :: s) :=
    keys_bare h (fun d hd => by cases hd; rfl) rfl (by decide)
  unfold keyval
  rw [hkeys]
  show (match value (n + 1) (skipWs (' ' :: c :: s)) with
    | some (v, s) => (lineEnd s).map fun s => (.keyval [k] v, s)
    | none => none : Result Stmt) = _
  rw [hskip]

theorem line_quoted (h : Bare k) (v : String) :
    line (n + 1) ((Item.quoted k v).text ++ tail) =
      match string ('"' :: (v.toList ++ '"' :: '\n' :: tail)) with
      | some (u, s) => (lineEnd s).map fun s => (some (.keyval [k] (.str (String.ofList u))), s)
      | none => none := by
  have htext : (Item.quoted k v).text ++ tail =
      k.toList ++ ' ' :: '=' :: ' ' :: '"' :: (v.toList ++ '"' :: '\n' :: tail) := by
    simp [Item.text]
  rw [htext, line_keyval h, keyval_eq h rfl]
  unfold value
  rcases string ('"' :: (v.toList ++ '"' :: '\n' :: tail)) with _ | ⟨u, s⟩
  · rfl
  · show Option.map _ ((lineEnd s).map _) = (lineEnd s).map _
    rw [Option.map_map]
    rfl

/-- Whatever a quoted text reads as is what the line says. -/
theorem of_line_quoted {v : String} {stmt : Option Stmt} {rest : List Char} (h : Bare k)
    (hline : line (n + 1) ((Item.quoted k v).text ++ tail) = some (stmt, rest)) :
    ∃ u s, string ('"' :: (v.toList ++ '"' :: '\n' :: tail)) = some (u, s) ∧
      stmt = some (.keyval [k] (.str (String.ofList u))) := by
  rw [line_quoted h] at hline
  rcases hread : string ('"' :: (v.toList ++ '"' :: '\n' :: tail)) with _ | ⟨u, s⟩ <;> rw [hread] at hline
  · cases hline
  · obtain ⟨rest', -, hstmt⟩ := Option.map_eq_some_iff.1 hline
    exact ⟨u, s, rfl, (Prod.mk.inj hstmt).1.symm⟩

theorem line_token {t : String} {v : Value} (h : Bare k) (hne : t.toList ≠ [])
    (ht : ∀ c ∈ t.toList, isToken c = true) (hv : bare t.toList = some v) :
    line (n + 1) ((Item.token k t).text ++ tail) = some (some (.keyval [k] v), tail) := by
  obtain ⟨c, cs, hcs⟩ := List.exists_cons_of_ne_nil hne
  have hc : isToken c = true := ht c (hcs ▸ List.mem_cons_self ..)
  have hne (d : Char) (hd : isToken d = false) : c ≠ d := by
    rintro rfl
    rw [hc] at hd
    cases hd
  have htoken : token (t.toList ++ '\n' :: tail) = (t.toList, '\n' :: tail) := by
    have htake : (t.toList ++ '\n' :: tail).takeWhile isToken = t.toList := by
      rw [List.takeWhile_append_of_pos ht, List.takeWhile_cons_of_neg (by decide), List.append_nil]
    have hdrop : (t.toList ++ '\n' :: tail).dropWhile isToken = '\n' :: tail := by
      rw [List.dropWhile_append_of_pos ht, List.dropWhile_cons_of_neg (by decide)]
    unfold token
    rw [hdrop, htake]
    rfl
  have htext : (Item.token k t).text ++ tail =
      k.toList ++ ' ' :: '=' :: ' ' :: c :: (cs ++ '\n' :: tail) := by
    simp [Item.text, hcs]
  have hvalue : value (n + 1) (c :: (cs ++ '\n' :: tail)) = some (v, '\n' :: tail) := by
    rw [← List.cons_append, ← hcs]
    unfold value
    split
    next heq => exact absurd (List.cons.inj (hcs ▸ heq)).1 (hne '"' rfl)
    next heq => exact absurd (List.cons.inj (hcs ▸ heq)).1 (hne '\'' rfl)
    next heq => exact absurd (List.cons.inj (hcs ▸ heq)).1 (hne '[' rfl)
    next heq => exact absurd (List.cons.inj (hcs ▸ heq)).1 (hne '{' rfl)
    next => rw [htoken, hv]; rfl
  have hws : isWs c = false := by simp [isWs, hne ' ' rfl, hne '\t' rfl]
  rw [htext, line_keyval h, keyval_eq h hws, hvalue]
  rfl

end

/-! ### Documents -/

variable {item : Item} {items : List Item} {n m : Nat} {tail : List Char}

theorem text_cons (item : Item) (items : List Item) : text (item :: items) = item.text ++ text items :=
  List.flatMap_cons

theorem Item.length_text_pos (item : Item) : 0 < item.text.length := by
  cases item <;> simp only [Item.text, List.length_append, List.length_cons, List.length_nil] <;> omega

theorem stmts_succ {s : List Char} (hs : s ≠ []) :
    stmts n (m + 1) s =
      match line n s with
      | some (stmt, s) => (stmts n m s).map (stmt.toList ++ ·)
      | none => none := by
  cases s with
  | nil => exact absurd rfl hs
  | cons c s => rfl

theorem of_stmts_succ {s : List Char} {ss : List Stmt} (hs : s ≠ []) (h : stmts n (m + 1) s = some ss) :
    ∃ stmt rest ss', line n s = some (stmt, rest) ∧ ss = stmt.toList ++ ss' := by
  rw [stmts_succ hs] at h
  rcases hline : line n s with _ | ⟨stmt, rest⟩ <;> rw [hline] at h
  · cases h
  · obtain ⟨ss', -, rfl⟩ := Option.map_eq_some_iff.1 h
    exact ⟨stmt, rest, ss', rfl, rfl⟩

/-- The text of the item holds what is in quotes as it is. -/
def Item.Basic : Item → Prop
  | .quoted _ v => ∀ c ∈ v.toList, isBasic c = true
  | _ => True

theorem line_item (h : item.Plain) (hbasic : item.Basic) :
    ∃ stmt, line (n + 1) (item.text ++ tail) = some (stmt, tail) ∧ stmt.toList = item.stmts := by
  cases item with
  | blank => exact ⟨none, line_blank .., rfl⟩
  | header k => exact ⟨_, line_header h, rfl⟩
  | quoted k v =>
    refine ⟨some (.keyval [k] (.str v)), ?_, rfl⟩
    rw [line_quoted h, string_quoted hbasic]
    show (lineEnd ('\n' :: tail)).map _ = _
    rw [lineEnd_newline, String.ofList_toList]
    rfl
  | token k t =>
    obtain ⟨hk, hne, ht, hsome⟩ := h
    obtain ⟨v, hv⟩ := Option.isSome_iff_exists.1 hsome
    refine ⟨_, line_token hk hne ht hv, ?_⟩
    rw [Item.stmts, hv]
    rfl

theorem stmts_item {s : List Stmt} (h : item.Plain) (hbasic : item.Basic) :
    stmts (n + 1) (m + 1) (item.text ++ tail) = some s ↔
      ∃ s', stmts (n + 1) m tail = some s' ∧ s = item.stmts ++ s' := by
  have hne : item.text ++ tail ≠ [] := by
    intro he
    have hpos := item.length_text_pos
    rw [(List.append_eq_nil_iff.1 he).1] at hpos
    cases hpos
  obtain ⟨stmt, hline, hstmt⟩ : ∃ stmt, line (n + 1) (item.text ++ tail) = some (stmt, tail) ∧
      stmt.toList = item.stmts := line_item h hbasic
  rw [stmts_succ hne, hline, ← hstmt]
  show (stmts (n + 1) m tail).map _ = _ ↔ _
  rw [Option.map_eq_some_iff]
  exact exists_congr fun s' => and_congr_right fun _ => eq_comm

theorem stmts_text (h : ∀ i ∈ items, i.Plain ∧ i.Basic) (hm : (text items).length ≤ m) :
    stmts (n + 1) m (text items) = some (items.flatMap Item.stmts) := by
  induction items generalizing m with
  | nil => cases m <;> rfl
  | cons item items ih =>
    obtain ⟨⟨hplain, hbasic⟩, hrest⟩ := List.forall_mem_cons.1 h
    have hpos := item.length_text_pos
    rw [text_cons, List.length_append] at hm
    obtain ⟨m, rfl⟩ : ∃ m', m = m' + 1 := ⟨m - 1, by omega⟩
    rw [text_cons]
    exact (stmts_item hplain hbasic).2 ⟨_, ih hrest (by omega), rfl⟩

/-- A document whose quoted texts need no escapes says what was meant. -/
theorem parse_text (h : ∀ i ∈ items, i.Plain ∧ i.Basic) (hmark : dropMark (text items) = text items) :
    parse (String.ofList (text items)) = (run ⟨[], []⟩ (items.flatMap Item.stmts)).map State.root := by
  unfold parse
  rw [String.toList_ofList, hmark]
  simp only [stmts_text h (Nat.le_succ _), Option.bind_some]

/-! ### What is meant is what is read -/

/-- The quoted texts with the paths of their keys, where `path` is that of the table before the first line. -/
def quotedAt : List String → List Item → List (List String × String)
  | _, [] => []
  | _, .header k :: items => quotedAt [k] items
  | path, .quoted k v :: items => (path ++ [k], v) :: quotedAt path items
  | path, .blank :: items => quotedAt path items
  | path, .token _ _ :: items => quotedAt path items

/-- The pairs go to the top, or to a table that is there. -/
def Opened (st : State) : Prop :=
  st.path = [] ∨ ∃ k kind es, st.path = [k] ∧ st.root.lookup k = some (.table kind es)

theorem quote_not_mem {k : String} (h : Bare k) : '"' ∉ k.toList := by
  intro hmem
  cases h.2 _ hmem

/-- Between a line and the next quote there is an equals sign. -/
theorem exists_equals {k t : String} (h : ∀ i ∈ items ++ [.token k t], i.Plain) :
    ∃ pre post, '\n' :: text (items ++ [.token k t]) = pre ++ '=' :: post ∧ '"' ∉ pre := by
  have hpair {k : String} (hk : Bare k) (rest : List Char) :
      ∃ pre post, '\n' :: (k.toList ++ ' ' :: '=' :: rest) = pre ++ '=' :: post ∧ '"' ∉ pre := by
    refine ⟨'\n' :: (k.toList ++ [' ']), rest, by simp, ?_⟩
    simp [quote_not_mem hk]
  induction items with
  | nil =>
    obtain ⟨hk, -⟩ := h (.token k t) (List.mem_singleton_self _)
    simpa [text, Item.text] using hpair hk _
  | cons item items ih =>
    obtain ⟨hitem, hrest⟩ := List.forall_mem_cons.1 h
    obtain ⟨pre, post, heq, hpre⟩ := ih hrest
    rw [List.cons_append, text_cons]
    cases item with
    | blank => exact ⟨'\n' :: pre, post, by simp [Item.text, heq], by simp [hpre]⟩
    | header k =>
      refine ⟨'\n' :: '[' :: (k.toList ++ ']' :: pre), post, ?_, ?_⟩
      · simp [Item.text, heq]
      · simp [hpre, quote_not_mem hitem]
    | quoted k v => simpa [Item.text] using hpair hitem _
    | token k t => simpa [Item.text] using hpair hitem.1 _

variable {st st' : State}

theorem opened_header {k : String} (h : step st (.header [k]) = some st') : st'.path = [k] ∧ Opened st' := by
  obtain ⟨es, hes, rfl⟩ := Option.map_eq_some_iff.1 h
  obtain ⟨⟨v, hv, hlookup⟩, -⟩ := lookup_alter hes
  refine ⟨rfl, .inr ⟨k, ?_⟩⟩
  unfold openTable at hv
  split at hv
  next => cases hv; exact ⟨_, _, rfl, hlookup⟩
  next => cases hv; exact ⟨_, _, rfl, hlookup⟩
  next => cases hv

/-- A pair puts its value under its key. -/
theorem opened_keyval {k : String} {v : Value} (ho : Opened st) (h : step st (.keyval [k] v) = some st') :
    st'.path = st.path ∧ Opened st' ∧ ∀ s, v = .str s → strAt (st.path ++ [k]) st'.root = some s := by
  obtain ⟨es, hes, rfl⟩ := Option.map_eq_some_iff.1 h
  have hassign {es es' : Entries} (h : assign v [k] es = some es') : es'.lookup k = some v := by
    obtain ⟨⟨v', hv', hlookup⟩, -⟩ := lookup_alter h
    split at hv' <;> cases hv'
    exact hlookup
  refine ⟨rfl, ?_⟩
  rcases ho with hpath | ⟨k₀, kind, es₀, hpath, htable⟩
  · rw [hpath] at hes ⊢
    refine ⟨.inl rfl, fun s hs => ?_⟩
    have hk : es.lookup k = some v := hassign hes
    rw [hs] at hk
    rw [List.nil_append, strAt, hk]
  · rw [hpath] at hes ⊢
    obtain ⟨⟨v', hv', hlookup⟩, -⟩ := lookup_alter hes
    rw [htable] at hv'
    split at hv'
    next heq => cases heq
    next => cases hv'
    next kind es₁ _ heq =>
      cases heq
      obtain ⟨es₂, hes₂, rfl⟩ := Option.map_eq_some_iff.1 hv'
      refine ⟨.inr ⟨k₀, _, es₂, rfl, hlookup⟩, fun s hs => ?_⟩
      have hk : es₂.lookup k = some v := hassign hes₂
      rw [hs] at hk
      rw [List.singleton_append, strAt.eq_3 _ _ _ (List.cons_ne_nil k []), hlookup]
      dsimp only
      rw [strAt, hk]
    next heq => cases heq
    next => cases hv'

theorem run_cons {stmt : Stmt} {stmts : List Stmt} (h : run st (stmt :: stmts) = some st') :
    ∃ st₁, step st stmt = some st₁ ∧ run st₁ stmts = some st' := by
  unfold run at h
  split at h
  next st₁ hstep => exact ⟨st₁, hstep, h⟩
  next => cases h

/-- A document that says at the keys of its quoted texts nothing else than what was meant needs no escapes. -/
theorem basic_of_run {k t : String} {s : List Stmt} (h : ∀ i ∈ items ++ [.token k t], i.Plain) (ho : Opened st)
    (hs : stmts (n + 1) m (text (items ++ [.token k t])) = some s) (hrun : run st s = some st')
    (hsame : ∀ p ∈ quotedAt st.path items, ∀ u, strAt p.1 st'.root = some u → u = p.2) :
    ∀ i ∈ items, i.Basic := by
  induction items generalizing m st s with
  | nil => simp
  | cons item items ih =>
    obtain ⟨hitem, hrest⟩ := List.forall_mem_cons.1 h
    have hne : item.text ++ text (items ++ [.token k t]) ≠ [] := by
      intro he
      have hpos := item.length_text_pos
      rw [(List.append_eq_nil_iff.1 he).1] at hpos
      cases hpos
    rw [List.cons_append, text_cons] at hs
    obtain ⟨m, rfl⟩ : ∃ m', m = m' + 1 := by
      cases m with
      | zero =>
        obtain ⟨c, cs, hcs⟩ := List.exists_cons_of_ne_nil hne
        rw [hcs] at hs
        cases hs
      | succ m => exact ⟨m, rfl⟩
    refine List.forall_mem_cons.2 ?_
    cases item with
    | blank =>
      obtain ⟨s', hs', rfl⟩ := (stmts_item hitem trivial).1 hs
      exact ⟨trivial, ih hrest ho hs' hrun hsame⟩
    | header k₁ =>
      obtain ⟨s', hs', rfl⟩ := (stmts_item hitem trivial).1 hs
      obtain ⟨st₁, hstep, hrun₁⟩ := run_cons hrun
      obtain ⟨hpath, ho₁⟩ := opened_header hstep
      refine ⟨trivial, ih hrest ho₁ hs' hrun₁ ?_⟩
      rw [hpath]
      exact hsame
    | token k₁ t₁ =>
      obtain ⟨s', hs', rfl⟩ := (stmts_item hitem trivial).1 hs
      obtain ⟨v, hv⟩ := Option.isSome_iff_exists.1 hitem.2.2.2
      rw [Item.stmts, hv] at hrun
      obtain ⟨st₁, hstep, hrun₁⟩ := run_cons hrun
      obtain ⟨hpath, ho₁, -⟩ := opened_keyval ho hstep
      refine ⟨trivial, ih hrest ho₁ hs' hrun₁ ?_⟩
      rw [hpath]
      exact hsame
    | quoted k₁ v =>
      -- whatever text is read, it ends up under the key, so it is the one that was meant
      have hbasic : (Item.quoted k₁ v).Basic := by
        obtain ⟨stmt, rest, s', hline, rfl⟩ := of_stmts_succ hne hs
        obtain ⟨u, rest', hread, rfl⟩ := of_line_quoted hitem hline
        obtain ⟨st₁, hstep, hrun₁⟩ := run_cons hrun
        obtain ⟨-, -, hstr⟩ := opened_keyval ho hstep
        have hat := extends_run hrun₁ _ _ (hstr _ rfl)
        have hu : String.ofList u = v := hsame (st.path ++ [k₁], v) (List.mem_cons_self ..) _ hat
        obtain ⟨pre, post, hpost, hpre⟩ := exists_equals hrest
        have hv : u = v.toList := by rw [← hu, String.toList_ofList]
        exact of_string_quoted hpost hpre (hv ▸ hread)
      obtain ⟨s', hs', rfl⟩ := (stmts_item hitem hbasic).1 hs
      obtain ⟨st₁, hstep, hrun₁⟩ := run_cons hrun
      obtain ⟨hpath, ho₁, -⟩ := opened_keyval ho hstep
      refine ⟨hbasic, ih hrest ho₁ hs' hrun₁ ?_⟩
      rw [hpath]
      exact fun p hp => hsame p (List.mem_cons_of_mem _ hp)

theorem basic_of_parse {k t : String} {es : Entries} (h : ∀ i ∈ items ++ [.token k t], i.Plain)
    (hmark : dropMark (text (items ++ [.token k t])) = text (items ++ [.token k t]))
    (hparse : parse (String.ofList (text (items ++ [.token k t]))) = some es)
    (hsame : ∀ p ∈ quotedAt [] items, ∀ u, strAt p.1 es = some u → u = p.2) : ∀ i ∈ items, i.Basic := by
  unfold parse at hparse
  rw [String.toList_ofList, hmark] at hparse
  obtain ⟨st', hrun, rfl⟩ := Option.map_eq_some_iff.1 hparse
  obtain ⟨s, hs, hrun⟩ := Option.bind_eq_some_iff.1 hrun
  exact basic_of_run h (.inl rfl) hs hrun hsame

end Toml
