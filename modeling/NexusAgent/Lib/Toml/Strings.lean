import Mathlib.Data.List.Basic

/-!
# Strings of TOML 1.0

The four kinds of strings, read character by character. `basic_plain` reads a text back that needs no escapes;
`of_basic` and `of_multi` bound what a string can hold by the characters it is read from.
-/

namespace Toml

/-- What a parser gives, and the rest of the text. -/
abbrev Result (α : Type) := Option (α × List Char)

def push (c : Char) : List Char × List Char → List Char × List Char
  | (out, rest) => (c :: out, rest)

/-- Not a control character, other than the tab. -/
def isText (c : Char) : Bool := c = '\t' || (' ' ≤ c && c != '\x7f')

/-- A character that a basic string holds as it is. -/
def isBasic (c : Char) : Bool := isText c && c != '"' && c != '\\'

def isWs (c : Char) : Bool := c = ' ' || c = '\t'

def hexDigit (c : Char) : Option Nat :=
  if '0' ≤ c ∧ c ≤ '9' then some (c.toNat - '0'.toNat)
  else if 'a' ≤ c ∧ c ≤ 'f' then some (c.toNat - 'a'.toNat + 10)
  else if 'A' ≤ c ∧ c ≤ 'F' then some (c.toNat - 'A'.toNat + 10)
  else none

/-- The character after a backslash, and what the two stand for. -/
def escapeChar : Char → Option Char
  | 'b' => some '\x08'
  | 't' => some '\t'
  | 'n' => some '\n'
  | 'f' => some '\x0c'
  | 'r' => some '\r'
  | '"' => some '"'
  | '\\' => some '\\'
  | _ => none

/-- The number of digits, less one, that follow `\u` or `\U`. -/
def unicodeDigits : Char → Option Nat
  | 'u' => some 3
  | 'U' => some 7
  | _ => none

def scalar (n : Nat) : Option Char := if n.isValidChar then some (Char.ofNat n) else none

/-- Where a reader is: in the text, after a backslash, before the last `left + 1` digits of an escape, in the
blanks between a backslash and the end of its line, in the blanks after that, or after a carriage return. -/
inductive Mode where
  | plain
  | escape
  | hex (left acc : Nat)
  | fold
  | trim
  | foldCr
  | cr
  deriving DecidableEq

/-- A string on one line, after its opening quote. -/
def basic : Mode → List Char → Result (List Char)
  | _, [] => none
  | .escape, c :: s =>
    match escapeChar c, unicodeDigits c with
    | some d, _ => (basic .plain s).map (push d)
    | none, some n => basic (.hex n 0) s
    | none, none => none
  | .hex n acc, c :: s =>
    match hexDigit c, n with
    | some d, n + 1 => basic (.hex n (acc * 16 + d)) s
    | some d, 0 =>
      match scalar (acc * 16 + d) with
      | some ch => (basic .plain s).map (push ch)
      | none => none
    | none, _ => none
  | _, c :: s =>
    if c = '"' then some ([], s)
    else if c = '\\' then basic .escape s
    else if isBasic c then (basic .plain s).map (push c)
    else none

/-- Up to two quotes in front of the text. -/
def moreQuotes (q : Char) : List Char → List Char × List Char
  | a :: b :: s => if a = q then (if b = q then ([q, q], s) else ([q], b :: s)) else ([], a :: b :: s)
  | [a] => if a = q then ([q], []) else ([], [a])
  | [] => ([], [])

/-- A string of several lines, after its opening quotes. -/
def multi : Mode → List Char → Result (List Char)
  | _, [] => none
  | .escape, c :: s =>
    match escapeChar c, unicodeDigits c with
    | some d, _ => (multi .plain s).map (push d)
    | none, some n => multi (.hex n 0) s
    | none, none =>
      if isWs c then multi .fold s
      else if c = '\n' then multi .trim s
      else if c = '\r' then multi .foldCr s
      else none
  | .hex n acc, c :: s =>
    match hexDigit c, n with
    | some d, n + 1 => multi (.hex n (acc * 16 + d)) s
    | some d, 0 =>
      match scalar (acc * 16 + d) with
      | some ch => (multi .plain s).map (push ch)
      | none => none
    | none, _ => none
  | .fold, c :: s =>
    if isWs c then multi .fold s
    else if c = '\n' then multi .trim s
    else if c = '\r' then multi .foldCr s
    else none
  | .foldCr, c :: s => if c = '\n' then multi .trim s else none
  | .cr, c :: s => if c = '\n' then (multi .plain s).map (push '\n') else none
  | mode, c :: s =>
    if mode = .trim ∧ (isWs c ∨ c = '\n') then multi .trim s
    else if mode = .trim ∧ c = '\r' then multi .foldCr s
    else if c = '"' then
      match s with
      | '"' :: '"' :: s => some (moreQuotes '"' s)
      | _ => (multi .plain s).map (push '"')
    else if c = '\\' then multi .escape s
    else if c = '\r' then multi .cr s
    else if c = '\n' ∨ isText c then (multi .plain s).map (push c)
    else none

/-- A literal string on one line, after its opening quote. -/
def literal : List Char → Result (List Char)
  | [] => none
  | c :: s => if c = '\'' then some ([], s) else if isText c then (literal s).map (push c) else none

/-- A literal string of several lines, after its opening quotes, or after a carriage return in it. -/
def multiLiteral : Bool → List Char → Result (List Char)
  | _, [] => none
  | true, c :: s => if c = '\n' then (multiLiteral false s).map (push '\n') else none
  | false, c :: s =>
    if c = '\'' then
      match s with
      | '\'' :: '\'' :: s => some (moreQuotes '\'' s)
      | _ => (multiLiteral false s).map (push '\'')
    else if c = '\r' then multiLiteral true s
    else if c = '\n' ∨ isText c then (multiLiteral false s).map (push c)
    else none

/-- A newline right after the opening quotes does not belong to the string. -/
def trimFirst : List Char → List Char
  | '\n' :: s => s
  | '\r' :: '\n' :: s => s
  | s => s

def string : List Char → Result (List Char)
  | '"' :: s =>
    match s with
    | '"' :: '"' :: s => multi .plain (trimFirst s)
    | _ => basic .plain s
  | '\'' :: s =>
    match s with
    | '\'' :: '\'' :: s => multiLiteral false (trimFirst s)
    | _ => literal s
  | _ => none

/-! ### Strings without escapes -/

variable {s v out rest tail : List Char} {mode : Mode}

theorem isText_of_isBasic {c : Char} (h : isBasic c = true) : isText c = true ∧ c ≠ '"' ∧ c ≠ '\\' := by
  simpa [isBasic, and_assoc] using h

theorem basic_plain (hv : ∀ c ∈ v, isBasic c = true) : basic .plain (v ++ '"' :: tail) = some (v, tail) := by
  induction v with
  | nil => rfl
  | cons c v ih =>
    obtain ⟨hc, hv⟩ := List.forall_mem_cons.1 hv
    obtain ⟨-, hquote, hslash⟩ := isText_of_isBasic hc
    rw [List.cons_append, basic, if_neg hquote, if_neg hslash, if_pos hc, ih hv]
    rfl
    all_goals simp

/-! ### What a string is read from -/

theorem exists_of_push {r : Result (List Char)} {d : Char} (h : r.map (push d) = some (out, rest)) :
    ∃ out', r = some (out', rest) ∧ out = d :: out' := by
  obtain ⟨⟨out', rest'⟩, hr, he⟩ := Option.map_eq_some_iff.1 h
  cases he
  exact ⟨out', hr, rfl⟩

theorem newline_of_escapeChar {c d : Char} (h : escapeChar c = some d) : c ≠ '\n' ∧ c ≠ '=' := by
  constructor
  all_goals
    rintro rfl
    cases h

theorem newline_of_unicodeDigits {c : Char} {n : Nat} (h : unicodeDigits c = some n) : c ≠ '\n' ∧ c ≠ '=' := by
  constructor
  all_goals
    rintro rfl
    cases h

theorem newline_of_hexDigit {c : Char} {n : Nat} (h : hexDigit c = some n) : c ≠ '\n' ∧ c ≠ '=' := by
  constructor
  all_goals
    rintro rfl
    cases h

theorem newline_of_isBasic {c : Char} (h : isBasic c = true) : c ≠ '\n' := by
  rintro rfl
  cases h

/-- What a string on one line is read from: no newline, more characters than the string has, and if it is just
one more, then the string holds them as they are. -/
structure ReadBasic (mode : Mode) (used out : List Char) : Prop where
  oneLine : '\n' ∉ used
  length : out.length + 1 ≤ used.length
  basic : mode = .plain → out.length + 1 = used.length → ∀ c ∈ out, isBasic c = true

namespace ReadBasic

variable {c d : Char} {mode' : Mode}

theorem skip (h : ∃ used, s = used ++ rest ∧ ReadBasic mode' used out) (hc : c ≠ '\n') :
    ∃ used, c :: s = used ++ rest ∧ ReadBasic mode used out := by
  obtain ⟨used, rfl, h⟩ := h
  refine ⟨c :: used, rfl, List.not_mem_cons_of_ne_of_not_mem (Ne.symm hc) h.oneLine,
    Nat.le_succ_of_le h.length, fun _ he => ?_⟩
  have := h.length
  rw [List.length_cons] at he
  omega

theorem push (h : ∃ used, s = used ++ rest ∧ ReadBasic .plain used out) (hc : c ≠ '\n')
    (hd : mode = .plain → isBasic d = true) : ∃ used, c :: s = used ++ rest ∧ ReadBasic mode used (d :: out) := by
  obtain ⟨used, rfl, h⟩ := h
  refine ⟨c :: used, rfl, List.not_mem_cons_of_ne_of_not_mem (Ne.symm hc) h.oneLine,
    Nat.succ_le_succ h.length, fun hm he => ?_⟩
  exact List.forall_mem_cons.2 ⟨hd hm, h.basic rfl (Nat.succ.inj he)⟩

end ReadBasic

theorem of_basic (h : basic mode s = some (out, rest)) : ∃ used, s = used ++ rest ∧ ReadBasic mode used out := by
  fun_induction basic mode s generalizing out with
  | case1 => cases h
  | case2 c s d hd ih =>
    obtain ⟨out, hs, rfl⟩ := exists_of_push h
    exact ReadBasic.push (ih hs) (newline_of_escapeChar hd).1 fun hm => by cases hm
  | case3 c s n hn _ ih => exact ReadBasic.skip (ih h) (newline_of_unicodeDigits hn).1
  | case4 => cases h
  | case5 acc c s d n hd ih => exact ReadBasic.skip (ih h) (newline_of_hexDigit hd).1
  | case6 acc c s d hd ch hch ih =>
    obtain ⟨out, hs, rfl⟩ := exists_of_push h
    exact ReadBasic.push (ih hs) (newline_of_hexDigit hd).1 fun hm => by cases hm
  | case7 => cases h
  | case8 => cases h
  | case9 mode s =>
    cases h
    exact ⟨['"'], rfl, by simp, by simp, by simp⟩
  | case10 mode s _ _ _ ih => exact ReadBasic.skip (ih h) (by decide)
  | case11 mode c s _ _ _ _ hc ih =>
    obtain ⟨out, hs, rfl⟩ := exists_of_push h
    exact ReadBasic.push (ih hs) (newline_of_isBasic hc) fun _ => hc
  | case12 => cases h

/-- What a string of several lines is read from: it ends with quotes, has at least three characters more than
the string, and every `=` in it is in the string. -/
structure ReadMulti (used out : List Char) : Prop where
  quoted : used.getLast? = some '"'
  length : out.length + 3 ≤ used.length
  equals : used.count '=' ≤ out.count '='

namespace ReadMulti

variable {c d : Char}

theorem skip (h : ∃ used, s = used ++ rest ∧ ReadMulti used out) (hc : c ≠ '=') :
    ∃ used, c :: s = used ++ rest ∧ ReadMulti used out := by
  obtain ⟨used, rfl, h⟩ := h
  refine ⟨c :: used, rfl, ?_, Nat.le_succ_of_le h.length, ?_⟩
  · rw [List.getLast?_cons, h.quoted]; rfl
  · rw [List.count_cons_of_ne hc]
    exact h.equals

theorem push (h : ∃ used, s = used ++ rest ∧ ReadMulti used out) (hc : c = '=' → d = '=') :
    ∃ used, c :: s = used ++ rest ∧ ReadMulti used (d :: out) := by
  obtain ⟨used, rfl, h⟩ := h
  refine ⟨c :: used, rfl, ?_, Nat.succ_le_succ h.length, ?_⟩
  · rw [List.getLast?_cons, h.quoted]; rfl
  · have := h.equals
    by_cases he : c = '='
    · rw [he, hc he, List.count_cons_self, List.count_cons_self]
      omega
    · rw [List.count_cons_of_ne he]
      exact Nat.le_trans this List.count_le_count_cons

theorem close (h : moreQuotes '"' s = (out, rest)) :
    ∃ used, '"' :: '"' :: '"' :: s = used ++ rest ∧ ReadMulti used out := by
  have hquotes : ∃ n ≤ 2, out = List.replicate n '"' ∧ s = out ++ rest := by
    unfold moreQuotes at h
    split at h
    next x y t =>
      by_cases hx : x = '"'
      · by_cases hy : y = '"'
        · rw [if_pos hx, if_pos hy] at h
          cases h; exact ⟨2, Nat.le_refl 2, rfl, by rw [hx, hy]; rfl⟩
        · rw [if_pos hx, if_neg hy] at h
          cases h; exact ⟨1, by decide, rfl, by rw [hx]; rfl⟩
      · rw [if_neg hx] at h
        cases h; exact ⟨0, by decide, rfl, rfl⟩
    next x =>
      by_cases hx : x = '"'
      · rw [if_pos hx] at h
        cases h; exact ⟨1, by decide, rfl, by rw [hx]; rfl⟩
      · rw [if_neg hx] at h
        cases h; exact ⟨0, by decide, rfl, rfl⟩
    next => cases h; exact ⟨0, by decide, rfl, rfl⟩
  obtain ⟨n, hn, rfl, rfl⟩ := hquotes
  refine ⟨List.replicate (n + 3) '"', rfl, ?_, by simp, ?_⟩
  · rw [List.getLast?_replicate, if_neg (by omega)]
  · rw [List.count_replicate, List.count_replicate]
    exact Nat.le_refl 0

end ReadMulti

theorem of_multi (h : multi mode s = some (out, rest)) : ∃ used, s = used ++ rest ∧ ReadMulti used out := by
  have hws {c : Char} (h : isWs c = true) : c ≠ '=' := by
    rintro rfl
    cases h
  fun_induction multi mode s generalizing out with
  | case1 => cases h
  | case2 c s d hd ih =>
    obtain ⟨out, hs, rfl⟩ := exists_of_push h
    exact ReadMulti.push (ih hs) fun he => absurd he (newline_of_escapeChar hd).2
  | case3 c s n hn _ ih => exact ReadMulti.skip (ih h) (newline_of_unicodeDigits hn).2
  | case4 c s _ _ hc ih => exact ReadMulti.skip (ih h) (hws hc)
  | case5 s _ _ _ ih => exact ReadMulti.skip (ih h) (by decide)
  | case6 s _ _ _ _ ih => exact ReadMulti.skip (ih h) (by decide)
  | case7 => cases h
  | case8 acc c s d n hd ih => exact ReadMulti.skip (ih h) (newline_of_hexDigit hd).2
  | case9 acc c s d hd ch hch ih =>
    obtain ⟨out, hs, rfl⟩ := exists_of_push h
    exact ReadMulti.push (ih hs) fun he => absurd he (newline_of_hexDigit hd).2
  | case10 => cases h
  | case11 => cases h
  | case12 c s hc ih => exact ReadMulti.skip (ih h) (hws hc)
  | case13 s _ ih => exact ReadMulti.skip (ih h) (by decide)
  | case14 s _ _ ih => exact ReadMulti.skip (ih h) (by decide)
  | case15 => cases h
  | case16 s ih => exact ReadMulti.skip (ih h) (by decide)
  | case17 => cases h
  | case18 s ih =>
    obtain ⟨out, hs, rfl⟩ := exists_of_push h
    exact ReadMulti.push (ih hs) id
  | case19 => cases h
  | case20 mode c s _ _ _ _ _ hc ih =>
    refine ReadMulti.skip (ih h) ?_
    rcases hc.2 with hc | rfl
    · exact hws hc
    · decide
  | case21 mode c s _ _ _ _ _ _ hc ih =>
    obtain rfl := hc.2
    exact ReadMulti.skip (ih h) (by decide)
  | case22 => exact ReadMulti.close (Option.some.inj h)
  | case23 mode s _ _ _ _ _ _ _ _ ih =>
    obtain ⟨out, hs, rfl⟩ := exists_of_push h
    exact ReadMulti.push (ih hs) fun he => by cases he
  | case24 mode s _ _ _ _ _ _ _ _ ih => exact ReadMulti.skip (ih h) (by decide)
  | case25 mode s _ _ _ _ _ _ _ _ _ ih => exact ReadMulti.skip (ih h) (by decide)
  | case26 mode c s _ _ _ _ _ _ _ _ _ _ _ ih =>
    obtain ⟨out, hs, rfl⟩ := exists_of_push h
    exact ReadMulti.push (ih hs) id
  | case27 => cases h

/-! ### Texts put between quotes -/

theorem string_basic (h : ∀ t, s ≠ '"' :: '"' :: t) : string ('"' :: s) = basic .plain s := by
  rw [string]
  exact h

/-- A text without quotes, backslashes and control characters reads back, whatever follows on the next line. -/
theorem string_quoted (hv : ∀ c ∈ v, isBasic c = true) :
    string ('"' :: (v ++ '"' :: '\n' :: tail)) = some (v, '\n' :: tail) := by
  rw [string_basic, basic_plain hv]
  intro t he
  rcases v with _ | ⟨c, v⟩
  · cases (List.cons.inj (List.cons.inj he).2).1
  · have hc := (isText_of_isBasic (hv c (List.mem_cons_self ..))).2.1
    exact hc (List.cons.inj he).1

theorem basic_quoted (h : basic .plain (v ++ '"' :: '\n' :: tail) = some (v, rest)) :
    ∀ c ∈ v, isBasic c = true := by
  obtain ⟨used, hused, hread⟩ := of_basic h
  refine hread.basic rfl (Nat.le_antisymm hread.length ?_)
  rw [← List.singleton_append, ← List.append_assoc] at hused
  rcases List.append_eq_append_iff.1 hused with ⟨more, rfl, hmore⟩ | ⟨more, hmore, -⟩
  · rcases more with _ | ⟨c, more⟩
    · simp
    · obtain rfl := (List.cons.inj hmore).1
      exact absurd (by simp) hread.oneLine
  · have hlen := congrArg List.length hmore
    simp only [List.length_append, List.length_singleton] at hlen
    omega

theorem trimFirst_eq (s : List Char) : ∃ lead, s = lead ++ trimFirst s ∧ lead.count '=' = 0 := by
  unfold trimFirst
  split
  · exact ⟨['\n'], rfl, rfl⟩
  · exact ⟨['\r', '\n'], rfl, rfl⟩
  · exact ⟨[], rfl, rfl⟩

/-- If the reader takes the text for one of several lines, it does not read it back: it goes on to quotes
after an `=` that the text does not have. -/
theorem multi_quoted {pre post : List Char} (hs : v ++ '"' :: tail = '"' :: '"' :: s)
    (htail : tail = pre ++ '=' :: post) (hpre : '"' ∉ pre) : multi .plain (trimFirst s) ≠ some (v, rest) := by
  intro h
  obtain ⟨used, hused, hread⟩ := of_multi h
  obtain ⟨lead, hlead, hnone⟩ := trimFirst_eq s
  have hlen := hread.length
  have hcount := hread.equals
  rw [hlead, hused, ← List.append_assoc, ← List.cons_append, ← List.cons_append, ← List.singleton_append,
    ← List.append_assoc] at hs
  rcases List.append_eq_append_iff.1 hs with ⟨more, hmore, hrest⟩ | ⟨more, hmore, -⟩
  · have hquote : '"' ∈ more := by
      rcases List.eq_nil_or_concat' more with rfl | ⟨more, c, rfl⟩
      · have := congrArg List.length hmore
        simp only [List.length_append, List.length_cons, List.length_nil] at this
        omega
      · have hlast := congrArg List.getLast? hmore
        rw [← List.append_assoc, List.getLast?_concat, ← List.cons_append, ← List.cons_append,
          List.getLast?_append, hread.quoted, Option.some_or] at hlast
        obtain rfl := Option.some.inj hlast
        simp
    have hequals : 0 < more.count '=' := by
      rw [htail] at hrest
      rcases List.append_eq_append_iff.1 hrest with ⟨rest', rfl, hrest'⟩ | ⟨rest', rfl, -⟩
      · rcases rest' with _ | ⟨c, rest'⟩
        · exact absurd (by simpa using hquote) hpre
        · obtain rfl := (List.cons.inj hrest').1
          exact List.count_pos_iff.2 (by simp)
      · exact absurd (List.mem_append_left _ hquote) hpre
    have hboth := congrArg (List.count '=') hmore
    simp only [List.count_append, List.count_cons, List.count_nil] at hboth
    simp at hboth
    omega
  · have := congrArg List.length hmore
    simp only [List.length_append, List.length_cons, List.length_nil] at this
    omega

/-- What reads back between quotes has no quotes, backslashes and control characters, if what follows starts
on a new line and has no quotes before its first `=`. -/
theorem of_string_quoted {pre post : List Char} (htail : '\n' :: tail = pre ++ '=' :: post) (hpre : '"' ∉ pre)
    (h : string ('"' :: (v ++ '"' :: '\n' :: tail)) = some (v, rest)) : ∀ c ∈ v, isBasic c = true := by
  by_cases hmulti : ∃ t, v ++ '"' :: '\n' :: tail = '"' :: '"' :: t
  · obtain ⟨t, ht⟩ := hmulti
    rw [ht] at h
    exact absurd h (multi_quoted ht htail hpre)
  · rw [string_basic fun t ht => hmulti ⟨t, ht⟩] at h
    exact basic_quoted h

end Toml
