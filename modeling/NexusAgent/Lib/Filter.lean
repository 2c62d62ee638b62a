import NexusAgent.Lib.Text

/-!
# LDAP search filters as text

The string filters of RFC 4515: `Filter.parse` reads one, `Filter.eval` evaluates it on an entry, given
what the attribute's matching rules make of the single tests. A value is read by `parts`, which decodes
`\xx` and splits at `*`; `parts_literal_iff`: text comes out of it as the literal value exactly if it is
free of the characters the grammar reserves.
-/

namespace Rfc4515
open Text

/-- A test of one attribute. -/
inductive Test where
  | equal (attr : String) (value : Bytes)
  | approx (attr : String) (value : Bytes)
  | greaterOrEqual (attr : String) (value : Bytes)
  | lessOrEqual (attr : String) (value : Bytes)
  | present (attr : String)
  | substring (attr : String) (parts : List Bytes)
  | extensible (attr : Option String) (dn : Bool) (rule : Option String) (value : Bytes)
  deriving DecidableEq, Repr

inductive Filter where
  | and (fs : List Filter)
  | or (fs : List Filter)
  | not (f : Filter)
  | test (t : Test)
  deriving Repr

namespace Filter

/-! ### Values -/

/-- The characters a value can only hold escaped. -/
def reserved (c : Char) : Bool :=
  c == '\x00' || c == '(' || c == ')' || c == '*' || c == '\\'

def hexDigit (c : Char) : Option Nat :=
  if c.isDigit then some (c.toNat - '0'.toNat)
  else if 'a' ≤ c ∧ c ≤ 'f' then some (c.toNat - 'a'.toNat + 10)
  else if 'A' ≤ c ∧ c ≤ 'F' then some (c.toNat - 'A'.toNat + 10)
  else none

/-- The value up to the first asterisk, the values between and after the asterisks, and what follows
from the first other reserved character on. -/
def parts : List Char → Option (Bytes × List Bytes × List Char)
  | [] => some ([], [], [])
  | '*' :: s => (parts s).map fun (p, ps, r) => ([], p :: ps, r)
  | ['\\'] | ['\\', _] => none
  | '\\' :: a :: b :: s => do
    let a ← hexDigit a
    let b ← hexDigit b
    let (p, ps, r) ← parts s
    some (UInt8.ofNat (16 * a + b) :: p, ps, r)
  | c :: s =>
    if reserved c then some ([], [], c :: s)
    else (parts s).map fun (p, ps, r) => (String.utf8EncodeChar c ++ p, ps, r)

/-! ### Attribute descriptions -/

def isKeyChar (c : Char) : Bool := c.isAlpha || c.isDigit || c == '-'

def isAttrChar (c : Char) : Bool := isKeyChar c || c == '.' || c == ';'

def isDescr : List Char → Bool
  | [] => false
  | c :: cs => c.isAlpha && cs.all isKeyChar

def isNumber (cs : List Char) : Bool := cs == ['0'] || (cs.all Char.isDigit && cs.head?.any (· != '0'))

def isNumericOid (cs : List Char) : Bool :=
  let ns := cs.splitOn '.'
  2 ≤ ns.length && ns.all isNumber

def isOid (cs : List Char) : Bool := isDescr cs || isNumericOid cs

/-- A type and its options. -/
def isAttribute (cs : List Char) : Bool :=
  match cs.splitOn ';' with
  | [] => false
  | t :: options => isOid t && options.all fun o => !o.isEmpty && o.all isKeyChar

/-! ### Filters -/

/-- What a value after `=` tests. -/
def ofParts (attr : String) : Bytes → List Bytes → Test
  | p, [] => .equal attr p
  | [], [[]] => .present attr
  | p, ps => .substring attr (p :: ps)

/-- A value without asterisks. -/
def single (mk : Bytes → Test) (s : List Char) : Option (Test × List Char) :=
  match parts s with
  | some (p, [], r) => some (mk p, r)
  | _ => none

def parseRule (attr : List Char) (dn : Bool) : List Char → Option (Test × List Char)
  | ':' :: '=' :: r =>
    if isAttribute attr then single (.extensible (some (String.ofList attr)) dn none) r else none
  | ':' :: r =>
    let rule := r.takeWhile isAttrChar
    match r.dropWhile isAttrChar with
    | ':' :: '=' :: r =>
      if isOid rule && (attr.isEmpty || isAttribute attr) then
        single (.extensible (if attr.isEmpty then none else some (String.ofList attr)) dn
          (some (String.ofList rule))) r
      else none
    | _ => none
  | _ => none

def parseTest (s : List Char) : Option (Test × List Char) :=
  let attr := s.takeWhile isAttrChar
  let name := String.ofList attr
  match s.dropWhile isAttrChar with
  | '=' :: r => if isAttribute attr then (parts r).map fun (p, ps, r) => (ofParts name p ps, r) else none
  | '~' :: '=' :: r => if isAttribute attr then single (.approx name) r else none
  | '>' :: '=' :: r => if isAttribute attr then single (.greaterOrEqual name) r else none
  | '<' :: '=' :: r => if isAttribute attr then single (.lessOrEqual name) r else none
  | ':' :: d :: n :: ':' :: r =>
    if d.toLower = 'd' ∧ n.toLower = 'n' then parseRule attr true (':' :: r)
    else parseRule attr false (':' :: d :: n :: ':' :: r)
  | r => parseRule attr false r

/-- The rest after a closing parenthesis. -/
def closed {α : Type} : Option (α × List Char) → Option (α × List Char)
  | some (a, ')' :: r) => some (a, r)
  | _ => none

mutual
/-- A filter in its parentheses; the fuel bounds the nesting. -/
def parseFilter : Nat → List Char → Option (Filter × List Char)
  | 0, _ => none
  | n + 1, '(' :: '&' :: s => closed ((parseFilters n s).map fun (fs, r) => (.and fs, r))
  | n + 1, '(' :: '|' :: s => closed ((parseFilters n s).map fun (fs, r) => (.or fs, r))
  | n + 1, '(' :: '!' :: s => closed ((parseFilter n s).map fun (f, r) => (.not f, r))
  | _ + 1, '(' :: s => closed ((parseTest s).map fun (t, r) => (.test t, r))
  | _ + 1, _ => none
/-- One filter or more. -/
def parseFilters : Nat → List Char → Option (List Filter × List Char)
  | 0, _ => none
  | n + 1, s => do
    let (f, r) ← parseFilter n s
    match r with
    | '(' :: _ => (parseFilters n r).map fun (fs, r) => (f :: fs, r)
    | _ => some ([f], r)
end

def parse (s : String) : Option Filter :=
  match parseFilter (s.toList.length + 1) s.toList with
  | some (f, []) => some f
  | _ => none

theorem parse_eq_some {s : String} {f : Filter} :
    parse s = some f ↔ parseFilter (s.toList.length + 1) s.toList = some (f, []) := by
  unfold parse
  rcases parseFilter (s.toList.length + 1) s.toList with _ | ⟨g, _ | ⟨c, r⟩⟩ <;> simp

/-! ### Evaluation -/

mutual
/-- A filter is true, false or undefined on an entry; `sat` says which of these a test is. -/
def eval (sat : Test → Option Bool) : Filter → Option Bool
  | .and fs => evalAll sat fs
  | .or fs => evalAny sat fs
  | .not f => (eval sat f).map (!·)
  | .test t => sat t
def evalAll (sat : Test → Option Bool) : List Filter → Option Bool
  | [] => some true
  | f :: fs =>
    match eval sat f, evalAll sat fs with
    | some false, _ | _, some false => some false
    | some true, r => r
    | none, _ => none
def evalAny (sat : Test → Option Bool) : List Filter → Option Bool
  | [] => some false
  | f :: fs =>
    match eval sat f, evalAny sat fs with
    | some true, _ | _, some true => some true
    | some false, r => r
    | none, _ => none
end

/-- A disjunction of two tests is true exactly if one of them is. -/
theorem eval_or_pair {sat : Test → Option Bool} {s t : Test} :
    eval sat (.or [.test s, .test t]) = some true ↔ sat s = some true ∨ sat t = some true := by
  simp only [eval, evalAny]
  rcases sat s with _ | _ | _ <;> rcases sat t with _ | _ | _ <;> simp

/-! ### Reading a literal value -/

theorem parts_star (s : List Char) :
    parts ('*' :: s) = (parts s).map fun (p, ps, r) => ([], p :: ps, r) := by
  rw [parts]

theorem parts_plain {c : Char} (hc : reserved c = false) (s : List Char) :
    parts (c :: s) = (parts s).map fun (p, ps, r) => (String.utf8EncodeChar c ++ p, ps, r) := by
  rw [parts.eq_def]
  split <;> simp_all [reserved]

/-- A reserved character other than the asterisk and the backslash ends a value. -/
theorem parts_stop {c : Char} (hc : reserved c = true) (hstar : c ≠ '*') (hesc : c ≠ '\\') (s : List Char) :
    parts (c :: s) = some ([], [], c :: s) := by
  rw [parts.eq_def]
  split <;> simp_all

theorem parts_close (s : List Char) : parts (')' :: s) = some ([], [], ')' :: s) :=
  parts_stop (by decide) (by decide) (by decide) s

theorem parts_of_plain {s : List Char} (h : ∀ c ∈ s, reserved c = false) (r : List Char) :
    parts (s ++ ')' :: r) = some (s.flatMap String.utf8EncodeChar, [], ')' :: r) := by
  induction s with
  | nil => exact parts_close r
  | cons c s ih =>
    rw [List.cons_append, parts_plain (h c (List.mem_cons_self ..)),
      ih fun d hd => h d (List.mem_cons_of_mem _ hd)]
    rfl

/-- An escape takes three characters for one byte. -/
theorem parts_escape {s r r' : List Char} {p : Bytes} {ps : List Bytes}
    (h : parts ('\\' :: (s ++ ')' :: r)) = some (p, ps, r')) :
    ∃ a b t q, s = a :: b :: t ∧ parts (t ++ ')' :: r) = some (q, ps, r') ∧ p.length = q.length + 1 := by
  rcases s with _ | ⟨a, _ | ⟨b, s⟩⟩
  · rcases r with _ | ⟨d, r⟩
    · simp [parts] at h
    · simp [parts, hexDigit] at h
  · simp [parts, hexDigit] at h
  · simp only [List.cons_append, parts, Option.bind_eq_bind, Option.bind_eq_some_iff] at h
    obtain ⟨_, -, _, -, ⟨q, qs, r''⟩, hq, h⟩ := h
    cases h
    exact ⟨a, b, s, q, rfl, hq, by simp⟩

theorem length_utf8_cons (c : Char) (s : List Char) :
    (s.flatMap String.utf8EncodeChar).length < ((c :: s).flatMap String.utf8EncodeChar).length := by
  have := c.utf8Size_pos
  rw [List.flatMap_cons, List.length_append, String.length_utf8EncodeChar]
  omega

/-- The first value read from text before a closing parenthesis is no longer than the text, and it is all
of it only if nothing in the text is reserved. -/
theorem parts_length (n : Nat) {s r r' : List Char} {p : Bytes} {ps : List Bytes} (hn : s.length ≤ n)
    (h : parts (s ++ ')' :: r) = some (p, ps, r')) :
    p.length ≤ (s.flatMap String.utf8EncodeChar).length ∧
      (p.length = (s.flatMap String.utf8EncodeChar).length → ∀ c ∈ s, reserved c = false) := by
  induction n generalizing s p ps r' with
  | zero =>
    obtain rfl := List.length_eq_zero_iff.1 (Nat.le_zero.1 hn)
    rw [List.nil_append, parts_close] at h
    cases h
    simp
  | succ n ih =>
    rcases s with _ | ⟨c, s⟩
    · exact ih (Nat.zero_le _) h
    rw [List.length_cons, Nat.add_le_add_iff_right] at hn
    have hlen := length_utf8_cons c s
    -- a reserved first character leaves less than the whole text
    suffices hshort : reserved c = true → p.length < ((c :: s).flatMap String.utf8EncodeChar).length by
      by_cases hc : reserved c = true
      · exact ⟨Nat.le_of_lt (hshort hc), fun he => absurd he (Nat.ne_of_lt (hshort hc))⟩
      rw [Bool.not_eq_true] at hc
      rw [List.cons_append, parts_plain hc, Option.map_eq_some_iff] at h
      obtain ⟨⟨q, qs, r''⟩, hq, h⟩ := h
      cases h
      obtain ⟨hle, heq⟩ := ih hn hq
      rw [List.flatMap_cons, List.length_append, List.length_append]
      refine ⟨Nat.add_le_add_left hle _, fun hl d hd => ?_⟩
      rcases List.mem_cons.1 hd with rfl | hd
      · exact hc
      · exact heq (Nat.add_left_cancel hl) d hd
    intro hc
    rw [List.cons_append] at h
    by_cases hstar : c = '*'
    · rw [hstar, parts_star, Option.map_eq_some_iff] at h
      obtain ⟨⟨q, qs, r''⟩, -, h⟩ := h
      cases h
      exact Nat.lt_of_le_of_lt (Nat.zero_le _) hlen
    by_cases hesc : c = '\\'
    · rw [hesc] at h
      obtain ⟨a, b, t, q, rfl, hq, hp⟩ := parts_escape h
      have hle := (ih (by simp only [List.length_cons] at hn; omega) hq).1
      have ha := length_utf8_cons a (b :: t)
      have hb := length_utf8_cons b t
      omega
    · rw [parts_stop hc hstar hesc] at h
      cases h
      exact Nat.lt_of_le_of_lt (Nat.zero_le _) hlen

/-- Text before a closing parenthesis is read as the literal value exactly if nothing in it is reserved. -/
theorem parts_literal_iff {s r : List Char} :
    (∃ r', parts (s ++ ')' :: r) = some (s.flatMap String.utf8EncodeChar, [], r')) ↔
      ∀ c ∈ s, reserved c = false := by
  constructor
  · rintro ⟨r', h⟩
    exact (parts_length s.length (Nat.le_refl _) h).2 rfl
  · exact fun h => ⟨_, parts_of_plain h r⟩

/-! ### A disjunction of two equality tests -/

theorem parseTest_eq {a : List Char} (ha : isAttribute a = true) (hchars : a.all isAttrChar = true)
    (s : List Char) : parseTest (a ++ '=' :: s) =
      (parts s).map fun (p, ps, r) => (ofParts (String.ofList a) p ps, r) := by
  have hall : ∀ c ∈ a, isAttrChar c = true := List.all_eq_true.1 hchars
  have heq : isAttrChar '=' = false := by decide
  have htake : (a ++ '=' :: s).takeWhile isAttrChar = a := by
    rw [List.takeWhile_append_of_pos hall, List.takeWhile_cons, heq]; simp
  have hdrop : (a ++ '=' :: s).dropWhile isAttrChar = '=' :: s := by
    rw [List.dropWhile_append_of_pos hall, List.dropWhile_cons, heq]; simp
  simp only [parseTest, htake, hdrop, ha, if_true]

/-- A parenthesis and an attribute description open a test. -/
theorem parseFilter_test {a : List Char} (hne : a ≠ []) (hchars : a.all isAttrChar = true) (n : Nat)
    (s : List Char) :
    parseFilter (n + 1) ('(' :: (a ++ s)) = closed ((parseTest (a ++ s)).map fun (t, r) => (.test t, r)) := by
  rcases a with _ | ⟨c, a⟩
  · exact absurd rfl hne
  have hc : isAttrChar c = true := List.all_eq_true.1 hchars c (List.mem_cons_self ..)
  rw [List.cons_append, parseFilter]
  all_goals
    intro s' h
    rw [(List.cons.inj h).1] at hc
    revert hc
    decide

theorem closed_eq_some {α : Type} {x : Option (α × List Char)} {a : α} {r : List Char} :
    closed x = some (a, r) ↔ x = some (a, ')' :: r) := by
  rcases x with _ | ⟨b, _ | ⟨c, s⟩⟩
  · simp [closed]
  · simp [closed]
  · by_cases hc : c = ')'
    · subst hc; simp [closed]
    · simp [closed, hc]

variable {a b v : List Char}

section
variable (ha : isAttribute a = true) (hne : a ≠ []) (hchars : a.all isAttrChar = true)
include ha hne hchars

theorem parseFilter_equal (h : ∀ c ∈ v, reserved c = false) (n : Nat) (r : List Char) :
    parseFilter (n + 1) ('(' :: (a ++ '=' :: (v ++ ')' :: r))) =
      some (.test (.equal (String.ofList a) (v.flatMap String.utf8EncodeChar)), r) := by
  rw [parseFilter_test hne hchars, parseTest_eq ha hchars, parts_of_plain h]
  rfl

/-- Only a value without reserved characters reads as the test on the literal value. -/
theorem plain_of_parseFilter {n : Nat} {r r' : List Char}
    (h : parseFilter (n + 1) ('(' :: (a ++ '=' :: (v ++ ')' :: r))) =
      some (.test (.equal (String.ofList a) (v.flatMap String.utf8EncodeChar)), r')) :
    ∀ c ∈ v, reserved c = false := by
  rw [parseFilter_test hne hchars, parseTest_eq ha hchars, closed_eq_some] at h
  rcases hp : parts (v ++ ')' :: r) with _ | ⟨p, ps, r''⟩
  · rw [hp] at h; cases h
  rw [hp] at h
  simp only [Option.map_some, Option.some.injEq, Prod.mk.injEq, Filter.test.injEq] at h
  obtain ⟨ht, -⟩ := h
  refine (parts_literal_iff (r := r)).1 ⟨r'', ?_⟩
  rw [hp]
  unfold ofParts at ht
  split at ht
  · rw [Test.equal.injEq] at ht
    rw [ht.2]
  · cases ht
  · cases ht

end

theorem parseFilters_cons {n : Nat} {s r : List Char} {f : Filter} {fs : List Filter}
    (h : parseFilters (n + 1) s = some (f :: fs, r)) : ∃ r', parseFilter n s = some (f, r') := by
  simp only [parseFilters, Option.bind_eq_bind, Option.bind_eq_some_iff] at h
  obtain ⟨⟨g, r'⟩, hg, h⟩ := h
  refine ⟨r', ?_⟩
  rw [hg]
  simp only at h
  split at h
  · rw [Option.map_eq_some_iff] at h
    obtain ⟨_, -, h⟩ := h
    cases h; rfl
  · cases h; rfl

/-- The text of a disjunction of two equality tests on one value reads as that disjunction, on the literal
value, exactly if nothing in the value is reserved. -/
theorem parseFilter_either_iff (ha : isAttribute a = true) (hne : a ≠ []) (ha' : a.all isAttrChar = true)
    (hb : isAttribute b = true) (hne' : b ≠ []) (hb' : b.all isAttrChar = true) (n : Nat) :
    parseFilter (n + 4) ('(' :: '|' :: '(' :: (a ++ '=' :: (v ++ ')' :: '(' :: (b ++ '=' :: (v ++ [')', ')']))))) =
      some (.or [.test (.equal (String.ofList a) (v.flatMap String.utf8EncodeChar)),
        .test (.equal (String.ofList b) (v.flatMap String.utf8EncodeChar))], []) ↔
      ∀ c ∈ v, reserved c = false := by
  rw [parseFilter, closed_eq_some, Option.map_eq_some_iff]
  constructor
  · rintro ⟨⟨fs, r⟩, hfs, h⟩
    simp only [Prod.mk.injEq, Filter.or.injEq] at h
    rw [h.1] at hfs
    obtain ⟨r', hr'⟩ := parseFilters_cons hfs
    exact plain_of_parseFilter ha hne ha' hr'
  · intro h
    refine ⟨⟨_, [')']⟩, ?_, rfl⟩
    have hfirst := parseFilter_equal ha hne ha' h (n + 1) ('(' :: (b ++ '=' :: (v ++ [')', ')'])))
    have hsecond := parseFilter_equal hb hne' hb' h n [')']
    simp only [parseFilters, hfirst, hsecond, Option.bind_eq_bind, Option.bind_some]
    rfl

end Filter
end Rfc4515
