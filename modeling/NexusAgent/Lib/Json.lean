import Mathlib.Algebra.Group.Nat.Defs
import Mathlib.Data.List.TakeWhile
import Mathlib.Tactic.SplitIfs

/-!
# JSON values and their compact text

`Json` is the syntax tree of a JSON document, a number being its literal. `Json.text` is the compact
writer (no blanks, control characters escaped) and `Json.read` reads compact text back.

`read_text`: reading inverts writing. `text_injective`: the text determines the value.
`newline_not_mem_text`: the text is one line. `read_truncated`: no proper prefix of an object's text
is a document.
-/

/-- A number literal: sign, integer part, digits after the point, exponent. -/
structure JsonNumber where
  neg : Bool
  int : Nat
  frac : List (Fin 10)
  exp : Option Int
deriving DecidableEq, Repr

inductive Json where
  | null
  | bool (b : Bool)
  | num (n : JsonNumber)
  | str (s : String)
  | arr (xs : List Json)
  | obj (fields : List (String × Json))
deriving Repr

namespace Json

def ofInt (i : Int) : Json := .num ⟨i < 0, i.natAbs, [], none⟩

def ofNat (n : Nat) : Json := .num ⟨false, n, [], none⟩

/-! ### Writing -/

def digits (n : Nat) : List Char := Nat.toDigits 10 n

def hexDigit (n : Nat) : Char := Nat.digitChar n

/-- The one-letter escapes: character, letter after the backslash. -/
def shortEscapes : List (Char × Char) :=
  [('"', '"'), ('\\', '\\'), ('\x08', 'b'), ('\t', 't'), ('\n', 'n'), ('\x0c', 'f'), ('\r', 'r')]

def escapeChar (c : Char) : List Char :=
  match shortEscapes.find? (·.1 == c) with
  | some (_, e) => ['\\', e]
  | none =>
    if c.toNat < 0x20 then
      ['\\', 'u', '0', '0', hexDigit (c.toNat / 16), hexDigit (c.toNat % 16)]
    else [c]

def strText (s : String) : List Char := '"' :: (s.toList.flatMap escapeChar ++ ['"'])

def fracText (ds : List (Fin 10)) : List Char :=
  if ds = [] then [] else '.' :: ds.map fun d => Nat.digitChar d.val

def expText : Option Int → List Char
  | none => []
  | some (.ofNat n) => 'e' :: digits n
  | some (.negSucc n) => 'e' :: '-' :: digits (n + 1)

def numText (n : JsonNumber) : List Char :=
  (if n.neg then ['-'] else []) ++ (digits n.int ++ (fracText n.frac ++ expText n.exp))

mutual
def text : Json → List Char
  | .null => ['n', 'u', 'l', 'l']
  | .bool true => ['t', 'r', 'u', 'e']
  | .bool false => ['f', 'a', 'l', 's', 'e']
  | .num n => numText n
  | .str s => strText s
  | .arr [] => ['[', ']']
  | .arr (x :: xs) => '[' :: (text x ++ moreElems xs)
  | .obj [] => ['{', '}']
  | .obj ((k, v) :: kvs) => '{' :: (strText k ++ ':' :: (text v ++ moreFields kvs))
/-- What follows an element: the other elements and the closing bracket. -/
def moreElems : List Json → List Char
  | [] => [']']
  | x :: xs => ',' :: (text x ++ moreElems xs)
/-- What follows a field: the other fields and the closing brace. -/
def moreFields : List (String × Json) → List Char
  | [] => ['}']
  | (k, v) :: kvs => ',' :: (strText k ++ ':' :: (text v ++ moreFields kvs))
end

/-! ### Reading -/

def isHexDigit (c : Char) : Bool := c.isDigit || ('a' ≤ c && c ≤ 'f')

def hexVal (c : Char) : Nat := if c.isDigit then c.toNat - 48 else c.toNat - 87

/-- The rest of a string, after its opening quote. -/
def readStr : List Char → Option (List Char × List Char)
  | [] => none
  | '"' :: s => some ([], s)
  | '\\' :: 'u' :: '0' :: '0' :: h :: l :: s =>
    if isHexDigit h && isHexDigit l then
      (readStr s).map fun p => (Char.ofNat (16 * hexVal h + hexVal l) :: p.1, p.2)
    else none
  | '\\' :: e :: s =>
    match shortEscapes.find? (·.2 == e) with
    | some (c, _) => (readStr s).map fun p => (c :: p.1, p.2)
    | none => none
  | c :: s => (readStr s).map fun p => (c :: p.1, p.2)

/-- A natural number literal: digits without a leading zero. -/
def readNat (s : List Char) : Option (Nat × List Char) :=
  let ds := s.takeWhile Char.isDigit
  if ds = digits (Nat.ofDigitChars 10 ds 0) then
    some (Nat.ofDigitChars 10 ds 0, s.dropWhile Char.isDigit)
  else none

def readFrac : List Char → Option (List (Fin 10) × List Char)
  | '.' :: s =>
    let ds := s.takeWhile Char.isDigit
    if ds = [] then none
    else some (ds.map fun c => Fin.ofNat 10 (c.toNat - 48), s.dropWhile Char.isDigit)
  | s => some ([], s)

def readExp : List Char → Option (Option Int × List Char)
  | 'e' :: '-' :: s => (readNat s).map fun p => (some (-(p.1 : Int)), p.2)
  | 'e' :: s => (readNat s).map fun p => (some (p.1 : Int), p.2)
  | s => some (none, s)

def readAbs (neg : Bool) (s : List Char) : Option (JsonNumber × List Char) := do
  let (i, s) ← readNat s
  let (f, s) ← readFrac s
  let (e, s) ← readExp s
  some (⟨neg, i, f, e⟩, s)

def readNum : List Char → Option (JsonNumber × List Char)
  | '-' :: s => readAbs true s
  | s => readAbs false s

mutual
/-- One value at the head of the text; the fuel bounds the number of nested calls. -/
def readValue : Nat → List Char → Option (Json × List Char)
  | 0, _ => none
  | _ + 1, 'n' :: 'u' :: 'l' :: 'l' :: s => some (.null, s)
  | _ + 1, 't' :: 'r' :: 'u' :: 'e' :: s => some (.bool true, s)
  | _ + 1, 'f' :: 'a' :: 'l' :: 's' :: 'e' :: s => some (.bool false, s)
  | _ + 1, '"' :: s => (readStr s).map fun p => (.str (String.ofList p.1), p.2)
  | _ + 1, '[' :: ']' :: s => some (.arr [], s)
  | n + 1, '[' :: s => do
    let (x, s) ← readValue n s
    let (xs, s) ← readElems n s
    some (.arr (x :: xs), s)
  | _ + 1, '{' :: '}' :: s => some (.obj [], s)
  | n + 1, '{' :: s => do
    let (kv, s) ← readField n s
    let (kvs, s) ← readFields n s
    some (.obj (kv :: kvs), s)
  | _ + 1, s => (readNum s).map fun p => (.num p.1, p.2)
def readElems : Nat → List Char → Option (List Json × List Char)
  | 0, _ => none
  | _ + 1, ']' :: s => some ([], s)
  | n + 1, ',' :: s => do
    let (x, s) ← readValue n s
    let (xs, s) ← readElems n s
    some (x :: xs, s)
  | _ + 1, _ => none
/-- A key, its colon and its value. -/
def readField : Nat → List Char → Option ((String × Json) × List Char)
  | 0, _ => none
  | n + 1, '"' :: s => do
    let (k, s) ← readStr s
    match s with
    | ':' :: s =>
      let (v, s) ← readValue n s
      some ((String.ofList k, v), s)
    | _ => none
  | _ + 1, _ => none
def readFields : Nat → List Char → Option (List (String × Json) × List Char)
  | 0, _ => none
  | _ + 1, '}' :: s => some ([], s)
  | n + 1, ',' :: s => do
    let (kv, s) ← readField n s
    let (kvs, s) ← readFields n s
    some (kv :: kvs, s)
  | _ + 1, _ => none
end

/-- Read a whole document. -/
def read (s : List Char) : Option Json :=
  match readValue s.length s with
  | some (v, []) => some v
  | _ => none

/-! ### Reading inverts writing -/

/-- The text after a number literal does not continue it. -/
def Stops : List Char → Prop
  | [] => True
  | c :: _ => c.isDigit = false ∧ c ≠ '.' ∧ c ≠ 'e'

/-- The text after a run of digits does not continue it. -/
def NoDigit : List Char → Prop
  | [] => True
  | c :: _ => c.isDigit = false

theorem Stops.noDigit {s : List Char} (h : Stops s) : NoDigit s := by
  cases s with
  | nil => trivial
  | cons c s => exact h.1

theorem isDigit_of_mem_digits {n : Nat} {c : Char} (h : c ∈ digits n) : c.isDigit = true :=
  Nat.isDigit_of_mem_toDigits (by decide) (by decide) h

theorem digits_ne_nil (n : Nat) : digits n ≠ [] := Nat.toDigits_ne_nil

theorem ofDigitChars_digits (n : Nat) : Nat.ofDigitChars 10 (digits n) 0 = n :=
  Nat.ofDigitChars_ten_toDigits

theorem digits_injective {m n : Nat} (h : digits m = digits n) : m = n := by
  rw [← ofDigitChars_digits m, h, ofDigitChars_digits]

theorem takeWhile_digits {ds s : List Char} (hd : ∀ c ∈ ds, c.isDigit = true) (hs : NoDigit s) :
    (ds ++ s).takeWhile Char.isDigit = ds ∧ (ds ++ s).dropWhile Char.isDigit = s := by
  rw [List.takeWhile_append_of_pos hd, List.dropWhile_append_of_pos hd]
  cases s with
  | nil => simp
  | cons c s =>
    have hc : c.isDigit = false := hs
    simp [hc]

theorem readNat_digits (n : Nat) {s : List Char} (hs : NoDigit s) :
    readNat (digits n ++ s) = some (n, s) := by
  obtain ⟨ht, hd⟩ := @takeWhile_digits (digits n) s (fun _ => isDigit_of_mem_digits) hs
  simp [readNat, ht, hd, ofDigitChars_digits]

theorem readStr_escapeChar (c : Char) (s : List Char) :
    readStr (escapeChar c ++ s) = (readStr s).map fun p => (c :: p.1, p.2) := by
  unfold escapeChar
  cases hf : shortEscapes.find? (·.1 == c) with
  | some ae =>
    obtain ⟨a, e⟩ := ae
    have ha : a = c := by simpa using List.find?_some hf
    have hm := List.mem_of_find?_eq_some hf
    simp only [shortEscapes, List.mem_cons, Prod.mk.injEq, List.not_mem_nil, or_false] at hm
    subst ha
    rcases hm with ⟨rfl, rfl⟩ | ⟨rfl, rfl⟩ | ⟨rfl, rfl⟩ | ⟨rfl, rfl⟩ | ⟨rfl, rfl⟩ | ⟨rfl, rfl⟩ | ⟨rfl, rfl⟩ <;>
      simp [readStr, shortEscapes]
  | none =>
    simp only [shortEscapes, List.find?_eq_none, List.mem_cons, List.not_mem_nil, or_false,
      beq_iff_eq, forall_eq_or_imp, forall_eq] at hf
    obtain ⟨hq, hb, -⟩ := hf
    dsimp only
    split
    · rename_i hc
      have hex : ∀ d, d < 16 → isHexDigit (hexDigit d) = true ∧ hexVal (hexDigit d) = d := by decide
      have h1 := hex (c.toNat / 16) (by omega)
      have h2 := hex (c.toNat % 16) (by omega)
      have h3 : 16 * (c.toNat / 16) + c.toNat % 16 = c.toNat := by omega
      simp [readStr, h1, h2, h3]
    · simp only [List.cons_append, List.nil_append]
      rw [readStr.eq_def]
      split <;> simp_all

theorem readStr_strText (s : String) (r : List Char) :
    readStr (s.toList.flatMap escapeChar ++ '"' :: r) = some (s.toList, r) := by
  induction s.toList with
  | nil => simp [readStr]
  | cons c cs ih => rw [List.flatMap_cons, List.append_assoc, readStr_escapeChar, ih]; rfl

theorem noDigit_expText {e : Option Int} {s : List Char} (hs : Stops s) :
    NoDigit (expText e ++ s) ∧ ∀ c r, expText e ++ s = c :: r → c ≠ '.' := by
  match e with
  | none =>
    refine ⟨hs.noDigit, fun c r h => ?_⟩
    simp only [expText, List.nil_append] at h
    subst h; exact hs.2.1
  | some (.ofNat n) => exact ⟨by simp [expText, NoDigit], fun c r h => by
      simp [expText] at h; rw [← h.1]; decide⟩
  | some (.negSucc n) => exact ⟨by simp [expText, NoDigit], fun c r h => by
      simp [expText] at h; rw [← h.1]; decide⟩

theorem readFrac_fracText (ds : List (Fin 10)) {s : List Char} (hs : NoDigit s)
    (hp : ∀ c r, s = c :: r → c ≠ '.') : readFrac (fracText ds ++ s) = some (ds, s) := by
  unfold fracText
  split
  · rename_i h
    rw [h, List.nil_append]
    unfold readFrac
    split
    · exact absurd rfl (hp _ _ rfl)
    · rfl
  · rename_i hne
    have hdig : ∀ d : Fin 10, (Nat.digitChar d.val).isDigit = true := by decide
    have hval : ∀ d : Fin 10, Fin.ofNat 10 ((Nat.digitChar d.val).toNat - 48) = d := by decide
    have hall : ∀ c ∈ ds.map fun d => Nat.digitChar d.val, c.isDigit = true := by
      intro c hc
      obtain ⟨d, -, rfl⟩ := List.mem_map.1 hc
      exact hdig d
    obtain ⟨ht, hd⟩ := takeWhile_digits hall hs
    simp only [List.cons_append, readFrac, ht, hd, List.map_eq_nil_iff, hne, if_false,
      List.map_map, Option.some.injEq, Prod.mk.injEq, and_true]
    calc ds.map ((fun c => Fin.ofNat 10 (c.toNat - 48)) ∘ fun d => Nat.digitChar d.val)
        = ds.map id := List.map_congr_left fun d _ => hval d
      _ = ds := List.map_id ds

theorem readExp_expText (e : Option Int) {s : List Char} (hs : Stops s) :
    readExp (expText e ++ s) = some (e, s) := by
  match e with
  | none =>
    simp only [expText, List.nil_append]
    unfold readExp
    split
    · exact absurd rfl hs.2.2
    · exact absurd rfl hs.2.2
    · rfl
  | some (.ofNat n) =>
    have hne : ∀ r, digits n ++ s ≠ '-' :: r := fun r h => by
      cases hd : digits n with
      | nil => exact digits_ne_nil n hd
      | cons c cs =>
        have hc := isDigit_of_mem_digits (n := n) (c := c) (by simp [hd])
        rw [hd] at h
        obtain ⟨rfl, -⟩ := List.cons.inj h
        revert hc; decide
    simp only [expText, List.cons_append]
    rw [readExp.eq_2 _ (fun r h => hne r h), readNat_digits n hs.noDigit]
    rfl
  | some (.negSucc n) =>
    simp only [expText, List.cons_append, readExp, readNat_digits (n + 1) hs.noDigit]
    rfl

theorem readAbs_numText (n : JsonNumber) {s : List Char} (hs : Stops s) :
    readAbs n.neg (digits n.int ++ (fracText n.frac ++ expText n.exp) ++ s) = some (n, s) := by
  obtain ⟨he, hp⟩ := noDigit_expText (e := n.exp) hs
  have hf : NoDigit (fracText n.frac ++ (expText n.exp ++ s)) := by
    unfold fracText; split
    · exact he
    · simp only [List.cons_append, NoDigit]; decide
  simp only [readAbs, List.append_assoc, readNat_digits n.int hf, readFrac_fracText n.frac he hp,
    readExp_expText n.exp hs, Option.bind_eq_bind, Option.bind_some]

theorem readNum_numText (n : JsonNumber) {s : List Char} (hs : Stops s) :
    readNum (numText n ++ s) = some (n, s) := by
  have h := readAbs_numText n hs
  unfold numText
  cases hn : n.neg with
  | true => rw [hn] at h; simpa [readNum] using h
  | false =>
    rw [hn] at h
    simp only [Bool.false_eq_true, if_false, List.nil_append]
    cases hd : digits n.int with
    | nil => exact absurd hd (digits_ne_nil _)
    | cons c cs =>
      have hc := isDigit_of_mem_digits (n := n.int) (c := c) (by simp [hd])
      have hm : c ≠ '-' := by rintro rfl; revert hc; decide
      rw [hd] at h
      simp only [List.cons_append] at h ⊢
      unfold readNum
      split
      · rename_i heq; exact absurd (List.cons.inj heq).1 hm
      · exact h

theorem numText_head (n : JsonNumber) :
    ∃ c cs, numText n = c :: cs ∧ (c = '-' ∨ c.isDigit = true) := by
  unfold numText
  cases n.neg with
  | true => exact ⟨'-', _, rfl, .inl rfl⟩
  | false =>
    cases hd : digits n.int with
    | nil => exact absurd hd (digits_ne_nil _)
    | cons c cs => exact ⟨c, _, rfl, .inr (isDigit_of_mem_digits (n := n.int) (by simp [hd]))⟩

theorem readValue_num (k : Nat) {c : Char} (s : List Char) (hc : c = '-' ∨ c.isDigit = true) :
    readValue (k + 1) (c :: s) = (readNum (c :: s)).map fun p => (.num p.1, p.2) := by
  rw [readValue.eq_def]
  split <;> first
    | rfl
    | simp_all

theorem stops_moreElems (xs : List Json) (r : List Char) : Stops (moreElems xs ++ r) := by
  cases xs <;> simp [moreElems, Stops]

theorem stops_moreFields (kvs : List (String × Json)) (r : List Char) :
    Stops (moreFields kvs ++ r) := by
  cases kvs <;> simp [moreFields, Stops]

/-- An element's text does not start with the bracket that closes the array. -/
theorem text_ne_close (v : Json) (s r : List Char) : text v ++ s ≠ ']' :: r := by
  cases v with
  | num n =>
    obtain ⟨c, cs, hn, hc⟩ := numText_head n
    rw [text, hn, List.cons_append]
    intro h
    obtain ⟨rfl, -⟩ := List.cons.inj h
    rcases hc with h | h <;> revert h <;> decide
  | bool b => cases b <;> simp [text]
  | arr xs => cases xs <;> simp [text]
  | obj kvs => cases kvs <;> simp [text]
  | null => simp [text]
  | str s => simp [text, strText]

theorem readValue_bracket {k : Nat} {s : List Char} (h : ∀ r, s ≠ ']' :: r) :
    readValue (k + 1) ('[' :: s) =
      (readValue k s).bind fun p => (readElems k p.2).bind fun q => some (.arr (p.1 :: q.1), q.2) :=
  readValue.eq_7 k s fun r hr => h r hr

theorem readValue_brace {k : Nat} {s : List Char} (h : ∀ r, s ≠ '}' :: r) :
    readValue (k + 1) ('{' :: s) =
      (readField k s).bind fun p => (readFields k p.2).bind fun q => some (.obj (p.1 :: q.1), q.2) :=
  readValue.eq_9 k s fun r hr => h r hr

mutual
theorem readValue_text : ∀ (v : Json) (k : Nat) (r : List Char), (text v).length ≤ k → Stops r →
    readValue k (text v ++ r) = some (v, r)
  | v, 0, r, h, _ => by
    have : text v = [] := List.length_eq_zero_iff.1 (Nat.le_zero.1 h)
    cases v with
    | num n => obtain ⟨c, cs, hn, -⟩ := numText_head n; simp [text, hn] at this
    | bool b => cases b <;> simp [text] at this
    | arr xs => cases xs <;> simp [text] at this
    | obj kvs => cases kvs <;> simp [text] at this
    | null => simp [text] at this
    | str s => simp [text, strText] at this
  | .null, k + 1, r, _, _ => by simp [text, readValue]
  | .bool true, k + 1, r, _, _ => by simp [text, readValue]
  | .bool false, k + 1, r, _, _ => by simp [text, readValue]
  | .num n, k + 1, r, _, hr => by
    obtain ⟨c, cs, hn, hc⟩ := numText_head n
    have h := readNum_numText n hr
    rw [text, hn, List.cons_append, readValue_num k _ hc, ← List.cons_append, ← hn, h]
    rfl
  | .str s, k + 1, r, _, _ => by
    simp [text, strText, readValue, readStr_strText]
  | .arr [], k + 1, r, _, _ => by simp [text, readValue]
  | .arr (x :: xs), k + 1, r, h, _ => by
    simp only [text, List.length_cons, List.length_append] at h
    have hx := readValue_text x k (moreElems xs ++ r) (by omega) (stops_moreElems xs r)
    have hxs := readElems_moreElems xs k r (by omega)
    rw [text, List.cons_append, List.append_assoc, readValue_bracket (text_ne_close x _), hx,
      Option.bind_some, hxs]
    rfl
  | .obj [], k + 1, r, _, _ => by simp [text, readValue]
  | .obj ((key, v) :: kvs), k + 1, r, h, _ => by
    simp only [text, strText, List.length_cons, List.length_append] at h
    have hkv := readField_text key v k (moreFields kvs ++ r) (by omega) (stops_moreFields kvs r)
    have hkvs := readFields_moreFields kvs k r (by omega)
    have hq : ∀ r', strText key ++ ':' :: (text v ++ (moreFields kvs ++ r)) ≠ '}' :: r' := by
      simp [strText]
    rw [text, List.cons_append, List.append_assoc, List.cons_append, List.append_assoc,
      readValue_brace hq, hkv, Option.bind_some, hkvs]
    rfl
theorem readElems_moreElems : ∀ (xs : List Json) (k : Nat) (r : List Char),
    (moreElems xs).length ≤ k → readElems k (moreElems xs ++ r) = some (xs, r)
  | [], 0, r, h => by simp [moreElems] at h
  | _ :: _, 0, r, h => by simp [moreElems] at h
  | [], k + 1, r, _ => by simp [moreElems, readElems]
  | x :: xs, k + 1, r, h => by
    simp only [moreElems, List.length_cons, List.length_append] at h
    have hx := readValue_text x k (moreElems xs ++ r) (by omega) (stops_moreElems xs r)
    have hxs := readElems_moreElems xs k r (by omega)
    simp only [moreElems, List.cons_append, List.append_assoc, readElems, hx, hxs,
      Option.bind_eq_bind, Option.bind_some]
theorem readField_text : ∀ (key : String) (v : Json) (k : Nat) (r : List Char),
    (text v).length + 1 ≤ k → Stops r →
    readField k (strText key ++ ':' :: (text v ++ r)) = some ((key, v), r)
  | _, _, 0, _, h, _ => by omega
  | key, v, k + 1, r, h, hr => by
    have hv := readValue_text v k r (by omega) hr
    simp only [strText, List.cons_append, List.append_assoc, List.nil_append, readField,
      readStr_strText, Option.bind_eq_bind, Option.bind_some, hv, String.ofList_toList]
theorem readFields_moreFields : ∀ (kvs : List (String × Json)) (k : Nat) (r : List Char),
    (moreFields kvs).length ≤ k → readFields k (moreFields kvs ++ r) = some (kvs, r)
  | [], 0, r, h => by simp [moreFields] at h
  | _ :: _, 0, r, h => by simp [moreFields] at h
  | [], k + 1, r, _ => by simp [moreFields, readFields]
  | (key, v) :: kvs, k + 1, r, h => by
    simp only [moreFields, strText, List.length_cons, List.length_append] at h
    have hkv := readField_text key v k (moreFields kvs ++ r) (by omega) (stops_moreFields kvs r)
    have hkvs := readFields_moreFields kvs k r (by omega)
    simp only [moreFields, List.cons_append, List.append_assoc, readFields, hkv, hkvs,
      Option.bind_eq_bind, Option.bind_some]
end

/-- Reading inverts writing. -/
theorem read_text (v : Json) : read (text v) = some v := by
  have h := readValue_text v (text v).length [] (Nat.le_refl _) trivial
  rw [List.append_nil] at h
  rw [read, h]

theorem text_injective {v w : Json} (h : text v = text w) : v = w := by
  rw [← Option.some.injEq, ← read_text v, h, read_text]

instance : DecidableEq Json := fun v w =>
  decidable_of_iff (text v = text w) ⟨text_injective, congrArg text⟩

/-! ### Lengths -/

theorem length_digits_le {k n : Nat} (h : n < 10 ^ (k + 1)) : (digits n).length ≤ k + 1 := by
  induction k generalizing n with
  | zero => rw [digits, Nat.toDigits_of_lt_base (by simpa using h)]; simp
  | succ k ih =>
    by_cases hn : n < 10
    · rw [digits, Nat.toDigits_of_lt_base hn]; simp
    · have hdiv : n / 10 < 10 ^ (k + 1) := by rw [Nat.pow_succ] at h; omega
      rw [digits, Nat.toDigits_of_base_le (by decide) (by omega), List.length_append,
        List.length_singleton]
      exact Nat.succ_le_succ (ih hdiv)

theorem length_escapeChar_le (c : Char) : (escapeChar c).length ≤ 6 := by
  unfold escapeChar
  split
  · simp
  · split <;> simp

theorem length_strText_le (s : String) : (strText s).length ≤ 6 * s.toList.length + 2 := by
  rw [strText, List.length_cons, List.length_append, List.length_singleton]
  induction s.toList with
  | nil => simp
  | cons c cs ih =>
    have := length_escapeChar_le c
    rw [List.flatMap_cons, List.length_append, List.length_cons]
    omega

/-! ### Compact text is one line -/

theorem digitChar_ne_newline : ∀ d, d < 16 → Nat.digitChar d ≠ '\n' := by decide

theorem newline_not_mem_digits (n : Nat) : '\n' ∉ digits n := fun h => by
  have := isDigit_of_mem_digits h; revert this; decide

theorem newline_not_mem_escapeChar (c : Char) : '\n' ∉ escapeChar c := by
  unfold escapeChar
  cases hf : shortEscapes.find? (·.1 == c) with
  | some ae =>
    have hm := List.mem_of_find?_eq_some hf
    have : ∀ p ∈ shortEscapes, '\n' ∉ ['\\', p.2] := by decide
    exact this ae hm
  | none =>
    have hc : '\n' ≠ c := by
      rintro rfl
      revert hf; decide
    dsimp only
    split
    · simpa using ⟨(digitChar_ne_newline _ (by omega)).symm, (digitChar_ne_newline _ (by omega)).symm⟩
    · simpa using hc

theorem newline_not_mem_strText (s : String) : '\n' ∉ strText s := by
  simp [strText, newline_not_mem_escapeChar]

theorem newline_not_mem_numText (n : JsonNumber) : '\n' ∉ numText n := by
  have hf : '\n' ∉ fracText n.frac := by
    unfold fracText; split
    · simp
    · simp only [List.mem_cons, List.mem_map, not_or, not_exists, not_and]
      exact ⟨by decide, fun d _ => digitChar_ne_newline d.val (by omega)⟩
  have he : '\n' ∉ expText n.exp := by
    match n.exp with
    | none => simp [expText]
    | some (.ofNat k) => simp [expText, newline_not_mem_digits]
    | some (.negSucc k) => simp [expText, newline_not_mem_digits]
  simp only [numText, List.mem_append, not_or]
  exact ⟨by split <;> simp, newline_not_mem_digits _, hf, he⟩

mutual
theorem newline_not_mem_text : ∀ v : Json, '\n' ∉ text v
  | .null => by simp [text]
  | .bool true => by simp [text]
  | .bool false => by simp [text]
  | .num n => newline_not_mem_numText n
  | .str s => newline_not_mem_strText s
  | .arr [] => by simp [text]
  | .arr (x :: xs) => by simp [text, newline_not_mem_text x, newline_not_mem_moreElems xs]
  | .obj [] => by simp [text]
  | .obj ((k, v) :: kvs) => by
    simp [text, newline_not_mem_strText k, newline_not_mem_text v, newline_not_mem_moreFields kvs]
theorem newline_not_mem_moreElems : ∀ xs : List Json, '\n' ∉ moreElems xs
  | [] => by simp [moreElems]
  | x :: xs => by simp [moreElems, newline_not_mem_text x, newline_not_mem_moreElems xs]
theorem newline_not_mem_moreFields : ∀ kvs : List (String × Json), '\n' ∉ moreFields kvs
  | [] => by simp [moreFields]
  | (k, v) :: kvs => by
    simp [moreFields, newline_not_mem_strText k, newline_not_mem_text v,
      newline_not_mem_moreFields kvs]
end

/-! ### Truncated text

A reader that stops before the end of its input does not see what follows, so a value read from a
proper prefix of a document would leave the rest of the document unread. -/

theorem takeWhile_stop {p : Char → Bool} {s r : List Char} (h : s.dropWhile p = r) (hr : r ≠ [])
    (t : List Char) :
    (s ++ t).takeWhile p = s.takeWhile p ∧ (s ++ t).dropWhile p = r ++ t := by
  have hne : s.dropWhile p ≠ [] := h ▸ hr
  have hall : ¬ ∀ x ∈ s, p x := fun ha => hne (List.dropWhile_eq_nil_iff.2 ha)
  have hlen : ¬ (s.takeWhile p).length = s.length := fun hl => by
    have := List.takeWhile_append_dropWhile (p := p) (l := s)
    have hl' := congrArg List.length this
    rw [List.length_append, hl] at hl'
    exact hne (List.length_eq_zero_iff.1 (by omega))
  rw [List.takeWhile_append, List.dropWhile_append, if_neg hlen, h]
  simp [hr]

theorem readStr_extend {s cs r : List Char} (t : List Char) (h : readStr s = some (cs, r)) :
    readStr (s ++ t) = some (cs, r ++ t) := by
  induction s using readStr.induct generalizing cs r with
  | case1 => simp [readStr] at h
  | case2 s => simp [readStr] at h ⊢; obtain ⟨rfl, rfl⟩ := h; simp
  | case3 h' l s hx ih =>
    simp only [readStr, hx, if_true, List.cons_append, Option.map_eq_some_iff] at h ⊢
    obtain ⟨p, hp, he⟩ := h
    cases he
    exact ⟨_, ih hp, rfl⟩
  | case4 h' l s hx => simp [readStr, hx] at h
  | case5 e s hu a b hf ih =>
    rw [readStr.eq_4 _ _ hu, hf] at h
    obtain ⟨p, hp, he⟩ := Option.map_eq_some_iff.1 h
    cases he
    -- no short escape is written with the letter of the long one
    have hne : e ≠ 'u' := by rintro rfl; simp [shortEscapes] at hf
    rw [List.cons_append, List.cons_append, readStr.eq_4 _ _ fun _ _ _ he _ => hne he, hf]
    exact Option.map_eq_some_iff.2 ⟨_, ih hp, rfl⟩
  | case6 e s hu hf => rw [readStr.eq_4 _ _ hu, hf] at h; cases h
  | case7 c s hq hu he ih =>
    rw [readStr.eq_5 _ _ hq hu he] at h
    obtain ⟨p, hp, hpe⟩ := Option.map_eq_some_iff.1 h
    cases hpe
    have hb : c ≠ '\\' := by
      rintro rfl
      cases s with
      | nil => simp [readStr] at hp
      | cons d s => exact he d s rfl rfl
    rw [List.cons_append, readStr.eq_5 _ _ hq (fun _ _ _ h _ => hb h) fun _ _ h _ => hb h]
    exact Option.map_eq_some_iff.2 ⟨_, ih hp, rfl⟩

theorem readNat_extend {s r : List Char} {n : Nat} (t : List Char) (h : readNat s = some (n, r))
    (hr : r ≠ []) : readNat (s ++ t) = some (n, r ++ t) := by
  unfold readNat at h ⊢
  simp only [Option.ite_none_right_eq_some, Option.some.injEq, Prod.mk.injEq] at h
  obtain ⟨hd, hn, hs⟩ := h
  obtain ⟨h1, h2⟩ := takeWhile_stop hs hr t
  rw [hn] at hd
  simp only [h1, h2, hn, if_pos hd]

theorem readFrac_extend {s r : List Char} {ds : List (Fin 10)} (t : List Char)
    (h : readFrac s = some (ds, r)) (hr : r ≠ []) : readFrac (s ++ t) = some (ds, r ++ t) := by
  unfold readFrac at h
  split at h
  · dsimp only at h
    split at h
    · cases h
    · rename_i s hne
      obtain ⟨rfl, hs⟩ := Prod.mk.inj (Option.some.inj h)
      obtain ⟨h1, h2⟩ := takeWhile_stop hs hr t
      simp only [List.cons_append, readFrac, h1, h2, if_neg hne]
  · rename_i hne
    obtain ⟨rfl, rfl⟩ := Prod.mk.inj (Option.some.inj h)
    cases s with
    | nil => exact absurd rfl hr
    | cons c s =>
      rw [List.cons_append, readFrac.eq_2]
      rintro _ h
      exact hne s (by rw [(List.cons.inj h).1])

theorem readExp_extend {s r : List Char} {e : Option Int} (t : List Char)
    (h : readExp s = some (e, r)) (hr : r ≠ []) : readExp (s ++ t) = some (e, r ++ t) := by
  unfold readExp at h
  split at h
  · obtain ⟨p, hp, he⟩ := Option.map_eq_some_iff.1 h
    cases he
    simp only [List.cons_append, readExp, readNat_extend t hp hr, Option.map_some]
  · rename_i s hm
    obtain ⟨p, hp, he⟩ := Option.map_eq_some_iff.1 h
    cases he
    cases s with
    | nil => simp [readNat, digits] at hp
    | cons c s =>
      rw [List.cons_append, List.cons_append, readExp.eq_2, ← List.cons_append,
        readNat_extend t hp hr]
      · rfl
      · intro s' h
        exact hm s (by rw [(List.cons.inj h).1])
  · rename_i hm he
    obtain ⟨rfl, rfl⟩ := Prod.mk.inj (Option.some.inj h)
    cases s with
    | nil => exact absurd rfl hr
    | cons c s =>
      rw [List.cons_append, readExp.eq_3]
      · intro s' h; exact he s (by rw [(List.cons.inj h).1])
      · intro s' h; exact he s (by rw [(List.cons.inj h).1])

theorem readFrac_nil_rest {s r : List Char} {ds : List (Fin 10)} (h : readFrac s = some (ds, r))
    (hr : r ≠ []) : s ≠ [] := by
  rintro rfl
  simp [readFrac] at h
  exact hr h.2

theorem readExp_nil_rest {s r : List Char} {e : Option Int} (h : readExp s = some (e, r))
    (hr : r ≠ []) : s ≠ [] := by
  rintro rfl
  simp [readExp] at h
  exact hr h.2

theorem readAbs_extend {neg : Bool} {s r : List Char} {n : JsonNumber} (t : List Char)
    (h : readAbs neg s = some (n, r)) (hr : r ≠ []) : readAbs neg (s ++ t) = some (n, r ++ t) := by
  simp only [readAbs, Option.bind_eq_bind, Option.bind_eq_some_iff] at h
  obtain ⟨⟨i, s₁⟩, hi, ⟨f, s₂⟩, hf, ⟨e, s₃⟩, he, h⟩ := h
  obtain ⟨rfl, rfl⟩ := Prod.mk.inj (Option.some.inj h)
  have h₂ := readExp_nil_rest he hr
  have h₁ := readFrac_nil_rest hf h₂
  simp only [readAbs, readNat_extend t hi h₁, readFrac_extend t hf h₂, readExp_extend t he hr,
    Option.bind_eq_bind, Option.bind_some]

theorem readNum_extend {s r : List Char} {n : JsonNumber} (t : List Char)
    (h : readNum s = some (n, r)) (hr : r ≠ []) : readNum (s ++ t) = some (n, r ++ t) := by
  unfold readNum at h
  split at h
  · simpa only [List.cons_append, readNum] using readAbs_extend t h hr
  · rename_i hm
    cases s with
    | nil => simp [readAbs, readNat, Eq.comm (a := ([] : List Char)), digits_ne_nil] at h
    | cons c s =>
      rw [List.cons_append, readNum.eq_2, ← List.cons_append]
      · exact readAbs_extend t h hr
      · intro s' h; exact hm s (by rw [(List.cons.inj h).1])

theorem readNum_head {s : List Char} {p : JsonNumber × List Char} (h : readNum s = some p) :
    ∃ c cs, s = c :: cs ∧ (c = '-' ∨ c.isDigit = true) := by
  unfold readNum at h
  split at h
  · exact ⟨_, _, rfl, .inl rfl⟩
  · simp only [readAbs, Option.bind_eq_bind, Option.bind_eq_some_iff] at h
    obtain ⟨⟨i, s₁⟩, hi, -⟩ := h
    simp only [readNat, Option.ite_none_right_eq_some] at hi
    cases s with
    | nil => exact absurd hi.1.symm (digits_ne_nil _)
    | cons c s =>
      refine ⟨c, s, rfl, .inr ?_⟩
      by_contra hc
      rw [List.takeWhile_cons_of_neg hc] at hi
      exact digits_ne_nil _ hi.1.symm

def isNum : Json → Bool
  | .num _ => true
  | _ => false

/-- The four readers on `s ++ t` after they succeeded on `s`; `m` is at least the fuel that was
enough. A number may go on in `t`, so it must have been followed by something. -/
structure ReadExtends (n : Nat) : Prop where
  value : ∀ {s v r}, readValue n s = some (v, r) → (isNum v = false ∨ r ≠ []) →
    ∀ {m}, n ≤ m → ∀ t, readValue m (s ++ t) = some (v, r ++ t)
  elems : ∀ {s xs r}, readElems n s = some (xs, r) →
    ∀ {m}, n ≤ m → ∀ t, readElems m (s ++ t) = some (xs, r ++ t)
  field : ∀ {s kv r}, readField n s = some (kv, r) → r ≠ [] →
    ∀ {m}, n ≤ m → ∀ t, readField m (s ++ t) = some (kv, r ++ t)
  fields : ∀ {s kvs r}, readFields n s = some (kvs, r) →
    ∀ {m}, n ≤ m → ∀ t, readFields m (s ++ t) = some (kvs, r ++ t)

theorem readElems_ne_nil {n : Nat} {s r : List Char} {xs : List Json} (h : readElems n s = some (xs, r)) : s ≠ [] := by
  rintro rfl
  cases n <;> simp [readElems] at h

theorem readFields_ne_nil {n : Nat} {s r : List Char} {kvs : List (String × Json)}
    (h : readFields n s = some (kvs, r)) : s ≠ [] := by
  rintro rfl
  cases n <;> simp [readFields] at h

namespace ReadExtends
variable {n m : Nat} {s r : List Char}

theorem value_succ (ih : ReadExtends n) {v : Json} (h : readValue (n + 1) s = some (v, r))
    (hv : isNum v = false ∨ r ≠ []) (hm : n ≤ m) (t : List Char) :
    readValue (m + 1) (s ++ t) = some (v, r ++ t) := by
  rw [readValue.eq_def] at h
  split at h
  · rename_i h0; cases h0
  · cases h; simp [readValue]
  · cases h; simp [readValue]
  · cases h; simp [readValue]
  · obtain ⟨p, hp, he⟩ := Option.map_eq_some_iff.1 h
    cases he
    simp only [List.cons_append, readValue, readStr_extend t hp, Option.map_some]
  · cases h; simp [readValue]
  · rename_i k s hne hk
    cases hk
    simp only [Option.bind_eq_bind, Option.bind_eq_some_iff] at h
    obtain ⟨⟨x, s₁⟩, hx, ⟨xs, s₂⟩, hxs, h⟩ := h
    cases h
    have hs : ∀ r', s ++ t ≠ ']' :: r' := by
      intro r' he
      cases s with
      | nil => cases n <;> simp [readValue, readNum, readAbs, readNat, digits] at hx
      | cons c s => exact hne s (by rw [(List.cons.inj he).1])
    rw [List.cons_append, readValue_bracket hs, ih.value hx (.inr (readElems_ne_nil hxs)) hm t,
      Option.bind_some, ih.elems hxs hm t, Option.bind_some]
  · cases h; simp [readValue]
  · rename_i k s hne hk
    cases hk
    simp only [Option.bind_eq_bind, Option.bind_eq_some_iff] at h
    obtain ⟨⟨x, s₁⟩, hx, ⟨xs, s₂⟩, hxs, h⟩ := h
    cases h
    have hs : ∀ r', s ++ t ≠ '}' :: r' := by
      intro r' he
      cases s with
      | nil => cases n <;> simp [readField] at hx
      | cons c s => exact hne s (by rw [(List.cons.inj he).1])
    rw [List.cons_append, readValue_brace hs, ih.field hx (readFields_ne_nil hxs) hm t,
      Option.bind_some, ih.fields hxs hm t, Option.bind_some]
  · obtain ⟨p, hp, he⟩ := Option.map_eq_some_iff.1 h
    cases he
    have hr : p.2 ≠ [] := by simpa [isNum] using hv
    obtain ⟨c, cs, rfl, hc⟩ := readNum_head hp
    rw [List.cons_append, readValue_num m _ hc, ← List.cons_append, readNum_extend t hp hr]
    rfl

theorem elems_succ (ih : ReadExtends n) {xs : List Json} (h : readElems (n + 1) s = some (xs, r)) (hm : n ≤ m)
    (t : List Char) : readElems (m + 1) (s ++ t) = some (xs, r ++ t) := by
  rw [readElems.eq_def] at h
  split at h
  · rename_i h0; cases h0
  · cases h; simp [readElems]
  · rename_i k s hk
    cases hk
    simp only [Option.bind_eq_bind, Option.bind_eq_some_iff] at h
    obtain ⟨⟨x, s₁⟩, hx, ⟨xs, s₂⟩, hxs, h⟩ := h
    cases h
    simp only [List.cons_append, readElems, ih.value hx (.inr (readElems_ne_nil hxs)) hm t,
      ih.elems hxs hm t, Option.bind_eq_bind, Option.bind_some]
  · cases h

theorem field_succ (ih : ReadExtends n) {kv : String × Json} (h : readField (n + 1) s = some (kv, r)) (hr : r ≠ [])
    (hm : n ≤ m) (t : List Char) : readField (m + 1) (s ++ t) = some (kv, r ++ t) := by
  rw [readField.eq_def] at h
  split at h
  · rename_i h0; cases h0
  · rename_i k s hk
    cases hk
    simp only [Option.bind_eq_bind, Option.bind_eq_some_iff] at h
    obtain ⟨⟨key, s₁⟩, hkey, h⟩ := h
    dsimp only at h
    split at h
    · simp only [Option.bind_eq_some_iff] at h
      obtain ⟨⟨v, s₂⟩, hv, h⟩ := h
      cases h
      simp only [List.cons_append, readField, readStr_extend t hkey, Option.bind_eq_bind,
        Option.bind_some, ih.value hv (.inr hr) hm t]
    · cases h
  · cases h

theorem fields_succ (ih : ReadExtends n) {kvs : List (String × Json)} (h : readFields (n + 1) s = some (kvs, r))
    (hm : n ≤ m) (t : List Char) : readFields (m + 1) (s ++ t) = some (kvs, r ++ t) := by
  rw [readFields.eq_def] at h
  split at h
  · rename_i h0; cases h0
  · cases h; simp [readFields]
  · rename_i k s hk
    cases hk
    simp only [Option.bind_eq_bind, Option.bind_eq_some_iff] at h
    obtain ⟨⟨kv, s₁⟩, hkv, ⟨kvs, s₂⟩, hkvs, h⟩ := h
    cases h
    simp only [List.cons_append, readFields, ih.field hkv (readFields_ne_nil hkvs) hm t,
      ih.fields hkvs hm t, Option.bind_eq_bind, Option.bind_some]
  · cases h

end ReadExtends

theorem read_extend (n : Nat) : ReadExtends n := by
  induction n with
  | zero => constructor <;> simp [readValue, readElems, readField, readFields]
  | succ n ih =>
    have hsucc {m : Nat} (hm : n + 1 ≤ m) : ∃ k, m = k + 1 ∧ n ≤ k := ⟨m - 1, by omega, by omega⟩
    constructor
    · intro s v r h hv m hm t
      obtain ⟨k, rfl, hk⟩ := hsucc hm
      exact ih.value_succ h hv hk t
    · intro s xs r h m hm t
      obtain ⟨k, rfl, hk⟩ := hsucc hm
      exact ih.elems_succ h hk t
    · intro s kv r h hr m hm t
      obtain ⟨k, rfl, hk⟩ := hsucc hm
      exact ih.field_succ h hr hk t
    · intro s kvs r h m hm t
      obtain ⟨k, rfl, hk⟩ := hsucc hm
      exact ih.fields_succ h hk t

theorem text_obj_head (kvs : List (String × Json)) : ∃ s, text (.obj kvs) = '{' :: s := by
  cases kvs <;> exact ⟨_, rfl⟩

theorem moreFields_close (kvs : List (String × Json)) : ∃ s, moreFields kvs = s ++ ['}'] := by
  induction kvs with
  | nil => exact ⟨[], rfl⟩
  | cons kv kvs ih =>
    obtain ⟨k, v⟩ := kv
    obtain ⟨s, hs⟩ := ih
    refine ⟨',' :: (strText k ++ ':' :: (text v ++ s)), ?_⟩
    rw [moreFields, hs]; simp

theorem text_obj_braces (kvs : List (String × Json)) :
    ∃ s, text (.obj kvs) = '{' :: (s ++ ['}']) := by
  rcases kvs with _ | ⟨⟨k, v⟩, kvs⟩
  · exact ⟨[], rfl⟩
  · obtain ⟨s, hs⟩ := moreFields_close kvs
    refine ⟨strText k ++ ':' :: (text v ++ s), ?_⟩
    rw [text, hs]; simp

theorem isNum_of_brace {k : Nat} {s r : List Char} {v : Json}
    (h : readValue k ('{' :: s) = some (v, r)) : isNum v = false := by
  cases k with
  | zero => simp [readValue] at h
  | succ k =>
    by_cases hs : ∃ s', s = '}' :: s'
    · obtain ⟨s', rfl⟩ := hs
      simp only [readValue, Option.some.injEq, Prod.mk.injEq] at h
      rw [← h.1]; rfl
    · rw [readValue_brace fun s' he => hs ⟨s', he⟩] at h
      simp only [Option.bind_eq_some_iff, Option.some.injEq, Prod.mk.injEq] at h
      obtain ⟨_, _, _, _, rfl, _⟩ := h
      rfl

/-- A proper prefix of an object's text is not a document. -/
theorem read_truncated {kvs : List (String × Json)} {s : List Char} (hs : s <+: text (.obj kvs))
    (hne : s ≠ text (.obj kvs)) : read s = none := by
  obtain ⟨t, ht⟩ := hs
  unfold read
  split
  · rename_i v hv
    have hnum : isNum v = false := by
      obtain ⟨u, hu⟩ := text_obj_head kvs
      cases s with
      | nil => simp [readValue] at hv
      | cons c s =>
        rw [hu, List.cons_append] at ht
        obtain ⟨rfl, -⟩ := List.cons.inj ht
        exact isNum_of_brace hv
    have hfull := readValue_text (.obj kvs) (text (.obj kvs)).length [] (Nat.le_refl _) trivial
    have hlen : s.length ≤ (text (.obj kvs)).length := by rw [← ht]; simp
    have hext := (read_extend s.length).value hv (.inl hnum) hlen t
    rw [List.append_nil, ← ht] at hfull
    rw [ht] at hext hfull
    have : t = [] := by simpa using congrArg (Option.map Prod.snd) (hext.symm.trans hfull)
    exact absurd (by rw [← ht, this, List.append_nil]) hne
  · rfl

end Json
