import Mathlib.Data.List.Nodup
import Mathlib.Data.String.Basic

/-!
# A little SQL

`UPDATE t SET c = p, … WHERE k = p` and `SELECT c, … FROM t` over tables of named text columns, with
parameters that are numbered (`$1`) or counted (`?`). `Conventions` says what a database takes a name for and which
values it takes for equal. A statement that does not parse, names something that is not there, or gets the wrong number
of values, is refused.
-/

namespace Sql

/-- How the database writes its parameters. -/
inductive Dialect where
  | dollar
  | question
  deriving DecidableEq

inductive Token where
  | word (s : String)
  | param (n : Nat)
  | mark
  | comma
  | equals
  deriving DecidableEq

/-! ### Tokens -/

def isNameChar (c : Char) : Bool := c.isAlphanum || c = '_' || 0x80 ≤ c.val

def isWordChar (c : Char) : Bool := isNameChar c || c = '.' || c = '$'

def wordToken : List Char → Option Token
  | '$' :: ds => if ds ≠ [] ∧ ds.all Char.isDigit then some (.param (Nat.ofDigitChars 10 ds 0)) else none
  | w => some (.word (String.ofList w))

def punctuation : Char → Option (List Token)
  | ' ' => some []
  | ',' => some [.comma]
  | '=' => some [.equals]
  | '?' => some [.mark]
  | _ => none

def flush (w : List Char) : Option (List Token) := if w = [] then some [] else (wordToken w).map ([·])

/-- The tokens of a text, after the beginning `w` of a word. -/
def lex : List Char → List Char → Option (List Token)
  | w, [] => flush w
  | w, c :: s =>
    if isWordChar c then lex (w ++ [c]) s
    else match flush w, punctuation c, lex [] s with
      | some ts₁, some ts₂, some ts₃ => some (ts₁ ++ (ts₂ ++ ts₃))
      | _, _, _ => none

/-- Question marks get their numbers, after `n` parameters. -/
def number (d : Dialect) : Nat → List Token → Option (List Token)
  | _, [] => some []
  | n, .mark :: ts => if d = .question then (number d (n + 1) ts).map (.param (n + 1) :: ·) else none
  | n, .param i :: ts => if d = .dollar then (number d (n + 1) ts).map (.param i :: ·) else none
  | n, t :: ts => (number d n ts).map (t :: ·)

/-- The highest number of a parameter. -/
def arity (ts : List Token) : Nat := ts.foldr (fun | .param n, m => max n m | _, m => m) 0

/-! ### Statements -/

def reserved : List String :=
  ["ALL", "AND", "AS", "BY", "CREATE", "DEFAULT", "DELETE", "DISTINCT", "FROM", "GROUP", "HAVING", "IN", "INSERT",
    "INTO", "IS", "JOIN", "LIKE", "LIMIT", "NOT", "NULL", "ON", "OR", "ORDER", "SELECT", "SET", "TABLE", "UNION",
    "UPDATE", "VALUES", "WHERE"]

/-- A word that can name something without quotes. -/
def isIdent (s : String) : Bool :=
  s.toList.head?.any (fun c => !c.isDigit) && !reserved.contains (String.ofList (s.toList.map Char.toUpper))

def isName (s : String) : Bool := isIdent s && s.toList.all isNameChar

/-- The name of a table may have the one of its schema before it. -/
def isTableName (s : String) : Bool := isIdent s && s.toList.all fun c => isNameChar c || c = '.'

inductive Stmt where
  | update (table : String) (sets : List (String × Nat)) (key : String) (param : Nat)
  | select (columns : List String) (table : String)

/-- `c = $1, …` up to a token that is no comma. -/
def assignments : List Token → Option (List (String × Nat) × List Token)
  | .word c :: .equals :: .param n :: .comma :: ts =>
    if isName c then (assignments ts).map fun (sets, ts) => ((c, n) :: sets, ts) else none
  | .word c :: .equals :: .param n :: ts => if isName c then some ([(c, n)], ts) else none
  | _ => none

def names : List Token → Option (List String × List Token)
  | .word c :: .comma :: ts => if isName c then (names ts).map fun (cs, ts) => (c :: cs, ts) else none
  | .word c :: ts => if isName c then some ([c], ts) else none
  | _ => none

/-- Nothing can be selected with the numbered parameters of PostgreSQL only. -/
def selectList (d : Dialect) (ts : List Token) : Option (List String × List Token) :=
  match ts with
  | .word "FROM" :: _ => if d = .dollar then some ([], ts) else none
  | _ => names ts

def parseTokens (d : Dialect) : List Token → Option Stmt
  | .word "UPDATE" :: .word t :: .word "SET" :: ts =>
    match assignments ts with
    | some (sets, [.word "WHERE", .word k, .equals, .param n]) =>
      if isTableName t ∧ isName k then some (.update t sets k n) else none
    | _ => none
  | .word "SELECT" :: ts =>
    match selectList d ts with
    | some (cs, [.word "FROM", .word t]) => if isTableName t then some (.select cs t) else none
    | _ => none
  | _ => none

/-- A statement and how many values it takes. -/
def parse (d : Dialect) (sql : String) : Option (Stmt × Nat) :=
  match (lex [] sql.toList).bind (number d 0) with
  | some ts => (parseTokens d ts).map (·, arity ts)
  | none => none

/-! ### Tables -/

theorem lookup_eq_some_of_forall {κ α : Type} [BEq κ] [LawfulBEq κ] {l : List (κ × α)} {k : κ} {a : α}
    (hk : k ∈ l.map Prod.fst) (h : ∀ e ∈ l, e.1 = k → e.2 = a) : l.lookup k = some a := by
  obtain ⟨e, hmem, hek⟩ := List.mem_map.1 hk
  have hsome : (l.lookup k).isSome := List.lookup_isSome_iff.2 ⟨e, hmem, by simp [hek]⟩
  obtain ⟨b, hb⟩ := Option.isSome_iff_exists.1 hsome
  obtain ⟨l₁, l₂, rfl, -⟩ := List.lookup_eq_some_iff.1 hb
  have hba : b = a := h (k, b) (by simp) rfl
  rw [hb, hba]

/-- The values of a row under the names of their columns. -/
abbrev Row := List (String × Option String)

/-- The value in a column, if it has one that is not null. -/
def Row.get (row : Row) (c : String) : Option String := (row.lookup c).join

def Row.set (vals : List (String × String)) (row : Row) : Row :=
  row.map fun (c, v) => (c, (vals.lookup c).or v)

structure Table where
  name : String
  columns : List String
  nodup : columns.Nodup
  rows : List Row
  shape : ∀ row ∈ rows, row.map Prod.fst = columns

/-- The row after an update of the rows with `p`. -/
def Row.update (p : Row → Bool) (vals : List (String × String)) (row : Row) : Row := if p row then row.set vals else row

/-- The row has the value `k` in the column `key`. -/
def Row.has (key k : String) (row : Row) : Bool := row.get key = some k

theorem Row.has_iff {key k : String} {row : Row} : row.has key k ↔ row.get key = some k := decide_eq_true_iff

theorem Row.map_fst_set (vals : List (String × String)) (row : Row) :
    (row.set vals).map Prod.fst = row.map Prod.fst := by
  simp [Row.set, Function.comp_def]

theorem Row.map_fst_update (p : Row → Bool) (vals : List (String × String)) (row : Row) :
    (row.update p vals).map Prod.fst = row.map Prod.fst := by
  unfold Row.update
  split
  · exact map_fst_set vals row
  · rfl

theorem Row.lookup_set (vals : List (String × String)) (row : Row) (c : String) :
    (row.set vals).lookup c = (row.lookup c).map fun v => (vals.lookup c).or v := by
  induction row with
  | nil => rfl
  | cons e row ih =>
    show List.lookup c ((e.1, (vals.lookup e.1).or e.2) :: Row.set vals row) = _
    rw [List.lookup_cons, List.lookup_cons, ih]
    by_cases hc : c = e.1
    · simp [hc]
    · rw [beq_false_of_ne hc]

/-- A column of the row holds the new value, if there is one. -/
theorem Row.get_set {row : Row} {c : String} (hc : c ∈ row.map Prod.fst) (vals : List (String × String)) :
    (row.set vals).get c = (vals.lookup c).or (row.get c) := by
  unfold Row.get
  rw [Row.lookup_set]
  obtain ⟨⟨c', v⟩, hmem, rfl⟩ := List.mem_map.1 hc
  obtain ⟨v, hv⟩ : ∃ v, row.lookup c' = some v := by
    rw [← Option.isSome_iff_exists, List.lookup_isSome_iff]
    exact ⟨(c', v), hmem, by simp⟩
  rw [hv]
  rfl

theorem Row.get_set_of_none {vals : List (String × String)} {c : String} (hc : vals.lookup c = none) (row : Row) :
    (row.set vals).get c = row.get c := by
  unfold Row.get
  rw [Row.lookup_set, hc]
  rcases row.lookup c with _ | v <;> rfl

/-- The first value for a column counts. -/
theorem Row.set_congr {vals vals' : List (String × String)} (h : ∀ c, vals.lookup c = vals'.lookup c) (row : Row) :
    row.set vals = row.set vals' := by
  simp only [Row.set, h]

/-- Columns that are all different may be set in any order. -/
theorem lookup_reverse_of_nodup {vals : List (String × String)} (h : (vals.map Prod.fst).Nodup) (c : String) :
    vals.reverse.lookup c = vals.lookup c := by
  rcases hv : vals.lookup c with _ | v
  · rw [List.lookup_eq_none_iff] at hv ⊢
    exact fun e he => hv e (List.mem_reverse.1 he)
  · obtain ⟨l₁, l₂, rfl, -⟩ := List.lookup_eq_some_iff.1 hv
    refine lookup_eq_some_of_forall (a := v) (by simp) fun e he hc => ?_
    have heq : e = (c, v) := List.inj_on_of_nodup_map h (List.mem_reverse.1 he) (by simp) hc
    rw [heq]

theorem Row.set_nil (row : Row) : row.set [] = row := List.map_id row

/-- A column with a value is one of the row's. -/
theorem Row.mem_of_get_eq {row : Row} {c k : String} (h : row.get c = some k) : c ∈ row.map Prod.fst := by
  have hsome : (row.lookup c).isSome := by
    rcases hlookup : row.lookup c with _ | v
    · rw [Row.get, hlookup] at h
      cases h
    · rfl
  obtain ⟨e, he, heq⟩ := List.lookup_isSome_iff.1 hsome
  exact List.mem_map.2 ⟨e, he, (beq_iff_eq.1 heq).symm⟩

/-- What an update leaves in a column of the row. -/
theorem Row.get_set_eq_self_iff {row : Row} {c : String} (hc : c ∈ row.map Prod.fst) {vals : List (String × String)} :
    (row.set vals).get c = row.get c ↔ ∀ v, vals.lookup c = some v → row.get c = some v := by
  rw [Row.get_set hc]
  rcases vals.lookup c with _ | v
  · simp
  · simp [eq_comm]

namespace Table

def update (t : Table) (p : Row → Bool) (vals : List (String × String)) : Table :=
  { t with
    rows := t.rows.map (Row.update p vals)
    shape := by
      intro row hrow
      obtain ⟨row₀, hmem, rfl⟩ := List.mem_map.1 hrow
      rw [Row.map_fst_update]
      exact t.shape row₀ hmem }

theorem update_congr (t : Table) (p : Row → Bool) {vals vals' : List (String × String)}
    (h : ∀ c, vals.lookup c = vals'.lookup c) : t.update p vals = t.update p vals' := by
  have hrow : Row.update p vals = Row.update p vals' := by
    funext row
    rw [Row.update, Row.update, Row.set_congr h]
  simp only [update, hrow]

/-- How many rows there are with `p`. -/
def count (t : Table) (p : Row → Bool) : Nat := (t.rows.filter p).length

end Table

/-! ### What names stand for -/

/-- What a database makes of texts: which table and which of the columns a name stands for, whether an update may set a
column twice, and which values are equal, namely those with the same sort key. -/
structure Conventions where
  isTable : String → String → Bool
  column : List String → String → Option String
  again : Bool
  collate : String → String

namespace Conventions

/-- Every text stands for itself. -/
def exact : Conventions := ⟨fun s name => s = name, fun cols s => if s ∈ cols then some s else none, false, id⟩

def lower (s : String) : String := String.ofList (s.toList.map Char.toLower)

/-- A name without quotes is read in lower case, as by PostgreSQL. -/
def folding : Conventions :=
  ⟨fun s name => lower s = name, fun cols s => if lower s ∈ cols then some (lower s) else none, false, id⟩

variable (n : Conventions)

/-- The row has the value `k` in the column `key`. -/
def has (key k : String) (row : Row) : Bool := (row.get key).map n.collate = some (n.collate k)

/-- The columns that are to be set. -/
def assign (cols : List String) (vals : List (String × String)) : Option (List (String × String)) :=
  vals.mapM fun e => (n.column cols e.1).map fun c => (c, e.2)

/-- What an update means for a table: the values for the columns, of which the first counts, and the column of the
key. -/
def read (table : String) (vals : List (String × String)) (key : String) (t : Table) :
    Option (List (String × String) × String) :=
  match n.assign t.columns vals, n.column t.columns key with
  | some vals, some key =>
    if n.isTable table t.name ∧ (n.again ∨ (vals.map Prod.fst).Nodup) then some (vals.reverse, key) else none
  | _, _ => none

def update (table : String) (vals : List (String × String)) (key k : String) (t : Table) : Option (Table × Nat) :=
  (n.read table vals key t).map fun r => (t.update (n.has r.2 k) r.1, t.count (n.has r.2 k))

def select (table : String) (cols : List String) (t : Table) : Option (List Row) :=
  if n.isTable table t.name then
    (cols.mapM (n.column t.columns)).map fun cs => t.rows.map fun row => cs.map fun c => (c, row.get c)
  else none

theorem read_key {table key : String} {vals : List (String × String)} {t : Table} {r : List (String × String) × String}
    (h : n.read table vals key t = some r) : n.column t.columns key = some r.2 := by
  unfold read at h
  split at h
  next hkey =>
    split at h
    · cases h
      exact hkey
    · cases h
  next => cases h

theorem read_nil {table key : String} {t : Table} {r : List (String × String) × String}
    (h : n.read table [] key t = some r) : r.1 = [] := by
  unfold read at h
  split at h
  next hvals _ =>
    split at h
    · cases hvals
      cases h
      rfl
    · cases h
  next => cases h

theorem mem_of_has {n : Conventions} {c k : String} {row : Row} (h : n.has c k row) : c ∈ row.map Prod.fst := by
  obtain ⟨w, hw, -⟩ := Option.map_eq_some_iff.1 (of_decide_eq_true h)
  exact Row.mem_of_get_eq hw

theorem has_exact (key k : String) : exact.has key k = Row.has key k := by
  funext row
  show decide ((row.get key).map id = some k) = _
  rw [Option.map_id_fun]
  rfl

theorem mapM_exact {α : Type} (cols : List String) (f : α → String) (g : α → String → α) (hg : ∀ a, g a (f a) = a)
    (l : List α) : l.mapM (fun a => (exact.column cols (f a)).map (g a)) =
      if ∀ a ∈ l, f a ∈ cols then some l else none := by
  induction l with
  | nil => rfl
  | cons a l ih =>
    rw [List.mapM_cons, ih]
    simp only [exact, List.forall_mem_cons]
    by_cases ha : f a ∈ cols
    · rw [if_pos ha]
      by_cases hl : ∀ a ∈ l, f a ∈ cols
      · rw [if_pos hl, if_pos ⟨ha, hl⟩]
        exact congrArg (fun b => some (b :: l)) (hg a)
      · have hnot : ¬ (f a ∈ cols ∧ ∀ a ∈ l, f a ∈ cols) := fun h => hl h.2
        rw [if_neg hl, if_neg hnot]
        rfl
    · have hnot : ¬ (f a ∈ cols ∧ ∀ a ∈ l, f a ∈ cols) := fun h => ha h.1
      rw [if_neg ha, if_neg hnot]
      rfl

theorem assign_exact (cols : List String) (vals : List (String × String)) :
    exact.assign cols vals = if ∀ e ∈ vals, e.1 ∈ cols then some vals else none :=
  mapM_exact cols Prod.fst (fun e c => (c, e.2)) (fun _ => rfl) vals

/-- An update in which every text stands for itself. -/
theorem update_exact (table : String) (vals : List (String × String)) (key k : String) (t : Table) :
    exact.update table vals key k t =
      if table = t.name ∧ (vals.map Prod.fst).Nodup ∧ ∀ c ∈ key :: vals.map Prod.fst, c ∈ t.columns
      then some (t.update (Row.has key k) vals, t.count (Row.has key k)) else none := by
  have hcolumn : exact.column t.columns key = if key ∈ t.columns then some key else none := rfl
  have htable : exact.isTable table t.name = decide (table = t.name) := rfl
  rw [update, read, assign_exact, hcolumn]
  by_cases hcols : ∀ c ∈ key :: vals.map Prod.fst, c ∈ t.columns
  · obtain ⟨hkey, hvals⟩ := List.forall_mem_cons.1 hcols
    simp only [if_pos hkey, if_pos (List.forall_mem_map.1 hvals), htable, decide_eq_true_eq]
    by_cases hreads : table = t.name ∧ (vals.map Prod.fst).Nodup
    · rw [if_pos ⟨hreads.1, .inr hreads.2⟩, if_pos ⟨hreads.1, hreads.2, hcols⟩, Option.map_some, has_exact]
      rw [t.update_congr (Row.has key k) (lookup_reverse_of_nodup hreads.2)]
    · rw [if_neg fun h => hreads ⟨h.1, h.2.resolve_left Bool.false_ne_true⟩, if_neg fun h => hreads ⟨h.1, h.2.1⟩]
      rfl
  · have hnot : ¬ (table = t.name ∧ (vals.map Prod.fst).Nodup ∧ ∀ c ∈ key :: vals.map Prod.fst, c ∈ t.columns) :=
      fun h => hcols h.2.2
    rw [if_neg hnot]
    by_cases hvals : ∀ e ∈ vals, e.1 ∈ t.columns
    · have hkey : key ∉ t.columns := fun hkey => hcols (List.forall_mem_cons.2 ⟨hkey, List.forall_mem_map.2 hvals⟩)
      rw [if_pos hvals, if_neg hkey]
      rfl
    · rw [if_neg hvals]
      rfl

/-- A query in which every text stands for itself. -/
theorem select_exact (table : String) (cols : List String) (t : Table) :
    exact.select table cols t = if table = t.name ∧ ∀ c ∈ cols, c ∈ t.columns
      then some (t.rows.map fun row => cols.map fun c => (c, row.get c)) else none := by
  have hcols : cols.mapM (exact.column t.columns) = if ∀ c ∈ cols, c ∈ t.columns then some cols else none := by
    have h := mapM_exact t.columns id (fun _ c => c) (fun _ => rfl) cols
    simpa only [Option.map_id_fun', id] using h
  have htable : exact.isTable table t.name = decide (table = t.name) := rfl
  rw [select, hcols, htable]
  simp only [decide_eq_true_eq]
  by_cases hname : table = t.name
  · by_cases hmem : ∀ c ∈ cols, c ∈ t.columns
    · rw [if_pos hname, if_pos hmem, if_pos ⟨hname, hmem⟩]
      rfl
    · rw [if_pos hname, if_neg hmem, if_neg fun h => hmem h.2]
      rfl
  · rw [if_neg hname, if_neg fun h => hname h.1]

end Conventions

/-! ### What statements do -/

/-- The values for the parameters of assignments. -/
def bindAll (binds : List String) : List (String × Nat) → Option (List (String × String))
  | [] => some []
  | (c, n) :: sets =>
    match binds[n - 1]?, bindAll binds sets with
    | some v, some vals => some ((c, v) :: vals)
    | _, _ => none

/-- What an update makes of the table, and how many rows it touches. -/
def execute (n : Conventions) (d : Dialect) (sql : String) (binds : List String) (t : Table) : Option (Table × Nat) :=
  match parse d sql with
  | some (.update name sets key i, arity) =>
    if arity = binds.length then
      match bindAll binds sets, binds[i - 1]? with
      | some vals, some k => n.update name vals key k t
      | _, _ => none
    else none
  | _ => none

/-- The rows that a query without parameters yields, in some order. -/
def query (n : Conventions) (d : Dialect) (sql : String) (t : Table) : Option (List Row) :=
  match parse d sql with
  | some (.select cs name, 0) => n.select name cs t
  | _ => none

/-- A database, as its statements see it. -/
structure Engine where
  execute : String → List String → Table → Option (Table × Nat)
  query : String → Table → Option (List Row)

/-- The database of this little SQL. -/
def engine (n : Conventions) (d : Dialect) : Engine := ⟨execute n d, query n d⟩

/-! ### Texts and their tokens -/

def Dialect.param : Dialect → Nat → String
  | .dollar, n => s!"${n}"
  | .question, _ => "?"

def Dialect.token : Dialect → Nat → Token
  | .dollar, n => .param n
  | .question, _ => .mark

@[simp] theorem Dialect.token_dollar (n : Nat) : Dialect.dollar.token n = .param n := rfl

/-- The text `u` lies between words and has the tokens `ts`. -/
def Lexes (u : List Char) (ts : List Token) : Prop :=
  ∀ s ts', (∀ c ∈ s.head?, isWordChar c = false) → lex [] s = some ts' → lex [] (u ++ s) = some (ts ++ ts')

theorem lex_word {u : List Char} (hu : ∀ c ∈ u, isWordChar c = true) (w s : List Char) :
    lex w (u ++ s) = lex (w ++ u) s := by
  induction u generalizing w with
  | nil => rw [List.append_nil, List.nil_append]
  | cons c u ih =>
    obtain ⟨hc, hu⟩ := List.forall_mem_cons.1 hu
    rw [List.cons_append, lex, if_pos hc, ih hu, List.append_assoc, List.singleton_append]

theorem lex_break {w s : List Char} {ts ts' : List Token} (hs : ∀ c ∈ s.head?, isWordChar c = false)
    (hw : flush w = some ts) (h : lex [] s = some ts') : lex w s = some (ts ++ ts') := by
  cases s with
  | nil =>
    obtain rfl : ts' = [] := (Option.some.inj h).symm
    rw [lex, hw, List.append_nil]
  | cons c s =>
    have hc : ¬ isWordChar c = true := by simp [hs c rfl]
    rw [lex, if_neg hc] at h ⊢
    rw [hw]
    cases hp : punctuation c <;> cases hl : lex [] s <;> rw [hp, hl] at h <;> cases h
    rfl

namespace Lexes

theorem lex {u : List Char} {ts : List Token} (h : Lexes u ts) : Sql.lex [] u = some ts := by
  have h' := h [] [] (by simp) rfl
  rwa [List.append_nil, List.append_nil] at h'

theorem nil : Lexes [] [] := fun _ _ _ h => h

theorem word {u : List Char} {t : Token} (hne : u ≠ []) (hu : ∀ c ∈ u, isWordChar c = true)
    (ht : wordToken u = some t) : Lexes u [t] := by
  intro s ts' hs h
  rw [lex_word hu, List.nil_append]
  refine lex_break hs ?_ h
  rw [flush, if_neg hne, ht]
  rfl

theorem sep {u v : List Char} {c : Char} {ts p ts₂ : List Token} (hu : Lexes u ts)
    (hc : punctuation c = some p) (hv : Lexes v ts₂) : Lexes (u ++ c :: v) (ts ++ (p ++ ts₂)) := by
  intro s ts' hs h
  have hw : isWordChar c = false := by
    unfold punctuation at hc
    split at hc <;> first | rfl | cases hc
  have hrest : Sql.lex [] (c :: (v ++ s)) = some (p ++ (ts₂ ++ ts')) := by
    rw [Sql.lex, if_neg (by simp [hw]), hc, hv s ts' hs h]
    rfl
  have hall := hu (c :: (v ++ s)) _ (by simpa using hw) hrest
  simpa using hall

theorem space {u v : List Char} {ts ts' : List Token} (hu : Lexes u ts) (hv : Lexes v ts') :
    Lexes (u ++ ' ' :: v) (ts ++ ts') := hu.sep (p := []) rfl hv

end Lexes

theorem wordToken_ident {s : String} (h : s.toList.head? ≠ some '$') : wordToken s.toList = some (.word s) := by
  unfold wordToken
  split
  next heq => rw [heq] at h; exact absurd rfl h
  next => rw [String.ofList_toList]

theorem isWordChar_of_isNameChar {c : Char} (h : isNameChar c = true) : isWordChar c = true := by
  simp [isWordChar, h]

theorem ne_dollar {c : Char} (h : isNameChar c || c = '.') : c ≠ '$' := by
  rintro rfl
  revert h
  decide

theorem lexes_ident {s : String} (hne : s.toList ≠ []) (hall : s.toList.all fun c => isNameChar c || c = '.') :
    Lexes s.toList [.word s] := by
  rw [List.all_eq_true] at hall
  refine .word hne ?_ (wordToken_ident ?_)
  · intro c hc
    have hc' := hall c hc
    simp only [Bool.or_eq_true] at hc'
    simp only [isWordChar, Bool.or_eq_true]
    exact .inl hc'
  · intro hd
    exact ne_dollar (hall '$' (List.mem_of_mem_head? hd)) rfl

theorem lexes_tableName {s : String} (h : isTableName s) : Lexes s.toList [.word s] := by
  simp only [isTableName, isIdent, Bool.and_eq_true] at h
  obtain ⟨⟨hhead, -⟩, hall⟩ := h
  refine lexes_ident ?_ hall
  intro hnil
  rw [hnil] at hhead
  cases hhead

theorem isTableName_of_isName {s : String} (h : isName s) : isTableName s := by
  simp only [isName, isTableName, Bool.and_eq_true, List.all_eq_true] at h ⊢
  exact ⟨h.1, fun c hc => by simp [h.2 c hc]⟩

theorem lexes_name {s : String} (h : isName s) : Lexes s.toList [.word s] := lexes_tableName (isTableName_of_isName h)

theorem toList_dollar (n : Nat) : (Dialect.dollar.param n).toList = '$' :: Nat.toDigits 10 n := by
  show ("$" ++ toString n).toList = _
  rw [String.toList_append, Nat.toString_eq_repr, Nat.toList_repr]
  rfl

theorem lexes_param (d : Dialect) (n : Nat) : Lexes (d.param n).toList [d.token n] := by
  cases d with
  | dollar =>
    rw [toList_dollar]
    have hdigit : ∀ c ∈ Nat.toDigits 10 n, c.isDigit = true := fun c hc =>
      Nat.isDigit_of_mem_toDigits (by decide) (by decide) hc
    refine .word (by simp) ?_ ?_
    · refine List.forall_mem_cons.2 ⟨rfl, fun c hc => isWordChar_of_isNameChar ?_⟩
      simp [isNameChar, Char.isAlphanum, hdigit c hc]
    · have hne : Nat.toDigits 10 n ≠ [] := Nat.toDigits_ne_nil
      simp only [wordToken, hne, ne_eq, not_false_eq_true, List.all_eq_true.2 hdigit, and_self, if_true,
        Nat.ofDigitChars_ten_toDigits]
      rfl
  | question =>
    show Lexes "?".toList [.mark]
    exact Lexes.nil.sep (p := [.mark]) rfl .nil

/-! ### Updates -/

/-- One parameter for each column, numbered from `n`. -/
def setClause (d : Dialect) (n : Nat) (cols : List String) : String :=
  String.intercalate ", " ((cols.zipIdx n).map fun (c, i) => s!"{c} = {d.param i}")

def updateText (d : Dialect) (table : String) (cols : List String) (key : String) : String :=
  s!"UPDATE {table} SET {setClause d 1 cols} WHERE {key} = {d.param (cols.length + 1)}"

def setTokens (d : Dialect) : Nat → List String → List Token
  | _, [] => []
  | n, [c] => [.word c, .equals, d.token n]
  | n, c :: cs => .word c :: .equals :: d.token n :: .comma :: setTokens d (n + 1) cs

theorem lexes_assignment (d : Dialect) {c : String} (hc : isName c) (n : Nat) :
    Lexes s!"{c} = {d.param n}".toList [.word c, .equals, d.token n] := by
  have htext : s!"{c} = {d.param n}".toList = c.toList ++ ' ' :: ([] ++ '=' :: ([] ++ ' ' :: (d.param n).toList)) := by
    show (c ++ " = " ++ d.param n).toList = _
    rw [String.toList_append, String.toList_append, List.append_assoc]
    rfl
  rw [htext]
  exact (lexes_name hc).space (Lexes.nil.sep (p := [.equals]) rfl (Lexes.nil.space (lexes_param d n)))

theorem lexes_setClause (d : Dialect) {cols : List String} (hne : cols ≠ []) (hcols : ∀ c ∈ cols, isName c) (n : Nat) :
    Lexes (setClause d n cols).toList (setTokens d n cols) := by
  induction cols generalizing n with
  | nil => exact absurd rfl hne
  | cons c cols ih =>
    obtain ⟨hc, hcols⟩ := List.forall_mem_cons.1 hcols
    cases cols with
    | nil =>
      show Lexes (String.intercalate ", " [s!"{c} = {d.param n}"]).toList _
      rw [String.intercalate_singleton]
      exact lexes_assignment d hc n
    | cons c' cols =>
      have htext : (setClause d n (c :: c' :: cols)).toList =
          s!"{c} = {d.param n}".toList ++ ',' :: ([] ++ ' ' :: (setClause d (n + 1) (c' :: cols)).toList) := by
        simp only [setClause, List.zipIdx_cons, List.map_cons, String.intercalate_cons_cons, String.toList_append,
          List.append_assoc]
        rfl
      rw [htext]
      exact (lexes_assignment d hc n).sep (p := [.comma]) rfl (Lexes.nil.space (ih (by simp) hcols (n + 1)))

theorem lex_updateText (d : Dialect) {table key : String} {cols : List String} (ht : isTableName table)
    (hk : isName key) (hne : cols ≠ []) (hcols : ∀ c ∈ cols, isName c) :
    lex [] (updateText d table cols key).toList = some (.word "UPDATE" :: .word table :: .word "SET" ::
      (setTokens d 1 cols ++ [.word "WHERE", .word key, .equals, d.token (cols.length + 1)])) := by
  have htext : (updateText d table cols key).toList = "UPDATE".toList ++ ' ' :: (table.toList ++ ' ' ::
      ("SET".toList ++ ' ' :: ((setClause d 1 cols).toList ++ ' ' :: ("WHERE".toList ++ ' ' :: 
        s!"{key} = {d.param (cols.length + 1)}".toList)))) := by
    show ("UPDATE " ++ table ++ " SET " ++ setClause d 1 cols ++ " WHERE " ++ key ++ " = " ++
      d.param (cols.length + 1)).toList = _
    have hlast : s!"{key} = {d.param (cols.length + 1)}" = key ++ (" = " ++ d.param (cols.length + 1)) :=
      String.append_assoc ..
    rw [hlast]
    simp only [String.toList_append, List.append_assoc]
    rfl
  rw [htext]
  exact ((lexes_ident (by simp) (by decide)).space ((lexes_tableName ht).space
    ((lexes_ident (by simp) (by decide)).space ((lexes_setClause d hne hcols 1).space
      ((lexes_ident (by simp) (by decide)).space (lexes_assignment d hk (cols.length + 1))))))).lex

theorem number_token (d : Dialect) (n : Nat) (ts : List Token) :
    number d n (d.token (n + 1) :: ts) = (number d (n + 1) ts).map (.param (n + 1) :: ·) := by
  cases d <;> rfl

/-- The question marks of a list of assignments get the numbers that stand there with dollars. -/
theorem number_setTokens (d : Dialect) (n : Nat) (cols : List String) (rest : List Token) :
    number d n (setTokens d (n + 1) cols ++ rest) =
      (number d (n + cols.length) rest).map (setTokens .dollar (n + 1) cols ++ ·) := by
  induction cols generalizing n with
  | nil => simp [setTokens]
  | cons c cols ih =>
    cases cols with
    | nil =>
      simp only [setTokens, List.cons_append, List.nil_append, number, number_token, Option.map_map]
      rfl
    | cons c' cols =>
      have hlen : n + (c :: c' :: cols).length = n + 1 + (c' :: cols).length := by simp; omega
      rw [hlen]
      simp only [setTokens, List.cons_append, number, number_token, ih, Option.map_map, Dialect.token_dollar]
      rfl

theorem assignments_setTokens {cols : List String} (hne : cols ≠ []) (hcols : ∀ c ∈ cols, isName c) (n : Nat)
    (w : String) (rest : List Token) :
    assignments (setTokens .dollar n cols ++ .word w :: rest) = some (cols.zipIdx n, .word w :: rest) := by
  induction cols generalizing n with
  | nil => exact absurd rfl hne
  | cons c cols ih =>
    obtain ⟨hc, hcols⟩ := List.forall_mem_cons.1 hcols
    cases cols with
    | nil => simp [setTokens, assignments, hc]
    | cons c' cols =>
      have htail := ih (by simp) hcols (n + 1)
      simp only [setTokens, List.cons_append, assignments, Dialect.token_dollar, hc, htail, if_true, List.zipIdx_cons]
      rfl

theorem arity_setTokens (n : Nat) (cols : List String) (rest : List Token) (h : n + cols.length ≤ arity rest) :
    arity (setTokens .dollar (n + 1) cols ++ rest) = arity rest := by
  induction cols generalizing n with
  | nil => rfl
  | cons c cols ih =>
    rw [List.length_cons] at h
    cases cols with
    | nil =>
      show max (n + 1) (arity rest) = arity rest
      exact Nat.max_eq_right (by simpa using h)
    | cons c' cols =>
      show max (n + 1) (arity (setTokens .dollar (n + 1 + 1) (c' :: cols) ++ rest)) = arity rest
      rw [ih (n + 1) (by omega)]
      omega

theorem parse_updateText (d : Dialect) {table key : String} {cols : List String} (ht : isTableName table)
    (hk : isName key) (hne : cols ≠ []) (hcols : ∀ c ∈ cols, isName c) :
    parse d (updateText d table cols key) =
      some (.update table (cols.zipIdx 1) key (cols.length + 1), cols.length + 1) := by
  have hnumber : number d 0 (.word "UPDATE" :: .word table :: .word "SET" ::
      (setTokens d 1 cols ++ [.word "WHERE", .word key, .equals, d.token (cols.length + 1)])) =
      some (.word "UPDATE" :: .word table :: .word "SET" ::
        (setTokens .dollar 1 cols ++ [.word "WHERE", .word key, .equals, .param (cols.length + 1)])) := by
    simp only [number, number_setTokens, number_token, Nat.zero_add]
    rfl
  have harity : arity (.word "UPDATE" :: .word table :: .word "SET" ::
      (setTokens .dollar 1 cols ++ [.word "WHERE", .word key, .equals, .param (cols.length + 1)])) =
        cols.length + 1 := by
    show arity (setTokens .dollar 1 cols ++ [.word "WHERE", .word key, .equals, .param (cols.length + 1)]) = _
    rw [arity_setTokens 0 cols _ (by simp [arity])]
    simp [arity]
  have htokens : parseTokens d (.word "UPDATE" :: .word table :: .word "SET" ::
      (setTokens .dollar 1 cols ++ [.word "WHERE", .word key, .equals, .param (cols.length + 1)])) =
      some (.update table (cols.zipIdx 1) key (cols.length + 1)) := by
    simp only [parseTokens, assignments_setTokens hne hcols, ht, hk, and_self, if_true]
  rw [parse, lex_updateText d ht hk hne hcols]
  show (match number d 0 _ with | some ts => (parseTokens d ts).map (·, arity ts) | none => none) = _
  rw [hnumber]
  simp only [htokens, harity]
  rfl

theorem bindAll_zipIdx {cols vals : List String} (hlen : vals.length = cols.length) (before after : List String) :
    bindAll (before ++ (vals ++ after)) (cols.zipIdx (before.length + 1)) = some (cols.zip vals) := by
  induction cols generalizing vals before with
  | nil => rfl
  | cons c cols ih =>
    obtain _ | ⟨v, vals⟩ := vals
    · cases hlen
    have htail := ih (Nat.succ.inj hlen) (before ++ [v])
    rw [List.append_assoc, List.length_append, List.length_singleton] at htail
    have hhead : (before ++ (v :: vals ++ after))[before.length + 1 - 1]? = some v := by simp
    rw [List.zipIdx_cons, bindAll, hhead]
    show (match some v, bindAll (before ++ ([v] ++ (vals ++ after))) (cols.zipIdx (before.length + 1 + 1)) with
      | some v, some vals => some ((c, v) :: vals) | _, _ => none) = _
    rw [htail]
    rfl

/-- What an update with a value for each column and one for the key does. -/
theorem execute_updateText (n : Conventions) (d : Dialect) {table key : String} {cols vals : List String}
    (ht : isTableName table) (hk : isName key) (hne : cols ≠ []) (hcols : ∀ c ∈ cols, isName c)
    (hlen : vals.length = cols.length) (k : String) (t : Table) :
    execute n d (updateText d table cols key) (vals ++ [k]) t = n.update table (cols.zip vals) key k t := by
  have hbinds : bindAll (vals ++ [k]) (cols.zipIdx 1) = some (cols.zip vals) := bindAll_zipIdx hlen [] [k]
  have hkey : (vals ++ [k])[cols.length + 1 - 1]? = some k := by simp [hlen]
  have harity : cols.length + 1 = (vals ++ [k]).length := by simp [hlen]
  rw [execute, parse_updateText d ht hk hne hcols]
  simp only [hbinds, hkey, if_pos harity]

/-! ### Queries -/

def selectText (table : String) (cols : List String) : String :=
  let list := String.intercalate ", " cols
  s!"SELECT {list} FROM {table}"

def nameTokens : List String → List Token
  | [] => []
  | [c] => [.word c]
  | c :: cs => .word c :: .comma :: nameTokens cs

theorem lexes_names {cols : List String} (hcols : ∀ c ∈ cols, isName c) :
    Lexes (String.intercalate ", " cols).toList (nameTokens cols) := by
  induction cols with
  | nil => exact Lexes.nil
  | cons c cols ih =>
    obtain ⟨hc, hcols⟩ := List.forall_mem_cons.1 hcols
    cases cols with
    | nil =>
      rw [String.intercalate_singleton]
      exact lexes_name hc
    | cons c' cols =>
      have htext : (String.intercalate ", " (c :: c' :: cols)).toList =
          c.toList ++ ',' :: ([] ++ ' ' :: (String.intercalate ", " (c' :: cols)).toList) := by
        rw [String.intercalate_cons_cons, String.toList_append, String.toList_append, List.append_assoc]
        rfl
      rw [htext]
      exact (lexes_name hc).sep (p := [.comma]) rfl (Lexes.nil.space (ih hcols))

theorem lex_selectText {table : String} {cols : List String} (ht : isTableName table) (hcols : ∀ c ∈ cols, isName c) :
    lex [] (selectText table cols).toList =
      some (.word "SELECT" :: (nameTokens cols ++ [.word "FROM", .word table])) := by
  have htext : (selectText table cols).toList = "SELECT".toList ++ ' ' :: ((String.intercalate ", " cols).toList ++
      ' ' :: ("FROM".toList ++ ' ' :: table.toList)) := by
    show ("SELECT " ++ String.intercalate ", " cols ++ " FROM " ++ table).toList = _
    simp only [String.toList_append, List.append_assoc]
    rfl
  rw [htext]
  exact ((lexes_ident (by simp) (by decide)).space ((lexes_names hcols).space
    ((lexes_ident (by simp) (by decide)).space (lexes_tableName ht)))).lex

theorem number_nameTokens (d : Dialect) (n : Nat) (cols : List String) (rest : List Token) :
    number d n (nameTokens cols ++ rest) = (number d n rest).map (nameTokens cols ++ ·) := by
  induction cols with
  | nil => simp [nameTokens]
  | cons c cols ih =>
    cases cols with
    | nil => rfl
    | cons c' cols =>
      simp only [nameTokens, List.cons_append, number, ih, Option.map_map]
      rfl

theorem arity_nameTokens (cols : List String) (rest : List Token) : arity (nameTokens cols ++ rest) = arity rest := by
  induction cols with
  | nil => rfl
  | cons c cols ih =>
    cases cols with
    | nil => rfl
    | cons c' cols => exact ih

theorem names_nameTokens {cols : List String} (hne : cols ≠ []) (hcols : ∀ c ∈ cols, isName c) (w : String)
    (rest : List Token) : names (nameTokens cols ++ .word w :: rest) = some (cols, .word w :: rest) := by
  induction cols with
  | nil => exact absurd rfl hne
  | cons c cols ih =>
    obtain ⟨hc, hcols⟩ := List.forall_mem_cons.1 hcols
    cases cols with
    | nil => simp [nameTokens, names, hc]
    | cons c' cols =>
      have htail := ih (by simp) hcols
      simp only [nameTokens, List.cons_append, names, hc, htail, if_true]
      rfl

theorem selectList_nameTokens (d : Dialect) {cols : List String} (hcols : ∀ c ∈ cols, isName c) (rest : List Token) :
    selectList d (nameTokens cols ++ .word "FROM" :: rest) =
      if cols ≠ [] ∨ d = .dollar then some (cols, .word "FROM" :: rest) else none := by
  cases cols with
  | nil => simp [nameTokens, selectList]
  | cons c cols =>
    have hfrom : c ≠ "FROM" := by
      rintro rfl
      have hname := hcols "FROM" (List.mem_cons_self ..)
      revert hname
      decide
    have hnames := names_nameTokens (List.cons_ne_nil c cols) hcols "FROM" rest
    rw [if_pos (.inl (List.cons_ne_nil c cols)), ← hnames]
    cases cols <;> simp only [nameTokens, List.cons_append, selectList]
    all_goals
      split
      next heq => exact absurd (Token.word.inj (List.cons.inj heq).1) hfrom
      next => rfl

/-- What a query for the columns `cols` yields. -/
theorem query_selectText (n : Conventions) (d : Dialect) {table : String} {cols : List String} (ht : isTableName table)
    (hcols : ∀ c ∈ cols, isName c) (t : Table) : query n d (selectText table cols) t =
      if cols ≠ [] ∨ d = .dollar then n.select table cols t else none := by
  have hnumber : number d 0 (.word "SELECT" :: (nameTokens cols ++ [.word "FROM", .word table])) =
      some (.word "SELECT" :: (nameTokens cols ++ [.word "FROM", .word table])) := by
    simp only [number, number_nameTokens]
    rfl
  have harity : arity (.word "SELECT" :: (nameTokens cols ++ [.word "FROM", .word table])) = 0 :=
    arity_nameTokens cols _
  have hparse : parse d (selectText table cols) =
      if cols ≠ [] ∨ d = .dollar then some (.select cols table, 0) else none := by
    rw [parse, lex_selectText ht hcols, Option.bind_some, hnumber]
    simp only [harity, parseTokens, selectList_nameTokens d hcols]
    by_cases hd : cols ≠ [] ∨ d = .dollar
    · simp only [if_pos hd, ht, if_true, Option.map_some]
    · simp only [if_neg hd, Option.map_none]
  rw [query, hparse]
  by_cases hd : cols ≠ [] ∨ d = .dollar
  · simp only [if_pos hd]
  · simp only [if_neg hd]

end Sql
