import Mathlib.Algebra.Group.Int.Defs
import NexusAgent.Lib.Toml.Strings

/-!
# The grammar of TOML 1.0

`stmts` reads a text into its headers and key/value pairs, line by line. Numbers with a fraction or an exponent
and dates are checked and kept as they are written. The recursions go down a number that starts at the length
of the text.
-/

namespace Toml

/-- How a table came about: in braces, on the way to another one, by dotted keys, or by its own header. -/
inductive Kind where
  | inline
  | implicit
  | dotted
  | header
  deriving DecidableEq

inductive Value where
  | str (s : String)
  | int (n : Int)
  | float (text : String)
  | bool (b : Bool)
  | datetime (text : String)
  | arr (vs : List Value)
  | table (kind : Kind) (entries : List (String × Value))
  | tables (elems : List (List (String × Value)))

abbrev Entries := List (String × Value)

/-! ### Tables -/

/-- Puts what `f` makes of the entry `k` in its place. -/
def alter (k : String) (f : Option Value → Option Value) : Entries → Option Entries
  | [] => (f none).map fun v => [(k, v)]
  | (k', v) :: es =>
    if k' = k then (f (some v)).map fun v' => (k', v') :: es
    else (alter k f es).map ((k', v) :: ·)

/-- `f` on the last element of an array of tables. -/
def alterLast (f : Entries → Option Entries) : List Entries → Option (List Entries)
  | [] => none
  | [es] => (f es).map ([·])
  | es :: elems => (alterLast f elems).map (es :: ·)

/-- `f` on the table with the path `ks`, as a header goes to it. -/
def descend (f : Entries → Option Entries) : List String → Entries → Option Entries
  | [], es => f es
  | k :: ks, es =>
    alter k (fun
      | none => (descend f ks []).map (.table .implicit)
      | some (.table .inline _) => none
      | some (.table kind es') => (descend f ks es').map (.table kind)
      | some (.tables elems) => (alterLast (descend f ks) elems).map .tables
      | some _ => none) es

/-- A key/value pair with dotted keys. -/
def assign (v : Value) : List String → Entries → Option Entries
  | [], _ => none
  | [k], es => alter k (fun | none => some v | some _ => none) es
  | k :: ks, es =>
    alter k (fun
      | none => (assign v ks []).map (.table .dotted)
      | some (.table .dotted es') => (assign v ks es').map (.table .dotted)
      | some (.table .implicit es') => (assign v ks es').map (.table .implicit)
      | some _ => none) es

/-- What a header makes of the entry it names. -/
def openTable : Option Value → Option Value
  | none => some (.table .header [])
  | some (.table .implicit es) => some (.table .header es)
  | some _ => none

/-- What a header in double brackets makes of the entry it names. -/
def openElement : Option Value → Option Value
  | none => some (.tables [[]])
  | some (.tables elems) => some (.tables (elems ++ [[]]))
  | some _ => none

inductive Stmt where
  | header (ks : List String)
  | element (ks : List String)
  | keyval (ks : List String) (v : Value)

/-- The text of the document and the path of the table its pairs go to. -/
structure State where
  root : Entries
  path : List String

def step (st : State) : Stmt → Option State
  | .header ks =>
    (descend (alter (ks.getLastD "") openTable) ks.dropLast st.root).map (⟨·, ks⟩)
  | .element ks =>
    (descend (alter (ks.getLastD "") openElement) ks.dropLast st.root).map (⟨·, ks⟩)
  | .keyval ks v => (descend (assign v ks) st.path st.root).map (⟨·, st.path⟩)

def run : State → List Stmt → Option State
  | st, [] => some st
  | st, stmt :: stmts =>
    match step st stmt with
    | some st => run st stmts
    | none => none

/-! ### Blanks and line ends -/

def skipWs (s : List Char) : List Char := s.dropWhile isWs

def skipComment : List Char → List Char
  | '#' :: s => s.dropWhile isText
  | s => s

/-- What is left after the end of the line. -/
def lineEnd (s : List Char) : Option (List Char) :=
  match skipComment (skipWs s) with
  | [] => some []
  | '\n' :: s => some s
  | '\r' :: '\n' :: s => some s
  | _ => none

/-- Skips blanks, comments and line ends. -/
def skipLines : Nat → List Char → List Char
  | 0, s => s
  | n + 1, s =>
    match skipComment (skipWs s) with
    | '\n' :: s => skipLines n s
    | '\r' :: '\n' :: s => skipLines n s
    | s => s

/-! ### Keys -/

def isBare (c : Char) : Bool := c.isAlphanum || c = '-' || c = '_'

def key : List Char → Result String
  | '"' :: s => (basic .plain s).map fun (k, s) => (String.ofList k, s)
  | '\'' :: s => (literal s).map fun (k, s) => (String.ofList k, s)
  | s => if s.takeWhile isBare = [] then none else some (String.ofList (s.takeWhile isBare), s.dropWhile isBare)

/-- Keys with dots between them, and the blanks after the last one. -/
def keys : Nat → List Char → Result (List String)
  | 0, _ => none
  | n + 1, s =>
    match key s with
    | none => none
    | some (k, s) =>
      match skipWs s with
      | '.' :: s => (keys n (skipWs s)).map fun (ks, s) => (k :: ks, s)
      | s => some ([k], s)

/-! ### Numbers and dates -/

def isHexDigit (c : Char) : Bool := (hexDigit c).isSome

/-- Digits with underscores between them. -/
def digitGroups (p : Char → Bool) : List Char → Option (List Char)
  | [] => none
  | [c] => if p c then some [c] else none
  | c :: '_' :: s => if p c then (digitGroups p s).map (c :: ·) else none
  | c :: s => if p c then (digitGroups p s).map (c :: ·) else none

def ofDigits (base : Nat) (ds : List Char) : Nat := ds.foldl (fun n c => n * base + (hexDigit c).getD 0) 0

/-- Decimal digits, without a leading zero. -/
def decimal (s : List Char) : Option Nat :=
  match digitGroups Char.isDigit s with
  | some ['0'] => some 0
  | some ('0' :: _) => none
  | some ds => some (ofDigits 10 ds)
  | none => none

def integer (s : List Char) : Option Int :=
  let n? : Option Int :=
    match s with
    | '0' :: 'x' :: s => (digitGroups isHexDigit s).map fun ds => ofDigits 16 ds
    | '0' :: 'o' :: s => (digitGroups (fun c => '0' ≤ c && c ≤ '7') s).map fun ds => ofDigits 8 ds
    | '0' :: 'b' :: s => (digitGroups (fun c => '0' ≤ c && c ≤ '1') s).map fun ds => ofDigits 2 ds
    | '+' :: s => (decimal s).map Int.ofNat
    | '-' :: s => (decimal s).map fun n => -(n : Int)
    | s => (decimal s).map Int.ofNat
  n?.filter fun n => -(2 ^ 63) ≤ n ∧ n < 2 ^ 63

def dropSign : List Char → List Char
  | '+' :: s => s
  | '-' :: s => s
  | s => s

def isExponent : List Char → Bool
  | c :: s => (c = 'e' || c = 'E') && (digitGroups Char.isDigit (dropSign s)).isSome
  | [] => false

def isFloat (s : List Char) : Bool :=
  let s := dropSign s
  let part (s : List Char) : List Char := s.takeWhile fun c => c.isDigit || c = '_'
  let after (s : List Char) : List Char := s.dropWhile fun c => c.isDigit || c = '_'
  s = ['i', 'n', 'f'] || s = ['n', 'a', 'n'] ||
    (decimal (part s)).isSome &&
      match after s with
      | '.' :: s => (digitGroups Char.isDigit (part s)).isSome && (after s = [] || isExponent (after s))
      | s => isExponent s

/-- A number of exactly `width` digits. -/
def fixed (width : Nat) (s : List Char) : Option Nat :=
  if s.length = width ∧ s.all Char.isDigit then some (ofDigits 10 s) else none

def daysIn (year month : Nat) : Nat :=
  if month = 2 then (if year % 4 = 0 ∧ (year % 100 ≠ 0 ∨ year % 400 = 0) then 29 else 28)
  else if month = 4 ∨ month = 6 ∨ month = 9 ∨ month = 11 then 30 else 31

def isDate (s : List Char) : Bool :=
  match fixed 4 (s.take 4), fixed 2 ((s.drop 5).take 2), fixed 2 (s.drop 8) with
  | some year, some month, some day =>
    s[4]? = some '-' && s[7]? = some '-' && 1 ≤ month && month ≤ 12 && 1 ≤ day && day ≤ daysIn year month
  | _, _, _ => false

def isClock (s : List Char) : Bool :=
  match fixed 2 (s.take 2), fixed 2 (s.drop 3) with
  | some hour, some minute => s[2]? = some ':' && hour < 24 && minute < 60
  | _, _ => false

def isTime (s : List Char) : Bool :=
  isClock (s.take 5) && s[5]? = some ':' && ((fixed 2 ((s.drop 6).take 2)).any (· ≤ 60)) &&
    match s.drop 8 with
    | [] => true
    | '.' :: frac => frac ≠ [] && frac.all Char.isDigit
    | _ => false

def isOffset : List Char → Bool
  | ['Z'] | ['z'] => true
  | '+' :: s | '-' :: s => isClock s
  | _ => false

def isDatetime (s : List Char) : Bool :=
  let time := s.drop 11
  let clock := time.takeWhile fun c => c.isDigit || c = ':' || c = '.'
  let offset := time.dropWhile fun c => c.isDigit || c = ':' || c = '.'
  isDate s || isTime s ||
    isDate (s.take 10) && (s[10]?.any fun c => c = 'T' || c = 't' || c = ' ') && isTime clock &&
      (offset = [] || isOffset offset)

def isToken (c : Char) : Bool := isBare c || c = '+' || c = '.' || c = ':'

/-- A token; a blank can stand between a date and a time. -/
def token (s : List Char) : List Char × List Char :=
  let t := s.takeWhile isToken
  match s.dropWhile isToken with
  | ' ' :: c :: s =>
    if isDate t ∧ c.isDigit then (t ++ ' ' :: (c :: s).takeWhile isToken, (c :: s).dropWhile isToken)
    else (t, ' ' :: c :: s)
  | s => (t, s)

def bare (t : List Char) : Option Value :=
  if t = ['t', 'r', 'u', 'e'] then some (.bool true)
  else if t = ['f', 'a', 'l', 's', 'e'] then some (.bool false)
  else match integer t with
    | some n => some (.int n)
    | none =>
      if isFloat t then some (.float (String.ofList t))
      else if isDatetime t then some (.datetime (String.ofList t))
      else none

/-! ### Values -/

/-- The entries of a table in braces. -/
def inlineEntries : Entries → List (List String × Value) → Option Entries
  | es, [] => some es
  | es, (ks, v) :: pairs =>
    match assign v ks es with
    | some es => inlineEntries es pairs
    | none => none

mutual
def value : Nat → List Char → Result Value
  | 0, _ => none
  | n + 1, s =>
    match s with
    | '"' :: _ | '\'' :: _ => (string s).map fun (t, s) => (.str (String.ofList t), s)
    | '[' :: s => (elements n (skipLines s.length s)).map fun (vs, s) => (.arr vs, s)
    | '{' :: s =>
      match skipWs s with
      | '}' :: s => some (.table .inline [], s)
      | s =>
        match pairs n s with
        | some (ps, s) => (inlineEntries [] ps).map fun es => (.table .inline es, s)
        | none => none
    | s => (bare (token s).1).map fun v => (v, (token s).2)
/-- The elements of an array, up to its closing bracket. -/
def elements : Nat → List Char → Result (List Value)
  | 0, _ => none
  | n + 1, s =>
    match s with
    | ']' :: s => some ([], s)
    | s =>
      match value n s with
      | none => none
      | some (v, s) =>
        match skipLines s.length s with
        | ',' :: s => (elements n (skipLines s.length s)).map fun (vs, s) => (v :: vs, s)
        | ']' :: s => some ([v], s)
        | _ => none
/-- The pairs of a table in braces, up to its closing brace. -/
def pairs : Nat → List Char → Result (List (List String × Value))
  | 0, _ => none
  | n + 1, s =>
    match keys n s with
    | some (ks, '=' :: s) =>
      match value n (skipWs s) with
      | none => none
      | some (v, s) =>
        match skipWs s with
        | ',' :: s => (pairs n (skipWs s)).map fun (ps, s) => ((ks, v) :: ps, s)
        | '}' :: s => some ([(ks, v)], s)
        | _ => none
    | _ => none
end

/-! ### Lines -/

/-- A key/value pair and the end of its line. -/
def keyval (n : Nat) (s : List Char) : Result Stmt :=
  match keys n s with
  | some (ks, '=' :: s) =>
    match value n (skipWs s) with
    | some (v, s) => (lineEnd s).map fun s => (.keyval ks v, s)
    | none => none
  | _ => none

/-- A header and the end of its line. -/
def header (n : Nat) (s : List Char) : Result Stmt :=
  match keys n (skipWs s) with
  | some (ks, ']' :: s) => (lineEnd s).map fun s => (.header ks, s)
  | _ => none

def element (n : Nat) (s : List Char) : Result Stmt :=
  match keys n (skipWs s) with
  | some (ks, ']' :: ']' :: s) => (lineEnd s).map fun s => (.element ks, s)
  | _ => none

/-- A line with what it says, if anything. -/
def line (n : Nat) (s : List Char) : Result (Option Stmt) :=
  match skipWs s with
  | '[' :: '[' :: s => (element n s).map fun (stmt, s) => (some stmt, s)
  | '[' :: s => (header n s).map fun (stmt, s) => (some stmt, s)
  | [] | '#' :: _ | '\n' :: _ | '\r' :: _ => (lineEnd s).map fun s => (none, s)
  | s => (keyval n s).map fun (stmt, s) => (some stmt, s)

/-- At most `m` lines. -/
def stmts (n : Nat) : Nat → List Char → Option (List Stmt)
  | _, [] => some []
  | 0, _ => none
  | m + 1, s =>
    match line n s with
    | some (stmt, s) => (stmts n m s).map (stmt.toList ++ ·)
    | none => none

/-- The text without a byte order mark. -/
def dropMark : List Char → List Char
  | '\ufeff' :: s => s
  | s => s

/-- The table a document stands for. -/
def parse (text : String) : Option Entries :=
  let s := dropMark text.toList
  ((stmts (s.length + 1) (s.length + 1) s).bind (run ⟨[], []⟩)).map State.root

end Toml
