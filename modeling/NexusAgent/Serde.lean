import NexusAgent.Audit
import NexusAgent.Lib.JsonGlue

/-!
# What the log relies on in `serde_json`

`Crates.Lawful`: a record is printed as one line of compact JSON that reads back unchanged.
`Crates.ValueText`: the text of a JSON value determines it and is one line.
`Crates.Truncated`: no proper prefix of a record's text is a record.
`Crates.Unglued`: a record's text after other text, blanks apart, is no record.

`Crates.compact` is SHA-256 with the compact writer and reader of `Json`, and has all four.
-/

namespace NexusAgent
open Text

/-! ### Plain values -/

/-- A number that `serde_json` holds as an `i64` or a `u64`. -/
def plainNumber (n : JsonNumber) : Bool :=
  n.frac == [] && n.exp == none && if n.neg then 0 < n.int && n.int ≤ 2 ^ 63 else n.int < 2 ^ 64

mutual
/-- The value is one that reads back from its text: no floating-point number, the keys of an object
sorted, at most `depth` arrays and objects inside one another. -/
def plainWithin : Nat → Json → Bool
  | _, .null | _, .bool _ | _, .str _ => true
  | _, .num n => plainNumber n
  | 0, .arr _ | 0, .obj _ => false
  | depth + 1, .arr xs => plainElems depth xs
  | depth + 1, .obj kvs => decide (kvs.Pairwise fun a b => a.1 < b.1) && plainFields depth kvs
def plainElems : Nat → List Json → Bool
  | _, [] => true
  | depth, x :: xs => plainWithin depth x && plainElems depth xs
def plainFields : Nat → List (String × Json) → Bool
  | _, [] => true
  | depth, (_, v) :: kvs => plainWithin depth v && plainFields depth kvs
end

/-- The reader stops at the 128th nested value, and the record is one of them. -/
def Plain (detail : Json) : Prop := plainWithin 126 detail = true

instance (detail : Json) : Decidable (Plain detail) := inferInstanceAs (Decidable (_ = true))

theorem plain_runStartDetail (mode : String) : Plain (runStartDetail mode) := by
  simp [Plain, runStartDetail, plainWithin, plainFields]

/-! ### The laws -/

variable (c : Crates)

structure Crates.Lawful : Prop where
  prints : ∀ r, ∃ line, c.recordText r = .ok line
  reads : ∀ r line, Plain r.detail → c.recordText r = .ok line → c.readRecord line = .ok r
  one_line : ∀ r line, c.recordText r = .ok line → '\n' ∉ line.toList
  braces : ∀ r line, c.recordText r = .ok line → ∃ s, line.toList = '{' :: (s ++ ['}'])

structure Crates.ValueText : Prop where
  injective : ∀ v w, c.valueText v = c.valueText w → v = w
  one_line : ∀ v, '\n' ∉ (c.valueText v).toList

def Crates.Truncated : Prop :=
  ∀ r line s, c.recordText r = .ok line → s.toList <+: line.toList → s ≠ line →
    ∃ e, c.readRecord s = .error e

def Crates.Unglued : Prop :=
  ∀ r line s, c.recordText r = .ok line → isBlank s = false → ∃ e, c.readRecord (s ++ line) = .error e

/-! ### The compact writer -/

def recordJson (r : AuditRecord) : Json :=
  .obj [("seq", .ofNat r.seq.toNat), ("ts", .str r.ts), ("event", .str r.event), ("detail", r.detail),
    ("prev_hash", .str r.prevHash), ("hash", .str r.hash)]

/-- The value of a field that must occur exactly once. -/
def fieldOf (kvs : List (String × Json)) (name : String) : Except String Json :=
  match kvs.filter (·.1 == name) with
  | [] => .error s!"missing field {name}"
  | [(_, v)] => .ok v
  | _ => .error s!"duplicate field {name}"

def asStr : Json → Except String String
  | .str s => .ok s
  | _ => .error "invalid type, expected a string"

def asU64 : Json → Except String UInt64
  | .num ⟨false, n, [], none⟩ =>
    if n < 2 ^ 64 then .ok (.ofNat n) else .error "number out of range"
  | _ => .error "invalid type, expected u64"

def recordOfJson : Json → Except String AuditRecord
  | .obj kvs => do
    let seq ← fieldOf kvs "seq" >>= asU64
    let ts ← fieldOf kvs "ts" >>= asStr
    let event ← fieldOf kvs "event" >>= asStr
    let detail ← fieldOf kvs "detail"
    let prevHash ← fieldOf kvs "prev_hash" >>= asStr
    let hash ← fieldOf kvs "hash" >>= asStr
    .ok ⟨seq, ts, event, detail, prevHash, hash⟩
  | _ => .error "invalid type, expected struct AuditRecord"

def Crates.compact : Crates where
  sha256 := Sha256.digest
  valueText v := String.ofList v.text
  recordText r := .ok (String.ofList (recordJson r).text)
  readRecord line :=
    match Json.read line.toList with
    | some v => recordOfJson v
    | none => .error "expected value"

theorem recordOfJson_recordJson (r : AuditRecord) : recordOfJson (recordJson r) = .ok r := by
  have h : r.seq.toNat < 18446744073709551616 := r.seq.toNat_lt
  simp [recordOfJson, recordJson, fieldOf, asU64, asStr, Json.ofNat, bind, Except.bind, h]

namespace Crates

theorem compact_lawful : compact.Lawful where
  prints r := ⟨_, rfl⟩
  reads r line _ h := by
    cases h
    simp [compact, Json.read_text, recordOfJson_recordJson]
  one_line r line h := by
    cases h
    rw [String.toList_ofList]
    exact Json.newline_not_mem_text _
  braces r line h := by
    cases h
    rw [String.toList_ofList]
    exact Json.text_obj_braces _

theorem compact_valueText : compact.ValueText where
  injective v w h := Json.text_injective (String.ofList_injective h)
  one_line v := by
    rw [show compact.valueText v = String.ofList v.text from rfl, String.toList_ofList]
    exact Json.newline_not_mem_text v

theorem compact_truncated : compact.Truncated := by
  intro r line s h hs hne
  cases h
  rw [String.toList_ofList] at hs
  have hread : Json.read s.toList = none :=
    Json.read_truncated hs fun he => hne (by rw [← String.ofList_toList (s := s), he]; rfl)
  refine ⟨"expected value", ?_⟩
  show (match Json.read s.toList with | some v => recordOfJson v | none => _) = _
  rw [hread]

theorem compact_unglued : compact.Unglued := by
  intro r line s h hs
  cases h
  have hne : s.toList ≠ [] := by
    intro he
    rw [isBlank_eq_all, he] at hs
    cases hs
  have hread : Json.read (s.toList ++ (recordJson r).text) = none :=
    Json.read_glued (k := 's') (by rfl) (by decide) (by decide) _ _ hne
  refine ⟨"expected value", ?_⟩
  show (match Json.read (s ++ String.ofList (recordJson r).text).toList with
    | some v => recordOfJson v | none => _) = _
  rw [String.toList_append, String.toList_ofList, hread]

end Crates

end NexusAgent
