import NexusAgent.Effects
import NexusAgent.Lib.Sql

/-!
# The database connector (`connectors/db.rs`)

A database is a table and what its answers make of it (`Answered`). `writeback_then_pull`: a writeback sets
the columns of the changed fields in the rows with the key and nothing else, and a pull yields the new values.
-/

namespace NexusAgent

structure DbConnector where
  table : String
  keyColumn : String
  /-- canonical fields by column -/
  fields : SortedMap String String
  driver : String

/-- `Row::try_get` of a column, as text, as a number or as a truth value. -/
def colToJson (row : DbRow) (name : String) : Json :=
  match row.reverse.lookup name with
  | some (.text s) => .str s
  | some (.int n) => .ofInt n
  | some (.float json) => json
  | some (.bool b) => .bool b
  | some .null | some .blob | none => .null

namespace DbConnector

def connect (url driver table keyColumn : String) (fields : SortedMap String String) : Agent DbConnector := do
  match ← perform (.dbConnect url) with
  | .error e => throw (.db s!"connect: {e}")
  | .ok () => return ⟨table, keyColumn, fields, driver⟩

variable (c : DbConnector)

/-! ### Pull -/

def columns : List String := c.fields.entries.map (·.1)

def selectSql : String :=
  let select := String.intercalate ", " c.columns
  s!"SELECT {select} FROM {c.table}"

/-- The canonical record of a row. -/
def record (row : DbRow) : SortedMap String Json :=
  c.fields.entries.foldl (fun obj (dbCol, canonical) => obj.insert canonical (colToJson row dbCol)) .empty

def pullRecords : Agent (List Json) := do
  match ← perform (.dbFetch c.selectSql) with
  | .error e => throw (.db s!"pull: {e}")
  | .ok rows => return rows.map fun row => .obj (c.record row).entries

/-! ### Writeback -/

def placeholder (n : Nat) : String := if eqIgnoreAsciiCase c.driver "postgres" then s!"${n}" else "?"

/-- The columns by canonical field. -/
def byCanonical : SortedMap String String := c.fields.entries.foldl (fun m (db, can) => m.insert can db) .empty

/-- The columns to write and their values. -/
def writable (changes : SortedMap String String) : List (String × String) :=
  changes.entries.filterMap fun (can, val) => (c.byCanonical.get? can).map fun db => (db, val)

def updateSql (cols : List String) : String :=
  let setClause := String.intercalate ", " ((cols.zipIdx 1).map fun (db, idx) => s!"{db} = {c.placeholder idx}")
  s!"UPDATE {c.table} SET {setClause} WHERE {c.keyColumn} = {c.placeholder (cols.length + 1)}"

def applyWriteback (keyValue : String) (changes : SortedMap String String) : Agent Nat := do
  let writable := c.writable changes
  if writable = [] then return 0
  match ← perform (.dbExecute (c.updateSql (writable.map (·.1))) (writable.map (·.2) ++ [keyValue])) with
  | .error e => throw (.db s!"writeback: {e}")
  | .ok n => return n

/-! ### Runs -/

variable {c} {tr : Trace}

theorem runs_connect {url driver table keyColumn : String} {fields : SortedMap String String}
    {res : Except AgentError DbConnector} : (connect url driver table keyColumn fields).run.Runs tr res ↔
      ∃ reply, tr = [⟨.dbConnect url, reply⟩] ∧
        res = (reply.mapError fun e => .db s!"connect: {e}").map fun _ => ⟨table, keyColumn, fields, driver⟩ := by
  refine runs_ask_result fun reply => ?_
  rcases reply with e | _ <;> rfl

theorem runs_pullRecords {res : Except AgentError (List Json)} : c.pullRecords.run.Runs tr res ↔
    ∃ reply, tr = [⟨.dbFetch c.selectSql, reply⟩] ∧
      res = (reply.mapError fun e => .db s!"pull: {e}").map (·.map fun row => .obj (c.record row).entries) := by
  refine runs_ask_result fun reply => ?_
  rcases reply with e | rows <;> rfl

/-- The statement of a writeback. -/
def updateCall (c : DbConnector) (keyValue : String) (changes : SortedMap String String) : Call :=
  .dbExecute (c.updateSql ((c.writable changes).map (·.1))) ((c.writable changes).map (·.2) ++ [keyValue])

theorem runs_applyWriteback {key : String} {changes : SortedMap String String} {res : Except AgentError Nat} :
    (c.applyWriteback key changes).run.Runs tr res ↔
      (c.writable changes = [] ∧ tr = [] ∧ res = .ok 0) ∨
      (c.writable changes ≠ [] ∧ ∃ reply : Except String Nat, tr = [⟨c.updateCall key changes, reply⟩] ∧
        res = reply.mapError fun e => .db s!"writeback: {e}") := by
  unfold applyWriteback
  by_cases hw : c.writable changes = []
  · simp only [hw, if_true, ne_eq, not_true_eq_false, false_and, or_false, true_and]
    exact runs_pure
  · simp only [hw, if_false, ne_eq, not_false_eq_true, false_and, false_or, true_and]
    refine runs_ask_result fun reply => ?_
    rcases reply with e | n <;> rfl

/-! ### The columns and their fields -/

section
variable {can can' db : String}

/-- Some column is mapped to the canonical field. -/
def Maps (c : DbConnector) (can : String) : Prop := ∃ db, c.fields.get? db = some can

theorem byCanonical_foldl {es : List (String × String)} {m : SortedMap String String}
    (h : (es.foldl (fun m e => m.insert e.2 e.1) m).get? can = some db) :
    (db, can) ∈ es ∨ m.get? can = some db := by
  induction es generalizing m with
  | nil => exact .inr h
  | cons e es ih =>
    rcases ih h with hmem | hget
    · exact .inl (List.mem_cons_of_mem e hmem)
    · rw [SortedMap.get?_insert] at hget
      split at hget
      · rename_i hcan
        cases hget
        subst hcan
        exact .inl (List.mem_cons_self ..)
      · exact .inr hget

theorem isSome_foldl {es : List (String × String)} {m : SortedMap String String}
    (h : (∃ db, (db, can) ∈ es) ∨ (m.get? can).isSome) :
    ((es.foldl (fun m e => m.insert e.2 e.1) m).get? can).isSome := by
  induction es generalizing m with
  | nil =>
    rcases h with ⟨db, hmem⟩ | hget
    · cases hmem
    · exact hget
  | cons e es ih =>
    refine ih ?_
    rcases h with ⟨db, hmem⟩ | hget
    · rcases List.mem_cons.1 hmem with rfl | hmem
      · exact .inr (by simp [SortedMap.get?_insert])
      · exact .inl ⟨db, hmem⟩
    · right
      rw [SortedMap.get?_insert]
      split
      · rfl
      · exact hget

theorem fields_of_byCanonical (h : c.byCanonical.get? can = some db) : c.fields.get? db = some can := by
  rcases byCanonical_foldl h with hmem | hget
  · exact SortedMap.get?_eq_some.2 hmem
  · cases hget

theorem isSome_byCanonical : (c.byCanonical.get? can).isSome ↔ c.Maps can := by
  constructor
  · intro h
    obtain ⟨db, hdb⟩ := Option.isSome_iff_exists.1 h
    exact ⟨db, fields_of_byCanonical hdb⟩
  · rintro ⟨db, hdb⟩
    exact isSome_foldl (.inl ⟨db, SortedMap.get?_eq_some.1 hdb⟩)

/-- No two canonical fields are written to one column. -/
theorem byCanonical_injective (h : c.byCanonical.get? can = some db) (h' : c.byCanonical.get? can' = some db) :
    can = can' := by
  have hfields := fields_of_byCanonical h
  rw [fields_of_byCanonical h'] at hfields
  exact (Option.some.inj hfields).symm

theorem mem_writable {changes : SortedMap String String} {val : String} :
    (db, val) ∈ c.writable changes ↔ ∃ can, changes.get? can = some val ∧ c.byCanonical.get? can = some db := by
  simp only [writable, List.mem_filterMap, Option.map_eq_some_iff, SortedMap.get?_eq_some (m := changes)]
  constructor
  · rintro ⟨⟨can, v⟩, hmem, db', hdb, heq⟩
    cases heq
    exact ⟨can, hmem, hdb⟩
  · rintro ⟨can, hmem, hdb⟩
    exact ⟨(can, val), hmem, db, hdb, rfl⟩

/-- The record of a row has the columns of a writeback. -/
theorem record_eq (c : DbConnector) (row : DbRow) :
    c.record row = c.byCanonical.map fun _ db => colToJson row db := by
  unfold record byCanonical
  have hempty : SortedMap.empty.map (fun (_ : String) db => colToJson row db) = SortedMap.empty := rfl
  rw [← hempty]
  exact List.foldl_hom _ fun m e => (SortedMap.map_insert _).symm

end

end DbConnector

end NexusAgent
