import Mathlib.Data.List.Forall2
import Mathlib.Data.List.Nodup
import NexusAgent.Db

/-!
# Writeback and pull on a table

`Answered` says what the answers of a database make of its table. `writeback_then_pull`: a writeback sets the
columns of the changed fields in the rows with the key and nothing else, and a pull then yields the new values.
`keys_unchanged_iff`: no row gets another key exactly if no writeback has one for the column that the database takes for
the key column.
-/

namespace NexusAgent

/-- A row as the driver reads it. -/
def DbRow.ofRow (row : Sql.Row) : DbRow := row.map fun (c, v) => (c, v.elim .null .text)

/-- What an answer says about the table before it and after it. -/
def Answer (base : Sql.Engine) (t : Sql.Table) : Event Reply → Sql.Table → Prop
  | ⟨.dbExecute sql binds, .ok n⟩, t' => base.execute sql binds t = some (t', n)
  | ⟨.dbExecute sql binds, .error _⟩, t' => t' = t ∨ ∃ n, base.execute sql binds t = some (t', n)
  | ⟨.dbFetch sql, .ok rows⟩, t' => t' = t ∧ ∃ res, base.query sql t = some res ∧ rows.Perm (res.map DbRow.ofRow)
  | _, t' => t' = t

def Answered (base : Sql.Engine) (t : Sql.Table) : Trace → Sql.Table → Prop
  | [], t' => t' = t
  | e :: tr, t' => ∃ t₁, Answer base t e t₁ ∧ Answered base t₁ tr t'

theorem answered_singleton {base : Sql.Engine} {t t' : Sql.Table} {e : Event Reply} :
    Answered base t [e] t' ↔ Answer base t e t' := by
  constructor
  · rintro ⟨t₁, h, rfl⟩
    exact h
  · intro h
    exact ⟨t', h, rfl⟩

namespace DbConnector

variable (c : DbConnector)

/-- The database that the driver is for. -/
def dialect : Sql.Dialect := if eqIgnoreAsciiCase c.driver "postgres" then .dollar else .question

/-- The names need no quotes. -/
structure Plain : Prop where
  table : Sql.isTableName c.table
  keyColumn : Sql.isName c.keyColumn
  columns : ∀ db ∈ c.columns, Sql.isName db

/-- The database takes an update of mapped columns for an update of what the names stand for. -/
def Reads (base : Sql.Engine) (names : Sql.Conventions) : Prop :=
  ∀ vals key t, vals ≠ [] → (∀ e ∈ vals, e.1 ∈ c.columns) →
    base.execute (c.updateSql (vals.map (·.1))) (vals.map (·.2) ++ [key]) t =
      names.update c.table vals c.keyColumn key t

/-- The database in which every text stands for itself. -/
def database : Sql.Engine := Sql.engine .exact c.dialect

/-- The table has the columns of an update. -/
def Accepts (t : Sql.Table) (changes : SortedMap String String) : Prop :=
  c.table = t.name ∧ ∀ col ∈ c.keyColumn :: (c.writable changes).map (·.1), col ∈ t.columns

instance (t : Sql.Table) (changes : SortedMap String String) : Decidable (c.Accepts t changes) :=
  inferInstanceAs (Decidable (_ ∧ _))

/-- The table has the columns of a pull. -/
def Fits (t : Sql.Table) : Prop := c.table = t.name ∧ c.columns ≠ [] ∧ ∀ col ∈ c.columns, col ∈ t.columns

variable {c} {t t' : Sql.Table} {key : String} {changes : SortedMap String String}

theorem placeholder_eq (n : Nat) : c.placeholder n = c.dialect.param n := by
  unfold placeholder dialect
  split <;> rfl

theorem updateSql_eq (cols : List String) :
    c.updateSql cols = Sql.updateText c.dialect c.table cols c.keyColumn := by
  simp only [updateSql, placeholder_eq]
  rfl

theorem selectSql_eq : c.selectSql = Sql.selectText c.table c.columns := rfl

/-! ### Updates -/

theorem mem_columns {db : String} : db ∈ c.columns ↔ ∃ can, c.fields.get? db = some can := by
  simp only [columns, List.mem_map, SortedMap.get?_eq_some]
  constructor
  · rintro ⟨⟨db, can⟩, hmem, rfl⟩
    exact ⟨can, hmem⟩
  · rintro ⟨can, hmem⟩
    exact ⟨(db, can), hmem, rfl⟩

theorem mem_columns_of_writable {e : String × String} (h : e ∈ c.writable changes) : e.1 ∈ c.columns := by
  obtain ⟨can, -, hdb⟩ := mem_writable.1 h
  exact mem_columns.2 ⟨can, fields_of_byCanonical hdb⟩

theorem nodup_writable (c : DbConnector) (changes : SortedMap String String) :
    ((c.writable changes).map (·.1)).Nodup := by
  rw [List.nodup_iff_pairwise_ne, List.pairwise_map, writable, List.pairwise_filterMap]
  refine changes.sorted.imp fun {e e'} hlt a ha a' ha' heq => ?_
  obtain ⟨db, hdb, rfl⟩ := Option.map_eq_some_iff.1 ha
  obtain ⟨db', hdb', rfl⟩ := Option.map_eq_some_iff.1 ha'
  obtain rfl : db = db' := heq
  exact absurd (byCanonical_injective hdb hdb') (ne_of_lt hlt)

theorem lookup_writable {db val : String} (h : (db, val) ∈ c.writable changes) :
    (c.writable changes).lookup db = some val := by
  refine Sql.lookup_eq_some_of_forall (List.mem_map.2 ⟨_, h, rfl⟩) fun e he hdb => ?_
  have hinj := List.inj_on_of_nodup_map (nodup_writable c changes) he h hdb
  rw [hinj]

/-- Names without quotes are read as the database's conventions have them. -/
theorem reads_engine (hc : c.Plain) (names : Sql.Conventions) : c.Reads (Sql.engine names c.dialect) names := by
  intro vals key t hvals hcolumns
  have hcols : ∀ col ∈ vals.map (·.1), Sql.isName col := by
    intro col hcol
    obtain ⟨e, he, rfl⟩ := List.mem_map.1 hcol
    exact hc.columns _ (hcolumns e he)
  have hzip : (vals.map (·.1)).zip (vals.map (·.2)) = vals := (List.zip_of_prod rfl rfl).symm
  show Sql.execute names c.dialect _ _ t = _
  rw [updateSql_eq, Sql.execute_updateText names c.dialect hc.table hc.keyColumn (by simpa using hvals) hcols (by simp),
    hzip]

section
variable {base : Sql.Engine} {names : Sql.Conventions}

theorem Reads.execute (hreads : c.Reads base names) (hw : c.writable changes ≠ []) (key : String) (t : Sql.Table) :
    base.execute (c.updateSql ((c.writable changes).map (·.1))) ((c.writable changes).map (·.2) ++ [key]) t =
      names.update c.table (c.writable changes) c.keyColumn key t :=
  hreads _ key t hw fun _ he => mem_columns_of_writable he

/-- A writeback changes nothing, or updates the table. -/
theorem Reads.table (hreads : c.Reads base names) {tr : Trace} {res : Except AgentError Nat}
    (h : (c.applyWriteback key changes).run.Runs tr res) (hdb : Answered base t tr t') :
    (t' = t ∧ ∀ n, res = .ok n → n = 0 ∧ tr = [] ∧ c.writable changes = []) ∨
      (c.writable changes ≠ [] ∧ ∃ n, names.update c.table (c.writable changes) c.keyColumn key t = some (t', n) ∧
        ∀ n', res = .ok n' → n' = n) := by
  rcases runs_applyWriteback.1 h with ⟨hw, rfl, rfl⟩ | ⟨hw, reply, rfl, rfl⟩
  · refine .inl ⟨hdb, fun n hn => ?_⟩
    cases hn
    exact ⟨rfl, rfl, hw⟩
  · have hexec := hreads.execute hw key t
    have hdb' := answered_singleton.1 hdb
    rcases reply with e | n
    · rcases hdb' with rfl | ⟨n, hn⟩
      · exact .inl ⟨rfl, fun n hn => by cases hn⟩
      · exact .inr ⟨hw, n, hexec.symm.trans hn, fun n hn => by cases hn⟩
    · refine .inr ⟨hw, n, hexec.symm.trans hdb', fun n' hn => ?_⟩
      cases hn
      rfl

/-- An update that the database accepts can be run. -/
theorem Reads.exists_run (hreads : c.Reads base names) (hw : c.writable changes ≠ []) {n : Nat}
    (hupdate : names.update c.table (c.writable changes) c.keyColumn key t = some (t', n)) :
    ∃ tr, (c.applyWriteback key changes).run.Runs tr (.ok n) ∧ Answered base t tr t' :=
  ⟨[⟨c.updateCall key changes, .ok n⟩], runs_applyWriteback.2 (.inr ⟨hw, _, rfl, rfl⟩),
    answered_singleton.2 ((hreads.execute hw key t).trans hupdate)⟩

end

theorem update_exact (key : String) (t : Sql.Table) :
    Sql.Conventions.exact.update c.table (c.writable changes) c.keyColumn key t =
      if c.Accepts t changes then
        some (t.update (Sql.Row.has c.keyColumn key) (c.writable changes), t.count (Sql.Row.has c.keyColumn key))
      else none := by
  rw [Sql.Conventions.update_exact]
  by_cases hacc : c.Accepts t changes
  · rw [if_pos hacc, if_pos ⟨hacc.1, nodup_writable c changes, hacc.2⟩]
  · rw [if_neg hacc, if_neg fun h => hacc ⟨h.1, h.2.2⟩]

/-- A writeback changes nothing, or updates the table. -/
theorem table_of_applyWriteback {tr : Trace} {res : Except AgentError Nat} (hc : c.Plain)
    (h : (c.applyWriteback key changes).run.Runs tr res) (hdb : Answered c.database t tr t') :
    (t' = t ∧ ∀ n, res = .ok n → n = 0 ∧ tr = [] ∧ c.writable changes = []) ∨
      (c.writable changes ≠ [] ∧ c.Accepts t changes ∧
        t' = t.update (Sql.Row.has c.keyColumn key) (c.writable changes) ∧
        ∀ n, res = .ok n → n = t.count (Sql.Row.has c.keyColumn key)) := by
  refine ((reads_engine hc .exact).table h hdb).imp_right ?_
  rintro ⟨hw, n, hupdate, hn⟩
  rw [update_exact] at hupdate
  split at hupdate
  · rename_i hacc
    cases hupdate
    exact ⟨hw, hacc, rfl, hn⟩
  · cases hupdate

/-- An update that the database accepts can be run. -/
theorem exists_applyWriteback (hc : c.Plain) (hw : c.writable changes ≠ []) (hacc : c.Accepts t changes)
    (key : String) :
    ∃ tr, (c.applyWriteback key changes).run.Runs tr (.ok (t.count (Sql.Row.has c.keyColumn key))) ∧
      Answered c.database t tr (t.update (Sql.Row.has c.keyColumn key) (c.writable changes)) :=
  (reads_engine hc .exact).exists_run hw ((update_exact key t).trans (if_pos hacc))

/-! ### What is written and pulled -/

/-- No changed field is mapped. -/
def Unmapped (c : DbConnector) (changes : SortedMap String String) : Prop :=
  ∀ can, (changes.get? can).isSome → ¬ c.Maps can

/-- One column of each changed field has the new value, and every other column its old one. -/
structure Written (c : DbConnector) (column : String → String) (changes : SortedMap String String)
    (row row' : Sql.Row) : Prop where
  names : row'.map Prod.fst = row.map Prod.fst
  new : ∀ can v, c.Maps can → changes.get? can = some v → row'.get (column can) = some v
  old : ∀ col, (∀ can, c.Maps can → (changes.get? can).isSome → col ≠ column can) → row'.get col = row.get col

/-- What becomes of a row: only those with the key are written. -/
def After (c : DbConnector) (column : String → String) (key : String) (changes : SortedMap String String)
    (row row' : Sql.Row) : Prop :=
  if row.get c.keyColumn = some key then c.Written column changes row row' else row' = row

/-- The record that a pull makes of a row. -/
def canonical (c : DbConnector) (row : Sql.Row) : SortedMap String Json :=
  c.record (.ofRow (c.columns.map fun col => (col, row.get col)))

/-- The pulls from a table yield these records in some order, and there is one if the table has the columns. -/
structure Pulls (c : DbConnector) (t : Sql.Table) (records : List (SortedMap String Json)) : Prop where
  perm : ∀ tr found t', c.pullRecords.run.Runs tr (.ok found) → Answered c.database t tr t' →
    found.Perm (records.map fun r => .obj r.entries)
  some : c.Fits t → ∃ tr, c.pullRecords.run.Runs tr (.ok (records.map fun r => .obj r.entries)) ∧
    Answered c.database t tr t

theorem writable_eq_nil_iff : c.writable changes = [] ↔ c.Unmapped changes := by
  constructor
  · intro hw can hcan hmaps
    obtain ⟨v, hv⟩ := Option.isSome_iff_exists.1 hcan
    obtain ⟨db, hdb⟩ := Option.isSome_iff_exists.1 (isSome_byCanonical.2 hmaps)
    have hmem := mem_writable.2 ⟨can, hv, hdb⟩
    rw [hw] at hmem
    cases hmem
  · intro hu
    refine List.eq_nil_iff_forall_not_mem.2 ?_
    rintro ⟨db, v⟩ hmem
    obtain ⟨can, hv, hdb⟩ := mem_writable.1 hmem
    refine hu can ?_ (isSome_byCanonical.1 ?_)
    · rw [hv]; rfl
    · rw [hdb]; rfl

theorem lookup_writable_eq_none {db : String} (h : ∀ v, (db, v) ∉ c.writable changes) :
    (c.writable changes).lookup db = none := by
  rw [List.lookup_eq_none_iff]
  rintro ⟨db', v⟩ hmem
  show (db != db') = true
  rw [bne_iff_ne]
  rintro rfl
  exact h v hmem

/-- The column that is written for a canonical field. -/
def column (c : DbConnector) (can : String) : String := (c.byCanonical.get? can).getD ""

theorem get?_byCanonical {can : String} (h : c.Maps can) : c.byCanonical.get? can = some (c.column can) := by
  obtain ⟨db, hdb⟩ := Option.isSome_iff_exists.1 (isSome_byCanonical.2 h)
  rw [column, hdb]
  rfl

theorem written_set {row : Sql.Row} (hrow : row.map Prod.fst = t.columns) (hacc : c.Accepts t changes) :
    c.Written c.column changes row (row.set (c.writable changes)) where
  names := Sql.Row.map_fst_set ..
  new can v hmaps hv := by
    have hmem : (c.column can, v) ∈ c.writable changes := mem_writable.2 ⟨can, hv, get?_byCanonical hmaps⟩
    have hcol : c.column can ∈ row.map Prod.fst := by
      rw [hrow]
      exact hacc.2 _ (List.mem_cons_of_mem _ (List.mem_map.2 ⟨_, hmem, rfl⟩))
    rw [Sql.Row.get_set hcol, lookup_writable hmem]
    rfl
  old col hcol := by
    refine Sql.Row.get_set_of_none (lookup_writable_eq_none fun v hmem => ?_) row
    obtain ⟨can, hv, hdb⟩ := mem_writable.1 hmem
    refine hcol can (isSome_byCanonical.1 ?_) ?_ ?_
    · rw [hdb]; rfl
    · rw [hv]; rfl
    · rw [column, hdb]; rfl

theorem written_refl (hu : c.Unmapped changes) (column : String → String) (row : Sql.Row) :
    c.Written column changes row row where
  names := rfl
  new can v hmaps hv := absurd hmaps (hu can (by rw [hv]; rfl))
  old _ _ := rfl

theorem colToJson_ofRow (row : Sql.Row) {cols : List String} {db : String} (hdb : db ∈ cols) :
    colToJson (.ofRow (cols.map fun col => (col, row.get col))) db = (row.get db).elim .null .str := by
  have hlookup : (DbRow.ofRow (cols.map fun col => (col, row.get col))).reverse.lookup db =
      some ((row.get db).elim .null .text) := by
    refine Sql.lookup_eq_some_of_forall ?_ fun e he hdb => ?_
    · simpa [DbRow.ofRow] using hdb
    · simp only [DbRow.ofRow, List.mem_reverse, List.mem_map] at he
      obtain ⟨_, ⟨col, -, rfl⟩, rfl⟩ := he
      obtain rfl : col = db := hdb
      rfl
  rw [colToJson, hlookup]
  rcases row.get db with _ | v <;> rfl

theorem canonical_eq (row : Sql.Row) :
    c.canonical row = c.byCanonical.map fun _ db => (row.get db).elim .null .str := by
  rw [canonical, record_eq]
  ext1
  refine List.map_congr_left ?_
  rintro ⟨can, db⟩ hmem
  have hdb : db ∈ c.columns := mem_columns.2 ⟨can, fields_of_byCanonical (SortedMap.get?_eq_some.2 hmem)⟩
  show (can, colToJson _ db) = (can, _)
  rw [colToJson_ofRow row hdb]

/-- The new values, under the names of the fields that are written. -/
theorem Written.canonical {row row' : Sql.Row} (h : c.Written c.column changes row row') :
    c.canonical row' = (c.canonical row).map fun can v => (changes.get? can).elim v .str := by
  rw [canonical_eq, canonical_eq]
  ext1
  show c.byCanonical.entries.map _ = (c.byCanonical.entries.map _).map _
  rw [List.map_map]
  refine List.map_congr_left ?_
  rintro ⟨can, db⟩ hmem
  have hdb := SortedMap.get?_eq_some.2 hmem
  have hmaps : c.Maps can := isSome_byCanonical.1 (by rw [hdb]; rfl)
  have hcol : c.column can = db := by rw [column, hdb]; rfl
  show (can, (row'.get db).elim Json.null .str) = (can, (changes.get? can).elim ((row.get db).elim .null .str) .str)
  rcases hv : changes.get? can with _ | v
  · rw [h.old db ?_]
    · rfl
    · rintro can' hmaps' hsome rfl
      have hinj := byCanonical_injective hdb (get?_byCanonical hmaps')
      rw [← hinj, hv] at hsome
      cases hsome
  · rw [← hcol, h.new can v hmaps hv]
    rfl

theorem query_selectSql (hc : c.Plain) (t : Sql.Table) : c.database.query c.selectSql t =
    if (c.columns ≠ [] ∨ c.dialect = .dollar) ∧ c.table = t.name ∧ ∀ col ∈ c.columns, col ∈ t.columns
    then some (t.rows.map fun row => c.columns.map fun col => (col, row.get col)) else none := by
  show Sql.query .exact c.dialect c.selectSql t = _
  rw [selectSql_eq, Sql.query_selectText .exact c.dialect hc.table hc.columns, Sql.Conventions.select_exact]
  by_cases hany : c.columns ≠ [] ∨ c.dialect = .dollar
  · simp only [hany, if_true, true_and]
  · rw [if_neg hany, if_neg fun h => hany h.1]

/-- What is pulled from a table. -/
theorem pulls (hc : c.Plain) (t : Sql.Table) : c.Pulls t (t.rows.map c.canonical) where
  perm tr found t' h hdb := by
    obtain ⟨reply, rfl, hres⟩ := runs_pullRecords.1 h
    rcases reply with e | rows
    · cases hres
    obtain rfl : found = rows.map fun row => .obj (c.record row).entries := by cases hres; rfl
    obtain ⟨-, res, hquery, hperm⟩ := answered_singleton.1 hdb
    rw [query_selectSql hc] at hquery
    split at hquery
    · cases hquery
      have hmap := hperm.map fun row => Json.obj (c.record row).entries
      rw [List.map_map, List.map_map] at hmap
      rw [List.map_map]
      exact hmap
    · cases hquery
  some hfits := by
    let res : List Sql.Row := t.rows.map fun row => c.columns.map fun col => (col, row.get col)
    have hquery : c.database.query c.selectSql t = some res := by
      rw [query_selectSql hc, if_pos ⟨.inl hfits.2.1, hfits.1, hfits.2.2⟩]
    refine ⟨[⟨.dbFetch c.selectSql, .ok (res.map DbRow.ofRow)⟩], runs_pullRecords.2 ⟨_, rfl, ?_⟩,
      answered_singleton.2 ⟨rfl, res, hquery, .refl _⟩⟩
    show _ = Except.ok (List.map _ (List.map _ (List.map _ t.rows)))
    rw [List.map_map, List.map_map, List.map_map]
    rfl

/-- A part of the example configuration. -/
def employees : DbConnector where
  table := "employees"
  keyColumn := "employee_id"
  fields :=
    ((SortedMap.empty.insert "title" "jobTitle").insert "email" "primaryEmail").insert "employee_id" "employeeId"
  driver := "postgres"

/-- A table with two rows. -/
def staff : Sql.Table where
  name := "employees"
  columns := ["email", "employee_id", "title"]
  nodup := by decide
  rows := [[("email", some "hunter@corp"), ("employee_id", some "7"), ("title", none)],
    [("email", some "chief@corp"), ("employee_id", some "3"), ("title", some "Chief")]]
  shape := by decide

theorem employees_plain : employees.Plain := ⟨by decide, by decide, by decide⟩

theorem writable_employees (field value : String) {db : String} (h : employees.byCanonical.get? field = some db) :
    employees.writable (.insert .empty field value) = [(db, value)] := by
  show [(field, value)].filterMap (fun e => (employees.byCanonical.get? e.1).map fun db => (db, e.2)) = _
  simp [h]

section
variable (c) (base : Sql.Engine) (names : Sql.Conventions)

/-- The column that the database takes for the key column. -/
def keyIn (t : Sql.Table) : Option String := names.column t.columns c.keyColumn

/-- The values for the columns, of which the first counts; there are none if the database refuses the update. -/
def assigned (t : Sql.Table) (changes : SortedMap String String) : List (String × String) :=
  ((names.read c.table (c.writable changes) c.keyColumn t).map Prod.fst).getD []

/-- The keys of the rows. -/
def keys (t : Sql.Table) : List (Option String) := t.rows.map fun row => (c.keyIn names t).bind row.get

/-- What the writeback has for the column of the key, if anything, the rows that it addresses have already. -/
def Harmless (t : Sql.Table) (key : String) (changes : SortedMap String String) : Prop :=
  ∀ col v, c.keyIn names t = some col → (c.assigned names t changes).lookup col = some v →
    ∀ row ∈ t.rows, names.has col key row → row.get col = some v

/-- A writeback leaves every key as it is. -/
def KeepsKeys (t : Sql.Table) (key : String) (changes : SortedMap String String) : Prop :=
  ∀ tr res t', (c.applyWriteback key changes).run.Runs tr res → Answered base t tr t' → c.keys names t' = c.keys names t

/-- Tables that harmless writebacks lead to, however they end. -/
inductive Reaches (t : Sql.Table) : Sql.Table → Prop
  | refl : Reaches t t
  | step {t₁ t₂ : Sql.Table} {key : String} {changes : SortedMap String String} {tr : Trace}
      {res : Except AgentError Nat}
    (hrest : Reaches t t₁) (hharmless : c.Harmless names t₁ key changes)
    (hrun : (c.applyWriteback key changes).run.Runs tr res) (hdb : Answered base t₁ tr t₂) : Reaches t t₂

variable {c base names}

/-- What an update that the database takes makes of the table. -/
theorem update_eq_some {n : Nat} :
    names.update c.table (c.writable changes) c.keyColumn key t = some (t', n) ↔ ∃ col, c.keyIn names t = some col ∧
      names.read c.table (c.writable changes) c.keyColumn t = some (c.assigned names t changes, col) ∧
        t' = t.update (names.has col key) (c.assigned names t changes) ∧ n = t.count (names.has col key) := by
  constructor
  · intro h
    obtain ⟨⟨vals, col⟩, hread, heq⟩ := Option.map_eq_some_iff.1 h
    have hvals : c.assigned names t changes = vals := by rw [assigned, hread]; rfl
    cases heq
    refine ⟨col, names.read_key hread, ?_, ?_, rfl⟩
    · rw [hread, hvals]
    · rw [hvals]
  · rintro ⟨col, -, hread, rfl, rfl⟩
    exact Option.map_eq_some_iff.2 ⟨_, hread, rfl⟩

/-- An update leaves the keys as they are exactly if the rows that it addresses have what it has for their column. -/
theorem keys_update_eq_iff {col : String} (hcol : c.keyIn names t = some col) (vals : List (String × String)) :
    c.keys names (t.update (names.has col key) vals) = c.keys names t ↔
      ∀ v, vals.lookup col = some v → ∀ row ∈ t.rows, names.has col key row → row.get col = some v := by
  have hcol' : c.keyIn names (t.update (names.has col key) vals) = some col := hcol
  have hrows : (t.update (names.has col key) vals).rows = t.rows.map (Sql.Row.update (names.has col key) vals) := rfl
  rw [keys, keys, hcol, hcol', hrows, List.map_map, List.map_inj_left]
  have hrow (row : Sql.Row) : (Sql.Row.update (names.has col key) vals row).get col = row.get col ↔
      ∀ v, vals.lookup col = some v → names.has col key row → row.get col = some v := by
    unfold Sql.Row.update
    split
    next hhas =>
      rw [Sql.Row.get_set_eq_self_iff (Sql.Conventions.mem_of_has hhas)]
      exact ⟨fun h v hv _ => h v hv, fun h v hv => h v hv hhas⟩
    next hhas => exact ⟨fun _ _ _ h => absurd h hhas, fun _ => rfl⟩
  constructor
  · intro h v hv row hmem
    exact (hrow row).1 (h row hmem) v hv
  · intro h row hmem
    exact (hrow row).2 fun v hv => h v hv row hmem

theorem keepsKeys_iff (hreads : c.Reads base names) : c.KeepsKeys base names t key changes ↔
    c.Harmless names t key changes := by
  constructor
  · intro h col v hcol hv
    obtain ⟨r, hread⟩ : ∃ r, names.read c.table (c.writable changes) c.keyColumn t = some r := by
      rw [← Option.ne_none_iff_exists']
      intro hnone
      rw [assigned, hnone] at hv
      cases hv
    have hcol' : r.2 = col := Option.some.inj ((names.read_key hread).symm.trans hcol)
    have hvals : c.assigned names t changes = r.1 := by rw [assigned, hread]; rfl
    have hw : c.writable changes ≠ [] := by
      intro hnil
      rw [hnil] at hread
      rw [hvals, names.read_nil hread] at hv
      cases hv
    obtain ⟨tr, hrun, hdb⟩ := hreads.exists_run hw
      (update_eq_some.2 ⟨col, hcol, by rw [hread, hvals, ← hcol'], rfl, rfl⟩)
    exact (keys_update_eq_iff hcol _).1 (h _ _ _ hrun hdb) v hv
  · intro h tr res t' hrun hdb
    rcases hreads.table hrun hdb with ⟨rfl, -⟩ | ⟨-, n, hupdate, -⟩
    · rfl
    · obtain ⟨col, hcol, -, rfl, -⟩ := update_eq_some.1 hupdate
      exact (keys_update_eq_iff hcol _).2 fun v hv => h col v hcol hv

end

/-- A writeback leaves the keys of all rows as they are exactly if it is harmless, and so does every sequence of
harmless ones. -/
theorem keys_unchanged_iff (c : DbConnector) (base : Sql.Engine) (names : Sql.Conventions)
    (hreads : c.Reads base names) :
    (∀ t key changes, c.KeepsKeys base names t key changes ↔ c.Harmless names t key changes) ∧
      ∀ t t', c.Reaches base names t t' → c.keys names t' = c.keys names t := by
  refine ⟨fun t key changes => keepsKeys_iff hreads, fun t t' h => ?_⟩
  induction h with
  | refl => rfl
  | step _ hharmless hrun hdb ih => exact ((keepsKeys_iff hreads).2 hharmless _ _ _ hrun hdb).trans ih

/-- The connector of the example configuration, but for the spelling of one name. -/
def shouted : DbConnector :=
  { employees with fields := (SortedMap.empty.insert "title" "jobTitle").insert "EMPLOYEE_ID" "employeeId" }

/-- A change of the mapped key column moves the row with the key 7 to the key 8. -/
def Rekeys (c : DbConnector) : Prop :=
  ∃ tr t', (c.applyWriteback "7" (.insert .empty "employeeId" "8")).run.Runs tr (.ok 1) ∧
    Answered (Sql.engine .folding c.dialect) staff tr t' ∧ c.keys .folding staff = [some "7", some "3"] ∧
    c.keys .folding t' = [some "8", some "3"]

theorem rekeys {c : DbConnector} {col : String} (hc : c.Plain) (htable : c.table = "employees")
    (hkey : c.keyColumn = "employee_id") (hw : c.writable (.insert .empty "employeeId" "8") = [(col, "8")])
    (hcol : Sql.Conventions.lower col = "employee_id") : c.Rekeys := by
  have hread : Sql.Conventions.folding.read c.table (c.writable (.insert .empty "employeeId" "8")) c.keyColumn staff =
      some ([("employee_id", "8")], "employee_id") := by
    have hcolumn : Sql.Conventions.folding.column staff.columns col = some "employee_id" := by
      show (if Sql.Conventions.lower col ∈ staff.columns then some (Sql.Conventions.lower col) else none) = _
      rw [hcol]
      decide
    have hassign : Sql.Conventions.folding.assign staff.columns [(col, "8")] = some [("employee_id", "8")] := by
      rw [Sql.Conventions.assign, List.mapM_cons, hcolumn]
      rfl
    rw [hw, htable, hkey, Sql.Conventions.read, hassign]
    decide
  have hupdate : Sql.Conventions.folding.update c.table (c.writable (.insert .empty "employeeId" "8")) c.keyColumn "7"
      staff = some _ := Option.map_eq_some_iff.2 ⟨_, hread, rfl⟩
  obtain ⟨tr, hrun, hdb⟩ := (reads_engine hc .folding).exists_run (by rw [hw]; simp) hupdate
  refine ⟨tr, _, hrun, hdb, ?_, ?_⟩
  · rw [keys, keyIn, hkey]
    decide
  · rw [keys, keyIn, hkey]
    decide

/-- A change of the mapped key column moves a row to another key, in whatever case its name is written. -/
theorem row_rekeyed : employees.Rekeys ∧ shouted.Rekeys ∧
    ¬ employees.KeepsKeys (Sql.engine .folding employees.dialect) .folding staff "7"
      (.insert .empty "employeeId" "8") := by
  have hemployees : employees.Rekeys := rekeys employees_plain rfl rfl (writable_employees _ _ rfl) (by decide)
  refine ⟨hemployees, rekeys ⟨by decide, by decide, by decide⟩ rfl rfl rfl (by decide), fun hkeeps => ?_⟩
  obtain ⟨tr, t', hrun, hdb, hbefore, hafter⟩ := hemployees
  have heq := hkeeps _ _ _ hrun hdb
  rw [hbefore, hafter] at heq
  revert heq
  decide

/-- A new title is not a new key. -/
theorem lookup_assigned_hunter {col v : String} (hcol : employees.keyIn .folding staff = some col) :
    (employees.assigned .folding staff (.insert .empty "jobTitle" "Hunter")).lookup col ≠ some v := by
  have hassigned : employees.assigned .folding staff (.insert .empty "jobTitle" "Hunter") = [("title", "Hunter")] := by
    rw [assigned, writable_employees "jobTitle" "Hunter" rfl]
    decide
  have hkey : employees.keyIn .folding staff = some "employee_id" := by decide
  have hnone : [("title", "Hunter")].lookup "employee_id" = none := by decide
  obtain rfl := Option.some.inj (hkey.symm.trans hcol)
  rw [hassigned, hnone]
  exact nofun

theorem harmless_hunter (key : String) :
    employees.Harmless .folding staff key (.insert .empty "jobTitle" "Hunter") :=
  fun _ _ hcol hv => absurd hv (lookup_assigned_hunter hcol)

/-- A new title leaves the keys as they are. -/
theorem keys_unchanged_iff_employees : ∃ t',
    employees.Reaches (Sql.engine .folding employees.dialect) .folding staff t' ∧
    t'.rows = [[("email", some "hunter@corp"), ("employee_id", some "7"), ("title", some "Hunter")],
      [("email", some "chief@corp"), ("employee_id", some "3"), ("title", some "Chief")]] ∧
    employees.keys .folding t' = employees.keys .folding staff ∧
    employees.KeepsKeys (Sql.engine .folding employees.dialect) .folding staff "7"
      (.insert .empty "jobTitle" "Hunter") := by
  have hreads := reads_engine employees_plain .folding
  have hw := writable_employees "jobTitle" "Hunter" rfl
  have hread : Sql.Conventions.folding.read employees.table (employees.writable (.insert .empty "jobTitle" "Hunter"))
      employees.keyColumn staff = some ([("title", "Hunter")], "employee_id") := by
    rw [hw]
    decide
  have hupdate : Sql.Conventions.folding.update employees.table
      (employees.writable (.insert .empty "jobTitle" "Hunter")) employees.keyColumn "7" staff = some _ :=
    Option.map_eq_some_iff.2 ⟨_, hread, rfl⟩
  obtain ⟨tr, hrun, hdb⟩ := hreads.exists_run (by rw [hw]; simp) hupdate
  have hreaches := Reaches.step .refl (harmless_hunter "7") hrun hdb
  have hkeys := keys_unchanged_iff employees _ .folding hreads
  exact ⟨_, hreaches, by decide, hkeys.2 _ _ hreaches, (hkeys.1 _ _ _).2 (harmless_hunter "7")⟩

end DbConnector

end NexusAgent
