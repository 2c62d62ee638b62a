import NexusAgent.DbTable

/-!
# Nulls in pulled records

A key of `[db.fields]` is both the text of a SELECT item and the name under which its value is looked up.
`noSilentNulls_iff`: a pull has no null for a value exactly where the last result column of that very name has a
value with a JSON form. No item with an alias is named so (`name_ne_of_alias`).
-/

namespace NexusAgent

/-! ### The last entry of a kind -/

section
variable {α β : Type} {f : α → β} {l : List α} {a : α} {b : β}

/-- `a` is the last of `l` that `f` takes to `b`. -/
def LastOf (f : α → β) (l : List α) (b : β) (a : α) : Prop :=
  f a = b ∧ ∃ l₁ l₂, l = l₁ ++ a :: l₂ ∧ ∀ a' ∈ l₂, f a' ≠ b

theorem LastOf.mem (h : LastOf f l b a) : a ∈ l := by
  obtain ⟨-, l₁, l₂, rfl, -⟩ := h
  exact List.mem_append_right l₁ (List.mem_cons_self ..)

theorem exists_lastOf (h : ∃ a ∈ l, f a = b) : ∃ a, LastOf f l b a := by
  induction l with
  | nil =>
    obtain ⟨a, ha, -⟩ := h
    cases ha
  | cons x l ih =>
    by_cases hl : ∃ a ∈ l, f a = b
    · obtain ⟨a, hfa, l₁, l₂, rfl, hrest⟩ := ih hl
      exact ⟨a, hfa, x :: l₁, l₂, rfl, hrest⟩
    · obtain ⟨a, ha, hfa⟩ := h
      rcases List.mem_cons.1 ha with rfl | ha
      · exact ⟨a, hfa, [], l, rfl, fun a' ha' hfa' => hl ⟨a', ha', hfa'⟩⟩
      · exact absurd ⟨a, ha, hfa⟩ hl

theorem lookup_of_lastOf {γ : Type} [BEq β] [LawfulBEq β] (v : α → γ) (h : LastOf f l b a) :
    (l.map fun a => (f a, v a)).reverse.lookup b = some (v a) := by
  obtain ⟨rfl, l₁, l₂, rfl, hrest⟩ := h
  rw [List.lookup_eq_some_iff]
  refine ⟨(l₂.map fun a => (f a, v a)).reverse, (l₁.map fun a => (f a, v a)).reverse, by simp, ?_⟩
  intro e he
  obtain ⟨a', ha', rfl⟩ := List.mem_map.1 (List.mem_reverse.1 he)
  exact bne_iff_ne.2 (Ne.symm (hrest a' ha'))

end

/-! ### The database -/

/-- A database at the time of a pull: how it names the result column of a SELECT item, and the rows of the table, as
the values that the items have in them. -/
structure Database where
  name : String → String
  rows : List (String → DbValue)

namespace Database

/-- The answer to a SELECT of the items. -/
def select (d : Database) (items : List String) : List DbRow :=
  d.rows.map fun v => items.map fun item => (d.name item, v item)

/-- A result column goes by the alias of its item or by the column the item is, in the case that `fold` gives it. -/
structure Names (d : Database) (fold : String → String) : Prop where
  aliased : ∀ expr name, Sql.isName name → d.name (expr ++ " AS " ++ name) = fold name
  column : ∀ col, Sql.isName col → d.name col = fold col

end Database

/-- The value has a JSON form other than null: it is neither NULL nor binary, and as a number it is finite. -/
def DbValue.Converts : DbValue → Prop
  | .null | .blob => False
  | .float json => json ≠ .null
  | _ => True

/-- The record has a null for the field. -/
def HasNull (record : Json) (can : String) : Prop := ∃ fields, record = .obj fields ∧ (can, Json.null) ∈ fields

theorem colToJson_eq_null_iff {row : DbRow} {name : String} {value : DbValue}
    (h : row.reverse.lookup name = some value) : colToJson row name = .null ↔ ¬ value.Converts := by
  rw [colToJson, h]
  cases value <;> simp [DbValue.Converts, Json.ofInt]

theorem colToJson_eq_null {row : DbRow} {name : String} (h : ∀ e ∈ row, e.1 ≠ name) : colToJson row name = .null := by
  have hlookup : row.reverse.lookup name = none := by
    rw [List.lookup_eq_none_iff]
    intro e he
    exact bne_iff_ne.2 (Ne.symm (h e (List.mem_reverse.1 he)))
  rw [colToJson, hlookup]

namespace DbConnector

variable {c : DbConnector} {can db : String}

/-- `db` is the last key that is mapped to the field. -/
def LastMapped (c : DbConnector) (can db : String) : Prop := LastOf Prod.snd c.fields.entries can (db, can)

/-- A pull that the database answers has a null in the record of a row only where the item of the field is NULL
in that row. -/
def NoSilentNulls (c : DbConnector) (d : Database) : Prop :=
  ∀ tr records, c.pullRecords.run.Runs tr (.ok records) → tr = [⟨.dbFetch c.selectSql, .ok (d.select c.columns)⟩] →
    List.Forall₂ (fun record v => ∀ can db, c.LastMapped can db → HasNull record can → v db = .null) records d.rows

theorem get?_byCanonical_of_last (h : c.LastMapped can db) : c.byCanonical.get? can = some db := by
  have hrest {l₂ : List (String × String)} (h : ∀ e ∈ l₂, e.2 ≠ can) (m : SortedMap String String) :
      (l₂.foldl (fun m e => m.insert e.2 e.1) m).get? can = m.get? can := by
    induction l₂ generalizing m with
    | nil => rfl
    | cons e l₂ ih =>
      rw [List.foldl_cons, ih fun e' he' => h e' (List.mem_cons_of_mem e he'), SortedMap.get?_insert,
        if_neg (Ne.symm (h e (List.mem_cons_self ..)))]
  obtain ⟨-, l₁, l₂, hentries, hl₂⟩ := h
  show (c.fields.entries.foldl (fun m e => m.insert e.2 e.1) SortedMap.empty).get? can = some db
  rw [hentries, List.foldl_append, List.foldl_cons, hrest hl₂, SortedMap.get?_insert, if_pos rfl]

theorem mem_columns_of_last (h : c.LastMapped can db) : db ∈ c.columns := List.mem_map.2 ⟨_, h.mem, rfl⟩

theorem hasNull_record (row : DbRow) (h : c.LastMapped can db) :
    HasNull (.obj (c.record row).entries) can ↔ colToJson row db = .null := by
  have hget : (c.record row).get? can = some (colToJson row db) := by
    rw [record_eq]
    refine SortedMap.get?_eq_some.2 (List.mem_map.2 ⟨(can, db), ?_, rfl⟩)
    exact SortedMap.get?_eq_some.1 (get?_byCanonical_of_last h)
  constructor
  · rintro ⟨fields, hfields, hmem⟩
    obtain rfl := Json.obj.inj hfields
    rw [SortedMap.get?_eq_some.2 hmem] at hget
    exact (Option.some.inj hget).symm
  · intro hnull
    rw [hnull] at hget
    exact ⟨_, rfl, SortedMap.get?_eq_some.1 hget⟩

theorem colToJson_select_iff {d : Database} {v : String → DbValue} {items : List String} :
    colToJson (items.map fun item => (d.name item, v item)) db = .null ↔
      ∀ item, LastOf d.name items db item → ¬ (v item).Converts := by
  constructor
  · intro hnull item hlast
    exact (colToJson_eq_null_iff (lookup_of_lastOf v hlast)).1 hnull
  · intro h
    by_cases hnamed : ∃ item ∈ items, d.name item = db
    · obtain ⟨item, hlast⟩ := exists_lastOf hnamed
      exact (colToJson_eq_null_iff (lookup_of_lastOf v hlast)).2 (h item hlast)
    · refine colToJson_eq_null ?_
      intro e he hname
      obtain ⟨item, hitem, rfl⟩ := List.mem_map.1 he
      exact hnamed ⟨item, hitem, hname⟩

/-- The nulls of a pull, in terms of the items alone. -/
theorem noSilentNulls_iff_forall (c : DbConnector) (d : Database) : c.NoSilentNulls d ↔
    ∀ v ∈ d.rows, ∀ can db, c.LastMapped can db →
      (∀ item, LastOf d.name c.columns db item → ¬ (v item).Converts) → v db = .null := by
  constructor
  · intro h v hv can db hlast hnull
    have hrun : c.pullRecords.run.Runs [⟨.dbFetch c.selectSql, .ok (d.select c.columns)⟩]
        (.ok ((d.select c.columns).map fun row => .obj (c.record row).entries)) := runs_pullRecords.2 ⟨_, rfl, rfl⟩
    have hall := h _ _ hrun rfl
    rw [Database.select, List.map_map, List.forall₂_map_left_iff, List.forall₂_same] at hall
    exact hall v hv can db hlast ((hasNull_record _ hlast).2 (colToJson_select_iff.2 hnull))
  · intro h tr records hrun htr
    obtain ⟨reply, hreply, hres⟩ := runs_pullRecords.1 hrun
    rw [htr] at hreply
    obtain rfl : Except.ok (d.select c.columns) = reply := by simpa using hreply
    obtain rfl : records = (d.select c.columns).map fun row => .obj (c.record row).entries := Except.ok.inj hres
    rw [Database.select, List.map_map, List.forall₂_map_left_iff, List.forall₂_same]
    intro v hv can db hlast hnull
    exact h v hv can db hlast (colToJson_select_iff.1 ((hasNull_record _ hlast).1 hnull))

/-- A pull has no silent null exactly if every value other than NULL stands in the last result column that is named
as its key is written, and converts. -/
theorem noSilentNulls_iff (c : DbConnector) (d : Database) : c.NoSilentNulls d ↔
    ∀ v ∈ d.rows, ∀ can db, c.LastMapped can db →
      v db = .null ∨ ∃ item, LastOf d.name c.columns db item ∧ (v item).Converts := by
  rw [noSilentNulls_iff_forall]
  refine forall₂_congr fun v _ => forall₃_congr fun can db _ => ?_
  constructor
  · intro h
    by_cases hread : ∃ item, LastOf d.name c.columns db item ∧ (v item).Converts
    · exact .inr hread
    · exact .inl (h fun item hlast hconv => hread ⟨item, hlast, hconv⟩)
  · rintro (hnull | ⟨item, hlast, hconv⟩) h
    · exact hnull
    · exact absurd hconv (h item hlast)

/-- Where every result column is named as its item is written, only what has no JSON form becomes null. -/
theorem noSilentNulls_of_verbatim {d : Database} (hname : ∀ item ∈ c.columns, d.name item = item)
    (hconv : ∀ v ∈ d.rows, ∀ item ∈ c.columns, v item = .null ∨ (v item).Converts) : c.NoSilentNulls d := by
  rw [noSilentNulls_iff_forall]
  intro v hv can db hlast h
  have hdb := mem_columns_of_last hlast
  obtain ⟨item, hitem⟩ := exists_lastOf ⟨db, hdb, hname db hdb⟩
  obtain rfl : item = db := (hname item hitem.mem).symm.trans hitem.1
  exact (hconv v hv item hdb).resolve_right (h item hitem)

/-- A value is lost if no result column has the name of its key. -/
theorem not_noSilentNulls {d : Database} {v : String → DbValue} (hv : v ∈ d.rows) (hlast : c.LastMapped can db)
    (hvalue : v db ≠ .null) (hname : ∀ item ∈ c.columns, d.name item ≠ db) : ¬ c.NoSilentNulls d := by
  intro h
  refine hvalue ((noSilentNulls_iff_forall c d).1 h v hv can db hlast ?_)
  intro item hitem
  exact absurd hitem.1 (hname item hitem.mem)

end DbConnector

/-! ### Names that are folded -/

/-- A name in lower case, as PostgreSQL folds it. -/
def toLower (s : String) : String := String.ofList (s.toList.map Char.toLower)

theorem length_toLower (s : String) : (toLower s).length = s.length := by
  rw [toLower, String.length_ofList, List.length_map, String.length_toList]

/-- The name of an item with an alias is shorter than the item. -/
theorem Database.Names.name_ne_of_alias {d : Database} {fold : String → String} (h : d.Names fold)
    (hfold : ∀ s, (fold s).length = s.length) (expr : String) {name : String} (hname : Sql.isName name) :
    d.name (expr ++ " AS " ++ name) ≠ expr ++ " AS " ++ name := by
  intro heq
  have hlen := congrArg String.length heq
  rw [h.aliased expr name hname, hfold, String.length_append, String.length_append] at hlen
  have hfour : " AS ".length = 4 := rfl
  omega

/-- A database that names a column by the last word of its item, in lower case. -/
def Database.folding (rows : List (String → DbValue)) : Database where
  name item := toLower ((rsplitNext ' ' item).getD item)
  rows := rows

theorem space_not_mem {name : String} (h : Sql.isName name) : ' ' ∉ name.toList :=
  Text.not_mem_of_all (Bool.and_eq_true_iff.1 h).2 rfl

theorem names_folding (rows : List (String → DbValue)) : (Database.folding rows).Names toLower where
  aliased expr name hname := by
    have hword : " AS " = " AS" ++ String.singleton ' ' := by decide
    have hlast : rsplitNext ' ' (expr ++ " AS " ++ name) = some name := by
      refine rsplitNext_eq_some.2 ⟨space_not_mem hname, .inr ⟨expr ++ " AS", ?_⟩⟩
      rw [hword, ← String.append_assoc]
    show toLower ((rsplitNext ' ' _).getD _) = _
    rw [hlast]
    rfl
  column col hcol := by
    have hlast : rsplitNext ' ' col = some col := rsplitNext_eq_some.2 ⟨space_not_mem hcol, .inl rfl⟩
    show toLower ((rsplitNext ' ' col).getD col) = _
    rw [hlast]
    rfl

/-- A connector with one mapped key. -/
def DbConnector.single (key can : String) : DbConnector :=
  ⟨"employees", "employee_id", .insert .empty key can, "postgres"⟩

theorem lastMapped_single (key can : String) : (DbConnector.single key can).LastMapped can key :=
  ⟨rfl, [], [], rfl, fun _ h => absurd h List.not_mem_nil⟩

/-- The cast that the configuration recommends loses the date, and a capital letter loses the address. -/
theorem silent_nulls :
    (∀ rows, (Database.folding rows).Names toLower) ∧
    ¬ (DbConnector.single ("start_date::text" ++ " AS " ++ "start_date") "startDate").NoSilentNulls
      (.folding [fun _ => .text "2024-01-01"]) ∧
    ¬ (DbConnector.single "Email" "primaryEmail").NoSilentNulls (.folding [fun _ => .text "hunter@corp"]) := by
  refine ⟨names_folding, ?_, ?_⟩
  · refine DbConnector.not_noSilentNulls (List.mem_singleton.2 rfl) (lastMapped_single ..) (by simp) ?_
    intro item hitem
    obtain rfl := List.mem_singleton.1 hitem
    exact (names_folding _).name_ne_of_alias length_toLower "start_date::text" (by decide)
  · refine DbConnector.not_noSilentNulls (List.mem_singleton.2 rfl) (lastMapped_single ..) (by simp) ?_
    intro item hitem
    obtain rfl := List.mem_singleton.1 hitem
    decide

end NexusAgent
