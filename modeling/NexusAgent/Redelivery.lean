import NexusAgent.DbTable
import NexusAgent.FeedOrder
import NexusAgent.Lib.Overwrite

/-!
# A feed that is delivered again

The agent confirms no change of a feed, so the broker may send it with every pull. `feed_settles`: however often, how
far and with which failures a feed has been delivered over any number of runs, a cycle that gets through it leaves the
table that one pass over it would have made at first.
-/

namespace NexusAgent

namespace DbConnector

section
variable (c : DbConnector) (names : Sql.Conventions)

/-- What the database takes for the key of a row. -/
def keyOf (t : Sql.Table) (row : Sql.Row) : Option String :=
  (c.keyIn names t).bind fun col => (row.get col).map names.collate

/-- A change that gives the column of the key no other key. -/
def KeepsKey (t : Sql.Table) (change : WritebackChange) : Prop :=
  ∀ col v, c.keyIn names t = some col → (c.assigned names t change.fields).lookup col = some v →
    names.collate v = names.collate change.key

/-- What a change makes of a row. -/
def putRow (t : Sql.Table) (change : WritebackChange) (row : Sql.Row) : Sql.Row :=
  row.update (fun row => c.keyOf names t row = some (names.collate change.key)) (c.assigned names t change.fields)

/-- What a change makes of a table. -/
def put (change : WritebackChange) (t : Sql.Table) : Sql.Table :=
  t.update (fun row => c.keyOf names t row = some (names.collate change.key)) (c.assigned names t change.fields)

/-- What a feed makes of a table. -/
def putAll (feed : List WritebackChange) (t : Sql.Table) : Sql.Table := Overwriting.run (c.put names) feed t

/-- The rows have the same key, and differ at most in what the change writes. -/
def RowAgree (t : Sql.Table) (change : WritebackChange) (row row' : Sql.Row) : Prop :=
  c.keyOf names t row = c.keyOf names t row' ∧
    if c.keyOf names t row = some (names.collate change.key) then
      List.Forall₂ (fun e e' =>
        e.1 = e'.1 ∧ ((c.assigned names t change.fields).lookup e.1 = none → e.2 = e'.2)) row row'
    else row = row'

end

variable {c : DbConnector} {base : Sql.Engine} {names : Sql.Conventions} {change : WritebackChange}
  {feed : List WritebackChange} {row row' : Sql.Row} {t t' t₀ : Sql.Table}

/-! ### Rows -/

theorem key_putRow (h : c.KeepsKey names t change) (row : Sql.Row) :
    c.keyOf names t (c.putRow names t change row) = c.keyOf names t row := by
  unfold putRow Sql.Row.update
  split
  next hkey =>
    have hkey : c.keyOf names t row = some (names.collate change.key) := of_decide_eq_true hkey
    obtain ⟨col, hcol, hget⟩ := Option.bind_eq_some_iff.1 hkey
    obtain ⟨w, hw, -⟩ := Option.map_eq_some_iff.1 hget
    have hset : c.keyOf names t (row.set (c.assigned names t change.fields)) =
        (((c.assigned names t change.fields).lookup col).or (row.get col)).map names.collate := by
      rw [keyOf, hcol, Option.bind_some, Sql.Row.get_set (Sql.Row.mem_of_get_eq hw)]
    rw [hset]
    rcases hv : (c.assigned names t change.fields).lookup col with _ | v
    · rw [keyOf, hcol]
      rfl
    · rw [hkey]
      exact congrArg some (h col v hcol hv)
  next => rfl

theorem set_eq_set {vals : List (String × String)}
    (h : List.Forall₂ (fun e e' => e.1 = e'.1 ∧ (vals.lookup e.1 = none → e.2 = e'.2)) row row') :
    row.set vals = row'.set vals := by
  induction h with
  | nil => rfl
  | @cons e e' row row' he _ ih =>
    obtain ⟨hname, hval⟩ := he
    show (e.1, (vals.lookup e.1).or e.2) :: Sql.Row.set vals row =
      (e'.1, (vals.lookup e'.1).or e'.2) :: Sql.Row.set vals row'
    rw [ih, ← hname]
    rcases hv : vals.lookup e.1 with _ | v
    · rw [hval hv]
    · rfl

theorem forall₂_set (vals vals' : List (String × String))
    (h : List.Forall₂ (fun e e' => e.1 = e'.1 ∧ (vals.lookup e.1 = none → e.2 = e'.2)) row row') :
    List.Forall₂ (fun e e' => e.1 = e'.1 ∧ (vals.lookup e.1 = none → e.2 = e'.2)) (row.set vals') (row'.set vals') := by
  refine List.forall₂_map_left_iff.2 (List.forall₂_map_right_iff.2 (h.imp ?_))
  rintro e e' ⟨hname, hval⟩
  refine ⟨hname, fun hnone => ?_⟩
  show (vals'.lookup e.1).or e.2 = (vals'.lookup e'.1).or e'.2
  rw [hval hnone, hname]

theorem putRow_eq (t : Sql.Table) (change : WritebackChange) (row : Sql.Row) : c.putRow names t change row =
    if c.keyOf names t row = some (names.collate change.key) then row.set (c.assigned names t change.fields)
    else row := by
  unfold putRow Sql.Row.update
  simp only [decide_eq_true_eq]

theorem overwriting_putRow (c : DbConnector) (names : Sql.Conventions) (t : Sql.Table) :
    Overwriting (c.KeepsKey names t) (c.putRow names t) (c.RowAgree names t) where
  own change row hkeep := by
    refine ⟨key_putRow hkeep row, ?_⟩
    rw [key_putRow hkeep]
    split
    next hkey =>
      rw [putRow_eq, if_pos hkey]
      refine List.forall₂_map_left_iff.2 (List.forall₂_same.2 fun e _ => ⟨rfl, fun hnone => ?_⟩)
      have hlookup : (c.assigned names t change.fields).lookup e.1 = none := hnone
      show ((c.assigned names t change.fields).lookup e.1).or e.2 = e.2
      rw [hlookup]
      rfl
    next hkey => rw [putRow_eq, if_neg hkey]
  keep change change' row row' hkeep h := by
    obtain ⟨hkeys, hrest⟩ := h
    refine ⟨by rw [key_putRow hkeep, key_putRow hkeep, hkeys], ?_⟩
    rw [key_putRow hkeep]
    split
    next hkey =>
      rw [if_pos hkey] at hrest
      rw [putRow_eq, putRow_eq, ← hkeys]
      split
      · exact forall₂_set _ _ hrest
      · exact hrest
    next hkey =>
      rw [if_neg hkey] at hrest
      rw [hrest]
  settle change row row' h := by
    obtain ⟨hkeys, hrest⟩ := h
    rw [putRow_eq, putRow_eq, ← hkeys]
    split
    next hkey =>
      rw [if_pos hkey] at hrest
      exact set_eq_set hrest
    next hkey =>
      rw [if_neg hkey] at hrest
      exact hrest

/-! ### Tables -/

theorem rows_putAll (feed : List WritebackChange) (t : Sql.Table) :
    (c.putAll names feed t).rows = t.rows.map (Overwriting.run (c.putRow names t) feed) := by
  induction feed generalizing t with
  | nil => exact (List.map_id t.rows).symm
  | cons change feed ih =>
    have hput : c.putRow names (c.put names change t) = c.putRow names t := rfl
    show (c.putAll names feed (c.put names change t)).rows = _
    rw [ih, hput, show (c.put names change t).rows = t.rows.map (c.putRow names t change) from rfl, List.map_map]
    rfl

theorem putAll_name_columns (feed : List WritebackChange) (t : Sql.Table) :
    (c.putAll names feed t).name = t.name ∧ (c.putAll names feed t).columns = t.columns := by
  induction feed generalizing t with
  | nil => exact ⟨rfl, rfl⟩
  | cons change feed ih => exact ih (c.put names change t)

theorem table_ext {t t' : Sql.Table} (hname : t.name = t'.name) (hcolumns : t.columns = t'.columns)
    (hrows : t.rows = t'.rows) : t = t' := by
  obtain ⟨name, columns, nodup, rows, shape⟩ := t
  obtain ⟨name', columns', nodup', rows', shape'⟩ := t'
  obtain rfl : name = name' := hname
  obtain rfl : columns = columns' := hcolumns
  obtain rfl : rows = rows' := hrows
  rfl

theorem putRow_congr (hname : t.name = t'.name) (hcolumns : t.columns = t'.columns) :
    c.putRow names t = c.putRow names t' := by
  have hassigned : c.assigned names t = c.assigned names t' := by
    funext changes
    unfold assigned Sql.Conventions.read
    rw [hname, hcolumns]
  have hkey : c.keyOf names t = c.keyOf names t' := by
    funext row
    unfold keyOf keyIn
    rw [hcolumns]
  funext change row
  rw [putRow, putRow, hassigned, hkey]

/-- A feed makes void what any of its changes did before. -/
theorem putAll_absorb {done : List WritebackChange} (t : Sql.Table) (hkeys : ∀ change ∈ feed, c.KeepsKey names t change)
    (hdone : ∀ change ∈ done, change ∈ feed) :
    c.putAll names feed (c.putAll names done t) = c.putAll names feed t := by
  obtain ⟨hname, hcolumns⟩ := @putAll_name_columns c names done t
  refine table_ext ?_ ?_ ?_
  · rw [(putAll_name_columns feed _).1, hname, (putAll_name_columns feed t).1]
  · rw [(putAll_name_columns feed _).2, hcolumns, (putAll_name_columns feed t).2]
  · rw [rows_putAll, rows_putAll, rows_putAll, putRow_congr hname hcolumns, List.map_map]
    exact List.map_congr_left fun row _ => (overwriting_putRow c names t).run_absorb hkeys hdone row

/-- Some of the changes of the feed have been made, in whatever order and however often. -/
def Partly (c : DbConnector) (names : Sql.Conventions) (feed : List WritebackChange) (t₀ t : Sql.Table) : Prop :=
  ∃ done, (∀ change ∈ done, change ∈ feed) ∧ t = c.putAll names done t₀

theorem Partly.refl (c : DbConnector) (names : Sql.Conventions) (feed : List WritebackChange) (t : Sql.Table) :
    c.Partly names feed t t :=
  ⟨[], by simp, rfl⟩

theorem Partly.put (h : c.Partly names feed t₀ t) (hmem : change ∈ feed) :
    c.Partly names feed t₀ (c.put names change t) := by
  obtain ⟨done, hdone, rfl⟩ := h
  refine ⟨done ++ [change], ?_, (Overwriting.run_append (c.put names) done [change] t₀).symm⟩
  exact List.forall_mem_append.2 ⟨hdone, List.forall_mem_singleton.2 hmem⟩

theorem Partly.putAll_eq (h : c.Partly names feed t₀ t) (hkeys : ∀ change ∈ feed, c.KeepsKey names t₀ change) :
    c.putAll names feed t = c.putAll names feed t₀ := by
  obtain ⟨done, hdone, rfl⟩ := h
  exact putAll_absorb t₀ hkeys hdone

theorem put_unmapped (h : c.writable change.fields = []) (t : Sql.Table) : c.put names change t = t := by
  have hassigned : c.assigned names t change.fields = [] := by
    rw [assigned, h]
    rcases hread : names.read c.table [] c.keyColumn t with _ | r
    · rfl
    · exact names.read_nil hread
  refine table_ext rfl rfl ?_
  show t.rows.map (c.putRow names t change) = t.rows
  refine (List.map_congr_left fun row _ => ?_).trans (List.map_id t.rows)
  rw [putRow_eq, hassigned, Sql.Row.set_nil]
  exact ite_self _

theorem put_eq {col : String} (hcol : c.keyIn names t = some col) (change : WritebackChange) :
    c.put names change t = t.update (names.has col change.key) (c.assigned names t change.fields) := by
  have hhas : names.has col change.key = fun row => decide (c.keyOf names t row = some (names.collate change.key)) := by
    funext row
    rw [keyOf, hcol]
    rfl
  rw [put, hhas]

/-- What the answer to an update says. -/
theorem table_of_update (hreads : c.Reads base names) (hw : c.writable change.fields ≠ [])
    {reply : Except String Nat} (h : Answer base t ⟨c.updateCall change.key change.fields, reply⟩ t') :
    t' = c.put names change t ∨ (∃ e, reply = .error e) ∧ t' = t := by
  have hput {n : Nat} (hn : base.execute (c.updateSql ((c.writable change.fields).map (·.1)))
      ((c.writable change.fields).map (·.2) ++ [change.key]) t = some (t', n)) : t' = c.put names change t := by
    rw [hreads.execute hw] at hn
    obtain ⟨col, hcol, -, rfl, -⟩ := update_eq_some.1 hn
    exact (put_eq hcol change).symm
  rcases reply with e | n
  · rcases h with h | ⟨n, hn⟩
    · exact .inr ⟨⟨e, rfl⟩, h⟩
    · exact .inl (hput hn)
  · exact .inl (hput h)

end DbConnector

/-! ### A pass on a table -/

namespace Exchange

variable {x : Externals} {db : DbSection} {server : ServerClient} {feed : List WritebackChange} {s : Exchange}
  {t₀ t t' : Sql.Table} {e : Event Reply} {base : Sql.Engine} {names : Sql.Conventions}

/-- The changes that are still to be applied. -/
def pending : Exchange → List WritebackChange
  | .applying changes _ | .failed _ _ changes _ => changes
  | _ => []

theorem pending_afterPush (r : Except AgentError Unit) : (s.afterPush r).pending ⊆ s.pending := by
  unfold afterPush
  split
  · exact List.nil_subset _
  · exact List.nil_subset _
  · exact List.Subset.refl _

theorem pending_afterUpdate (r : Except String Nat) : (s.afterUpdate r).pending ⊆ s.pending := by
  unfold afterUpdate
  split
  · exact List.subset_cons_self ..
  · exact List.subset_cons_self ..
  · exact List.Subset.refl _

theorem pending_recorded (db : DbSection) : (s.recorded db).pending ⊆ s.pending := by
  unfold recorded
  split
  next => exact List.nil_subset _
  next =>
    split
    · exact List.nil_subset _
    · exact List.nil_subset _
  all_goals first | exact List.Subset.refl _ | exact List.nil_subset _

theorem pending_afterPull (reply : Except String Status) : (afterPull reply).pending = [] := by
  unfold afterPull
  split
  · rfl
  · split
    · rfl
    · split <;> rfl

theorem pending_next {change : WritebackChange} (h : change ∈ (next db s e).pending) :
    change ∈ s.pending ∨ ∃ changes, e = ⟨.decodeChanges, .ok changes⟩ ∧ change ∈ mapped db changes := by
  unfold next at h
  split at h
  case h_7 reply => exact .inl (pending_afterPush _ h)
  case h_8 reply =>
    rw [pending_afterPull] at h
    cases h
  case h_9 changes =>
    unfold afterFeed at h
    split at h
    · cases h
    · exact .inr ⟨changes, rfl, h⟩
  case h_11 reply => exact .inl (pending_afterUpdate _ h)
  case h_12 => exact .inl (pending_recorded db h)
  case h_14 => exact .inl h
  all_goals cases h

/-- The changes that the broker sends are changes of the feed. -/
def FromFeed (feed : List WritebackChange) : Event Reply → Prop
  | ⟨.decodeChanges, .ok changes⟩ => changes ⊆ feed
  | _ => True

theorem mem_mapped {change : WritebackChange} {changes : List WritebackChange} :
    change ∈ mapped db changes ↔ change ∈ changes ∧ db.connector.writable change.fields ≠ [] := by
  simp only [mapped, List.mem_filter, decide_eq_true_eq]

/-- An answer changes the table only if it is one to an update. -/
theorem table_of_answer (h : Answer base t e t') (he : ∀ sql binds, e.1 ≠ .dbExecute sql binds) : t' = t := by
  unfold Answer at h
  split at h
  · exact absurd rfl (he _ _)
  · exact absurd rfl (he _ _)
  · exact h.1
  · exact h

/-- What becomes of the table when the next change is applied. -/
theorem table_of_execute (hreads : db.connector.Reads base names) {sql : String} {binds : List String}
    {reply : Except String Nat}
    (hmay : May x db server s (.dbExecute sql binds)) (hmapped : s.pending ⊆ mapped db feed)
    (ht : Answer base t ⟨.dbExecute sql binds, reply⟩ t') :
    ∃ change ∈ feed, ∃ rest n, s = .applying (change :: rest) n ∧
      (t' = db.connector.put names change t ∨ (∃ e, reply = .error e) ∧ t' = t) := by
  obtain ⟨change, rest, n, rfl, hcall⟩ := hmay
  obtain ⟨rfl, rfl⟩ := Call.dbExecute.inj hcall
  obtain ⟨hchange, hw⟩ := mem_mapped.1 (hmapped (List.mem_cons_self ..))
  exact ⟨change, hchange, rest, n, rfl, DbConnector.table_of_update hreads hw ht⟩

/-- The table has taken some changes of the feed, and only mapped ones are still to come. -/
def OnTheWay (db : DbSection) (names : Sql.Conventions) (feed : List WritebackChange) (t₀ : Sql.Table) (s : Exchange)
    (t : Sql.Table) : Prop :=
  db.connector.Partly names feed t₀ t ∧ s.pending ⊆ mapped db feed

theorem onTheWay_next (hreads : db.connector.Reads base names) (h : OnTheWay db names feed t₀ s t)
    (hmay : May x db server s e.1) (hfeed : FromFeed feed e) (ht : Answer base t e t') :
    OnTheWay db names feed t₀ (next db s e) t' := by
  obtain ⟨hpartly, hpending⟩ := h
  constructor
  · by_cases he : ∃ sql binds, e.1 = .dbExecute sql binds
    · obtain ⟨c, reply⟩ := e
      obtain ⟨sql, binds, rfl⟩ := he
      obtain ⟨change, hchange, -, -, -, rfl | ⟨-, rfl⟩⟩ := table_of_execute hreads hmay hpending ht
      · exact hpartly.put hchange
      · exact hpartly
    · rw [table_of_answer ht fun sql binds heq => he ⟨sql, binds, heq⟩]
      exact hpartly
  · intro change hchange
    rcases pending_next hchange with hmem | ⟨changes, rfl, hmem⟩
    · exact hpending hmem
    · obtain ⟨hmem, hw⟩ := mem_mapped.1 hmem
      exact mem_mapped.2 ⟨hfeed hmem, hw⟩

/-! ### A cycle that gets through the feed -/

/-- The broker sends the feed, and every update is acknowledged. -/
def Delivers (feed : List WritebackChange) : Event Reply → Prop
  | ⟨.decodeChanges, .ok changes⟩ => changes = feed
  | ⟨.dbExecute .., .error _⟩ => False
  | _ => True

/-- An update has failed, and is not recorded yet. -/
def Failing : Exchange → Prop
  | .failed .. => True
  | _ => False

/-- The changes that are not pending any more have been made, after some of the feed. -/
def Settling (db : DbSection) (names : Sql.Conventions) (feed : List WritebackChange) (t₀ : Sql.Table) (s : Exchange)
    (t : Sql.Table) : Prop :=
  ¬ s.Failing ∧ ∃ done t₁, mapped db feed = done ++ s.pending ∧ db.connector.Partly names feed t₀ t₁ ∧
    t = db.connector.putAll names done t₁

theorem putAll_mapped (feed : List WritebackChange) (t : Sql.Table) :
    db.connector.putAll names (mapped db feed) t = db.connector.putAll names feed t := by
  induction feed generalizing t with
  | nil => rfl
  | cons change feed ih =>
    rw [mapped_cons]
    split
    next => exact ih _
    next hw =>
      show db.connector.putAll names (mapped db feed) t =
        db.connector.putAll names feed (db.connector.put names change t)
      rw [DbConnector.put_unmapped (not_not.1 hw), ih]

/-- Where nothing is pending the feed has been applied. -/
theorem Settling.eq (h : Settling db names feed t₀ s t) (hkeys : ∀ change ∈ feed, db.connector.KeepsKey names t₀ change)
    (hs : s.pending = []) : t = db.connector.putAll names feed t₀ := by
  obtain ⟨-, done, t₁, hdone, hpartly, rfl⟩ := h
  rw [hs, List.append_nil] at hdone
  rw [← hdone, putAll_mapped, hpartly.putAll_eq hkeys]

theorem Settling.partly (h : Settling db names feed t₀ s t) : db.connector.Partly names feed t₀ t := by
  obtain ⟨-, done, t₁, hdone, ⟨before, hbefore, rfl⟩, rfl⟩ := h
  refine ⟨before ++ done, List.forall_mem_append.2 ⟨hbefore, fun change hchange => ?_⟩, ?_⟩
  · have hmem : change ∈ mapped db feed := hdone ▸ List.mem_append_left _ hchange
    exact (mem_mapped.1 hmem).1
  · exact (Overwriting.run_append ..).symm

/-- With the feed that the broker has sent. -/
theorem settling_start (h : db.connector.Partly names feed t₀ t) : Settling db names feed t₀ (afterFeed db feed) t := by
  unfold afterFeed
  split
  next hnil =>
    subst hnil
    exact ⟨id, [], t, rfl, h, rfl⟩
  next => exact ⟨id, [], t, rfl, h, rfl⟩

/-- Calls that neither fetch changes nor apply them leave what is pending. -/
theorem pending_eq (hmay : May x db server s e.1) (hcycle : e.1.InCycle) (hs : ¬ s.Failing)
    (hupdate : ∀ sql binds, e.1 ≠ .dbExecute sql binds) (hfetch : ∀ changes, e ≠ ⟨.decodeChanges, .ok changes⟩) :
    (next db s e).pending = s.pending ∧ ¬ (next db s e).Failing := by
  unfold next
  split
  case h_1 =>
    rcases hmay with rfl | ⟨e, rfl⟩ <;> exact ⟨rfl, id⟩
  case h_2 => rcases hcycle with h | h | h <;> exact h.elim
  case h_3 | h_4 | h_5 | h_6 =>
    obtain ⟨rfl, -⟩ := hmay
    exact ⟨rfl, id⟩
  case h_7 reply =>
    obtain ⟨⟨rows, n, rfl⟩, -⟩ := hmay
    rcases ServerClient.accepted "push" "push" reply with e | _ <;> exact ⟨rfl, id⟩
  case h_8 reply =>
    obtain ⟨rfl, -⟩ := hmay
    unfold afterPull
    split
    next => exact ⟨rfl, id⟩
    next =>
      split
      · exact ⟨rfl, id⟩
      · split <;> exact ⟨rfl, id⟩
  case h_9 => exact absurd rfl (hfetch _)
  case h_10 =>
    obtain rfl : s = .asked := hmay
    exact ⟨rfl, id⟩
  case h_11 => exact absurd rfl (hupdate _ _)
  case h_12 =>
    have hrecord : s.MayRecord x db _ _ := hmay
    cases s with
    | failed => exact absurd trivial hs
    | applying changes n =>
      obtain ⟨-, rfl, -⟩ := hrecord
      exact ⟨rfl, id⟩
    | pushing rows n =>
      show (if _ then pushed else finished).pending = _ ∧ ¬ (if _ then pushed else finished).Failing
      split <;> exact ⟨rfl, id⟩
    | _ => exact ⟨rfl, id⟩
  case h_13 =>
    have hrecord : s.MayRecord x db _ _ := hmay
    cases s with
    | failed => exact absurd trivial hs
    | applying changes n =>
      obtain ⟨-, rfl, -⟩ := hrecord
      exact ⟨rfl, id⟩
    | _ => exact ⟨rfl, id⟩
  case h_14 => exact ⟨rfl, hs⟩

theorem settling_next (hreads : db.connector.Reads base names) (h : Settling db names feed t₀ s t)
    (hmay : May x db server s e.1)
    (hcycle : e.1.InCycle) (hdelivers : Delivers feed e) (ht : Answer base t e t') :
    Settling db names feed t₀ (next db s e) t' := by
  obtain ⟨hs, done, t₁, hdone, hpartly, heq⟩ := id h
  by_cases hupdate : ∃ sql binds, e.1 = .dbExecute sql binds
  · obtain ⟨c, reply⟩ := e
    obtain ⟨sql, binds, rfl⟩ := hupdate
    have hmapped : s.pending ⊆ mapped db feed := hdone ▸ List.subset_append_right _ _
    obtain ⟨change, -, rest, n, rfl, hput⟩ := table_of_execute hreads hmay hmapped ht
    rcases reply with err | k
    · exact hdelivers.elim
    · rcases hput with rfl | ⟨⟨_, ⟨⟩⟩, -⟩
      refine ⟨id, done ++ [change], t₁, ?_, hpartly, ?_⟩
      · rw [hdone, List.append_assoc]
        rfl
      · rw [heq]
        exact (Overwriting.run_append (db.connector.put names) done [change] t₁).symm
  have hsame : t' = t := table_of_answer ht fun sql binds heq => hupdate ⟨sql, binds, heq⟩
  subst hsame
  by_cases hfetch : ∃ changes, e = ⟨.decodeChanges, .ok changes⟩
  · obtain ⟨changes, rfl⟩ := hfetch
    obtain rfl : changes = feed := hdelivers
    exact settling_start h.partly
  · obtain ⟨hpending, hfailing⟩ := pending_eq hmay hcycle hs (fun sql binds heq => hupdate ⟨sql, binds, heq⟩)
      fun changes heq => hfetch ⟨changes, heq⟩
    exact ⟨hfailing, done, t₁, by rw [hpending, hdone], hpartly, heq⟩

/-! ### Runs -/

/-- What each step of a trace preserves, of how far the agent has got and of the table, holds after it. -/
theorem answered_invariant {I : Exchange → Sql.Table → Prop} {tr : Trace} (hobeys : (contract x db server).Obeys s tr)
    (ht : Answered base t tr t') (hs : I s t) (hstep : ∀ e ∈ tr, ∀ s t t', I s t → May x db server s e.1 →
      Answer base t e t' → I (next db s e) t') : I (tr.foldl (next db) s) t' := by
  induction tr generalizing s t with
  | nil =>
    obtain rfl : t' = t := ht
    exact hs
  | cons e tr ih =>
    obtain ⟨t₁, he, ht⟩ := ht
    obtain ⟨hmay, hrest⟩ := Contract.obeys_cons.1 hobeys
    refine ih (hrest _ rfl) ht ?_ fun e' he' => hstep e' (List.mem_cons_of_mem e he')
    exact hstep e (List.mem_cons_self ..) s t t₁ hs hmay he

theorem answered_append {tr tr' : Trace} :
    Answered base t (tr ++ tr') t' ↔ ∃ t₁, Answered base t tr t₁ ∧ Answered base t₁ tr' t' := by
  induction tr generalizing t with
  | nil =>
    constructor
    · intro h
      exact ⟨t, rfl, h⟩
    · rintro ⟨_, rfl, h⟩
      exact h
  | cons e tr ih =>
    constructor
    · rintro ⟨t₁, he, h⟩
      obtain ⟨t₂, h₁, h₂⟩ := ih.1 h
      exact ⟨t₂, ⟨t₁, he, h₁⟩, h₂⟩
    · rintro ⟨t₂, ⟨t₁, he, h₁⟩, h₂⟩
      exact ⟨t₁, he, ih.2 ⟨t₂, h₁, h₂⟩⟩

theorem FromFeed.of_delivers (h : Delivers feed e) : FromFeed feed e := by
  unfold FromFeed
  split
  · obtain rfl : _ = feed := h
    exact List.Subset.refl _
  · trivial

variable {config : Config} {sess : Session}

theorem over_cycles (hmode : config.agent.mode = .db) (hdb : config.db = some db) {cycles : List Trace}
    (h : ∀ tr ∈ cycles, (runOne x (runDb x) config sess).Runs tr ()) (hs : s.Over) :
    (cycles.flatten.foldl (next db) s).Over := by
  induction cycles generalizing s with
  | nil => exact hs
  | cons tr cycles ih =>
    obtain ⟨htr, hcycles⟩ := List.forall_mem_cons.1 h
    rw [List.flatten_cons, List.foldl_append]
    refine ih hcycles ?_
    exact ((wp_runOne hmode hdb hs).of_runs htr).2 _ (Contract.steps_monitor.2 rfl)

/-- The cycle gets through the feed. -/
theorem settles (hmode : config.agent.mode = .db) (hdb : config.db = some db) (hreads : db.connector.Reads base names)
    (hkeys : ∀ change ∈ feed, db.connector.KeepsKey names t₀ change) {cycle : Trace}
    (hcycle : (runOne x (runDb x) config sess).Runs cycle ()) (hover : s.Over)
    (hpartly : db.connector.Partly names feed t₀ t)
    (ht : Answered base t cycle t') (hdelivers : ∀ e ∈ cycle, Delivers feed e)
    (hfetched : (⟨.decodeChanges, .ok feed⟩ : Event Reply) ∈ cycle) : t' = db.connector.putAll names feed t₀ := by
  obtain ⟨hobeys, hafter⟩ := (wp_runOne hmode hdb hover).of_runs hcycle
  have hcalls : ∀ e ∈ cycle, e.1.InCycle := allCalls_runOne.of_runs hcycle
  have hend : (cycle.foldl (next db) s).Over := hafter _ (Contract.steps_monitor.2 rfl)
  obtain ⟨before, after, rfl⟩ := List.append_of_mem hfetched
  obtain ⟨t₁, ht₁, t₂, hfetch, ht₂⟩ := answered_append.1 ht
  obtain ⟨hbefore, hrest⟩ := Contract.obeys_append.1 hobeys
  obtain ⟨-, hrest⟩ := Contract.obeys_cons.1 (hrest _ (Contract.steps_monitor.2 rfl))
  have hway : OnTheWay db names feed t₀ (before.foldl (next db) s) t₁ := by
    refine answered_invariant hbefore ht₁ ⟨hpartly, ?_⟩ fun e he s t t' h hmay ht => ?_
    · rcases hover with rfl | ⟨e, rfl⟩ <;> exact List.nil_subset _
    · exact onTheWay_next hreads h hmay (.of_delivers (hdelivers e (List.mem_append_left _ he))) ht
  have hsettling : Settling db names feed t₀ (next db (before.foldl (next db) s) ⟨.decodeChanges, .ok feed⟩) t₂ := by
    obtain rfl : t₂ = t₁ := hfetch
    exact settling_start hway.1
  have hsettled : Settling db names feed t₀
      (after.foldl (next db) (next db (before.foldl (next db) s) ⟨.decodeChanges, .ok feed⟩)) t' := by
    refine answered_invariant (hrest _ rfl) ht₂ hsettling fun e he s t t' h hmay ht => ?_
    have hmem := List.mem_append_right before (List.mem_cons_of_mem (⟨.decodeChanges, .ok feed⟩ : Event Reply) he)
    exact settling_next hreads h hmay (hcalls e hmem) (hdelivers e hmem) ht
  refine hsettled.eq hkeys ?_
  rw [List.foldl_append, List.foldl_cons] at hend
  rcases hend with hend | ⟨e, hend⟩ <;> rw [hend] <;> rfl

variable (x db feed base) in
/-- Runs of the service on the table one after the other, each ended or killed, in which the broker has sent only
changes of the feed. -/
inductive Worked : Sql.Table → Sql.Table → Prop
  | none {t : Sql.Table} : Worked t t
  | run {t t₁ t' : Sql.Table} {config : Config} {sess : Session} {first cut last tr : Trace} {cycles : List Trace}
    (hmode : config.agent.mode = .db) (hdb : config.db = some db)
    (h : ServiceRun x (runDb x) config sess first cycles cut last)
    (hpart : tr <+: first ++ (cycles.flatten ++ (cut ++ last))) (ht : Answered base t tr t₁)
    (hfeed : ∀ e ∈ tr, FromFeed feed e) (hrest : Worked t₁ t') : Worked t t'

theorem partly_of_answered {tr : Trace} (hreads : db.connector.Reads base names)
    (hobeys : (contract x db server).Obeys .resting tr) (ht : Answered base t tr t')
    (hpartly : db.connector.Partly names feed t₀ t) (hfeed : ∀ e ∈ tr, FromFeed feed e) :
    db.connector.Partly names feed t₀ t' := by
  have hway : OnTheWay db names feed t₀ (tr.foldl (next db) .resting) t' :=
    answered_invariant hobeys ht ⟨hpartly, List.nil_subset _⟩ fun e he _ _ _ hs hmay hanswer =>
      onTheWay_next hreads hs hmay (hfeed e he) hanswer
  exact hway.1

theorem Worked.partly (h : Worked x db feed base t t') (hreads : db.connector.Reads base names)
    (ht : db.connector.Partly names feed t₀ t) :
    db.connector.Partly names feed t₀ t' := by
  induction h with
  | none => exact ht
  | run hmode hdb h hpart hanswered hfeed hrest ih =>
    obtain ⟨rest, heq⟩ := hpart
    have hobeys := obeys_of_service hmode hdb h
    rw [← heq] at hobeys
    exact ih (partly_of_answered hreads (Contract.obeys_append.1 hobeys).1 hanswered ht hfeed)

end Exchange

theorem LoopRun.runs {x : Externals} {runDb : RunDb} {config : Config} {sess : Session} {cycles : List Trace}
    {cut : Trace} (h : LoopRun x runDb config sess cycles cut) :
    ∀ tr ∈ cycles, (runOne x runDb config sess).Runs tr () := by
  induction h with
  | cut =>
    intro tr htr
    cases htr
  | cycle h _ ih => exact List.forall_mem_cons.2 ⟨h, ih⟩

/-- After any runs of the service in which it has been sent changes of a feed, the table has only taken changes of the
feed; and a cycle that then gets through the whole feed makes of it what one pass over the feed would have made at
first. -/
theorem feed_settles {x : Externals} {db : DbSection} {base : Sql.Engine} {names : Sql.Conventions}
    (hreads : db.connector.Reads base names) {feed : List WritebackChange} {t₀ t : Sql.Table}
    (hkeys : ∀ change ∈ feed, db.connector.KeepsKey names t₀ change)
    (hworked : Exchange.Worked x db feed base t₀ t) : db.connector.Partly names feed t₀ t ∧
    ∀ (config : Config) (sess : Session) (first cut last : Trace) (before after : List Trace) (cycle : Trace)
      (t₁ t' : Sql.Table), config.agent.mode = .db → config.db = some db →
      ServiceRun x (runDb x) config sess first (before ++ cycle :: after) cut last →
      Answered base t (first ++ before.flatten) t₁ → Answered base t₁ cycle t' →
      (∀ e ∈ first ++ before.flatten, Exchange.FromFeed feed e) → (∀ e ∈ cycle, Exchange.Delivers feed e) →
      (⟨.decodeChanges, .ok feed⟩ : Event Reply) ∈ cycle → t' = db.connector.putAll names feed t₀ := by
  have hpartly : db.connector.Partly names feed t₀ t := hworked.partly hreads (.refl ..)
  refine ⟨hpartly, ?_⟩
  intro config sess first cut last before after cycle t₁ t' hmode hdb h hbefore hcycle hfeed hdelivers hfetched
  have hobeys := Exchange.obeys_of_service hmode hdb h
  have hsplit : first ++ ((before ++ cycle :: after).flatten ++ (cut ++ last)) =
      (first ++ before.flatten) ++ (cycle ++ after.flatten ++ (cut ++ last)) := by
    simp [List.append_assoc]
  rw [hsplit] at hobeys
  have hover : ((first ++ before.flatten).foldl (Exchange.next db) .resting).Over := by
    rw [List.foldl_append]
    refine Exchange.over_cycles hmode hdb (fun tr htr => h.loop.runs tr (List.mem_append_left _ htr)) ?_
    have hstart : (start x config).run.wp (Exchange.contract x db sess.server) (fun _ s => s.Over) .resting :=
      Exchange.wp_start
    exact (hstart.of_runs h.start).2 _ (Contract.steps_monitor.2 rfl)
  exact Exchange.settles hmode hdb hreads hkeys (h.loop.runs cycle (by simp)) hover
    (Exchange.partly_of_answered hreads (Contract.obeys_append.1 hobeys).1 hbefore hpartly hfeed) hcycle hdelivers
    hfetched

/-! ### A table of employees -/

theorem keepsKey_titleChange : DbConnector.employees.KeepsKey .folding DbConnector.staff titleChange :=
  fun _ _ hcol hv => absurd hv (DbConnector.lookup_assigned_hunter hcol)

/-- The calls that leave the table, whatever is answered. -/
def Call.Elsewhere : Call → Prop
  | .dbExecute .. | .dbFetch _ => False
  | _ => True

theorem answered_elsewhere {base : Sql.Engine} {t : Sql.Table} {tr : Trace} (h : ∀ e ∈ tr, e.1.Elsewhere) :
    Answered base t tr t := by
  induction tr with
  | nil => rfl
  | cons e tr ih =>
    obtain ⟨he, htr⟩ := List.forall_mem_cons.1 h
    obtain ⟨c, r⟩ := e
    refine ⟨t, ?_, ih htr⟩
    cases c <;> first | exact he.elim | rfl

/-- The database of the employees. -/
def staffBase : Sql.Engine := Sql.engine .folding .dollar

/-- The table after the change. -/
def titled : Sql.Table := DbConnector.employees.put .folding titleChange DbConnector.staff

theorem answered_staffFetched {t : Sql.Table} (hname : t.name = "employees")
    (hcolumns : t.columns = ["email", "employee_id", "title"]) : Answered staffBase t (staffFetched t) t := by
  have hcols : DbConnector.employees.columns.mapM (Sql.Conventions.folding.column t.columns) =
      some DbConnector.employees.columns := by
    rw [hcolumns]
    decide
  have htable : Sql.Conventions.folding.isTable DbConnector.employees.table t.name = true := by
    rw [hname]
    decide
  have hquery : staffBase.query DbConnector.employees.selectSql t = some (staffRows t) := by
    have hbase : staffBase.query = Sql.query .folding .dollar := rfl
    rw [hbase, DbConnector.selectSql_eq, Sql.query_selectText _ _ (by decide) DbConnector.employees_plain.columns,
      if_pos (.inr rfl), Sql.Conventions.select, if_pos htable, hcols]
    rfl
  refine ⟨t, rfl, t, ⟨rfl, staffRows t, hquery, .refl _⟩, answered_elsewhere ?_⟩
  refine List.forall_mem_append.2 ⟨List.forall_mem_nil _, List.forall_mem_append.2 ⟨?_, by simp [Call.Elsewhere]⟩⟩
  exact List.forall_mem_map.2 fun _ _ => trivial

theorem answer_titleSet {t : Sql.Table} (hname : t.name = "employees")
    (hcolumns : t.columns = ["email", "employee_id", "title"])
    (hcount : t.count (Sql.Conventions.folding.has "employee_id" "7") = 1) :
    Answer staffBase t titleSet (DbConnector.employees.put .folding titleChange t) := by
  have hkey : DbConnector.employees.keyIn .folding t = some "employee_id" := by
    rw [DbConnector.keyIn, hcolumns]
    decide
  have hread : Sql.Conventions.folding.read DbConnector.employees.table
      (DbConnector.employees.writable titleChange.fields) DbConnector.employees.keyColumn t =
        some ([("title", "Hunter")], "employee_id") := by
    rw [writable_titleChange, Sql.Conventions.read, hcolumns, hname]
    decide
  have hassigned : DbConnector.employees.assigned .folding t titleChange.fields = [("title", "Hunter")] := by
    rw [DbConnector.assigned, hread]
    rfl
  have hexecute := (DbConnector.reads_engine DbConnector.employees_plain .folding).execute
    (by rw [writable_titleChange]; simp) titleChange.key t
  refine hexecute.trans (DbConnector.update_eq_some.2 ⟨_, hkey, ?_, DbConnector.put_eq hkey _, hcount.symm⟩)
  rw [hread, hassigned]

theorem delivers_staffCycle (t : Sql.Table) : ∀ e ∈ staffCycle t, Exchange.Delivers [titleChange] e := by
  simp only [staffCycle, staffPass, staffFetched, List.forall_mem_append]
  refine ⟨by simp [greeting, Exchange.Delivers], ⟨⟨by simp [Exchange.Delivers], ?_, by simp [Exchange.Delivers]⟩, ?_⟩,
    ?_⟩
  · exact List.forall_mem_map.2 fun _ _ => trivial
  · simp [titleSet, DbConnector.updateCall, Exchange.Delivers]
  · simp [parting, Exchange.Delivers]

theorem answered_staffStart (t : Sql.Table) : Answered staffBase t staffStart t :=
  answered_elsewhere (by simp [staffStart, Call.Elsewhere])

theorem answered_greeting (t : Sql.Table) : Answered staffBase t (greeting staffConfig hrSession) t :=
  answered_elsewhere (by simp [greeting, Call.Elsewhere])

theorem fromFeed_staffStart : ∀ e ∈ staffStart, Exchange.FromFeed [titleChange] e := by
  simp [staffStart, Exchange.FromFeed]

/-- A run that is killed after the change is applied and before it is recorded. -/
def staffInterrupted : Trace :=
  staffStart ++ (greeting staffConfig hrSession ++ (staffFetched DbConnector.staff ++ [titleSet]))

theorem staffInterrupted_prefix :
    staffInterrupted <+: staffStart ++ ([staffCycle DbConnector.staff].flatten ++ ([] ++ staffStop)) :=
  ⟨⟨.append "DB_WRITEBACK" (DbMode.writebackDetail "employees" 1), .ok ()⟩ ::
    (parting staffConfig hrSession [] (staffCounters DbConnector.staff) ++ staffStop),
    by simp [staffInterrupted, staffCycle, staffPass]⟩

theorem answered_staffInterrupted : Answered staffBase DbConnector.staff staffInterrupted titled := by
  refine Exchange.answered_append.2 ⟨_, answered_staffStart _, Exchange.answered_append.2 ⟨_, answered_greeting _, ?_⟩⟩
  refine Exchange.answered_append.2 ⟨_, answered_staffFetched rfl rfl, answered_singleton.2 ?_⟩
  exact answer_titleSet rfl rfl (by decide)

theorem fromFeed_staffInterrupted : ∀ e ∈ staffInterrupted, Exchange.FromFeed [titleChange] e := by
  refine List.forall_mem_append.2 ⟨fromFeed_staffStart, fun e he => ?_⟩
  refine .of_delivers (delivers_staffCycle DbConnector.staff e ?_)
  rcases List.mem_append.1 he with he | he
  · exact List.mem_append_left _ he
  · rw [staffCycle, staffPass]
    rcases List.mem_append.1 he with he | he
    · simp [he]
    · simp [List.mem_singleton.1 he]

theorem worked_staff : Exchange.Worked .sampled staffMode.db [titleChange] staffBase DbConnector.staff titled :=
  .run rfl rfl (serviceRun_staff readStrings _) staffInterrupted_prefix answered_staffInterrupted
    fromFeed_staffInterrupted .none

theorem answered_staffCycle :
    Answered staffBase titled (staffCycle titled) (DbConnector.employees.put .folding titleChange titled) := by
  refine Exchange.answered_append.2 ⟨_, answered_greeting _, Exchange.answered_append.2 ⟨_, ?_, answered_elsewhere ?_⟩⟩
  · refine Exchange.answered_append.2 ⟨_, answered_staffFetched rfl rfl, _, answer_titleSet rfl rfl (by decide), ?_⟩
    exact answered_elsewhere (by simp [Call.Elsewhere])
  · simp [parting, Call.Elsewhere]

/-- The change is sent again to the table that it has changed. -/
theorem feed_settles_staff :
    ServiceRun .sampled (runDb .sampled) staffConfig hrSession staffStart [staffCycle DbConnector.staff] [] staffStop ∧
    ServiceRun .sampled (runDb .sampled) staffConfig hrSession staffStart [staffCycle titled] [] staffStop ∧
    Exchange.Worked .sampled staffMode.db [titleChange] staffBase DbConnector.staff titled ∧
    Answered staffBase titled (staffCycle titled) (DbConnector.employees.put .folding titleChange titled) ∧
    DbConnector.employees.put .folding titleChange titled =
      DbConnector.employees.putAll .folding [titleChange] DbConnector.staff := by
  have hreads : staffMode.db.connector.Reads staffBase .folding :=
    DbConnector.reads_engine DbConnector.employees_plain .folding
  have hkeys : ∀ change ∈ [titleChange], staffMode.db.connector.KeepsKey .folding DbConnector.staff change :=
    List.forall_mem_singleton.2 keepsKey_titleChange
  refine ⟨serviceRun_staff readStrings _, serviceRun_staff readStrings _, worked_staff, answered_staffCycle, ?_⟩
  refine (feed_settles hreads hkeys worked_staff).2 staffConfig hrSession _ _ _ [] [] _ titled _ rfl rfl
    (serviceRun_staff readStrings titled) ?_ answered_staffCycle ?_ (delivers_staffCycle _) ?_
  · rw [List.flatten_nil, List.append_nil]
    exact answered_staffStart _
  · rw [List.flatten_nil, List.append_nil]
    exact fromFeed_staffStart
  · simp [staffCycle, staffPass, staffFetched]

end NexusAgent
