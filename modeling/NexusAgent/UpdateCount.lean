import Mathlib.Data.List.Dedup
import NexusAgent.Accounts
import NexusAgent.Batch

/-!
# How many attributes an update replaces

The mode counts the entries of the attribute map, the connector sends those that it does not leave out.
`updated_told_iff`: the number told to the broker and to the log is that of the attributes replaced on the account
exactly if every entry is sent and no two of them are for one attribute.
-/

namespace NexusAgent
open Text

def Mod.attr : Mod → String
  | .replace attr _ => attr

/-- The names of the attributes that an event replaces on the entry `dn`. -/
def Event.replaced (dn : String) : Event Reply → List String
  | ⟨.modify _ dn' mods, .ok ()⟩ => if dn' = dn then mods.map Mod.attr else []
  | _ => []

/-- How many attributes are replaced on the entry `dn`; `attrOf` says which one a name is for. -/
def replacedCount {κ : Type} [DecidableEq κ] (attrOf : String → κ) (dn : String) (tr : Trace) : Nat :=
  ((tr.flatMap (Event.replaced dn)).map attrOf).dedup.length

theorem length_dedup_map_filter {α κ : Type} [DecidableEq κ] (p : α → Bool) (f : α → κ) (l : List α) :
    ((l.filter p).map f).dedup.length = l.length ↔ (∀ a ∈ l, p a) ∧ (l.map f).Nodup := by
  have hdedup := (List.dedup_sublist ((l.filter p).map f)).length_le
  have hfilter := List.length_filter_le p l
  rw [List.length_map] at hdedup
  constructor
  · intro h
    have hall : ∀ a ∈ l, p a := List.length_filter_eq_length_iff.1 (by omega)
    refine ⟨hall, ?_⟩
    rw [List.filter_eq_self.2 hall] at h hdedup
    rw [← List.dedup_eq_self]
    exact (List.dedup_sublist _).eq_of_length (by rw [h, List.length_map])
  · rintro ⟨hall, hnodup⟩
    rw [List.filter_eq_self.2 hall, hnodup.dedup, List.length_map]

namespace AdMode

/-- The result of an update. -/
def updateResult (dn : String) (updated : Nat) : Json := .obj [("dn", .str dn), ("updated", .ofNat updated)]

/-- The broker and the log are told how many attributes the events `tr` replace on the account. -/
def UpdatedTold {κ : Type} [DecidableEq κ] (attrOf : String → κ) (x : Externals) (m : AdMode) (op : Operation)
    (tr told : Trace) : Prop :=
  ∃ dn reply ans, told = [⟨.send m.server (.complete op.id true
      (some (x.valueText (updateResult dn (replacedCount attrOf dn tr)))) none), reply⟩,
    ⟨.append "AD_OP_OK" (okDetail op (updateResult dn (replacedCount attrOf dn tr))), ans⟩]

/-- Every entry of the attribute map is sent, and for another attribute. -/
def AllSent {κ : Type} (attrOf : String → κ) (x : Externals) (op : Operation) : Prop :=
  ∀ attrs, parseAttrs x op.attributesJson = .ok attrs →
    (∀ e ∈ attrs.entries, e.1 ≠ "distinguishedName" ∧ e.2 ≠ "") ∧ (attrs.entries.map fun e => attrOf e.1).Nodup

variable {x : Externals} {m : AdMode} {op : Operation} {conn defaultLdap : LdapConnector} {conns conns' : Conns}
  {tr told : Trace} {detail : Json} {dn : String}

theorem attr_updateMods (attrs : SortedMap String String) : (LdapConnector.updateMods attrs).map Mod.attr =
    (attrs.entries.filter fun (k, v) => k != "distinguishedName" && !v.isEmpty).map (·.1) := by
  rw [LdapConnector.updateMods, List.map_map]
  rfl

/-- What an update that succeeds returns, and what it replaces. -/
theorem replaced_of_process (htype : op.opType = "UPDATE_ATTRIBUTES")
    (h : (m.process x op conn).run.Runs tr (.ok detail)) :
    ∃ attrs dn, parseAttrs x op.attributesJson = .ok attrs ∧ detail = updateResult dn attrs.entries.length ∧
      tr.flatMap (Event.replaced dn) = (LdapConnector.updateMods attrs).map Mod.attr := by
  simp only [process, htype] at h
  rcases hattrs : parseAttrs x op.attributesJson with e | attrs
  · rw [hattrs] at h
    cases h.2
  rw [hattrs, liftResult_ok_bind] at h
  rcases hemail : AdMode.email op with e | email
  · rw [hemail] at h
    cases h.2
  rw [hemail, liftResult_ok_bind, LdapConnector.updateAttributes, bind_assoc] at h
  rcases Prog.runs_bindE.1 h with ⟨e, -, he⟩ | ⟨tr₁, tr₂, dn, rfl, hfind, hrest⟩
  · cases he
  obtain ⟨reply, rfl, -⟩ := LdapConnector.runs_findDn.1 hfind
  refine ⟨attrs, dn, rfl, ?_⟩
  rw [List.flatMap_append]
  by_cases hne : LdapConnector.updateMods attrs ≠ []
  · simp only [if_pos hne, bind_assoc] at hrest
    obtain ⟨answer, tr', rfl, hlast⟩ := runs_ask.1 hrest
    rcases answer with e | e | _
    · cases hlast.2
    · cases hlast.2
    · obtain ⟨rfl, hres⟩ := hlast
      cases hres
      refine ⟨rfl, ?_⟩
      show [] ++ ((if dn = dn then (LdapConnector.updateMods attrs).map Mod.attr else []) ++ []) = _
      rw [if_pos rfl, List.nil_append, List.append_nil]
  · simp only [if_neg hne] at hrest
    obtain ⟨rfl, hres⟩ := hrest
    cases hres
    rw [not_not.1 hne]
    exact ⟨rfl, rfl⟩

theorem replaced_of_processOn (htype : op.opType = "UPDATE_ATTRIBUTES")
    (h : (m.processOn x op conn).run.Runs tr (.ok detail)) :
    ∃ attrs dn, parseAttrs x op.attributesJson = .ok attrs ∧ detail = updateResult dn attrs.entries.length ∧
      tr.flatMap (Event.replaced dn) = (LdapConnector.updateMods attrs).map Mod.attr := by
  obtain ⟨_, tr', rfl, hprocess⟩ := runs_ask.1 h
  obtain ⟨attrs, dn, hattrs, hdetail, hreplaced⟩ := replaced_of_process htype hprocess
  refine ⟨attrs, dn, hattrs, hdetail, ?_⟩
  rw [List.flatMap_cons, hreplaced]
  rfl

/-- To bind a connection replaces nothing. -/
theorem replaced_binding (h : ∀ e ∈ tr, e.1.Binding) : tr.flatMap (Event.replaced dn) = [] := by
  rw [List.flatMap_eq_nil_iff]
  intro e he
  have hbinding := h e he
  unfold Event.replaced
  split
  · exact hbinding.elim
  · rfl

theorem replaced_of_route (htype : op.opType = "UPDATE_ATTRIBUTES")
    (h : Route x m op defaultLdap conns tr (.ok detail) conns') :
    ∃ attrs dn, parseAttrs x op.attributesJson = .ok attrs ∧ detail = updateResult dn attrs.entries.length ∧
      tr.flatMap (Event.replaced dn) = (LdapConnector.updateMods attrs).map Mod.attr := by
  cases h with
  | default _ hrun => exact replaced_of_processOn htype hrun
  | cached _ _ _ hrun => exact replaced_of_processOn htype hrun
  | opened _ _ _ hopen hrun =>
    obtain ⟨attrs, dn, hattrs, hdetail, hreplaced⟩ := replaced_of_processOn htype hrun
    refine ⟨attrs, dn, hattrs, hdetail, ?_⟩
    rw [List.flatMap_append, replaced_binding ((LdapConnector.allCalls_connectForest ..).of_runs hopen), hreplaced]
    rfl

theorem updateResult_injective {dn dn' : String} {n n' : Nat} (h : updateResult dn n = updateResult dn' n') :
    dn = dn' ∧ n = n' := by
  simp only [updateResult, Json.ofNat, Json.obj.injEq] at h
  cases h
  exact ⟨rfl, rfl⟩

/-- After an update that succeeds, the number that the broker and the log are told is that of the attributes replaced
on the account exactly if every entry of the map is sent, and no two are for one attribute. -/
theorem updated_told_iff {κ : Type} [DecidableEq κ] (attrOf : String → κ) (x : Externals) (m : AdMode)
    (op : Operation) (defaultLdap : LdapConnector) (conns conns' : Conns) (tr told : Trace) (detail : Json)
    (res : Except AgentError Unit) (htype : op.opType = "UPDATE_ATTRIBUTES")
    (h : (m.routeAndProcess x op defaultLdap conns).Runs tr (.ok detail, conns'))
    (htold : (m.report x op (.ok detail)).run.Runs told res) :
    UpdatedTold attrOf x m op tr told ↔ AllSent attrOf x op := by
  obtain ⟨attrs, dn, hattrs, rfl, hreplaced⟩ := replaced_of_route htype (runs_routeAndProcess.1 h)
  obtain ⟨reply, rfl⟩ := runs_report.1 htold
  have hcount : replacedCount attrOf dn tr = attrs.entries.length ↔ AllSent attrOf x op := by
    rw [replacedCount, hreplaced, attr_updateMods, List.map_map]
    refine (length_dedup_map_filter _ _ _).trans ?_
    unfold AllSent
    rw [hattrs]
    simp only [Except.ok.injEq, forall_eq', Bool.and_eq_true, bne_iff_ne, Bool.not_eq_true',
      String.isEmpty_eq_false_iff]
    rfl
  rw [← hcount]
  constructor
  · rintro ⟨dn', reply', ans', heq⟩
    have hcalls := congrArg (List.map Sigma.fst) heq
    simp only [record, okDetail, List.map_cons, List.cons.injEq, Call.append.injEq, Json.obj.injEq, Prod.mk.injEq,
      true_and, and_true] at hcalls
    obtain ⟨rfl, hupdated⟩ := updateResult_injective hcalls.2
    exact hupdated.symm
  · intro heq
    exact ⟨dn, reply, res, by rw [heq]; rfl⟩

/-! ### One entry -/

/-- An update of one attribute of the account of a mover. -/
def updateMover (k v : String) : Operation :=
  ⟨"7", "UPDATE_ATTRIBUTES", "9", some "mover@corp", some (stringsText (.insert .empty k v)), none, none, none, none⟩

def moverFound (k v : String) : Trace :=
  [⟨.routed (updateMover k v) corpConn, ()⟩,
    ⟨corpConn.findCall "mover@corp", .ok [⟨"CN=Mover,DC=corp", [("mail", ["mover@corp"])]⟩]⟩]

theorem parseAttrs_updateMover (k v : String) :
    parseAttrs corp (updateMover k v).attributesJson = .ok (.insert .empty k v) :=
  parseAttrs_stringsText rfl _

/-- Nothing is sent for the DN. -/
theorem runs_moved :
    (corpMode.routeAndProcess corp (updateMover "distinguishedName" "CN=Moved,DC=corp") corpConn []).Runs
    (moverFound "distinguishedName" "CN=Moved,DC=corp") (.ok (updateResult "CN=Mover,DC=corp" 1), []) := by
  refine runs_routeAndProcess.2 (.default rfl ⟨(), _, rfl, ?_⟩)
  have htype : (updateMover "distinguishedName" "CN=Moved,DC=corp").opType = "UPDATE_ATTRIBUTES" := rfl
  simp only [process, htype, parseAttrs_updateMover, liftResult_ok_bind]
  exact ⟨.ok [⟨"CN=Mover,DC=corp", [("mail", ["mover@corp"])]⟩], _, rfl, rfl, rfl⟩

/-- The event by which the mover gets a new surname. -/
def moverRenamed : Event Reply :=
  ⟨.modify corpConn.ldap "CN=Mover,DC=corp" [.replace "sn" [utf8 "Moved"]], .ok ()⟩

theorem runs_renamed : (corpMode.routeAndProcess corp (updateMover "sn" "Moved") corpConn []).Runs
    (moverFound "sn" "Moved" ++ [moverRenamed]) (.ok (updateResult "CN=Mover,DC=corp" 1), []) := by
  refine runs_routeAndProcess.2 (.default rfl ⟨(), _, rfl, ?_⟩)
  have htype : (updateMover "sn" "Moved").opType = "UPDATE_ATTRIBUTES" := rfl
  simp only [process, htype, parseAttrs_updateMover, liftResult_ok_bind]
  exact ⟨.ok [⟨"CN=Mover,DC=corp", [("mail", ["mover@corp"])]⟩], _, rfl, .ok (), _, rfl, rfl, rfl⟩

/-- What the broker and the log are told of an update of the mover: one attribute. -/
def moverTold (op : Operation) : Trace :=
  [⟨.send corpMode.server (.complete op.id true (some (corp.valueText (updateResult "CN=Mover,DC=corp" 1))) none),
      .ok ⟨200, "OK"⟩⟩,
    ⟨.append "AD_OP_OK" (okDetail op (updateResult "CN=Mover,DC=corp" 1)), .ok ()⟩]

/-- The update of a DN is told as one attribute replaced, and none is. -/
theorem update_not_made :
    (corpMode.routeAndProcess corp (updateMover "distinguishedName" "CN=Moved,DC=corp") corpConn []).Runs
      (moverFound "distinguishedName" "CN=Moved,DC=corp") (.ok (updateResult "CN=Mover,DC=corp" 1), []) ∧
    (corpMode.report corp (updateMover "distinguishedName" "CN=Moved,DC=corp")
      (.ok (updateResult "CN=Mover,DC=corp" 1))).run.Runs
        (moverTold (updateMover "distinguishedName" "CN=Moved,DC=corp")) (.ok ()) ∧
    (∀ dn, replacedCount Schema.folding.attrOf dn (moverFound "distinguishedName" "CN=Moved,DC=corp") = 0) ∧
    ¬ UpdatedTold Schema.folding.attrOf corp corpMode (updateMover "distinguishedName" "CN=Moved,DC=corp")
      (moverFound "distinguishedName" "CN=Moved,DC=corp")
      (moverTold (updateMover "distinguishedName" "CN=Moved,DC=corp")) := by
  have hnone (dn : String) :
      replacedCount Schema.folding.attrOf dn (moverFound "distinguishedName" "CN=Moved,DC=corp") = 0 := by
    simp [replacedCount, moverFound, Event.replaced, LdapConnector.findCall]
  refine ⟨runs_moved, runs_report.2 ⟨.ok ⟨200, "OK"⟩, rfl⟩, hnone, ?_⟩
  rintro ⟨dn, reply, ans, heq⟩
  have hcalls := congrArg (List.map Sigma.fst) heq
  simp only [moverTold, okDetail, List.map_cons, List.cons.injEq, Call.append.injEq, Json.obj.injEq, Prod.mk.injEq,
    true_and, and_true] at hcalls
  obtain ⟨-, hcount⟩ := updateResult_injective hcalls.2
  rw [hnone] at hcount
  exact absurd hcount one_ne_zero

/-- The new surname is told as one attribute replaced, and it is. -/
theorem updated_told_iff_renamed : UpdatedTold Schema.folding.attrOf corp corpMode (updateMover "sn" "Moved")
    (moverFound "sn" "Moved" ++ [moverRenamed]) (moverTold (updateMover "sn" "Moved")) := by
  refine (updated_told_iff Schema.folding.attrOf corp corpMode (updateMover "sn" "Moved") corpConn [] [] _ _ _ (.ok ())
    rfl runs_renamed (runs_report.2 ⟨.ok ⟨200, "OK"⟩, rfl⟩)).2 ?_
  intro attrs hattrs
  obtain rfl := Except.ok.inj ((parseAttrs_updateMover ..).symm.trans hattrs)
  exact ⟨List.forall_mem_singleton.2 ⟨by decide, by decide⟩, List.nodup_singleton _⟩

end AdMode

end NexusAgent
