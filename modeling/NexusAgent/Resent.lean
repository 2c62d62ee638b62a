import NexusAgent.Accounts
import NexusAgent.BatchOrder
import NexusAgent.Cycle
import NexusAgent.FoundAccount
import NexusAgent.Lib.Overwrite
import NexusAgent.Redelivery
import NexusAgent.Verdicts

/-!
# Operations that are sent again

The broker may send a batch again when the agent was dropped or could not tell it what has become of it.
`operations_settle`: however often and however far the agent has come with a batch without creations, over any number
of runs, a cycle that gets through it leaves the accounts as one pass over it would have left them at first.
-/

namespace NexusAgent
open Text

/-! ### Accounts that are modified -/

section
variable {α : Type} [DecidableEq α] (schema : Schema α)

/-- What replacements give an attribute, if they name it; the last one counts. -/
def given : List Mod → α → Option (List Bytes)
  | [], _ => none
  | .replace attr values :: mods, a => (given mods a).or (if schema.attrOf attr = a then some values else none)

def applyMods (mods : List Mod) (vals : Attrs α) : Attrs α := mods.foldl (Attrs.apply schema) vals

variable {schema} in
theorem applyMods_eq (mods : List Mod) (vals : Attrs α) (a : α) :
    applyMods schema mods vals a = (given schema mods a).getD (vals a) := by
  induction mods generalizing vals with
  | nil => rfl
  | cons mod mods ih =>
    obtain ⟨attr, values⟩ := mod
    show applyMods schema mods (Function.update vals (schema.attrOf attr) values) a = _
    rw [ih, given]
    rcases given schema mods a with _ | v
    · by_cases ha : schema.attrOf attr = a
      · rw [if_pos ha, ← ha]
        exact Function.update_self ..
      · rw [if_neg ha]
        exact Function.update_of_ne (Ne.symm ha) ..
    · rfl

variable {κ : Type} [DecidableEq κ]

/-- An account, and what it is to be given. -/
abbrev Modification (κ : Type) := κ × List Mod

def modifyEntry (i : Modification κ) (d : Directories κ α) : Directories κ α :=
  Function.update d i.1 ((d i.1).map (applyMods schema i.2))

/-- Both entries are missing, or both are there and have the same but for what the replacements name. -/
def SameApart (mods : List Mod) : Option (Attrs α) → Option (Attrs α) → Prop
  | none, none => True
  | some vals, some vals' => ∀ a, given schema mods a = none → vals a = vals' a
  | _, _ => False

/-- The directories differ at most in what the modification sets. -/
def AgreeApart (i : Modification κ) (d d' : Directories κ α) : Prop :=
  (∀ k, k ≠ i.1 → d k = d' k) ∧ SameApart schema i.2 (d i.1) (d' i.1)

variable {schema}

theorem sameApart_apply (mods : List Mod) (o : Option (Attrs α)) :
    SameApart schema mods (o.map (applyMods schema mods)) o := by
  rcases o with _ | vals
  · trivial
  · intro a ha
    rw [applyMods_eq, ha]
    rfl

theorem SameApart.apply {mods : List Mod} {o o' : Option (Attrs α)} (h : SameApart schema mods o o')
    (mods' : List Mod) :
    SameApart schema mods (o.map (applyMods schema mods')) (o'.map (applyMods schema mods')) := by
  rcases o with _ | vals <;> rcases o' with _ | vals' <;> try exact h
  intro a ha
  rw [applyMods_eq, applyMods_eq, h a ha]

theorem SameApart.settle {mods : List Mod} {o o' : Option (Attrs α)} (h : SameApart schema mods o o') :
    o.map (applyMods schema mods) = o'.map (applyMods schema mods) := by
  rcases o with _ | vals <;> rcases o' with _ | vals'
  · rfl
  · exact h.elim
  · exact h.elim
  · refine congrArg some (funext fun a => ?_)
    rw [applyMods_eq, applyMods_eq]
    rcases ha : given schema mods a with _ | values
    · exact h a ha
    · rfl

theorem modifyEntry_self (i : Modification κ) (d : Directories κ α) :
    modifyEntry schema i d i.1 = (d i.1).map (applyMods schema i.2) := Function.update_self ..

theorem modifyEntry_of_ne {i : Modification κ} {k : κ} (hk : k ≠ i.1) (d : Directories κ α) :
    modifyEntry schema i d k = d k := Function.update_of_ne hk ..

theorem overwriting_modifyEntry : Overwriting (fun _ : Modification κ => True) (modifyEntry schema)
    (AgreeApart schema) where
  own i d _ := ⟨fun k hk => modifyEntry_of_ne hk d, by rw [modifyEntry_self]; exact sameApart_apply i.2 _⟩
  keep := by
    rintro i j d d' - ⟨hothers, hself⟩
    constructor
    · intro k hk
      by_cases hj : k = j.1
      · rw [hj, modifyEntry_self, modifyEntry_self, hothers _ (hj ▸ hk)]
      · rw [modifyEntry_of_ne hj, modifyEntry_of_ne hj, hothers k hk]
    · by_cases hj : i.1 = j.1
      · rw [hj, modifyEntry_self, modifyEntry_self, ← hj]
        exact hself.apply j.2
      · rw [modifyEntry_of_ne hj, modifyEntry_of_ne hj]
        exact hself
  settle := by
    rintro i d d' ⟨hothers, hself⟩
    funext k
    by_cases hk : k = i.1
    · rw [hk, modifyEntry_self, modifyEntry_self]
      exact hself.settle
    · rw [modifyEntry_of_ne hk, modifyEntry_of_ne hk, hothers k hk]

theorem modifyEntry_nil (k : κ) (d : Directories κ α) : modifyEntry schema (k, []) d = d := by
  funext j
  by_cases hj : j = k
  · subst hj
    rw [modifyEntry_self]
    rcases d j with _ | vals <;> rfl
  · exact modifyEntry_of_ne hj d

end

/-! ### What an operation asks for -/

namespace Effort

variable {x : Externals} {cipher : Cipher} {op : Operation} {conn : LdapConnector} {events : Trace} {result : Json}
  {ldap : Ldap} {dn : String} {mods : List Mod}

/-- An operation on an account is done with its search and the modification of the account that is found first, if
there is something to modify. -/
theorem Done.modifies (h : Done x cipher op conn events result) (htype : op.opType ∈ modifying) :
    ∃ email found rest, events = ⟨conn.findCall email, .ok (found :: rest)⟩ ::
      if AdMode.mods x op = [] then [] else [⟨.modify conn.ldap found.dn (AdMode.mods x op), .ok ()⟩] := by
  cases h with
  | created h => exact absurd (h ▸ htype) (by decide)
  | createdWithPassword h => exact absurd (h ▸ htype) (by decide)
  | @enabled email entry entries h =>
    refine ⟨email, entry, entries, ?_⟩
    rw [AdMode.mods, h]
    rfl
  | @disabled email entry entries h =>
    refine ⟨email, entry, entries, ?_⟩
    rw [AdMode.mods, h]
    rfl
  | @updated attrs email entry entries h hattrs hemail hmods =>
    refine ⟨email, entry, entries, ?_⟩
    rw [AdMode.mods_update h, hattrs]
    exact congrArg _ (if_neg hmods).symm
  | @unchanged attrs email entry entries h hattrs hemail hmods =>
    refine ⟨email, entry, entries, ?_⟩
    rw [AdMode.mods_update h, hattrs]
    exact congrArg _ (if_pos hmods).symm
  | tested entries h => exact absurd (h ▸ htype) (by decide)
  | synced entries h => exact absurd (h ▸ htype) (by decide)

theorem Done.reads (h : Done x cipher op conn events result) (htype : op.opType ∉ modifying)
    (hcreate : op.opType ≠ "CREATE_ACCOUNT") :
    ∃ base scope filter attrs entries, events = [⟨.search conn.ldap base scope filter attrs, .ok entries⟩] := by
  cases h with
  | created h => exact absurd h hcreate
  | createdWithPassword h => exact absurd h hcreate
  | enabled _ _ h => exact absurd (by rw [h]; decide) htype
  | disabled _ _ h => exact absurd (by rw [h]; decide) htype
  | updated _ _ h => exact absurd (by rw [h]; decide) htype
  | unchanged _ _ h => exact absurd (by rw [h]; decide) htype
  | tested entries => exact ⟨_, _, _, _, entries, rfl⟩
  | synced entries => exact ⟨_, _, _, _, entries, rfl⟩

/-- The events of an operation that creates nothing: a search, and perhaps a modification after it. -/
theorem Done.shape (h : Done x cipher op conn events result) (hcreate : op.opType ≠ "CREATE_ACCOUNT") :
    ∃ base scope filter attrs entries, events = [⟨.search conn.ldap base scope filter attrs, .ok entries⟩] ∨
      ∃ found rest, entries = found :: rest ∧ op.opType ∈ modifying ∧
        events = [⟨.search conn.ldap base scope filter attrs, .ok entries⟩,
          ⟨.modify conn.ldap found.dn (AdMode.mods x op), .ok ()⟩] := by
  by_cases htype : op.opType ∈ modifying
  · obtain ⟨email, found, rest, rfl⟩ := h.modifies htype
    refine ⟨conn.baseDn, .subtree, LdapConnector.findFilter email, ["distinguishedName"], found :: rest, ?_⟩
    split
    · exact .inl rfl
    · exact .inr ⟨found, rest, rfl, htype, rfl⟩
  · obtain ⟨base, scope, filter, attrs, entries, rfl⟩ := h.reads htype hcreate
    exact ⟨_, _, _, _, _, .inl rfl⟩

theorem Leads.modified (h : Leads x cipher op conn events (.modify ldap dn mods))
    (hcreate : op.opType ≠ "CREATE_ACCOUNT") :
    ∃ base scope filter attrs found rest,
      events = [⟨.search conn.ldap base scope filter attrs, .ok (found :: rest)⟩] ∧
        Call.modify ldap dn mods = .modify conn.ldap found.dn (AdMode.mods x op) ∧ op.opType ∈ modifying := by
  obtain ⟨answer, rest, result, hdone⟩ := h
  obtain ⟨base, scope, filter, attrs, entries, heq | ⟨found, others, rfl, htype, heq⟩⟩ := hdone.shape hcreate
  · rcases events with _ | ⟨e, events⟩
    · cases heq
    · simp at heq
  · rcases events with _ | ⟨e, _ | ⟨e', events⟩⟩
    · cases heq
    · cases heq
      exact ⟨_, _, _, _, _, _, rfl, rfl, htype⟩
    · simp at heq

theorem Leads.first {base filter : String} {scope : Scope} {attrs : List String}
    (h : Leads x cipher op conn events (.search ldap base scope filter attrs))
    (hcreate : op.opType ≠ "CREATE_ACCOUNT") : events = [] := by
  obtain ⟨answer, rest, result, hdone⟩ := h
  obtain ⟨base', scope', filter', attrs', entries, heq | ⟨found, others, rfl, htype, heq⟩⟩ := hdone.shape hcreate
  · rcases events with _ | ⟨e, events⟩
    · rfl
    · simp at heq
  · rcases events with _ | ⟨e, _ | ⟨e', events⟩⟩
    · rfl
    · cases heq
    · simp at heq

theorem Leads.creates {attrs : List (String × List String)} (h : Leads x cipher op conn events (.add ldap dn attrs)) :
    op.opType = "CREATE_ACCOUNT" := by
  by_contra hcreate
  obtain ⟨answer, rest, result, hdone⟩ := h
  have hmem : (⟨.add ldap dn attrs, answer⟩ : Event Reply) ∈ events ++ ⟨.add ldap dn attrs, answer⟩ :: rest := by simp
  obtain ⟨base, scope, filter, attrs', entries, heq | ⟨found, others, rfl, htype, heq⟩⟩ := hdone.shape hcreate
  · rw [heq] at hmem
    cases List.mem_singleton.1 hmem
  · rw [heq] at hmem
    rcases List.mem_pair.1 hmem with hmem | hmem <;> cases hmem

end Effort

/-! ### A batch on the accounts -/

namespace Resent

section
variable {κ α : Type} [DecidableEq κ] [DecidableEq α] (schema : Schema α) (x : Externals) (entry : Ldap → String → κ)
  (account : Operation → κ)

/-- What an operation makes of its account. -/
def target (op : Operation) : Option (Modification κ) :=
  if op.opType ∈ modifying then some (account op, AdMode.mods x op) else none

/-- The operations carried out one after the other. -/
def applyBatch (ops : List Operation) (d : Directories κ α) : Directories κ α :=
  Overwriting.run (modifyEntry schema) (ops.filterMap (target x account)) d

/-- Some of the operations have been carried out, in whatever order and however often. -/
def Partly (ops : List Operation) (d₀ d : Directories κ α) : Prop :=
  ∃ done, done ⊆ ops ∧ d = applyBatch schema x account done d₀

/-- The account that a search finds first for an operation is the one the operation is for. -/
def Finds (s : Effort) : Event Reply → Prop
  | ⟨.search ldap _ _ _ _, .ok (found :: _)⟩ =>
    ∀ op, s.op = some op → op.opType ∈ modifying → entry ldap found.dn = account op
  | _ => True

/-- The directories that a trace can lead to. -/
def Served : Effort → Directories κ α → Trace → Directories κ α → Prop
  | _, d, [], d' => d' = d
  | s, d, e :: tr, d' => Finds entry account s e ∧ ∃ d₁, Change schema entry d e d₁ ∧ Served (s.next e) d₁ tr d'

variable {schema x entry account} {ops : List Operation} {op : Operation} {d₀ d d' : Directories κ α}

theorem Partly.refl (schema : Schema α) (x : Externals) (account : Operation → κ) (ops : List Operation)
    (d : Directories κ α) :
    Partly schema x account ops d d := ⟨[], List.nil_subset _, rfl⟩

theorem applyBatch_append (before after : List Operation) (d : Directories κ α) :
    applyBatch schema x account (before ++ after) d =
      applyBatch schema x account after (applyBatch schema x account before d) := by
  rw [applyBatch, List.filterMap_append]
  exact Overwriting.run_append ..

theorem applyBatch_cons (htype : op.opType ∈ modifying) (ops : List Operation) (d : Directories κ α) :
    applyBatch schema x account (op :: ops) d =
      applyBatch schema x account ops (modifyEntry schema (account op, AdMode.mods x op) d) := by
  rw [applyBatch, List.filterMap_cons, target, if_pos htype]
  rfl

/-- An operation that has nothing to modify. -/
theorem applyBatch_idle (h : op.opType ∈ modifying → AdMode.mods x op = []) (ops : List Operation)
    (d : Directories κ α) : applyBatch schema x account (op :: ops) d = applyBatch schema x account ops d := by
  by_cases htype : op.opType ∈ modifying
  · rw [applyBatch_cons htype, h htype, modifyEntry_nil]
  · rw [applyBatch, List.filterMap_cons, target, if_neg htype]
    rfl

theorem Partly.step (h : Partly schema x account ops d₀ d) (hop : op ∈ ops) (htype : op.opType ∈ modifying) :
    Partly schema x account ops d₀ (modifyEntry schema (account op, AdMode.mods x op) d) := by
  obtain ⟨done, hdone, rfl⟩ := h
  refine ⟨done ++ [op], ?_, ?_⟩
  · exact List.append_subset.2 ⟨hdone, fun op' hop' => List.mem_singleton.1 hop' ▸ hop⟩
  · rw [applyBatch_append, applyBatch_cons htype]
    rfl

/-- What has been done of the batch before does not matter when the batch is done. -/
theorem Partly.absorb (h : Partly schema x account ops d₀ d) :
    applyBatch schema x account ops d = applyBatch schema x account ops d₀ := by
  obtain ⟨done, hdone, rfl⟩ := h
  refine overwriting_modifyEntry.run_absorb (fun _ _ => trivial) (fun i hi => ?_) d₀
  obtain ⟨op, hop, htarget⟩ := List.mem_filterMap.1 hi
  exact List.mem_filterMap.2 ⟨op, hdone hop, htarget⟩

theorem served_append {s : Effort} {tr tr' : Trace} : Served schema entry account s d (tr ++ tr') d' ↔
    ∃ d₁, Served schema entry account s d tr d₁ ∧ Served schema entry account (tr.foldl Effort.next s) d₁ tr' d' := by
  induction tr generalizing s d with
  | nil =>
    constructor
    · intro h
      exact ⟨d, rfl, h⟩
    · rintro ⟨_, rfl, h⟩
      exact h
  | cons e tr ih =>
    constructor
    · rintro ⟨hfinds, d₁, he, h⟩
      obtain ⟨d₂, h₁, h₂⟩ := ih.1 h
      exact ⟨d₂, ⟨hfinds, d₁, he, h₁⟩, h₂⟩
    · rintro ⟨d₂, ⟨hfinds, d₁, he, h₁⟩, h₂⟩
      exact ⟨hfinds, d₁, he, ih.2 ⟨d₂, h₁, h₂⟩⟩

/-- What each step of a trace preserves, of the batch, of the operation at hand and of the directories. -/
theorem served_invariant {cipher : Cipher} {I : Progress → Effort → Directories κ α → Prop} {p : Progress} {s : Effort}
    {tr : Trace} (hp : (Progress.contract x).Obeys p tr) (hs : (Effort.contract x cipher).Obeys s tr)
    (hd : Served schema entry account s d tr d') (h : I p s d)
    (hstep : ∀ e ∈ tr, ∀ p s d d', I p s d → Progress.May x p e.1 → Effort.May x cipher s e.1 →
      Finds entry account s e → Change schema entry d e d' → I (p.next e) (s.next e) d') :
    I (tr.foldl Progress.next p) (tr.foldl Effort.next s) d' := by
  induction tr generalizing p s d with
  | nil =>
    obtain rfl : d' = d := hd
    exact h
  | cons e tr ih =>
    obtain ⟨hfinds, d₁, he, hd⟩ := hd
    obtain ⟨hmayp, hp⟩ := Contract.obeys_cons.1 hp
    obtain ⟨hmays, hs⟩ := Contract.obeys_cons.1 hs
    refine ih (hp _ rfl) (hs _ rfl) hd ?_ fun e' he' => hstep e' (List.mem_cons_of_mem e he')
    exact hstep e (List.mem_cons_self ..) p s d d₁ h hmayp hmays hfinds he

/-! ### Operations of a batch -/

/-- The operations that the broker sends are operations of the batch. -/
def FromBatch (ops : List Operation) : Event Reply → Prop
  | ⟨.decodeOperations, .ok ops'⟩ => ops' ⊆ ops
  | _ => True

variable (schema x entry account) in
/-- Only operations of the batch come up and have been carried out, and what was found for the one at hand is its
account. -/
structure OnTheWay (ops : List Operation) (d₀ : Directories κ α) (p : Progress) (s : Effort) (d : Directories κ α) :
    Prop where
  queue : p.queue ⊆ ops
  op : ∀ op, s.op = some op → op ∈ ops
  found : ∀ e ∈ s.events, Finds entry account s e
  partly : Partly schema x account ops d₀ d

variable {cipher : Cipher} {p : Progress} {s : Effort} {e : Event Reply}

theorem eq_modifyEntry {ldap : Ldap} {dn : String} {mods : List Mod}
    (h : Effect schema entry d (.modify ldap dn mods) d') : d' = modifyEntry schema (entry ldap dn, mods) d := by
  obtain ⟨vals, hvals, rfl⟩ := h
  rw [modifyEntry, hvals]
  rfl

/-- A modification comes after the search for the account, and is that of the operation at hand. -/
theorem OnTheWay.modify {ldap : Ldap} {dn : String} {mods : List Mod} {reply : LdapReply Unit}
    (hops : ∀ op ∈ ops, op.opType ≠ "CREATE_ACCOUNT") (h : OnTheWay schema x entry account ops d₀ p s d)
    (hmay : Effort.May x cipher s (.modify ldap dn mods))
    (hchange : Change schema entry d ⟨.modify ldap dn mods, reply⟩ d') :
    ∃ op, s.op = some op ∧ op.opType ∈ modifying ∧ (∃ e, s.events = [e] ∧ ¬ e.1.Writing) ∧
      (d' = modifyEntry schema (account op, AdMode.mods x op) d ∨ reply ≠ .ok () ∧ d' = d) := by
  obtain ⟨op, conn, hop, hconn, hleads⟩ := hmay
  obtain ⟨base, scope, filter, attrs, found, rest, hevents, hcall, htype⟩ := hleads.modified (hops op (h.op op hop))
  cases hcall
  have hfound : entry conn.ldap found.dn = account op := by
    have hfinds := h.found _ (hevents ▸ List.mem_singleton_self _)
    exact hfinds op hop htype
  refine ⟨op, hop, htype, ⟨_, hevents, id⟩, ?_⟩
  rw [← hfound]
  rcases reply with err | err | _
  · rcases hchange with rfl | heff
    · exact .inr ⟨nofun, rfl⟩
    · exact .inl (eq_modifyEntry heff)
  · exact .inr ⟨nofun, hchange⟩
  · exact .inl (eq_modifyEntry hchange)

theorem onTheWay_next (hops : ∀ op ∈ ops, op.opType ≠ "CREATE_ACCOUNT")
    (h : OnTheWay schema x entry account ops d₀ p s d)
    (hp : Progress.May x p e.1) (hs : Effort.May x cipher s e.1) (hfinds : Finds entry account s e)
    (hchange : Change schema entry d e d') (hbatch : FromBatch ops e) :
    OnTheWay schema x entry account ops d₀ (p.next e) (s.next e) d' := by
  obtain ⟨c, reply⟩ := e
  cases c with
  | add ldap dn attrs =>
    obtain ⟨op, conn, hop, -, hleads⟩ := hs
    exact absurd hleads.creates (hops op (h.op op hop))
  | modify ldap dn mods =>
    obtain ⟨op, hop, htype, -, hd⟩ := h.modify hops hs hchange
    refine ⟨h.queue, h.op, List.forall_mem_append.2 ⟨h.found, List.forall_mem_singleton.2 trivial⟩, ?_⟩
    rcases hd with rfl | ⟨-, rfl⟩
    · exact h.partly.step (h.op op hop) htype
    · exact h.partly
  | search ldap base scope filter attrs =>
    obtain rfl : d' = d := hchange
    exact ⟨h.queue, h.op, List.forall_mem_append.2 ⟨h.found, List.forall_mem_singleton.2 hfinds⟩, h.partly⟩
  | started op =>
    obtain rfl : d' = d := hchange
    obtain ⟨-, hhead⟩ := hp
    refine ⟨fun o ho => h.queue (List.mem_of_mem_tail ho), ?_, by simp [Effort.next], h.partly⟩
    rintro _ ⟨⟩
    exact h.queue (List.mem_of_head? hhead)
  | decodeOperations =>
    obtain rfl : d' = d := hchange
    rcases reply with err | ops'
    · exact ⟨h.queue, h.op, h.found, h.partly⟩
    · exact ⟨hbatch, h.op, h.found, h.partly⟩
  | append event detail =>
    obtain rfl : d' = d := hchange
    refine ⟨?_, h.op, h.found, h.partly⟩
    show (if _ then (if _ then _ else _) else if _ then _ else _ : Progress).queue ⊆ ops
    split_ifs <;> first | exact h.queue | exact List.nil_subset _
  | send client request =>
    obtain rfl : d' = d := hchange
    refine ⟨?_, h.op, h.found, h.partly⟩
    cases request with
    | complete opId success resultJson error =>
      unfold Progress.next
      dsimp only
      split <;> exact h.queue
    | disconnect => exact List.nil_subset _
    | _ => exact h.queue
  | _ =>
    obtain rfl : d' = d := hchange
    exact ⟨h.queue, h.op, h.found, h.partly⟩

/-! ### A cycle that gets through the batch -/

/-- The broker sends the batch and is told of each operation that it is done, and the pass does not fail. -/
def Delivers (ops : List Operation) : Event Reply → Prop
  | ⟨.decodeOperations, .ok ops'⟩ => ops' = ops
  | ⟨.send _ (.complete _ success _ _), _⟩ => success = true
  | ⟨.append event _, _⟩ => event ≠ "RUN_ERROR"
  | _ => True

theorem FromBatch.of_delivers (h : Delivers ops e) : FromBatch ops e := by
  unfold FromBatch
  split
  · obtain rfl : _ = ops := h
    exact List.Subset.refl _
  · trivial

variable (schema x entry account) in
/-- Once the batch is there: what is still to be done of it leads from the directories to where the batch would have
led at first. -/
structure Settling (cipher : Cipher) (ops : List Operation) (d₀ : Directories κ α) (p : Progress) (s : Effort)
    (d : Directories κ α) : Prop extends OnTheWay schema x entry account ops d₀ p s d where
  same : ∀ op, p.stage = .working op → s.op = some op
  waiting : (∀ op, p.stage ≠ .working op) → applyBatch schema x account p.queue d = applyBatch schema x account ops d₀
  begun : ∀ op, p.stage = .working op → (∀ e ∈ s.events, ¬ e.1.Writing) →
    applyBatch schema x account (op :: p.queue) d = applyBatch schema x account ops d₀
  done : ∀ op, p.stage = .working op → ∀ conn result, Effort.Done x cipher op conn s.events result →
    applyBatch schema x account p.queue d = applyBatch schema x account ops d₀

theorem settling_start (h : OnTheWay schema x entry account ops d₀ ⟨ops, .waiting⟩ s d) :
    Settling schema x entry account cipher ops d₀ ⟨ops, .waiting⟩ s d where
  toOnTheWay := h
  same := nofun
  waiting _ := h.partly.absorb
  begun := nofun
  done := nofun

theorem settling_modify {ldap : Ldap} {dn : String} {mods : List Mod} {reply : LdapReply Unit}
    (hops : ∀ op ∈ ops, op.opType ≠ "CREATE_ACCOUNT") (h : Settling schema x entry account cipher ops d₀ p s d)
    (hp : Progress.May x p (.modify ldap dn mods)) (hs : Effort.May x cipher s (.modify ldap dn mods))
    (hchange : Change schema entry d ⟨.modify ldap dn mods, reply⟩ d')
    (hway : OnTheWay schema x entry account ops d₀ p (s.next ⟨.modify ldap dn mods, reply⟩) d') :
    Settling schema x entry account cipher ops d₀ p (s.next ⟨.modify ldap dn mods, reply⟩) d' := by
  obtain ⟨op, hstage⟩ := hp
  obtain ⟨op', hop', htype, ⟨e, hevents, hread⟩, hd⟩ := h.modify hops hs hchange
  obtain rfl : op = op' := Option.some.inj ((h.same op hstage).symm.trans hop')
  have hevents' : (s.next ⟨.modify ldap dn mods, reply⟩).events = [e, ⟨.modify ldap dn mods, reply⟩] :=
    congrArg (· ++ [(⟨.modify ldap dn mods, reply⟩ : Event Reply)]) hevents
  refine ⟨hway, h.same, fun hwait => absurd hstage (hwait op), fun op' hstage' hwrite => ?_,
    fun op' hstage' conn result hdone => ?_⟩
  · exact absurd trivial (hwrite ⟨.modify ldap dn mods, reply⟩ (by rw [hevents']; simp))
  · obtain rfl : op = op' := Stage.working.inj (hstage.symm.trans hstage')
    have hok : reply = .ok () := by
      rw [hevents'] at hdone
      obtain ⟨_, _, _, _, _, heq | ⟨_, _, _, _, heq⟩⟩ := hdone.shape (hops op (h.op op hop'))
      · simp at heq
      · cases heq
        rfl
    rcases hd with rfl | ⟨hne, -⟩
    · rw [← applyBatch_cons htype]
      refine h.begun op hstage ?_
      rw [hevents]
      exact List.forall_mem_singleton.2 hread
    · exact absurd hok hne

theorem settling_search {ldap : Ldap} {base filter : String} {scope : Scope} {attrs : List String}
    {reply : LdapReply (List SearchEntry)} (hops : ∀ op ∈ ops, op.opType ≠ "CREATE_ACCOUNT")
    (h : Settling schema x entry account cipher ops d₀ p s d)
    (hp : Progress.May x p (.search ldap base scope filter attrs))
    (hs : Effort.May x cipher s (.search ldap base scope filter attrs))
    (hway : OnTheWay schema x entry account ops d₀ p (s.next ⟨.search ldap base scope filter attrs, reply⟩) d) :
    Settling schema x entry account cipher ops d₀ p (s.next ⟨.search ldap base scope filter attrs, reply⟩) d := by
  obtain ⟨op, hstage⟩ := hp
  obtain ⟨op', conn', hop', -, hleads⟩ := hs
  obtain rfl : op = op' := Option.some.inj ((h.same op hstage).symm.trans hop')
  have hcreate := hops op (h.op op hop')
  have hevents : s.events = [] := hleads.first hcreate
  have hbegun : applyBatch schema x account (op :: p.queue) d = applyBatch schema x account ops d₀ :=
    h.begun op hstage (by simp [hevents])
  have hevents' : (s.next ⟨.search ldap base scope filter attrs, reply⟩).events =
      [⟨.search ldap base scope filter attrs, reply⟩] :=
    congrArg (· ++ [(⟨.search ldap base scope filter attrs, reply⟩ : Event Reply)]) hevents
  refine ⟨hway, h.same, fun hwait => absurd hstage (hwait op), fun op' hstage' _ => ?_,
    fun op' hstage' conn result hdone => ?_⟩
  · obtain rfl : op = op' := Stage.working.inj (hstage.symm.trans hstage')
    exact hbegun
  · obtain rfl : op = op' := Stage.working.inj (hstage.symm.trans hstage')
    refine (applyBatch_idle (fun htype => ?_) p.queue d).symm.trans hbegun
    rw [hevents'] at hdone
    obtain ⟨email, found, rest, heq⟩ := hdone.modifies htype
    by_contra hmods
    rw [if_neg hmods] at heq
    cases heq

/-- A record ends an operation that the broker has been told of. -/
theorem next_append {event : String} {detail : Json} (reply : Except AgentError Unit)
    (hp : Progress.May x p (.append event detail)) (hevent : event ≠ "RUN_ERROR") :
    p.next ⟨.append event detail, reply⟩ = p ∨
      (∀ op, p.stage ≠ .working op) ∧ p.next ⟨.append event detail, reply⟩ = { p with stage := .waiting } := by
  have hnext : p.next ⟨.append event detail, reply⟩ = if event ∈ ["AD_OP_OK", "AD_OP_FAIL"] then
      (if reply.isOk then { p with stage := .waiting } else p) else if event = "RUN_ERROR" then {} else p := rfl
  rw [hnext, if_neg hevent]
  by_cases hrecord : event ∈ ["AD_OP_OK", "AD_OP_FAIL"]
  · have hmay : p.MayRecord x event detail := by
      have hp' : (if event ∈ ["AD_OP_OK", "AD_OP_FAIL"] then p.MayRecord x event detail
        else event = "SYNC_SUMMARY" → p = {}) := hp
      rwa [if_pos hrecord] at hp'
    rw [if_pos hrecord]
    split
    · refine .inr ⟨fun op hstage => ?_, rfl⟩
      rcases hmay with ⟨-, _, _, -, htold⟩ | ⟨-, _, _, -, htold⟩ <;> cases hstage.symm.trans htold
    · exact .inl rfl
  · rw [if_neg hrecord]
    exact .inl rfl

theorem settling_next (hops : ∀ op ∈ ops, op.opType ≠ "CREATE_ACCOUNT")
    (h : Settling schema x entry account cipher ops d₀ p s d) (hp : Progress.May x p e.1)
    (hs : Effort.May x cipher s e.1)
    (hfinds : Finds entry account s e) (hchange : Change schema entry d e d') (hcycle : e.1.InCycle)
    (hdelivers : Delivers ops e) : Settling schema x entry account cipher ops d₀ (p.next e) (s.next e) d' := by
  have hway := onTheWay_next hops h.toOnTheWay hp hs hfinds hchange (.of_delivers hdelivers)
  obtain ⟨c, reply⟩ := e
  cases c with
  | add ldap dn attrs =>
    obtain ⟨op, conn, hop, -, hleads⟩ := hs
    exact absurd hleads.creates (hops op (h.op op hop))
  | modify ldap dn mods => exact settling_modify hops h hp hs hchange hway
  | search ldap base scope filter attrs =>
    obtain rfl : d' = d := hchange
    exact settling_search hops h hp hs hway
  | started op =>
    obtain rfl : d' = d := hchange
    obtain ⟨hstage, hhead⟩ := hp
    obtain ⟨queue, hqueue⟩ := List.head?_eq_some_iff.1 hhead
    have hwaiting := h.waiting (by rw [hstage]; nofun)
    refine ⟨hway, ?_, fun hwait => absurd rfl (hwait op), ?_, ?_⟩
    · rintro _ ⟨⟩
      rfl
    · rintro _ ⟨⟩ -
      show applyBatch schema x account (op :: p.queue.tail) _ = _
      rw [← hwaiting, hqueue]
      rfl
    · rintro _ ⟨⟩ conn result hdone
      obtain ⟨_, _, _, _, _, heq | ⟨_, _, _, _, heq⟩⟩ := hdone.shape (hops op (hway.op op rfl)) <;> cases heq
  | decodeOperations =>
    obtain rfl : d' = d := hchange
    obtain rfl : p = {} := hp
    rcases reply with err | ops'
    · exact ⟨hway, h.same, h.waiting, h.begun, h.done⟩
    · obtain rfl : ops' = ops := hdelivers
      exact settling_start hway
  | append event detail =>
    obtain rfl : d' = d := hchange
    rcases next_append reply hp hdelivers with hnext | ⟨hstage, hnext⟩
    · rw [hnext] at hway ⊢
      exact ⟨hway, h.same, h.waiting, h.begun, h.done⟩
    · rw [hnext] at hway ⊢
      exact ⟨hway, nofun, fun _ => h.waiting hstage, nofun, nofun⟩
  | send client request =>
    obtain rfl : d' = d := hchange
    cases request with
    | complete opId success resultJson error =>
      obtain ⟨⟨op, hstage, -⟩, -⟩ := hp
      obtain ⟨op', r, hop', -, hearned, hsuccess, -⟩ := hs
      obtain rfl : op = op' := Option.some.inj ((h.same op hstage).symm.trans hop')
      have hnext : p.next ⟨.send client (.complete opId success resultJson error), reply⟩ =
          { p with stage := .told op resultJson error } := by
        unfold Progress.next
        dsimp only
        rw [hstage]
      rw [hnext] at hway ⊢
      refine ⟨hway, nofun, fun _ => ?_, nofun, nofun⟩
      rcases r with err | result
      · obtain rfl : success = true := hdelivers
        cases hsuccess
      · obtain ⟨conn, -, hdone⟩ := hearned
        exact h.done op hstage conn result hdone
    | disconnect => rcases hcycle with h | h | h <;> exact h.elim
    | _ => exact ⟨hway, h.same, h.waiting, h.begun, h.done⟩
  | _ =>
    obtain rfl : d' = d := hchange
    exact ⟨hway, h.same, h.waiting, h.begun, h.done⟩

/-! ### Runs -/

variable {config : Config} {sess : Session}

theorem idle_cycles {cycles : List Trace} (h : ∀ tr ∈ cycles, (runOne x (runDb x) config sess).Runs tr ()) :
    cycles.flatten.foldl Progress.next {} = {} := by
  induction cycles with
  | nil => rfl
  | cons tr cycles ih =>
    obtain ⟨htr, hcycles⟩ := List.forall_mem_cons.1 h
    have hidle : tr.foldl Progress.next {} = {} := (Progress.wp_runOne.of_runs htr).2 _ (Contract.steps_monitor.2 rfl)
    rw [List.flatten_cons, List.foldl_append, hidle, ih hcycles]

theorem onTheWay_of_served {tr : Trace} (hops : ∀ op ∈ ops, op.opType ≠ "CREATE_ACCOUNT")
    (hp : (Progress.contract x).Obeys p tr) (hs : (Effort.contract x cipher).Obeys s tr)
    (hd : Served schema entry account s d tr d') (h : OnTheWay schema x entry account ops d₀ p s d)
    (hbatch : ∀ e ∈ tr, FromBatch ops e) :
    OnTheWay schema x entry account ops d₀ (tr.foldl Progress.next p) (tr.foldl Effort.next s) d' :=
  served_invariant hp hs hd h fun e he _ _ _ _ h hp hs hfinds hchange =>
    onTheWay_next hops h hp hs hfinds hchange (hbatch e he)

/-- The cycle gets through the batch. -/
theorem settles {cycle : Trace} (hops : ∀ op ∈ ops, op.opType ≠ "CREATE_ACCOUNT")
    (hcycle : (runOne x (runDb x) config sess).Runs cycle ()) (hs : (Effort.contract x cipher).Obeys s cycle)
    (hd : Served schema entry account s d cycle d') (h : OnTheWay schema x entry account ops d₀ {} s d)
    (hdelivers : ∀ e ∈ cycle, Delivers ops e) (hfetched : (⟨.decodeOperations, .ok ops⟩ : Event Reply) ∈ cycle) :
    d' = applyBatch schema x account ops d₀ := by
  obtain ⟨hp, hafter⟩ := Progress.wp_runOne.of_runs hcycle
  have hend : cycle.foldl Progress.next {} = {} := hafter _ (Contract.steps_monitor.2 rfl)
  have hcalls : ∀ e ∈ cycle, e.1.InCycle := allCalls_runOne.of_runs hcycle
  obtain ⟨before, after, rfl⟩ := List.append_of_mem hfetched
  obtain ⟨d₁, hd₁, -, d₂, hfetch, hd₂⟩ := served_append.1 hd
  obtain rfl : d₂ = d₁ := hfetch
  obtain ⟨hpbefore, hprest⟩ := Contract.obeys_append.1 hp
  obtain ⟨hsbefore, hsrest⟩ := Contract.obeys_append.1 hs
  obtain ⟨-, hprest⟩ := Contract.obeys_cons.1 (hprest _ (Contract.steps_monitor.2 rfl))
  obtain ⟨-, hsrest⟩ := Contract.obeys_cons.1 (hsrest _ (Contract.steps_monitor.2 rfl))
  have hway := onTheWay_of_served hops hpbefore hsbefore hd₁ h fun e he =>
    .of_delivers (hdelivers e (List.mem_append_left _ he))
  have hstart : OnTheWay schema x entry account ops d₀ ⟨ops, .waiting⟩ (before.foldl Effort.next s) d₂ :=
    ⟨List.Subset.refl _, hway.op, hway.found, hway.partly⟩
  have hsettled := served_invariant (hprest _ rfl) (hsrest _ rfl) hd₂ (settling_start hstart)
    fun e he p s d d' h hp hs hfinds hchange => by
      have hmem := List.mem_append_right before (List.mem_cons_of_mem (⟨.decodeOperations, .ok ops⟩ : Event Reply) he)
      exact settling_next hops h hp hs hfinds hchange (hcalls e hmem) (hdelivers e hmem)
  rw [List.foldl_append, List.foldl_cons] at hend
  have hwaiting := hsettled.waiting (by rw [show _ = _ from hend]; nofun)
  rwa [show _ = _ from hend] at hwaiting

variable (schema x entry account ops) in
/-- Runs of the service one after the other, each ended or killed, in which the broker has sent only operations of the
batch. -/
inductive Worked : Directories κ α → Directories κ α → Prop
  | none {d : Directories κ α} : Worked d d
  | run {d d₁ d' : Directories κ α} {config : Config} {sess : Session} {first cut last tr : Trace} {cycles : List Trace}
    (h : ServiceRun x (runDb x) config sess first cycles cut last)
    (hpart : tr <+: first ++ (cycles.flatten ++ (cut ++ last))) (hserved : Served schema entry account {} d tr d₁)
    (hbatch : ∀ e ∈ tr, FromBatch ops e) (hrest : Worked d₁ d') : Worked d d'

theorem Worked.partly (h : Worked schema x entry account ops d d') (hops : ∀ op ∈ ops, op.opType ≠ "CREATE_ACCOUNT")
    (hd : Partly schema x account ops d₀ d) : Partly schema x account ops d₀ d' := by
  induction h with
  | none => exact hd
  | run h hpart hserved hbatch hrest ih =>
    obtain ⟨rest, heq⟩ := hpart
    have hp := Progress.obeys_of_service h
    have hs := Effort.obeys_of_service h
    rw [← heq] at hp hs
    have hbegin : OnTheWay schema x entry account ops d₀ {} {} _ := ⟨List.nil_subset _, nofun, by simp, hd⟩
    have hway := onTheWay_of_served hops (Contract.obeys_append.1 hp).1 (Contract.obeys_append.1 hs).1 hserved hbegin
      hbatch
    exact ih hway.partly

end

end Resent

/-- After any runs of the service in which it has been sent operations of a batch without creations, the accounts have
only taken modifications of the batch; and a cycle that then gets through the whole batch leaves them as one pass over
it would have left them at first. -/
theorem operations_settle {κ α : Type} [DecidableEq κ] [DecidableEq α] {schema : Schema α} {x : Externals}
    {entry : Ldap → String → κ} {account : Operation → κ} {ops : List Operation}
    (hops : ∀ op ∈ ops, op.opType ≠ "CREATE_ACCOUNT") {d₀ d : Directories κ α}
    (hworked : Resent.Worked schema x entry account ops d₀ d) :
    Resent.Partly schema x account ops d₀ d ∧
    ∀ (config : Config) (sess : Session) (first cut last : Trace) (before after : List Trace) (cycle : Trace)
      (d' : Directories κ α), ServiceRun x (runDb x) config sess first (before ++ cycle :: after) cut last →
      Resent.Served schema entry account {} d (first ++ before.flatten ++ cycle) d' →
      (∀ e ∈ first ++ before.flatten, Resent.FromBatch ops e) → (∀ e ∈ cycle, Resent.Delivers ops e) →
      (⟨.decodeOperations, .ok ops⟩ : Event Reply) ∈ cycle → d' = Resent.applyBatch schema x account ops d₀ := by
  have hpartly : Resent.Partly schema x account ops d₀ d := hworked.partly hops (.refl ..)
  refine ⟨hpartly, ?_⟩
  intro config sess first cut last before after cycle d' h hserved hbatch hdelivers hfetched
  have hp := Progress.obeys_of_service h
  have hs := Effort.obeys_of_service h
  have hsplit : first ++ ((before ++ cycle :: after).flatten ++ (cut ++ last)) =
      (first ++ before.flatten) ++ (cycle ++ (after.flatten ++ (cut ++ last))) := by
    simp [List.append_assoc]
  rw [hsplit] at hp hs
  obtain ⟨d₁, hbefore, hcycle⟩ := Resent.served_append.1 hserved
  obtain ⟨hpbefore, -⟩ := Contract.obeys_append.1 hp
  obtain ⟨hsbefore, hsrest⟩ := Contract.obeys_append.1 hs
  have hbegin : Resent.OnTheWay schema x entry account ops d₀ {} {} d := ⟨List.nil_subset _, nofun, by simp, hpartly⟩
  have hway := Resent.onTheWay_of_served hops hpbefore hsbefore hbefore hbegin hbatch
  have hidle : (first ++ before.flatten).foldl Progress.next {} = {} := by
    have hfirst : first.foldl Progress.next {} = {} :=
      (Progress.wp_start.of_runs h.start).2 _ (Contract.steps_monitor.2 rfl)
    rw [List.foldl_append, hfirst]
    exact Resent.idle_cycles fun tr htr => h.loop.runs tr (List.mem_append_left _ htr)
  rw [hidle] at hway
  have hscycle := (Contract.obeys_append.1 (hsrest _ (Contract.steps_monitor.2 rfl))).1
  exact Resent.settles hops (h.loop.runs cycle (by simp)) hscycle hcycle hway hdelivers hfetched

/-! ### A leaver -/

/-- The account is disabled. -/
def disableIn : Directories String (List Char) → Directories String (List Char) :=
  modifyEntry Schema.folding ("CN=Leaver,DC=corp", AdMode.mods corp disableLeaver)

/-- Calls that neither search nor write leave the directories. -/
theorem served_aside {κ α : Type} [DecidableEq κ] [DecidableEq α] {schema : Schema α} {entry : Ldap → String → κ}
    {account : Operation → κ} {s : Effort} {d : Directories κ α} {tr : Trace} (h : ∀ e ∈ tr, Effort.Aside e.1) :
    Resent.Served schema entry account s d tr d := by
  induction tr generalizing s with
  | nil => rfl
  | cons e tr ih =>
    obtain ⟨he, htr⟩ := List.forall_mem_cons.1 h
    obtain ⟨c, reply⟩ := e
    refine ⟨?_, d, ?_, ih htr⟩
    · cases c <;> first | exact he.elim | trivial
    · cases c <;> first | exact he.elim | rfl

/-- A cycle that gets through the one operation. -/
def leaverCycle : Trace := disablingCycle corp "pw" corpConfig corpSession mode_corp

theorem serviceRun_leaver :
    ServiceRun corp (runDb corp) corpConfig corpSession corpStart [leaverCycle] [] corpStop where
  start := runs_corpStart
  loop := .cycle (runs_disablingCycle _ rfl rfl rfl) (.cut (.inl ⟨trivial, .inl rfl⟩))
  stop := (serviceRun_corp (runDb corp)).stop

/-- The cycle up to its operation. -/
def leaverPolled : Trace := greeting corpConfig corpSession ++ (corpOpened ++ polled corpSession [disableLeaver])

/-- The cycle after the account is disabled. -/
def leaverTold : Trace :=
  let done : Except AgentError Json := .ok (.obj [("dn", .str "CN=Leaver,DC=corp"), ("state", .str "disabled")])
  ⟨.send corpMode.server (AdMode.completion corp disableLeaver done), .ok ⟨200, "OK"⟩⟩ ::
    ⟨.append (AdMode.record disableLeaver done).1 (AdMode.record disableLeaver done).2, .ok ()⟩ ::
      parting corpConfig corpSession [corpConn] { inspected := 1, disabled := 1 }

theorem corpDropped_eq : corpDropped = leaverPolled ++ (⟨.started disableLeaver, ()⟩ :: leaverDisabled corpConn) := by
  simp [corpDropped, leaverPolled]

theorem leaverCycle_eq :
    leaverCycle = leaverPolled ++ ((⟨.started disableLeaver, ()⟩ :: leaverDisabled corpConn) ++ leaverTold) := by
  have hopened : corpMode.binding "pw" = corpOpened := rfl
  have hconn : corpMode.bound "pw" = corpConn := rfl
  change greeting corpConfig corpSession ++ (corpMode.binding "pw" ++ (polled corpSession [disableLeaver] ++
    ((corpMode.disabling corp (corpMode.bound "pw") ++ []) ++
      parting corpConfig corpSession [corpMode.bound "pw"] { inspected := 1, disabled := 1 }))) = _
  simp [hopened, hconn, AdMode.disabling, AdMode.opTrace, leaverPolled, leaverTold]

section
variable {s : Effort} {d : Directories String (List Char)} {vals : Attrs (List Char)}

theorem served_corpStart :
    Resent.Served Schema.folding (fun _ dn => dn) (fun _ => "CN=Leaver,DC=corp") s d corpStart d :=
  served_aside (by simp [corpStart, Effort.Aside])

/-- Up to the search nothing changes. -/
theorem served_leaverPolled :
    Resent.Served Schema.folding (fun _ dn => dn) (fun _ => "CN=Leaver,DC=corp") s d leaverPolled d :=
  served_aside (by simp [leaverPolled, greeting, corpOpened, polled, Effort.Aside])

theorem served_leaverDisabled (hd : d "CN=Leaver,DC=corp" = some vals) :
    Resent.Served Schema.folding (fun _ dn => dn) (fun _ => "CN=Leaver,DC=corp") s d
      (⟨.started disableLeaver, ()⟩ :: leaverDisabled corpConn) (disableIn d) := by
  refine ⟨trivial, _, rfl, trivial, _, rfl, fun _ _ _ => rfl, _, rfl, trivial, _, ⟨vals, hd, rfl⟩, ?_⟩
  rw [disableIn, modifyEntry, hd]
  rfl

theorem served_leaverTold :
    Resent.Served Schema.folding (fun _ dn => dn) (fun _ => "CN=Leaver,DC=corp") s d leaverTold d :=
  ⟨trivial, _, rfl, trivial, _, rfl, served_aside (by simp [parting, Effort.Aside])⟩

end

theorem fromBatch_corpStart : ∀ e ∈ corpStart, Resent.FromBatch [disableLeaver] e := by
  simp [corpStart, Resent.FromBatch]

/-- A run that is killed after it has disabled the account and before it tells the broker. -/
theorem worked_leaver :
    Resent.Worked Schema.folding corp (fun _ dn => dn) (fun _ => "CN=Leaver,DC=corp") [disableLeaver] leaverDirectory
      (disableIn leaverDirectory) := by
  have hkilled : corpStart ++ corpDropped <+: corpStart ++ ([].flatten ++ (corpDropped ++ corpStop)) :=
    ⟨corpStop, by simp⟩
  refine .run (serviceRun_corpDropped (runDb corp)) hkilled (Resent.served_append.2 ⟨_, served_corpStart, ?_⟩)
    (List.forall_mem_append.2 ⟨fromBatch_corpStart, ?_⟩) .none
  · rw [corpDropped_eq]
    exact Resent.served_append.2 ⟨_, served_leaverPolled, served_leaverDisabled (if_pos rfl)⟩
  · simp [corpDropped, greeting, corpOpened, polled, leaverDisabled, LdapConnector.findCall, Resent.FromBatch]

theorem served_leaverCycle :
    Resent.Served Schema.folding (fun _ dn => dn) (fun _ => "CN=Leaver,DC=corp") {} (disableIn leaverDirectory)
      (corpStart ++ [].flatten ++ leaverCycle) (disableIn (disableIn leaverDirectory)) := by
  rw [List.flatten_nil, List.append_nil, leaverCycle_eq]
  refine Resent.served_append.2 ⟨_, served_corpStart, Resent.served_append.2 ⟨_, served_leaverPolled, ?_⟩⟩
  exact Resent.served_append.2 ⟨_, served_leaverDisabled (modifyEntry_self _ _), served_leaverTold⟩

/-- The operation is sent again after the account has been disabled. -/
theorem operations_settle_leaver :
    Resent.Worked Schema.folding corp (fun _ dn => dn) (fun _ => "CN=Leaver,DC=corp") [disableLeaver] leaverDirectory
      (disableIn leaverDirectory) ∧
    ServiceRun corp (runDb corp) corpConfig corpSession corpStart [leaverCycle] [] corpStop ∧
    Resent.Served Schema.folding (fun _ dn => dn) (fun _ => "CN=Leaver,DC=corp") {} (disableIn leaverDirectory)
      (corpStart ++ [].flatten ++ leaverCycle) (disableIn (disableIn leaverDirectory)) ∧
    disableIn (disableIn leaverDirectory) =
      Resent.applyBatch Schema.folding corp (fun _ => "CN=Leaver,DC=corp") [disableLeaver] leaverDirectory := by
  have hops : ∀ op ∈ [disableLeaver], op.opType ≠ "CREATE_ACCOUNT" := List.forall_mem_singleton.2 (by decide)
  refine ⟨worked_leaver, serviceRun_leaver, served_leaverCycle, ?_⟩
  refine (operations_settle hops worked_leaver).2 _ _ _ _ _ [] [] _ _ serviceRun_leaver served_leaverCycle ?_ ?_ ?_
  · rw [List.flatten_nil, List.append_nil]
    exact fromBatch_corpStart
  · rw [leaverCycle_eq]
    simp [leaverPolled, leaverTold, greeting, corpOpened, polled, AdMode.completion, AdMode.record, leaverDisabled,
      LdapConnector.findCall, parting, Resent.Delivers]
  · rw [leaverCycle_eq]
    simp [leaverPolled, polled]

end NexusAgent
