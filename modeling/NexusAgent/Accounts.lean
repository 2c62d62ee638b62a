import Mathlib.Data.List.Nodup
import Mathlib.Logic.Function.Basic
import NexusAgent.Cycle
import NexusAgent.Writes

/-!
# Who enables an account

`Changes` says what becomes of the directories in the course of a trace. `disabled_until_enabled`: an operation
sends only clean adds and never a `userAccountControl` that enables, unless it is there to enable, exactly if its
attribute map is harmless; and after harmless operations every account that they have created is disabled, unless
it has been enabled by an operation for it.
-/

namespace NexusAgent
open Text

/-! ### Directories -/

/-- The values of the attributes of an entry. -/
abbrev Attrs (α : Type) := α → List Bytes

section
variable {α : Type} [DecidableEq α] (schema : Schema α)

/-- The attributes that an add gives an entry. -/
def Attrs.ofAdd (attrs : List (String × List String)) : Attrs α := fun a =>
  (attrs.filter fun e => schema.attrOf e.1 = a).flatMap fun e => e.2.map utf8

def Attrs.apply (vals : Attrs α) : Mod → Attrs α
  | .replace attr values => Function.update vals (schema.attrOf attr) values

end

/-- The entries of the directories; `κ` tells them apart. -/
abbrev Directories (κ α : Type) := κ → Option (Attrs α)

section
variable {κ α : Type} [DecidableEq κ] [DecidableEq α] (schema : Schema α) (entry : Ldap → String → κ)

/-- A request that is carried out. -/
def Effect (s : Directories κ α) : Call → Directories κ α → Prop
  | .add ldap dn attrs, s' =>
    s (entry ldap dn) = none ∧ s' = Function.update s (entry ldap dn) (some (.ofAdd schema attrs))
  | .modify ldap dn mods, s' => ∃ vals, s (entry ldap dn) = some vals ∧
    s' = Function.update s (entry ldap dn) (some (mods.foldl (Attrs.apply schema) vals))
  | _, s' => s' = s

/-- What an answer says about the directories; where there is none, the request may have been carried out. -/
def Change (s : Directories κ α) : Event Reply → Directories κ α → Prop
  | ⟨.add ldap dn attrs, .ok ()⟩, s' => Effect schema entry s (.add ldap dn attrs) s'
  | ⟨.add ldap dn attrs, .lost _⟩, s' => s' = s ∨ Effect schema entry s (.add ldap dn attrs) s'
  | ⟨.modify ldap dn mods, .ok ()⟩, s' => Effect schema entry s (.modify ldap dn mods) s'
  | ⟨.modify ldap dn mods, .lost _⟩, s' => s' = s ∨ Effect schema entry s (.modify ldap dn mods) s'
  | _, s' => s' = s

def Changes (s : Directories κ α) : Trace → Directories κ α → Prop
  | [], s' => s' = s
  | e :: tr, s' => ∃ s₁, Change schema entry s e s₁ ∧ Changes s₁ tr s'

variable {schema entry} {s s' : Directories κ α}

theorem Change.effect {e : Event Reply} (h : Change schema entry s e s') :
    s' = s ∨ e.1.Writing ∧ Effect schema entry s e.1 s' := by
  unfold Change at h
  split at h
  · exact .inr ⟨trivial, h⟩
  · exact h.imp_right fun h => ⟨trivial, h⟩
  · exact .inr ⟨trivial, h⟩
  · exact h.imp_right fun h => ⟨trivial, h⟩
  · exact .inl h

/-- What every write that is carried out preserves is preserved along a trace. -/
theorem Changes.invariant {P : Directories κ α → Prop} {tr : Trace} (h : Changes schema entry s tr s') (hs : P s)
    (hstep : ∀ e ∈ tr, e.1.Writing → ∀ s s', P s → Effect schema entry s e.1 s' → P s') : P s' := by
  induction tr generalizing s with
  | nil =>
    obtain rfl : s' = s := h
    exact hs
  | cons e tr ih =>
    obtain ⟨s₁, he, htr⟩ := h
    refine ih htr ?_ fun e' he' => hstep e' (List.mem_cons_of_mem e he')
    rcases he.effect with rfl | ⟨hw, heff⟩
    · exact hs
    · exact hstep e (List.mem_cons_self ..) hw s s₁ hs heff

end

/-! ### `userAccountControl` -/

def readDecimal (ds : List Char) : Option Nat :=
  if ds ≠ [] ∧ ds.all Char.isDigit then some (Nat.ofDigitChars 10 ds 0) else none

def readInteger : List Char → Option Int
  | '-' :: ds => (readDecimal ds).map fun n => -(n : Int)
  | ds => (readDecimal ds).map fun n => (n : Int)

/-- The value is a number with the bit `ACCOUNTDISABLE`. -/
def hasDisableBit (v : Bytes) : Bool :=
  ((fromUtf8 v).bind fun s => readInteger s.toList).any fun n => n / 2 % 2 = 1

theorem hasDisableBit_uacDisabled : hasDisableBit (utf8 uacDisabled) := by
  rw [hasDisableBit, fromUtf8_utf8]
  decide

section
variable {α : Type} (schema : Schema α)

abbrev Schema.uac : α := schema.attrOf "userAccountControl"

/-- The attributes that are sent for a map. -/
def sentAttrs (attrs : SortedMap String String) : List α :=
  (attrs.entries.filter fun (k, v) => !(k == "distinguishedName" || v.isEmpty)).map fun e => schema.attrOf e.1

/-- No two names of the map are for one attribute, and none is for one that the agent sends itself. -/
def PlainNames (attrs : SortedMap String String) : Prop :=
  (sentAttrs schema attrs).Nodup ∧ schema.attrOf "objectClass" ∉ sentAttrs schema attrs ∧
    schema.uac ∉ sentAttrs schema attrs

variable {schema}

theorem attrs_newAccount (attrs : SortedMap String String) :
    (LdapConnector.newAccount attrs).map (fun e => schema.attrOf e.1) =
      schema.attrOf "objectClass" :: (sentAttrs schema attrs ++ [schema.uac]) := by
  simp only [LdapConnector.newAccount, List.map_append, List.map_cons, List.map_map, List.map_nil, List.cons_append]
  rfl

theorem plainNames_iff (attrs : SortedMap String String) :
    PlainNames schema attrs ↔ ((LdapConnector.newAccount attrs).map fun e => schema.attrOf e.1).Nodup := by
  have hne : schema.attrOf "objectClass" ≠ schema.uac := schema.objectClass_ne_uac
  rw [attrs_newAccount, List.nodup_cons, List.mem_append, List.mem_singleton, List.nodup_append]
  simp only [PlainNames, List.nodup_singleton, List.mem_singleton, true_and, hne, or_false]
  constructor
  · rintro ⟨hnodup, hclass, huac⟩
    refine ⟨hclass, hnodup, ?_⟩
    rintro a ha b rfl rfl
    exact huac ha
  · rintro ⟨hclass, hnodup, hdisj⟩
    exact ⟨hnodup, hclass, fun huac => hdisj schema.uac huac schema.uac rfl rfl⟩

variable (schema) [DecidableEq α]

/-- The values that a request gives `userAccountControl`. -/
def Call.uacValues : Call → List Bytes
  | .add _ _ attrs => Attrs.ofAdd schema attrs schema.uac
  | .modify _ _ mods => mods.flatMap fun
    | .replace attr values => if schema.attrOf attr = schema.uac then values else []
  | _ => []

theorem Call.uacValues_replace (ldap : Ldap) (dn attr : String) (values : List Bytes) :
    Call.uacValues schema (.modify ldap dn [.replace attr values]) =
      if schema.attrOf attr = schema.uac then values else [] := List.flatMap_singleton ..

/-- Adds name each attribute once, and `userAccountControl` with the value of a disabled account. -/
def AddsDisabled (tr : Trace) : Prop :=
  ∀ (ldap : Ldap) (dn : String) (attrs : List (String × List String)) (reply : LdapReply Unit),
    (⟨.add ldap dn attrs, reply⟩ : Event Reply) ∈ tr →
      (attrs.map fun e => schema.attrOf e.1).Nodup ∧
        (attrs.filter fun e => schema.attrOf e.1 = schema.uac).map (·.2) = [[uacDisabled]]

def NeverEnables (tr : Trace) : Prop := ∀ e ∈ tr, ∀ v ∈ e.1.uacValues schema, hasDisableBit v

/-- The types of the operations that must not enable. -/
def notEnabling : List String := ["CREATE_ACCOUNT", "UPDATE_ATTRIBUTES", "DISABLE_ACCOUNT"]

variable {schema}

/-- A new account has the value of a disabled one, and no other. -/
theorem PlainNames.uac_newAccount {attrs : SortedMap String String} (h : PlainNames schema attrs) :
    (LdapConnector.newAccount attrs).filter (fun e => schema.attrOf e.1 = schema.uac) =
      [("userAccountControl", [uacDisabled])] := by
  have hsent : ((attrs.entries.filter fun (k, v) => !(k == "distinguishedName" || v.isEmpty)).map
      fun (k, v) => (k, [v])).filter (fun e => schema.attrOf e.1 = schema.uac) = [] := by
    refine List.filter_eq_nil_iff.2 fun e he heq => h.2.2 ?_
    obtain ⟨e', he', rfl⟩ := List.mem_map.1 he
    exact List.mem_map.2 ⟨e', he', of_decide_eq_true heq⟩
  have hclass : ¬ schema.attrOf "objectClass" = schema.uac := schema.objectClass_ne_uac
  rw [LdapConnector.newAccount, List.cons_append, List.filter_cons_of_neg (by simpa using hclass), List.filter_append,
    hsent, List.nil_append]
  exact List.filter_cons_of_pos (decide_eq_true rfl)

end

/-! ### One operation -/

namespace AdMode

variable {α : Type} [DecidableEq α] (schema : Schema α) (x : Externals) (m : AdMode)

/-- However an operation runs, its adds create disabled accounts, and unless it is to enable, it enables none. -/
def KeepsDisabled (op : Operation) (conn : LdapConnector) : Prop :=
  ∀ tr r, (m.processOn x op conn).run.Runs tr r →
    AddsDisabled schema tr ∧ (op.opType ∈ notEnabling → NeverEnables schema tr)

/-- The attribute map neither repeats what a new account gets nor enables an existing one. -/
structure Harmless (op : Operation) : Prop where
  create : op.opType = "CREATE_ACCOUNT" → ∀ attrs, parseAttrs x op.attributesJson = .ok attrs →
    (attrs.get? "distinguishedName").isSome → (∃ pw, m.password x op = .ok pw) → PlainNames schema attrs
  update : op.opType = "UPDATE_ATTRIBUTES" → op.userEmail ≠ none → ∀ attrs,
    parseAttrs x op.attributesJson = .ok attrs → ∀ e ∈ attrs.entries, schema.attrOf e.1 = schema.uac → e.2 ≠ "" →
      hasDisableBit (utf8 e.2)

variable {schema x m} {op : Operation} {conn : LdapConnector} {c : Call}

theorem mem_updateMods {attrs : SortedMap String String} {mod : Mod} :
    mod ∈ LdapConnector.updateMods attrs ↔
      ∃ e ∈ attrs.entries, e.1 ≠ "distinguishedName" ∧ e.2 ≠ "" ∧ mod = .replace e.1 [utf8 e.2] := by
  simp only [LdapConnector.updateMods, List.mem_map, List.mem_filter, Bool.and_eq_true, bne_iff_ne,
    Bool.not_eq_true', String.isEmpty_eq_false_iff]
  constructor
  · rintro ⟨e, ⟨he, hdn, hv⟩, rfl⟩
    exact ⟨e, he, hdn, hv, rfl⟩
  · rintro ⟨e, he, hdn, hv, rfl⟩
    exact ⟨e, ⟨he, hdn, hv⟩, rfl⟩

/-- What a harmless operation gives `userAccountControl`, unless it is to enable. -/
theorem Write.uacValues (hw : Write x m op conn c) (hharmless : Harmless schema x m op)
    (htype : op.opType ≠ "ENABLE_ACCOUNT") : ∀ v ∈ c.uacValues schema, hasDisableBit v := by
  cases hw with
  | @add attrs pw dn hcreate hattrs hpw hdn =>
    have hplain := hharmless.create hcreate attrs hattrs (by rw [hdn]; rfl) ⟨pw, hpw⟩
    intro v hv
    have hvalues : Call.uacValues schema (.add conn.ldap dn (LdapConnector.newAccount attrs)) = [utf8 uacDisabled] := by
      show List.flatMap _ (List.filter _ _) = _
      rw [hplain.uac_newAccount]
      rfl
    rw [hvalues] at hv
    rw [List.mem_singleton.1 hv]
    exact hasDisableBit_uacDisabled
  | password =>
    intro v hv
    rw [Call.uacValues_replace, if_neg (Ne.symm schema.uac_ne_pwd)] at hv
    cases hv
  | enable dn henable => exact absurd henable htype
  | disable dn =>
    intro v hv
    rw [Call.uacValues_replace, if_pos rfl] at hv
    rw [List.mem_singleton.1 hv]
    exact hasDisableBit_uacDisabled
  | update dn hupdate hattrs hemail =>
    intro v hv
    obtain ⟨mod, hmod, hv⟩ := List.mem_flatMap.1 hv
    obtain ⟨e, he, -, hne, rfl⟩ := mem_updateMods.1 hmod
    dsimp only at hv
    split at hv
    next huac =>
      rw [List.mem_singleton.1 hv]
      exact hharmless.update hupdate (by rw [hemail]; simp) _ hattrs e he huac hne
    next => cases hv

theorem keepsDisabled_iff : KeepsDisabled schema x m op conn ↔ Harmless schema x m op := by
  constructor
  · intro h
    refine ⟨fun htype attrs hattrs hdn ⟨pw, hpw⟩ => ?_, fun htype hemail attrs hattrs e he huac hne => ?_⟩
    · obtain ⟨dn, hdn⟩ := Option.isSome_iff_exists.1 hdn
      have hw : Write x m op conn (.add conn.ldap dn (LdapConnector.newAccount attrs)) := .add htype hattrs hpw hdn
      obtain ⟨tr, r, hrun, hmem⟩ := hw.issues (.ok ())
      exact (plainNames_iff attrs).2 ((h tr r hrun).1 _ _ _ _ hmem).1
    · obtain ⟨email, hemail⟩ := Option.ne_none_iff_exists'.1 hemail
      have hdn : e.1 ≠ "distinguishedName" := by
        intro heq
        rw [heq] at huac
        exact schema.dn_ne_uac huac
      have hmod : Mod.replace e.1 [utf8 e.2] ∈ LdapConnector.updateMods attrs :=
        mem_updateMods.2 ⟨e, he, hdn, hne, rfl⟩
      have hw : Write x m op conn (.modify conn.ldap "" (LdapConnector.updateMods attrs)) :=
        .update "" htype hattrs hemail (List.ne_nil_of_mem hmod)
      obtain ⟨tr, r, hrun, hmem⟩ := hw.issues (.ok ())
      refine (h tr r hrun).2 (by rw [htype]; decide) _ hmem _ (List.mem_flatMap.2 ⟨_, hmod, ?_⟩)
      show _ ∈ if schema.attrOf e.1 = schema.uac then [utf8 e.2] else []
      rw [if_pos huac]
      exact List.mem_singleton_self _
  · intro h tr r hrun
    refine ⟨fun ldap dn attrs reply hmem => ?_, fun htype e he v hv => ?_⟩
    · cases write_of_processOn hrun hmem trivial with
      | add htype hattrs hpw hdn =>
        have hplain := h.create htype _ hattrs (by rw [hdn]; rfl) ⟨_, hpw⟩
        exact ⟨(plainNames_iff _).1 hplain, by rw [hplain.uac_newAccount]; rfl⟩
    · have hw : e.1.Writing := by
        cases hc : e.1 <;> rw [hc] at hv <;> trivial
      refine (write_of_processOn hrun he hw).uacValues h ?_ v hv
      intro heq
      rw [heq] at htype
      revert htype
      decide

end AdMode

/-! ### Runs -/

/-- An operation that is processed, and what has happened for it so far. -/
structure Processed where
  mode : AdMode
  op : Operation
  conn : LdapConnector
  tr : Trace

/-- The trace is that of a run that may have been dropped. -/
def Processed.Valid (x : Externals) (p : Processed) : Prop :=
  ∃ rest r, (p.mode.processOn x p.op p.conn).run.Runs (p.tr ++ rest) r

section
variable {κ α : Type} [DecidableEq κ] [DecidableEq α] (schema : Schema α) (x : Externals) (entry : Ldap → String → κ)

/-- The operation is there to enable the account `k`, and has got to it. -/
def Processed.Enables (p : Processed) (k : κ) : Prop :=
  p.op.opType = "ENABLE_ACCOUNT" ∧ ∃ (ldap : Ldap) (dn : String) (mods : List Mod) (reply : LdapReply Unit),
    (⟨.modify ldap dn mods, reply⟩ : Event Reply) ∈ p.tr ∧ entry ldap dn = k

/-- Operations that are processed one after the other, from the directories `s` to the directories `s'`. -/
inductive History : Directories κ α → List Processed → Directories κ α → Prop
  | nil {s : Directories κ α} : History s [] s
  | cons {s s₁ s' : Directories κ α} {p : Processed} {ps : List Processed} (hvalid : p.Valid x)
    (hchanges : Changes schema entry s p.tr s₁) (hrest : History s₁ ps s') : History s (p :: ps) s'

/-- An account with a value of `userAccountControl`, and only with values of a disabled one. -/
def Disabled (vals : Attrs α) : Prop := vals schema.uac ≠ [] ∧ ∀ v ∈ vals schema.uac, hasDisableBit v

variable {schema x entry} {s s' : Directories κ α} {k : κ}

theorem Disabled.foldl {vals : Attrs α} {mods : List Mod} (h : Disabled schema vals)
    (hne : ∀ attr values, Mod.replace attr values ∈ mods → values ≠ [])
    (hbit : ∀ ldap dn, ∀ v ∈ (Call.modify ldap dn mods).uacValues schema, hasDisableBit v) :
    Disabled schema (mods.foldl (Attrs.apply schema) vals) := by
  induction mods generalizing vals with
  | nil => exact h
  | cons mod mods ih =>
    obtain ⟨attr, values⟩ := mod
    refine ih ?_ (fun a vs hmem => hne a vs (List.mem_cons_of_mem _ hmem)) fun ldap dn v hv =>
      hbit ldap dn v (List.mem_append_right _ hv)
    unfold Disabled
    rw [Attrs.apply]
    by_cases huac : schema.attrOf attr = schema.uac
    · rw [huac, Function.update_self]
      refine ⟨hne attr values (List.mem_cons_self ..), fun v hv => ?_⟩
      refine hbit ⟨"", none⟩ "" v (List.mem_append_left _ ?_)
      show v ∈ if schema.attrOf attr = schema.uac then values else []
      rwa [if_pos huac]
    · rw [Function.update_of_ne (Ne.symm huac)]
      exact h

/-- What a write of an operation that does not enable `k` leaves of the account `k`. -/
theorem disabled_of_write {m : AdMode} {op : Operation} {conn : LdapConnector} {c : Call}
    (hw : AdMode.Write x m op conn c) (hharmless : m.Harmless schema x op)
    (hk : op.opType = "ENABLE_ACCOUNT" → ∀ ldap dn mods, c = .modify ldap dn mods → entry ldap dn ≠ k)
    (heff : Effect schema entry s c s') (hs : ∀ vals, s k = some vals → Disabled schema vals) :
    ∀ vals, s' k = some vals → Disabled schema vals := by
  have hbits (htype : op.opType ≠ "ENABLE_ACCOUNT") := hw.uacValues hharmless htype
  -- a modify that touches `k` keeps it disabled
  have hmodify {dn : String} {mods : List Mod} (hc : c = .modify conn.ldap dn mods)
      (hne : ∀ attr values, Mod.replace attr values ∈ mods → values ≠ []) :
      ∀ vals, s' k = some vals → Disabled schema vals := by
    subst hc
    obtain ⟨old, hold, rfl⟩ := heff
    intro vals hvals
    by_cases hkey : k = entry conn.ldap dn
    · rw [hkey, Function.update_self] at hvals
      obtain rfl := Option.some.inj hvals
      have htype : op.opType ≠ "ENABLE_ACCOUNT" := fun htype => hk htype _ _ _ rfl hkey.symm
      exact (hs old (hkey ▸ hold)).foldl hne fun _ _ v hv => hbits htype v hv
    · rw [Function.update_of_ne hkey] at hvals
      exact hs vals hvals
  have hsingle {attr : String} {value : Bytes} (a : String) (values : List Bytes)
      (hmem : Mod.replace a values ∈ [Mod.replace attr [value]]) : values ≠ [] := by
    obtain ⟨rfl, rfl⟩ := Mod.replace.inj (List.mem_singleton.1 hmem)
    exact List.cons_ne_nil _ _
  cases hw with
  | @add attrs pw dn hcreate hattrs hpw hdn =>
    obtain ⟨-, rfl⟩ := heff
    intro vals hvals
    by_cases hkey : k = entry conn.ldap dn
    · rw [hkey, Function.update_self] at hvals
      obtain rfl := Option.some.inj hvals
      have hplain := hharmless.create hcreate attrs hattrs (by rw [hdn]; rfl) ⟨pw, hpw⟩
      refine ⟨?_, hbits (by rw [hcreate]; decide)⟩
      show List.flatMap _ (List.filter _ _) ≠ []
      rw [hplain.uac_newAccount]
      simp
    · rw [Function.update_of_ne hkey] at hvals
      exact hs vals hvals
  | password => exact hmodify rfl hsingle
  | enable => exact hmodify rfl hsingle
  | disable => exact hmodify rfl hsingle
  | update =>
    refine hmodify rfl fun a values hmem => ?_
    obtain ⟨e, -, -, -, heq⟩ := AdMode.mem_updateMods.1 hmem
    rw [(Mod.replace.inj heq).2]
    exact List.cons_ne_nil _ _

theorem History.disabled {ps : List Processed} (h : History schema x entry s ps s')
    (hharmless : ∀ p ∈ ps, p.mode.Harmless schema x p.op) (henable : ∀ p ∈ ps, ¬ p.Enables entry k)
    (hs : ∀ vals, s k = some vals → Disabled schema vals) : ∀ vals, s' k = some vals → Disabled schema vals := by
  induction h with
  | nil => exact hs
  | @cons s s₁ s' p ps hvalid hchanges hrest ih =>
    obtain ⟨hp, hps⟩ := List.forall_mem_cons.1 hharmless
    obtain ⟨hpk, hpsk⟩ := List.forall_mem_cons.1 henable
    refine ih hps hpsk (hchanges.invariant (P := fun s => ∀ vals, s k = some vals → Disabled schema vals) hs ?_)
    intro e he hw s s' hs heff
    obtain ⟨rest, r, hrun⟩ := hvalid
    refine disabled_of_write (AdMode.write_of_processOn hrun (List.mem_append_left _ he) hw) hp ?_ heff hs
    rintro htype ldap dn mods hc rfl
    obtain ⟨c, reply⟩ := e
    subst hc
    exact hpk ⟨htype, ldap, dn, mods, reply, he, rfl⟩

/-- The adds and modifies of an operation are those of a disabled account exactly if the operation is harmless;
and an account that harmless operations have created is disabled, whatever answers were lost and wherever the
last operation was dropped, until an operation to enable it has got to it. -/
theorem disabled_until_enabled (schema : Schema α) (x : Externals) (entry : Ldap → String → κ) :
    (∀ m op conn, AdMode.KeepsDisabled schema x m op conn ↔ m.Harmless schema x op) ∧
    ∀ s ps s', History schema x entry s ps s' → (∀ p ∈ ps, p.mode.Harmless schema x p.op) → ∀ k, s k = none →
      (∀ p ∈ ps, ¬ p.Enables entry k) → ∀ vals, s' k = some vals → Disabled schema vals := by
  refine ⟨fun m op conn => AdMode.keepsDisabled_iff, fun s ps s' h hharmless k hk henable => ?_⟩
  refine h.disabled hharmless henable fun vals hvals => ?_
  rw [hk] at hvals
  cases hvals

end

/-- The directory that has the account of a leaver. -/
def leaverDirectory : Directories String (List Char) := fun dn =>
  if dn = "CN=Leaver,DC=corp" then some (.ofAdd Schema.folding [("userAccountControl", [uacEnabled])]) else none

/-- The account of the joiner is created, that of the leaver disabled. -/
theorem disabled_until_enabled_joiner : ∃ s',
    History Schema.folding corp (fun _ dn => dn) leaverDirectory
      [⟨corpMode, createJoiner, corpConn, joinerCreated corpConn⟩,
        ⟨corpMode, disableLeaver, corpConn, leaverDisabled corpConn⟩] s' ∧
    ∃ vals, s' "CN=Joiner,DC=corp" = some vals ∧ Disabled Schema.folding vals := by
  have hne : "CN=Joiner,DC=corp" ≠ "CN=Leaver,DC=corp" := by decide
  have hjoiner : leaverDirectory "CN=Joiner,DC=corp" = none := if_neg hne
  have hcreated : Processed.Valid corp ⟨corpMode, createJoiner, corpConn, joinerCreated corpConn⟩ :=
    ⟨[], _, by rw [List.append_nil]; exact runs_joinerCreated rfl rfl⟩
  have hdisabled : Processed.Valid corp ⟨corpMode, disableLeaver, corpConn, leaverDisabled corpConn⟩ :=
    ⟨[], _, by rw [List.append_nil]; exact runs_leaverDisabled ..⟩
  obtain ⟨s₁, hfirst, ⟨vals, hvals⟩, hleaver⟩ : ∃ s₁, Changes Schema.folding (fun _ dn => dn) leaverDirectory
      (joinerCreated corpConn) s₁ ∧ (∃ vals, s₁ "CN=Joiner,DC=corp" = some vals) ∧
      s₁ "CN=Leaver,DC=corp" = leaverDirectory "CN=Leaver,DC=corp" := by
    refine ⟨_, ⟨_, rfl, _, ⟨hjoiner, rfl⟩, _, ⟨_, Function.update_self .., rfl⟩, rfl⟩, ⟨_, Function.update_self ..⟩, ?_⟩
    rw [Function.update_of_ne hne.symm, Function.update_of_ne hne.symm]
  obtain ⟨s₂, hsecond, hkept⟩ : ∃ s₂, Changes Schema.folding (fun _ dn => dn) s₁ (leaverDisabled corpConn) s₂ ∧
      s₂ "CN=Joiner,DC=corp" = s₁ "CN=Joiner,DC=corp" :=
    ⟨_, ⟨_, rfl, _, rfl, _, ⟨_, hleaver.trans (if_pos rfl), rfl⟩, rfl⟩, Function.update_of_ne hne _ _⟩
  have hhistory := History.cons hcreated hfirst (.cons hdisabled hsecond .nil)
  refine ⟨s₂, hhistory, vals, hkept.trans hvals, ?_⟩
  refine (disabled_until_enabled Schema.folding corp fun _ dn => dn).2 _ _ _ hhistory ?_ "CN=Joiner,DC=corp" hjoiner ?_
    vals (hkept.trans hvals)
  · have hcreate : corpMode.Harmless Schema.folding corp createJoiner := by
      refine ⟨fun _ attrs hattrs _ _ => ?_, fun h => absurd h (by decide)⟩
      obtain rfl := Except.ok.inj (parseAttrs_createJoiner.symm.trans hattrs)
      exact ⟨by decide, by decide, by decide⟩
    have hdisable : corpMode.Harmless Schema.folding corp disableLeaver :=
      ⟨fun h => absurd h (by decide), fun h => absurd h (by decide)⟩
    exact List.forall_mem_cons.2 ⟨hcreate, List.forall_mem_singleton.2 hdisable⟩
  · refine List.forall_mem_cons.2 ⟨fun h => absurd h.1 (by decide), List.forall_mem_singleton.2 fun h => ?_⟩
    exact absurd h.1 (by decide)

/-- Sets `userAccountControl` to the value of an enabled account. -/
def updateUac : Operation :=
  ⟨"6", "UPDATE_ATTRIBUTES", "7", some "joiner@corp", some (stringsText (.insert .empty "userAccountControl" "512")),
    none, none, none, none⟩

def uacUpdated : Trace :=
  [⟨.routed updateUac corpConn, ()⟩, ⟨corpConn.findCall "joiner@corp", .ok [⟨"CN=Joiner,DC=corp", []⟩]⟩,
    ⟨.modify corpConn.ldap "CN=Joiner,DC=corp" [.replace "userAccountControl" [utf8 "512"]], .ok ()⟩]

/-- An update enables an account. -/
theorem enabled_by_update :
    (corpMode.processOn corp updateUac corpConn).run.Runs uacUpdated
      (.ok (.obj [("dn", .str "CN=Joiner,DC=corp"), ("updated", .ofNat 1)])) ∧
      (⟨.modify corpConn.ldap "CN=Joiner,DC=corp" [.replace "userAccountControl" [utf8 "512"]], .ok ()⟩ : Event Reply) ∈
        uacUpdated ∧ ¬ hasDisableBit (utf8 "512") ∧ ¬ NeverEnables Schema.folding uacUpdated ∧
      ¬ corpMode.KeepsDisabled Schema.folding corp updateUac corpConn := by
  have hattrs : AdMode.parseAttrs corp updateUac.attributesJson = .ok (.insert .empty "userAccountControl" "512") :=
    AdMode.parseAttrs_stringsText rfl _
  have hrun : (corpMode.processOn corp updateUac corpConn).run.Runs uacUpdated
      (.ok (.obj [("dn", .str "CN=Joiner,DC=corp"), ("updated", .ofNat 1)])) := by
    have htype : updateUac.opType = "UPDATE_ATTRIBUTES" := rfl
    refine ⟨(), _, rfl, ?_⟩
    simp only [AdMode.process, htype, hattrs, liftResult_ok_bind]
    exact ⟨.ok [⟨"CN=Joiner,DC=corp", []⟩], _, rfl, .ok (), _, rfl, rfl, rfl⟩
  have hmem : (⟨.modify corpConn.ldap "CN=Joiner,DC=corp" [.replace "userAccountControl" [utf8 "512"]], .ok ()⟩ :
      Event Reply) ∈ uacUpdated := by simp [uacUpdated]
  have hbit : ¬ hasDisableBit (utf8 "512") := by
    rw [hasDisableBit, fromUtf8_utf8]
    decide
  have henables : ¬ NeverEnables Schema.folding uacUpdated := by
    intro hnever
    refine hbit (hnever _ hmem _ ?_)
    rw [Call.uacValues_replace, if_pos rfl]
    exact List.mem_singleton_self _
  exact ⟨hrun, hmem, hbit, henables, fun hkeeps => henables ((hkeeps _ _ hrun).2 (by decide))⟩

end NexusAgent
