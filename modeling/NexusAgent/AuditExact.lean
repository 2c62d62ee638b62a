import NexusAgent.AuditChain

/-!
# `verify` is exact

A log is a valid chain if every record has its position, the hash of the record before it and the hash of its own
contents (`ValidChain`). `verify_exact`: `verify` returns how long the longest valid beginning of the log is, and
what comes after it decides whether that is all, a break or an error.
-/

namespace NexusAgent
open Text

/-- The hash of the record before position `i`. -/
def hashBefore (rs : List AuditRecord) : Nat → String
  | 0 => genesis
  | i + 1 => (rs[i]?.map AuditRecord.hash).getD genesis

variable (c : Crates)

def ValidChain (rs : List AuditRecord) : Prop :=
  ∀ i (hi : i < rs.length), rs[i].seq.toNat = i + 1 ∧ rs[i].prevHash = hashBefore rs i ∧
    rs[i].hash = computeHash c rs[i].seq rs[i].ts rs[i].event rs[i].detail rs[i].prevHash

/-- `rs` is the longest valid chain at the beginning of the lines `ls`. -/
structure LongestValid (ls : List (Except AgentError AuditRecord)) (rs : List AuditRecord) : Prop where
  records : rs.map .ok <+: ls
  valid : ValidChain c rs
  longest : ∀ ss : List AuditRecord, ss.map .ok <+: ls → ValidChain c ss → ss.length ≤ rs.length

variable {c} {ls : List (Except IoError String)} {rs : List AuditRecord} {r : AuditRecord}
  {rest : List (Except AgentError AuditRecord)} {prev : String} {seq count : UInt64}

/-! ### Valid chains -/

theorem head_take {i : Nat} (hi : i < rs.length) : (auditChain c).head genesis (rs.take i) = hashBefore rs i := by
  cases i with
  | zero => rfl
  | succ i =>
    have hi' : i < rs.length := by omega
    rw [List.take_succ_eq_append_getElem hi', HashChain.head_snoc, hashBefore, List.getElem?_eq_getElem hi']
    rfl

theorem validChain_iff : ValidChain c rs ↔ (auditChain c).Valid 1 genesis rs := by
  rw [HashChain.valid_iff_getElem]
  refine forall₂_congr fun i hi => ?_
  rw [head_take hi]
  show _ ↔ rs[i].seq.toNat = 1 + i ∧ rs[i].prevHash = hashBefore rs i ∧
    rs[i].hash = computeHash c rs[i].seq rs[i].ts rs[i].event rs[i].detail (hashBefore rs i)
  rw [Nat.add_comm 1 i]
  constructor
  · rintro ⟨hseq, hprev, hhash⟩
    rw [hprev] at hhash
    exact ⟨hseq, hprev, hhash⟩
  · rintro ⟨hseq, hprev, hhash⟩
    rw [← hprev] at hhash
    exact ⟨hseq, hprev, hhash⟩

/-- A valid beginning that is not followed by a record that links is the longest one. -/
theorem longestValid_of_rest (hv : ValidChain c rs)
    (hend : ∀ r rest', rest = .ok r :: rest' → ¬ ValidChain c (rs ++ [r])) :
    LongestValid c (rs.map .ok ++ rest) rs := by
  refine ⟨List.prefix_append _ _, hv, ?_⟩
  intro ss hss hvss
  by_contra hlen
  rw [Nat.not_le] at hlen
  have hrs : rs.map (Except.ok (ε := AgentError)) <+: ss.map .ok :=
    List.prefix_of_prefix_length_le (List.prefix_append _ _) hss (by simp; omega)
  obtain ⟨ts, rfl⟩ := (List.prefix_map_iff_of_injective fun _ _ => Except.ok.inj).1 hrs
  rcases ts with _ | ⟨t, ts⟩
  · simp at hlen
  rw [List.map_append, List.prefix_append_right_inj] at hss
  obtain ⟨rest', rfl⟩ := hss
  refine hend t (ts.map .ok ++ rest') rfl ?_
  rw [validChain_iff] at hvss ⊢
  exact hvss.of_prefix ⟨ts, by simp⟩

/-! ### The walk -/

/-- `verify` stops at the first line it sees if that does not parse. -/
theorem verifyLoop_unparsed {err : AgentError} (h : parsed c ls = .error err :: rest) :
    verifyLoop c ls prev seq count = .error err := by
  induction ls with
  | nil => cases h
  | cons l ls ih =>
    rcases l with e | line
    · rw [parsed_error, List.cons.injEq, Except.error.injEq] at h
      rw [verifyLoop, h.1]
    by_cases hb : isBlank line = true
    · rw [parsed_blank c hb] at h
      rw [verifyLoop, if_pos hb, ih h]
    · rw [Bool.not_eq_true] at hb
      rw [parsed_line c hb, List.cons.injEq] at h
      rw [verifyLoop, hb, if_neg (by simp), h.1]

/-- `verify` stops at the first record it sees if that does not link. -/
theorem verifyLoop_unlinked (h : parsed c ls = .ok r :: rest) (hr : ¬ (auditChain c).Links seq.toNat prev r) :
    verifyLoop c ls prev seq count = .ok ⟨count, false, some r.seq⟩ := by
  induction ls with
  | nil => cases h
  | cons l ls ih =>
    rcases l with e | line
    · rw [parsed_error, List.cons.injEq] at h
      cases h.1
    by_cases hb : isBlank line = true
    · rw [parsed_blank c hb] at h
      rw [verifyLoop, if_pos hb, ih h]
    · rw [Bool.not_eq_true] at hb
      rw [parsed_line c hb, List.cons.injEq] at h
      rw [verifyLoop, hb, if_neg (by simp), h.1]
      show (if _ then _ else _) = _
      rw [if_pos (Decidable.not_not.1 (mt (links_iff c).2 hr))]

/-! ### What `verify` returns -/

/-- What is to be returned on the lines `ls`. -/
inductive Verdict (c : Crates) (ls : List (Except AgentError AuditRecord)) : Except AgentError VerifyReport → Prop
  | valid (rs : List AuditRecord) (hls : ls = rs.map .ok) (hv : ValidChain c rs) :
    Verdict c ls (.ok ⟨.ofNat rs.length, true, none⟩)
  | broken (rs : List AuditRecord) (r : AuditRecord) (rest : List (Except AgentError AuditRecord))
    (hls : ls = rs.map .ok ++ .ok r :: rest) (hv : ValidChain c rs) (hr : ¬ ValidChain c (rs ++ [r])) :
    Verdict c ls (.ok ⟨.ofNat rs.length, false, some r.seq⟩)
  | unparsed (rs : List AuditRecord) (err : AgentError) (rest : List (Except AgentError AuditRecord))
    (hls : ls = rs.map .ok ++ .error err :: rest) (hv : ValidChain c rs) : Verdict c ls (.error err)

variable {f : AuditFile} {res : Except AgentError VerifyReport}

theorem exists_verdict (ls : List (Except AgentError AuditRecord)) : ∃ res, Verdict c ls res := by
  obtain ⟨rs, rest, hls, hv, hend⟩ := (auditChain c).exists_valid_front 1 genesis ls
  rcases rest with _ | ⟨err | r, rest⟩
  · rw [List.append_nil] at hls
    exact ⟨_, .valid rs hls (validChain_iff.2 hv)⟩
  · exact ⟨_, .unparsed rs err rest hls (validChain_iff.2 hv)⟩
  · refine ⟨_, .broken rs r rest hls (validChain_iff.2 hv) ?_⟩
    rw [validChain_iff, HashChain.valid_snoc]
    rintro ⟨-, hr⟩
    exact hend r rest rfl hr

theorem length_lt_of_parsed (h : f.parsed c = rs.map .ok ++ rest) : rs.length < 2 ^ 63 := by
  have := length_parsed_lt c (f := f)
  rw [h, List.length_append, List.length_map] at this
  omega

theorem Verdict.verify (h : Verdict c (f.parsed c) res) : AuditLog.verify c (.ok f) = res := by
  have hwalk {rs : List AuditRecord} {rest : List (Except AgentError AuditRecord)}
      (hls : f.parsed c = rs.map .ok ++ rest) (hv : ValidChain c rs) :
      (1 + UInt64.ofNat rs.length).toNat = 1 + rs.length ∧ ∃ ls', parsed c ls' = rest ∧ AuditLog.verify c (.ok f) =
        verifyLoop c ls' ((auditChain c).head genesis rs) (1 + .ofNat rs.length) (0 + .ofNat rs.length) := by
    have hlen := length_lt_of_parsed hls
    have hvalid : (auditChain c).Valid (1 : UInt64).toNat genesis rs := validChain_iff.1 hv
    refine ⟨?_, verifyLoop_prefix c hls hvalid (by show 1 + rs.length ≤ _; omega) 0⟩
    rw [UInt64.toNat_add, UInt64.toNat_ofNat']
    simp
    omega
  cases h with
  | valid rs hls hv =>
    exact (verify_ok_iff c).2 ⟨rs, hls, validChain_iff.1 hv, rfl⟩
  | broken rs r rest hls hv hr =>
    obtain ⟨hseq, ls', hls', heq⟩ := hwalk hls hv
    rw [heq, verifyLoop_unlinked hls', UInt64.zero_add]
    rw [hseq]
    intro hl
    exact hr (validChain_iff.2 ((auditChain c).valid_snoc.2 ⟨validChain_iff.1 hv, hl⟩))
  | unparsed rs err rest hls hv =>
    obtain ⟨-, ls', hls', heq⟩ := hwalk hls hv
    rw [heq, verifyLoop_unparsed hls']

theorem verify_iff : AuditLog.verify c (.ok f) = res ↔ Verdict c (f.parsed c) res := by
  constructor
  · rintro rfl
    obtain ⟨res, hres⟩ := exists_verdict (c := c) (f.parsed c)
    rw [hres.verify]
    exact hres
  · exact Verdict.verify

/-- `verify` accepts with `n` records exactly the valid chains of length `n`, reports a break exactly if a record is
the first to break validity and all lines up to it parse, and then with the length of the longest valid prefix and
the position in the record after it, and fails exactly if a line does not parse before any break. -/
theorem verify_exact (c : Crates) (f : AuditFile) :
    (∀ n : Nat, (∃ report, AuditLog.verify c (.ok f) = .ok report ∧ report.ok = true ∧ report.records.toNat = n) ↔
      ∃ rs : List AuditRecord, f.parsed c = rs.map .ok ∧ rs.length = n ∧ ValidChain c rs) ∧
    ((∃ report, AuditLog.verify c (.ok f) = .ok report ∧ report.ok = false) ↔
      ∃ (rs : List AuditRecord) (r : AuditRecord) (rest : _),
        f.parsed c = rs.map .ok ++ .ok r :: rest ∧ ValidChain c rs ∧ ¬ ValidChain c (rs ++ [r])) ∧
    (∀ report, AuditLog.verify c (.ok f) = .ok report → report.ok = false →
      ∃ (rs : List AuditRecord) (r : AuditRecord) (rest : _), f.parsed c = rs.map .ok ++ .ok r :: rest ∧
        LongestValid c (f.parsed c) rs ∧ report.records.toNat = rs.length ∧ report.brokenAt = some r.seq) ∧
    ∀ err, AuditLog.verify c (.ok f) = .error err ↔
      ∃ (rs : List AuditRecord) (rest : _), f.parsed c = rs.map .ok ++ .error err :: rest ∧ ValidChain c rs := by
  have hlength {rs : List AuditRecord} {rest : List (Except AgentError AuditRecord)}
      (hls : f.parsed c = rs.map .ok ++ rest) : (UInt64.ofNat rs.length).toNat = rs.length := by
    have := length_lt_of_parsed hls
    rw [UInt64.toNat_ofNat']
    exact Nat.mod_eq_of_lt (by simp; omega)
  refine ⟨?_, ⟨?_, ?_⟩, ?_, ?_⟩
  · intro n
    constructor
    · rintro ⟨report, hverify, hok, rfl⟩
      cases verify_iff.1 hverify with
      | valid rs hls hv => exact ⟨rs, hls, (hlength (by rw [hls, List.append_nil])).symm, hv⟩
      | broken => cases hok
    · rintro ⟨rs, hls, rfl, hv⟩
      exact ⟨_, (Verdict.valid rs hls hv).verify, rfl, hlength (by rw [hls, List.append_nil])⟩
  · rintro ⟨report, hverify, hok⟩
    cases verify_iff.1 hverify with
    | valid => cases hok
    | broken rs r rest hls hv hr => exact ⟨rs, r, rest, hls, hv, hr⟩
  · rintro ⟨rs, r, rest, hls, hv, hr⟩
    exact ⟨_, (Verdict.broken rs r rest hls hv hr).verify, rfl⟩
  · intro report hverify hok
    cases verify_iff.1 hverify with
    | valid => cases hok
    | broken rs r rest hls hv hr =>
      refine ⟨rs, r, rest, hls, ?_, hlength hls, rfl⟩
      rw [hls]
      refine longestValid_of_rest hv ?_
      intro s rest' hs
      cases hs
      exact hr
  · intro err
    constructor
    · intro hverify
      cases verify_iff.1 hverify with
      | unparsed rs _ rest hls hv => exact ⟨rs, rest, hls, hv⟩
    · rintro ⟨rs, rest, hls, hv⟩
      exact (Verdict.unparsed rs err rest hls hv).verify

end NexusAgent
