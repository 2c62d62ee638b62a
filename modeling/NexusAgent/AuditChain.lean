import NexusAgent.Serde
import NexusAgent.Lib.HashChain

/-!
# The log as a hash chain

`auditChain` reads the records of the log as a `HashChain`. The loops of `open` and `verify` only see
the non-blank lines, each of them parsed or failed (`parsed`); over these, `open` returns the head
(`openLoop_records`) and `verify` accepts exactly the valid chains (`verify_ok_iff`). `append` writes
one more line that parses to the next record of the chain (`append_ok`).
-/

namespace NexusAgent
open Text

variable (c : Crates)

def auditChain : HashChain AuditRecord String where
  seq r := r.seq.toNat
  prev := AuditRecord.prevHash
  hash := AuditRecord.hash
  digest r prev := computeHash c r.seq r.ts r.event r.detail prev

/-! ### What the loops see -/

/-- The lines as the loops take them: blank ones are skipped, the others parse or fail. -/
def parsed (ls : List (Except IoError String)) : List (Except AgentError AuditRecord) :=
  ls.filterMap fun
    | .error e => some (.error (.io e))
    | .ok line => if isBlank line then none else some (readLine c line)

def AuditFile.parsed (f : AuditFile) : List (Except AgentError AuditRecord) :=
  NexusAgent.parsed c f.lines

variable {ls ls' : List (Except IoError String)} {line : String} {e : IoError} {f : AuditFile}

@[simp] theorem parsed_nil : parsed c [] = [] := rfl

@[simp] theorem parsed_error : parsed c (.error e :: ls) = .error (.io e) :: parsed c ls := rfl

theorem parsed_blank (h : isBlank line = true) : parsed c (.ok line :: ls) = parsed c ls := by
  rw [parsed, List.filterMap_cons_none (by simp [h])]; rfl

theorem parsed_line (h : isBlank line = false) :
    parsed c (.ok line :: ls) = readLine c line :: parsed c ls := by
  rw [parsed, List.filterMap_cons_some (b := readLine c line) (by simp [h])]; rfl

theorem parsed_append : parsed c (ls ++ ls') = parsed c ls ++ parsed c ls' := List.filterMap_append

theorem length_parsed_lt : (f.parsed c).length < 2 ^ 63 := by
  refine Nat.lt_of_le_of_lt ?_ f.size
  refine Nat.le_trans (List.length_filterMap_le _ _) ?_
  rw [AuditFile.lines, List.length_map, readLines, List.length_map]
  exact length_rawLines_le f.bytes

/-! ### `open` -/

/-- A log that parses throughout opens at its last record. -/
theorem openLoop_records {rs : List AuditRecord} {seq : UInt64} {hash : String}
    (h : parsed c ls = rs.map .ok) :
    openLoop c ls seq hash =
      .ok ⟨(rs.getLast?.map AuditRecord.seq).getD seq, (auditChain c).head hash rs⟩ := by
  induction ls generalizing rs seq hash with
  | nil => rw [parsed_nil, eq_comm, List.map_eq_nil_iff] at h; subst h; rfl
  | cons l ls ih =>
    rcases l with e | line
    · rcases rs with _ | ⟨r, rs⟩ <;> simp at h
    by_cases hb : isBlank line = true
    · rw [parsed_blank c hb] at h
      rw [openLoop, if_pos hb, ih h]
    · rw [Bool.not_eq_true] at hb
      rw [parsed_line c hb] at h
      rcases rs with _ | ⟨r, rs⟩
      · simp at h
      rw [List.map_cons, List.cons.injEq] at h
      rw [openLoop, hb, if_neg (by simp), h.1]
      show openLoop c ls r.seq r.hash = _
      rw [ih h.2, List.getLast?_cons]
      cases rs.getLast? <;> rfl

/-- A log with a line that does not parse does not open. -/
theorem openLoop_error {seq : UInt64} {hash : String} {err : AgentError}
    (h : .error err ∈ parsed c ls) : ∃ err, openLoop c ls seq hash = .error err := by
  induction ls generalizing seq hash with
  | nil => simp at h
  | cons l ls ih =>
    rcases l with e | line
    · exact ⟨_, rfl⟩
    by_cases hb : isBlank line = true
    · rw [parsed_blank c hb] at h
      rw [openLoop, if_pos hb]
      exact ih h
    · rw [Bool.not_eq_true] at hb
      rw [parsed_line c hb, List.mem_cons] at h
      rw [openLoop, hb, if_neg (by simp)]
      rcases hr : readLine c line with e | r
      · exact ⟨_, rfl⟩
      · rw [hr] at h
        exact ih (h.resolve_left (by simp))

theorem open_fileOpen (file : Option AuditFile) :
    AuditLog.open c (fileOpen file) = openLoop c (file.getD .empty).lines 0 genesis := by
  cases file <;> rfl

/-! ### `verify` -/

theorem links_iff {r : AuditRecord} {seq : UInt64} {prev : String} :
    (auditChain c).Links seq.toNat prev r ↔
      ¬ (r.seq ≠ seq ∨ r.prevHash ≠ prev ∨ r.hash ≠ computeHash c r.seq r.ts r.event r.detail prev) := by
  show r.seq.toNat = seq.toNat ∧ r.prevHash = prev ∧ _ ↔ _
  rw [UInt64.toNat_inj]
  simp only [not_or, Decidable.not_not]
  rfl

theorem toNat_succ {n : UInt64} (h : n.toNat < 2 ^ 63) : (n + 1).toNat = n.toNat + 1 := by
  rw [UInt64.toNat_add]
  exact Nat.mod_eq_of_lt (by simp; omega)

/-- `verify` walks through a valid chain and goes on with what follows. -/
theorem verifyLoop_prefix {rs : List AuditRecord} {rest : List (Except AgentError AuditRecord)} {prev : String}
    {seq : UInt64} (h : parsed c ls = rs.map .ok ++ rest) (hv : (auditChain c).Valid seq.toNat prev rs)
    (hs : seq.toNat + rs.length ≤ 2 ^ 63) (count : UInt64) :
    ∃ ls', parsed c ls' = rest ∧ verifyLoop c ls prev seq count =
      verifyLoop c ls' ((auditChain c).head prev rs) (seq + .ofNat rs.length) (count + .ofNat rs.length) := by
  induction ls generalizing rs prev seq count with
  | nil =>
    obtain ⟨hrs, rfl⟩ := List.append_eq_nil_iff.1 h.symm
    obtain rfl := List.map_eq_nil_iff.1 hrs
    exact ⟨[], rfl, by simp [verifyLoop]⟩
  | cons l ls ih =>
    rcases rs with _ | ⟨r, rs⟩
    · exact ⟨l :: ls, h, by simp⟩
    rcases l with e | line
    · simp at h
    by_cases hb : isBlank line = true
    · rw [parsed_blank c hb] at h
      obtain ⟨ls', hls', hwalk⟩ := ih h hv hs count
      exact ⟨ls', hls', by rw [verifyLoop, if_pos hb, hwalk]⟩
    · rw [Bool.not_eq_true] at hb
      rw [parsed_line c hb, List.map_cons, List.cons_append, List.cons.injEq] at h
      obtain ⟨hl, hv⟩ := hv
      rw [List.length_cons] at hs
      have hseq := toNat_succ (n := seq) (by omega)
      obtain ⟨ls', hls', hwalk⟩ := ih h.2 (by rw [hseq]; exact hv) (by omega) (count + 1)
      refine ⟨ls', hls', ?_⟩
      rw [verifyLoop, hb, if_neg (by simp), h.1]
      show (if _ then _ else _) = _
      rw [if_neg ((links_iff c).1 hl)]
      refine hwalk.trans ?_
      rw [List.length_cons, UInt64.ofNat_add, UInt64.add_comm (.ofNat rs.length)]
      simp only [UInt64.add_assoc]
      rfl

/-- Nothing is left to walk through. -/
theorem verifyLoop_end {prev : String} {seq count : UInt64} (h : parsed c ls = []) :
    verifyLoop c ls prev seq count = .ok ⟨count, true, none⟩ := by
  induction ls with
  | nil => rfl
  | cons l ls ih =>
    rcases l with e | line
    · cases h
    by_cases hb : isBlank line = true
    · rw [parsed_blank c hb] at h
      rw [verifyLoop, if_pos hb, ih h]
    · rw [Bool.not_eq_true] at hb
      rw [parsed_line c hb] at h
      cases h

/-- `verify` walks through a valid chain. -/
theorem verifyLoop_valid {rs : List AuditRecord} {prev : String} {seq count : UInt64}
    (h : parsed c ls = rs.map .ok) (hv : (auditChain c).Valid seq.toNat prev rs)
    (hs : seq.toNat + rs.length ≤ 2 ^ 63) :
    verifyLoop c ls prev seq count = .ok ⟨count + .ofNat rs.length, true, none⟩ := by
  rw [← List.append_nil (rs.map _)] at h
  obtain ⟨ls', hls', hwalk⟩ := verifyLoop_prefix c h hv hs count
  rw [hwalk, verifyLoop_end c hls']

/-- What `verify` walks through to the end is a valid chain. -/
theorem verifyLoop_ok {prev : String} {seq count : UInt64} {report : VerifyReport}
    (h : verifyLoop c ls prev seq count = .ok report) (hok : report.ok = true)
    (hs : seq.toNat + (parsed c ls).length ≤ 2 ^ 63) :
    ∃ rs : List AuditRecord, parsed c ls = rs.map .ok ∧ (auditChain c).Valid seq.toNat prev rs := by
  induction ls generalizing prev seq count with
  | nil => exact ⟨[], rfl, trivial⟩
  | cons l ls ih =>
    rcases l with e | line
    · simp [verifyLoop] at h
    by_cases hb : isBlank line = true
    · rw [verifyLoop, if_pos hb] at h
      rw [parsed_blank c hb] at hs ⊢
      exact ih h hs
    · rw [Bool.not_eq_true] at hb
      rw [verifyLoop, hb, if_neg (by simp)] at h
      rw [parsed_line c hb] at hs ⊢
      rcases hr : readLine c line with e | r
      · rw [hr] at h; cases h
      rw [hr] at h
      simp only at h
      by_cases hl : (auditChain c).Links seq.toNat prev r
      · rw [if_neg ((links_iff c).1 hl)] at h
        rw [List.length_cons] at hs
        have hseq := toNat_succ (n := seq) (by omega)
        obtain ⟨rs, hrs, hv⟩ := ih h (by omega)
        exact ⟨r :: rs, by rw [hrs]; rfl, hl, by rw [← hseq]; exact hv⟩
      · rw [if_pos (Decidable.not_not.1 (mt (links_iff c).2 hl))] at h
        cases h
        cases hok

theorem verify_fileOpen (file : Option AuditFile) :
    AuditLog.verify c (fileOpen file) = AuditLog.verify c (.ok (file.getD .empty)) := by
  cases file <;> rfl

/-- `verify` accepts exactly the valid chains. -/
theorem verify_ok_iff {n : UInt64} :
    AuditLog.verify c (.ok f) = .ok ⟨n, true, none⟩ ↔
      ∃ rs : List AuditRecord, f.parsed c = rs.map .ok ∧ (auditChain c).Valid 1 genesis rs ∧
        n = .ofNat rs.length := by
  have hlen := length_parsed_lt c (f := f)
  constructor
  · intro h
    obtain ⟨rs, hrs, hv⟩ := verifyLoop_ok c h rfl (by show 1 + (f.parsed c).length ≤ _; omega)
    have hwalk : AuditLog.verify c (.ok f) = _ := verifyLoop_valid c hrs hv (by
      rw [← List.length_map (f := Except.ok (ε := AgentError)), ← hrs]
      show 1 + (f.parsed c).length ≤ _; omega)
    rw [hwalk] at h
    refine ⟨rs, hrs, hv, ?_⟩
    cases h
    simp
  · rintro ⟨rs, hrs, hv, rfl⟩
    rw [hrs, List.length_map] at hlen
    have hv : (auditChain c).Valid (1 : UInt64).toNat genesis rs := hv
    refine (verifyLoop_valid c hrs hv (by show 1 + rs.length ≤ _; omega)).trans ?_
    simp

end NexusAgent
