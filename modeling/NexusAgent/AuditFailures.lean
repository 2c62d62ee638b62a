import NexusAgent.AuditCrash
import NexusAgent.AuditEvidence

/-!
# Appends that fail

`attempts` runs appends on one handle, whatever the file system does with each. A failing one leaves the handle as
it was, but not always the file. `failures_harmless_iff`: after the last success the log is exactly what was
returned, exactly if it began with complete lines and no failing append has left a byte of its line behind.
-/

namespace NexusAgent
open Text

/-- A call of `append` at a time, and what the file system does with it. -/
structure Attempt where
  ts : String
  event : String
  detail : Json
  out : WriteOutcome

/-- The handle and the file. -/
abbrev LogState := AuditLog × Option AuditFile

/-- How many bytes of the line reach the file. -/
def WriteOutcome.reached (f : AuditFile) (line : String) : WriteOutcome → Nat
  | .openFails _ => 0
  | .writeFails n _ => min n (min (lineBytes line).length f.room)
  | .written => min (lineBytes line).length f.room

variable (c : Crates)

namespace Attempt

def run (a : Attempt) (s : LogState) : Except AgentError AuditRecord × LogState :=
  s.1.append c a.ts a.event a.detail s.2 a.out

/-- The record of the attempt. -/
def next (a : Attempt) (s : LogState) : AuditRecord := s.1.nextRecord c a.ts a.event a.detail

/-- How many bytes of the record's line reach the file. -/
def reached (a : Attempt) (s : LogState) : Nat :=
  match c.recordText (a.next c s) with
  | .ok line => a.out.reached (s.2.getD .empty) line
  | .error _ => 0

end Attempt

/-- What the attempts return, one after the other, and the handle and the file after them. -/
def attempts : List Attempt → LogState → List (Except AgentError AuditRecord) × LogState
  | [], s => ([], s)
  | a :: as, s =>
    let (r, s) := a.run c s
    let (rs, s) := attempts as s
    (r :: rs, s)

/-- The records that were returned. -/
def returned (results : List (Except AgentError AuditRecord)) : List AuditRecord := results.filterMap (·.toOption)

/-- No attempt that fails leaves a byte in the file. -/
def LeaveNothing : List Attempt → LogState → Prop
  | [], _ => True
  | a :: as, s => ((∃ e, (a.run c s).1 = .error e) → a.reached c s = 0) ∧ LeaveNothing as (a.run c s).2

/-- The last line, if it has not been ended, is not blank. -/
def NoBlankTail (bs : Bytes) : Prop :=
  ∃ as l, bs = as ++ l ∧ Ended as ∧ newline ∉ l ∧ (l = [] ∨ ∀ t, fromUtf8 l = some t → isBlank t = false)

/-- A log that is accepted with the records `rs`. -/
structure Verified (file : Option AuditFile) (rs : List AuditRecord) : Prop where
  records : (file.getD .empty).parsed c = rs.map .ok
  valid : (auditChain c).Valid 1 genesis rs
  tail : NoBlankTail (file.getD .empty).bytes

/-- A log of complete lines that is accepted with the records `rs`. -/
structure Sound (file : Option AuditFile) (rs : List AuditRecord) : Prop where
  ended : Ended (file.getD .empty).bytes
  records : (file.getD .empty).parsed c = rs.map .ok
  valid : (auditChain c).Valid 1 genesis rs

/-- A failing append leaves the handle as it was, and in the end the log that had the records `rs` is accepted with
these and the ones returned, in order. -/
structure Harmless (rs : List AuditRecord) (as : List Attempt) (s : LogState) : Prop where
  handle : ∀ (a : Attempt) (s : LogState) e, (a.run c s).1 = .error e → (a.run c s).2.1 = s.1
  verifies : AuditLog.verify c (fileOpen (attempts c as s).2.2) =
    .ok ⟨.ofNat (rs ++ returned (attempts c as s).1).length, true, none⟩
  records : ((attempts c as s).2.2.getD .empty).parsed c = (rs ++ returned (attempts c as s).1).map .ok

variable {c} {a : Attempt} {as : List Attempt} {s : LogState} {rs : List AuditRecord}

/-! ### One attempt -/

theorem attempts_cons : attempts c (a :: as) s =
    ((a.run c s).1 :: (attempts c as (a.run c s).2).1, (attempts c as (a.run c s).2).2) := rfl

theorem returned_ok (r : AuditRecord) (results : List (Except AgentError AuditRecord)) :
    returned (.ok r :: results) = r :: returned results := rfl

theorem returned_error (e : AgentError) (results : List (Except AgentError AuditRecord)) :
    returned (.error e :: results) = returned results := rfl

theorem writeln_bytes (file : Option AuditFile) (line : String) (out : WriteOutcome) :
    ((writeln file line out).2.getD .empty).bytes =
      (file.getD .empty).bytes ++ (lineBytes line).take (out.reached (file.getD .empty) line) := by
  cases out with
  | openFails e => exact (List.append_nil _).symm
  | writeFails n e =>
    show (file.getD .empty).bytes ++ ((lineBytes line).take n).take (file.getD .empty).room = _
    rw [List.take_take, WriteOutcome.reached]
    congr 1
    refine List.take_eq_take_iff.2 ?_
    omega
  | written =>
    show (file.getD .empty).bytes ++ (lineBytes line).take (file.getD .empty).room = _
    rw [WriteOutcome.reached]
    congr 1
    refine List.take_eq_take_iff.2 ?_
    omega

/-- What an attempt does: it writes the beginning of its line, and either fails and leaves the handle, or has written
the whole line and moves the handle on. -/
theorem Attempt.run_cases {line : String} (hl : c.recordText (a.next c s) = .ok line) :
    ((a.run c s).2.2.getD .empty).bytes = (s.2.getD .empty).bytes ++ (lineBytes line).take (a.reached c s) ∧
      (((∃ e, (a.run c s).1 = .error e) ∧ (a.run c s).2.1 = s.1) ∨
        ((a.run c s).1 = .ok (a.next c s) ∧ (a.run c s).2.1 = ⟨(a.next c s).seq, (a.next c s).hash⟩ ∧
          (lineBytes line).length ≤ a.reached c s)) := by
  have hreached : a.reached c s = a.out.reached (s.2.getD .empty) line := by
    rw [Attempt.reached, hl]
  rw [hreached, ← writeln_bytes]
  unfold Attempt.next AuditLog.nextRecord at hl
  unfold Attempt.run Attempt.next AuditLog.nextRecord
  simp only [AuditLog.append, hl]
  rcases a.out with e | ⟨n, e⟩ | _
  · simp [writeln]
  · simp [writeln]
  · by_cases hroom : (lineBytes line).length ≤ (s.2.getD .empty).room
    · simp [writeln, hroom, WriteOutcome.reached]
    · simp [writeln, hroom]

/-- A record's line is read as the record, and what stands after it on its own. -/
theorem parsed_line_bytes (hc : c.Lawful) {r : AuditRecord} {line : String} (hl : c.recordText r = .ok line)
    (hp : Plain r.detail) (rest : Bytes) : parsed c ((readLines (lineBytes line ++ rest)).map AuditFile.lineResult) =
      .ok r :: parsed c ((readLines rest).map AuditFile.lineResult) := by
  have hline : Ended (lineBytes line) := by
    rw [← List.nil_append (lineBytes line)]
    exact ended_append_line ended_nil (mt newline_mem_utf8.1 (hc.one_line _ _ hl))
  rw [readLines_append hline, readLines_lineBytes hc hl, List.map_append, parsed_append]
  show parsed c [.ok line] ++ _ = _
  rw [parsed_line c (not_blank hc hl), readLine_record hc hp hl]
  rfl

theorem parsed_after_line (hc : c.Lawful) {f : AuditFile} {as rest : Bytes} {r : AuditRecord} {line : String}
    (hl : c.recordText r = .ok line) (hp : Plain r.detail) (has : Ended as)
    (hf : f.bytes = as ++ (lineBytes line ++ rest)) :
    f.parsed c = parsed c ((readLines as).map AuditFile.lineResult) ++
      .ok r :: parsed c ((readLines rest).map AuditFile.lineResult) := by
  rw [AuditFile.parsed, AuditFile.lines, hf, readLines_append has, List.map_append, parsed_append,
    parsed_line_bytes hc hl hp]

namespace Sound

theorem congr {file file' : Option AuditFile} (h : Sound c file rs)
    (hb : (file'.getD .empty).bytes = (file.getD .empty).bytes) : Sound c file' rs := by
  refine ⟨hb ▸ h.ended, ?_, h.valid⟩
  rw [AuditFile.parsed, AuditFile.lines, hb]
  exact h.records

theorem length_lt {file : Option AuditFile} (h : Sound c file rs) : rs.length < 2 ^ 63 := by
  have := length_parsed_lt c (f := file.getD .empty)
  rwa [h.records, List.length_map] at this

theorem run_error (hc : c.Lawful) (h : Sound c s.2 rs) (hnone : a.reached c s = 0) : Sound c (a.run c s).2.2 rs := by
  obtain ⟨line, hl⟩ := hc.prints (a.next c s)
  have hbytes := (Attempt.run_cases hl).1
  rw [hnone, List.take_zero, List.append_nil] at hbytes
  exact h.congr hbytes

theorem run_ok (hc : c.Lawful) (h : Sound c s.2 rs) (hlog : s.1.Follows c rs) (hp : Plain a.detail)
    (hok : (a.run c s).1 = .ok (a.next c s)) :
    Sound c (a.run c s).2.2 (rs ++ [a.next c s]) ∧ (a.run c s).2.1.Follows c (rs ++ [a.next c s]) := by
  obtain ⟨line, hl⟩ := hc.prints (a.next c s)
  obtain ⟨hbytes, ⟨⟨e, he⟩, -⟩ | ⟨-, hhandle, hall⟩⟩ := Attempt.run_cases hl
  · rw [hok] at he
    cases he
  rw [List.take_of_length_le hall] at hbytes
  refine ⟨⟨?_, ?_, ?_⟩, ?_⟩
  · rw [hbytes]
    exact ended_append_line h.ended (mt newline_mem_utf8.1 (hc.one_line _ _ hl))
  · rw [← List.append_nil (lineBytes line)] at hbytes
    rw [parsed_after_line hc hl hp h.ended hbytes, List.map_append, ← h.records]
    rfl
  · exact (auditChain c).valid_snoc.2 ⟨h.valid, hlog.links h.length_lt a.ts a.event a.detail⟩
  · rw [hhandle]
    exact hlog.next h.length_lt a.ts a.event a.detail

/-- Attempts that leave nothing behind where they fail. -/
theorem attempts (hc : c.Lawful) (h : Sound c s.2 rs) (hlog : s.1.Follows c rs) (hp : ∀ a ∈ as, Plain a.detail)
    (hnone : LeaveNothing c as s) : Sound c (attempts c as s).2.2 (rs ++ returned (NexusAgent.attempts c as s).1) := by
  induction as generalizing s rs with
  | nil =>
    show Sound c s.2 (rs ++ [])
    rw [List.append_nil]
    exact h
  | cons a as ih =>
    obtain ⟨hfail, hrest⟩ := hnone
    obtain ⟨ha, has⟩ := List.forall_mem_cons.1 hp
    obtain ⟨line, hl⟩ := hc.prints (a.next c s)
    rcases (Attempt.run_cases hl).2 with ⟨⟨e, he⟩, hhandle⟩ | ⟨hok, -, -⟩
    · have hnext := ih (h.run_error hc (hfail ⟨e, he⟩)) (by rw [hhandle]; exact hlog) has hrest
      rw [attempts_cons, he, returned_error]
      exact hnext
    · obtain ⟨hsound, hfollows⟩ := h.run_ok hc hlog ha hok
      have hnext := ih hsound hfollows has hrest
      rw [attempts_cons, hok, returned_ok, List.append_cons]
      exact hnext

end Sound

/-! ### An attempt that leaves something behind -/

/-- `verify` accepts the file. -/
def Accepted (c : Crates) (f : AuditFile) : Prop :=
  ∃ rs : List AuditRecord, f.parsed c = rs.map .ok ∧ (auditChain c).Valid 1 genesis rs

theorem accepted_of_verify {f : AuditFile} {n : UInt64} (h : AuditLog.verify c (.ok f) = .ok ⟨n, true, none⟩) :
    Accepted c f := by
  obtain ⟨rs, hrs, hv, -⟩ := (verify_ok_iff c).1 h
  exact ⟨rs, hrs, hv⟩

theorem not_accepted_of_error {f : AuditFile} {err : AgentError} (h : .error err ∈ f.parsed c) : ¬ Accepted c f := by
  rintro ⟨rs, hrs, -⟩
  rw [hrs, List.mem_map] at h
  obtain ⟨r, -, hr⟩ := h
  cases hr

/-- Two records with the same number do not follow each other. -/
theorem not_accepted_of_twice {f : AuditFile} {before after : List (Except AgentError AuditRecord)}
    {r r' : AuditRecord} (h : f.parsed c = before ++ .ok r :: .ok r' :: after) (hseq : r'.seq = r.seq) :
    ¬ Accepted c f := by
  rintro ⟨rs, hrs, hv⟩
  rw [hrs] at h
  obtain ⟨ps, qs, rfl, rfl, hqs⟩ := List.map_eq_append_iff.1 h
  obtain ⟨q, qs, rfl, hq, hqs⟩ := List.map_eq_cons_iff.1 hqs
  obtain ⟨q', qs, rfl, hq', rfl⟩ := List.map_eq_cons_iff.1 hqs
  cases hq
  cases hq'
  obtain ⟨⟨hr, -⟩, ⟨hr', -⟩, -⟩ := ((auditChain c).valid_append.1 hv).2
  have hr : r.seq.toNat = 1 + ps.length := hr
  have hr' : r'.seq.toNat = 1 + ps.length + 1 := hr'
  rw [hseq] at hr'
  omega

/-- The byte that every record's line begins with. -/
def brace : UInt8 := UInt8.ofNat '{'.val.toNat

theorem noBlankTail_of_ended {bs : Bytes} (h : Ended bs) : NoBlankTail bs :=
  ⟨bs, [], (List.append_nil bs).symm, h, List.not_mem_nil, .inl rfl⟩

theorem brace_mem_take (hc : c.Lawful) {r : AuditRecord} {line : String} {k : Nat} (hl : c.recordText r = .ok line)
    (hk : 0 < k) : brace ∈ (utf8 line).take k := by
  obtain ⟨body, hbody⟩ := hc.braces r line hl
  obtain ⟨k, rfl⟩ : ∃ k', k = k' + 1 := ⟨k - 1, by omega⟩
  have hhead : utf8 line = brace :: (body ++ ['}']).flatMap String.utf8EncodeChar := by
    rw [utf8, hbody, List.flatMap_cons]
    rfl
  rw [hhead, List.take_succ_cons]
  exact List.mem_cons_self ..

/-- Text with the beginning of a record is not blank. -/
theorem not_blank_of_brace {l : Bytes} {t : String} (h : brace ∈ l) (ht : fromUtf8 l = some t) : isBlank t = false := by
  rw [← utf8_of_fromUtf8 ht] at h
  have hmem : '{' ∈ t.toList := (ascii_mem_utf8 (by decide)).1 h
  rw [isBlank_eq_all, ← Bool.not_eq_true]
  intro hall
  exact not_mem_of_all hall rfl hmem

theorem take_line_of_lt {line : String} {k : Nat} (hk : (utf8 line).length < k) :
    (lineBytes line).take k = lineBytes line := by
  refine List.take_of_length_le ?_
  rw [lineBytes, List.length_append, List.length_singleton]
  omega

/-- The beginning of a record's line, as long as its newline is not reached, goes on the last line. -/
theorem newline_not_mem_take (hc : c.Lawful) {r : AuditRecord} {line : String} {k : Nat} {l : Bytes}
    (hl : c.recordText r = .ok line) (hn : newline ∉ l) : newline ∉ l ++ (utf8 line).take k := by
  rw [List.mem_append, not_or]
  exact ⟨hn, fun hm => hc.one_line r line hl (newline_mem_utf8.1 (List.mem_of_mem_take hm))⟩

theorem NoBlankTail.append_take (hc : c.Lawful) {bs : Bytes} (h : NoBlankTail bs) {r : AuditRecord} {line : String}
    (hl : c.recordText r = .ok line) (k : Nat) : NoBlankTail (bs ++ (lineBytes line).take k) := by
  obtain ⟨as, l, rfl, has, hn, htail⟩ := h
  rcases Nat.eq_zero_or_pos k with rfl | hk
  · rw [List.take_zero, List.append_nil]
    exact ⟨as, l, rfl, has, hn, htail⟩
  by_cases hlen : k ≤ (utf8 line).length
  · rw [take_lineBytes hlen]
    refine ⟨as, l ++ (utf8 line).take k, List.append_assoc .., has, newline_not_mem_take hc hl hn, .inr ?_⟩
    intro t ht
    exact not_blank_of_brace (List.mem_append_right _ (brace_mem_take hc hl hk)) ht
  · rw [take_line_of_lt (by omega)]
    have hline : newline ∉ l ++ utf8 line := by
      have := newline_not_mem_take (k := (utf8 line).length) hc hl hn
      rwa [List.take_length] at this
    have hended : Ended (as ++ ((l ++ utf8 line) ++ [newline])) := ended_append_line has hline
    have hbytes : as ++ l ++ lineBytes line = as ++ ((l ++ utf8 line) ++ [newline]) := by
      simp only [lineBytes, List.append_assoc]
    rw [hbytes]
    exact noBlankTail_of_ended hended

/-- A file in which a record stands on a line that had not been ended is not accepted. -/
theorem not_accepted_of_unended (hc : c.Lawful) (hu : c.Unglued) {f : AuditFile} {bs rest : Bytes} {r : AuditRecord}
    {line : String} (hl : c.recordText r = .ok line) (hb : NoBlankTail bs) (hended : ¬ Ended bs)
    (hf : f.bytes = bs ++ (lineBytes line ++ rest)) : ¬ Accepted c f := by
  obtain ⟨as, l, rfl, has, hn, rfl | htail⟩ := hb
  · rw [List.append_nil] at hended
    exact absurd has hended
  · rw [List.append_assoc] at hf
    obtain ⟨err, herr⟩ := parsed_after_text hc hu hl hf has hn htail
    exact not_accepted_of_error herr

/-- A file in which the next record stands right after what a failed one has left is not accepted: either the two are
on one line, or they have the same number. -/
theorem not_accepted_of_left (hc : c.Lawful) (hu : c.Unglued) {f : AuditFile} {bs rest : Bytes} {r r' : AuditRecord}
    {line line' : String} {k : Nat} (hl : c.recordText r = .ok line) (hl' : c.recordText r' = .ok line')
    (hp : Plain r.detail) (hp' : Plain r'.detail) (hseq : r'.seq = r.seq) (hb : NoBlankTail bs) (hk : 0 < k)
    (hf : f.bytes = bs ++ ((lineBytes line).take k ++ (lineBytes line' ++ rest))) : ¬ Accepted c f := by
  obtain ⟨as, l, rfl, has, hn, htail⟩ := hb
  rw [List.append_assoc] at hf
  by_cases hlen : k ≤ (utf8 line).length
  · rw [take_lineBytes hlen, ← List.append_assoc l] at hf
    have hmem : brace ∈ l ++ (utf8 line).take k := List.mem_append_right _ (brace_mem_take hc hl hk)
    obtain ⟨err, herr⟩ := parsed_after_text hc hu hl' hf has (newline_not_mem_take hc hl hn)
      fun t ht => not_blank_of_brace hmem ht
    exact not_accepted_of_error herr
  rw [take_line_of_lt (by omega)] at hf
  rcases htail with rfl | htail
  · rw [List.nil_append] at hf
    have htwice := parsed_after_line hc hl hp has hf
    rw [parsed_line_bytes hc hl' hp'] at htwice
    exact not_accepted_of_twice htwice hseq
  · obtain ⟨err, herr⟩ := parsed_after_text hc hu hl hf has hn htail
    exact not_accepted_of_error herr

/-! ### Attempts -/

theorem attempts_bytes_prefix (hc : c.Lawful) (as : List Attempt) (s : LogState) :
    (s.2.getD .empty).bytes <+: ((attempts c as s).2.2.getD .empty).bytes := by
  induction as generalizing s with
  | nil => exact List.prefix_rfl
  | cons a as ih =>
    obtain ⟨line, hl⟩ := hc.prints (a.next c s)
    have hbytes := (Attempt.run_cases hl).1
    refine List.IsPrefix.trans ?_ (ih (a.run c s).2)
    rw [hbytes]
    exact List.prefix_append _ _

/-- Attempts that leave nothing behind where they fail first write the line of the first that succeeds. -/
theorem first_written (hc : c.Lawful) (hp : ∀ a ∈ as, Plain a.detail) (hnone : LeaveNothing c as s)
    (hsome : returned (attempts c as s).1 ≠ []) : ∃ r line rest, c.recordText r = .ok line ∧ Plain r.detail ∧
      r.seq = s.1.lastSeq + 1 ∧
      ((attempts c as s).2.2.getD .empty).bytes = (s.2.getD .empty).bytes ++ (lineBytes line ++ rest) := by
  induction as generalizing s with
  | nil => exact absurd rfl hsome
  | cons a as ih =>
    obtain ⟨hfail, hrest⟩ := hnone
    obtain ⟨ha, has⟩ := List.forall_mem_cons.1 hp
    obtain ⟨line, hl⟩ := hc.prints (a.next c s)
    obtain ⟨hbytes, ⟨⟨e, he⟩, hhandle⟩ | ⟨-, -, hall⟩⟩ := Attempt.run_cases hl
    · rw [attempts_cons, he, returned_error] at hsome
      rw [hfail ⟨e, he⟩, List.take_zero, List.append_nil] at hbytes
      obtain ⟨r, line', rest, hr, hplain, hseq, hfinal⟩ := ih has hrest hsome
      rw [hhandle] at hseq
      rw [hbytes] at hfinal
      exact ⟨r, line', rest, hr, hplain, hseq, hfinal⟩
    · rw [List.take_of_length_le hall] at hbytes
      obtain ⟨rest, hrest'⟩ := attempts_bytes_prefix hc as (a.run c s).2
      refine ⟨a.next c s, line, rest, hl, ha, rfl, ?_⟩
      rw [attempts_cons, ← hrest', hbytes, List.append_assoc]

/-- The last attempt succeeds. -/
def EndsWell (results : List (Except AgentError AuditRecord)) : Prop := ∃ r, results.getLast? = some (.ok r)

theorem EndsWell.returned_ne_nil {results : List (Except AgentError AuditRecord)} (h : EndsWell results) :
    returned results ≠ [] := by
  obtain ⟨r, hr⟩ := h
  exact List.ne_nil_of_mem (List.mem_filterMap.2 ⟨_, List.mem_of_getLast? hr, rfl⟩)

theorem EndsWell.second {b : Attempt} (h : EndsWell (attempts c [a, b] s).1) :
    ∃ r, (b.run c (a.run c s).2).1 = .ok r := by
  obtain ⟨r, hr⟩ := h
  exact ⟨r, Option.some.inj hr⟩

/-- If an attempt that fails leaves something behind, the log is not accepted after the last success. -/
theorem not_accepted_attempts (hc : c.Lawful) (hu : c.Unglued) (hp : ∀ a ∈ as, Plain a.detail)
    (hb : NoBlankTail (s.2.getD .empty).bytes) (hend : EndsWell (attempts c as s).1) (hsome : ¬ LeaveNothing c as s) :
    ¬ Accepted c ((attempts c as s).2.2.getD .empty) := by
  induction as generalizing s with
  | nil => exact absurd trivial hsome
  | cons a as ih =>
    obtain ⟨ha, has⟩ := List.forall_mem_cons.1 hp
    obtain ⟨line, hl⟩ := hc.prints (a.next c s)
    obtain ⟨hbytes, hcases⟩ := Attempt.run_cases hl
    by_cases hrest : LeaveNothing c as (a.run c s).2
    · -- this attempt is the last one that leaves something behind
      have hleft : ¬ ((∃ e, (a.run c s).1 = .error e) → a.reached c s = 0) := fun h => hsome ⟨h, hrest⟩
      obtain ⟨⟨e, he⟩, hk⟩ := Classical.not_imp.1 hleft
      have hhandle : (a.run c s).2.1 = s.1 := by
        rcases hcases with ⟨-, hhandle⟩ | ⟨hok, -, -⟩
        · exact hhandle
        · rw [hok] at he
          cases he
      have hsuccess := hend.returned_ne_nil
      rw [attempts_cons, he, returned_error] at hsuccess
      obtain ⟨r, line', rest, hl', hp', hseq, hfinal⟩ := first_written hc has hrest hsuccess
      rw [hhandle] at hseq
      rw [hbytes, List.append_assoc] at hfinal
      exact not_accepted_of_left hc hu hl hl' ha hp' hseq hb (Nat.pos_of_ne_zero hk) hfinal
    · have hnext : NoBlankTail ((a.run c s).2.2.getD .empty).bytes := by
        rw [hbytes]
        exact hb.append_take hc hl _
      have hend' : EndsWell (attempts c as (a.run c s).2).1 := by
        obtain ⟨r, hr⟩ := hend
        rcases as with _ | ⟨b, bs⟩
        · exact absurd trivial hrest
        · rw [attempts_cons, attempts_cons, List.getLast?_cons_cons] at hr
          exact ⟨r, hr⟩
      exact ih has hnext hend' hrest

/-! ### Two records -/

/-- A short record is written to a short file. -/
theorem Attempt.run_written (hout : a.out = .written) (hhash : s.1.lastHash.toList.length = 64)
    (hsize : (s.2.getD .empty).bytes.length + callSize (a.ts, a.event, a.detail) < 2 ^ 63) :
    (a.run .compact s).1 = .ok (a.next .compact s) := by
  obtain ⟨line, hl⟩ := Crates.compact_lawful.prints (a.next .compact s)
  have hlen : (lineBytes line).length ≤ callSize (a.ts, a.event, a.detail) := by
    rw [← Except.ok.inj hl]
    exact length_line_le _ hhash (Sha256.length_hexEncode _)
  have hroom : (lineBytes line).length ≤ (s.2.getD .empty).room := by
    rw [AuditFile.room]
    omega
  rw [Attempt.run, hout, append_written hl hroom]
  rfl

/-- No record yet, and no file. -/
def firstState : LogState := (⟨0, genesis⟩, none)

/-- The first record of a log, and what becomes of its write. -/
def firstAttempt (out : WriteOutcome) : Attempt := ⟨"2025-01-01T00:00:00+00:00", "RUN_START", runStartDetail "ad", out⟩

def secondAttempt : Attempt := ⟨"2025-01-01T00:01:00+00:00", "RUN_ERROR", .obj [], .written⟩

theorem plain_attempts (out : WriteOutcome) : ∀ a ∈ [firstAttempt out, secondAttempt], Plain a.detail := by
  refine List.forall_mem_cons.2 ⟨plain_runStartDetail "ad", List.forall_mem_singleton.2 ?_⟩
  show Plain (.obj [])
  decide

/-- If the first write fails within a byte, the second one succeeds. -/
theorem exists_second {out : WriteOutcome} {e : AgentError}
    (he : ((firstAttempt out).run .compact firstState).1 = .error e)
    (hone : (firstAttempt out).reached .compact firstState ≤ 1) :
    ∃ r, (attempts .compact [firstAttempt out, secondAttempt] firstState).1 = [.error e, .ok r] := by
  obtain ⟨line, hl⟩ := Crates.compact_lawful.prints ((firstAttempt out).next .compact firstState)
  obtain ⟨hbytes, ⟨-, hhandle⟩ | ⟨hok, -, -⟩⟩ := Attempt.run_cases hl
  · have hcall : callSize (secondAttempt.ts, secondAttempt.event, secondAttempt.detail) < 2 ^ 62 := by decide +kernel
    have hempty : (firstState.2.getD .empty).bytes.length = 0 := rfl
    have hshort : (((firstAttempt out).run .compact firstState).2.2.getD .empty).bytes.length ≤ 1 := by
      rw [hbytes, List.length_append, List.length_take]
      omega
    have hok := Attempt.run_written (a := secondAttempt) (s := ((firstAttempt out).run .compact firstState).2) rfl
      (by rw [hhandle]; exact length_genesis) (by omega)
    refine ⟨secondAttempt.next .compact ((firstAttempt out).run .compact firstState).2, ?_⟩
    rw [attempts_cons, attempts_cons, hok, he]
    rfl
  · rw [hok] at he
    cases he

def diskFull : WriteOutcome := .writeFails 1 (.other "No space left on device (os error 28)")

theorem reached_diskFull : (firstAttempt diskFull).reached .compact firstState = 1 := by
  obtain ⟨line, hl⟩ := Crates.compact_lawful.prints ((firstAttempt diskFull).next .compact firstState)
  have hroom : (firstState.2.getD .empty).room = 2 ^ 63 - 1 := rfl
  have hlen : 0 < (lineBytes line).length := by
    rw [lineBytes, List.length_append]
    exact Nat.succ_pos _
  rw [Attempt.reached, hl]
  show min 1 (min (lineBytes line).length (firstState.2.getD .empty).room) = 1
  omega

theorem reached_openFails {e : IoError} (hout : a.out = .openFails e) : a.reached c s = 0 := by
  unfold Attempt.reached
  split
  · rw [hout]
    rfl
  · rfl

/-! ### When failures are harmless -/

/-- A failing append leaves the handle as it was, and after the last success the log is accepted with the records it
had and those that were returned, exactly if its last line had been ended and no failing append has left a byte. -/
theorem failures_harmless_iff (hc : c.Lawful) (hu : c.Unglued) (rs : List AuditRecord) (as : List Attempt)
    (log : AuditLog) (file : Option AuditFile) (hfile : Verified c file rs) (hlog : log.Follows c rs)
    (hp : ∀ a ∈ as, Plain a.detail) (hend : EndsWell (attempts c as (log, file)).1) :
    Harmless c rs as (log, file) ↔ Ended (file.getD .empty).bytes ∧ LeaveNothing c as (log, file) := by
  constructor
  · intro h
    have hverify := h.verifies
    rw [verify_fileOpen] at hverify
    have haccepted := accepted_of_verify hverify
    have hnone : LeaveNothing c as (log, file) := by
      by_contra hsome
      exact not_accepted_attempts (s := (log, file)) hc hu hp hfile.tail hend hsome haccepted
    refine ⟨?_, hnone⟩
    by_contra hended
    obtain ⟨r, line, rest, hl, -, -, hbytes⟩ := first_written (s := (log, file)) hc hp hnone hend.returned_ne_nil
    exact not_accepted_of_unended hc hu hl hfile.tail hended hbytes haccepted
  · rintro ⟨hended, hnone⟩
    have hsound : Sound c file rs := ⟨hended, hfile.records, hfile.valid⟩
    have hfinal := hsound.attempts (s := (log, file)) hc hlog hp hnone
    refine ⟨?_, ?_, hfinal.records⟩
    · intro a s e he
      obtain ⟨line, hl⟩ := hc.prints (a.next c s)
      rcases (Attempt.run_cases hl).2 with ⟨-, hhandle⟩ | ⟨hok, -, -⟩
      · exact hhandle
      · rw [hok] at he
        cases he
    · rw [verify_fileOpen]
      exact (verify_ok_iff c).2 ⟨_, hfinal.records, hfinal.valid, rfl⟩

/-- If the file cannot be opened for the first record, the second one is all there is. -/
theorem failures_harmless_iff_refused : Harmless .compact []
    [firstAttempt (.openFails (.other "Permission denied")), secondAttempt] firstState := by
  have hzero : (firstAttempt (.openFails (.other "Permission denied"))).reached .compact firstState = 0 :=
    reached_openFails rfl
  obtain ⟨r, hr⟩ := exists_second (e := .io (.other "Permission denied")) rfl (by rw [hzero]; omega)
  have hend : EndsWell (attempts .compact [firstAttempt (.openFails (.other "Permission denied")), secondAttempt]
      firstState).1 := ⟨r, by rw [hr]; rfl⟩
  have hfile : Verified .compact none [] := ⟨rfl, trivial, noBlankTail_of_ended ended_nil⟩
  have hlog : AuditLog.Follows .compact ⟨0, genesis⟩ [] := ⟨rfl, rfl⟩
  refine (failures_harmless_iff Crates.compact_lawful Crates.compact_unglued [] _ ⟨0, genesis⟩ none hfile hlog
    (plain_attempts _) hend).2 ⟨ended_nil, fun _ => hzero, ?_, trivial⟩
  rintro ⟨e, he⟩
  obtain ⟨r, hok⟩ := hend.second
  cases hok.symm.trans he

/-- The disk is full after the first byte of the first record; the record that is returned is on the same line. -/
theorem byte_breaks_log :
    Verified .compact firstState.2 [] ∧ firstState.1.Follows .compact [] ∧
    (∀ a ∈ [firstAttempt diskFull, secondAttempt], Plain a.detail) ∧
    (∃ e r, (attempts .compact [firstAttempt diskFull, secondAttempt] firstState).1 = [.error e, .ok r]) ∧
    ¬ Harmless .compact [] [firstAttempt diskFull, secondAttempt] firstState := by
  have hempty : NoBlankTail (firstState.2.getD .empty).bytes := noBlankTail_of_ended ended_nil
  obtain ⟨r, hr⟩ := exists_second (e := .io (.other "No space left on device (os error 28)")) rfl
    (by rw [reached_diskFull])
  have hsome : ¬ LeaveNothing .compact [firstAttempt diskFull, secondAttempt] firstState := by
    rintro ⟨hzero, -⟩
    have h := hzero ⟨_, rfl⟩
    rw [reached_diskFull] at h
    cases h
  refine ⟨⟨rfl, trivial, hempty⟩, ⟨rfl, rfl⟩, plain_attempts _, ⟨_, r, hr⟩, fun h => ?_⟩
  have hverify := h.verifies
  rw [verify_fileOpen] at hverify
  refine not_accepted_attempts Crates.compact_lawful Crates.compact_unglued (plain_attempts _) hempty ?_ hsome
    (accepted_of_verify hverify)
  exact ⟨r, by rw [hr]; rfl⟩

end NexusAgent
