import NexusAgent.AuditChain
import Mathlib.Algebra.GroupWithZero.Nat
import Mathlib.Logic.Relation

/-!
# Sessions on one log

`Step` is an `open` or an `append` whose write takes place, on the file of one path. `World.Ok` is kept
by every step (`World.Ok.step`): the file is one terminated line for each record appended so far, these
form a chain, and an open handle stands at its head.
-/

namespace NexusAgent
open Text

variable {c : Crates}

/-! ### One append -/

/-- The record `append` makes. -/
def AuditLog.nextRecord (c : Crates) (log : AuditLog) (ts event : String) (detail : Json) :
    AuditRecord :=
  ⟨log.lastSeq + 1, ts, event, detail, log.lastHash,
    computeHash c (log.lastSeq + 1) ts event detail log.lastHash⟩

section
variable {log log' : AuditLog} {ts event line : String} {detail : Json} {file file' : Option AuditFile}
  {out : WriteOutcome} {r : AuditRecord}

theorem write_of_room {f : AuditFile} {bs : Bytes} (h : bs.length ≤ f.room) :
    (f.write bs).bytes = f.bytes ++ bs := by
  show f.bytes ++ bs.take f.room = _
  rw [List.take_of_length_le h]

theorem append_written (hl : c.recordText (log.nextRecord c ts event detail) = .ok line)
    (hroom : (lineBytes line).length ≤ (file.getD .empty).room) :
    log.append c ts event detail file .written =
      (.ok (log.nextRecord c ts event detail),
        ⟨log.lastSeq + 1, computeHash c (log.lastSeq + 1) ts event detail log.lastHash⟩,
        some ((file.getD .empty).write (lineBytes line))) := by
  unfold AuditLog.nextRecord at hl
  simp only [AuditLog.append, hl, writeln, if_pos hroom]
  rfl

/-- An `append` that returns `Ok` has written the whole line of the next record. -/
theorem append_ok (h : log.append c ts event detail file out = (.ok r, log', file')) :
    r = log.nextRecord c ts event detail ∧ log' = ⟨r.seq, r.hash⟩ ∧
      ∃ line f', c.recordText r = .ok line ∧ file' = some f' ∧
        f'.bytes = (file.getD .empty).bytes ++ lineBytes line := by
  rcases hl : c.recordText (log.nextRecord c ts event detail) with e | line
  · unfold AuditLog.nextRecord at hl
    simp [AuditLog.append, hl] at h
  have hl' := hl
  unfold AuditLog.nextRecord at hl'
  simp only [AuditLog.append, hl'] at h
  rcases out with e | ⟨n, e⟩ | _
  · simp [writeln] at h
  · simp [writeln] at h
  · by_cases hroom : (lineBytes line).length ≤ (file.getD .empty).room
    · simp only [writeln, if_pos hroom, Prod.mk.injEq, Except.ok.injEq] at h
      obtain ⟨rfl, rfl, rfl⟩ := h
      exact ⟨rfl, rfl, line, _, hl, rfl, write_of_room hroom⟩
    · simp [writeln, if_neg hroom] at h

end

/-! ### Intact logs -/

/-- The file is one terminated line for each of the records `rs`, and these form a chain. -/
structure Intact (c : Crates) (file : Option AuditFile) (rs : List AuditRecord) : Prop where
  ended : Ended (file.getD .empty).bytes
  lines : readLines (file.getD .empty).bytes = rs.map fun r => (c.recordText r).toOption
  plain : ∀ r ∈ rs, Plain r.detail
  valid : (auditChain c).Valid 1 genesis rs

/-- The handle stands at the end of the records `rs`. -/
structure AuditLog.Follows (c : Crates) (log : AuditLog) (rs : List AuditRecord) : Prop where
  seq : log.lastSeq = .ofNat rs.length
  hash : log.lastHash = (auditChain c).head genesis rs

/-- The next record of a handle links to the records it follows. -/
theorem AuditLog.Follows.links {log : AuditLog} {rs : List AuditRecord} (h : log.Follows c rs)
    (hlen : rs.length < 2 ^ 63) (ts event : String) (detail : Json) :
    (auditChain c).Links (1 + rs.length) ((auditChain c).head genesis rs) (log.nextRecord c ts event detail) := by
  refine ⟨?_, h.hash, ?_⟩
  · have hn : (UInt64.ofNat rs.length).toNat = rs.length := UInt64.toNat_ofNat_of_lt' (by
      show rs.length < 2 ^ 64; omega)
    show (log.lastSeq + 1).toNat = _
    rw [h.seq, toNat_succ (by omega), hn, Nat.add_comm]
  · rw [← h.hash]
    rfl

theorem AuditLog.Follows.next {log : AuditLog} {rs : List AuditRecord} (h : log.Follows c rs)
    (hlen : rs.length < 2 ^ 63) (ts event : String) (detail : Json) :
    AuditLog.Follows c ⟨(log.nextRecord c ts event detail).seq, (log.nextRecord c ts event detail).hash⟩
      (rs ++ [log.nextRecord c ts event detail]) := by
  have hseq : (log.nextRecord c ts event detail).seq.toNat = 1 + rs.length := (h.links hlen ts event detail).1
  constructor
  · show (log.nextRecord c ts event detail).seq = _
    rw [List.length_append, List.length_singleton, Nat.add_comm, ← hseq, UInt64.ofNat_toNat]
  · exact ((auditChain c).head_snoc).symm

theorem not_blank (hc : c.Lawful) {r : AuditRecord} {line : String} (h : c.recordText r = .ok line) :
    isBlank line = false := by
  obtain ⟨s, hs⟩ := hc.braces r line h
  rw [isBlank_eq_all, hs]
  rfl

theorem readLine_record (hc : c.Lawful) {r : AuditRecord} {line : String} (hp : Plain r.detail)
    (h : c.recordText r = .ok line) : readLine c line = .ok r := by
  rw [readLine, hc.reads r line hp h]
  rfl

/-- Lines that records were printed on parse to these records. -/
theorem parsed_records (hc : c.Lawful) {rs : List AuditRecord} (hp : ∀ r ∈ rs, Plain r.detail) :
    parsed c ((rs.map fun r => (c.recordText r).toOption).map AuditFile.lineResult) = rs.map .ok := by
  induction rs with
  | nil => rfl
  | cons r rs ih =>
    obtain ⟨line, hl⟩ := hc.prints r
    rw [List.map_cons, List.map_cons, hl]
    show parsed c (.ok line :: _) = _
    rw [parsed_line c (not_blank hc hl), ih fun r hr => hp r (List.mem_cons_of_mem _ hr),
      readLine_record hc (hp r (List.mem_cons_self ..)) hl]
    rfl

theorem readLines_lineBytes (hc : c.Lawful) {r : AuditRecord} {line : String}
    (h : c.recordText r = .ok line) : readLines (lineBytes line) = [some line] := by
  obtain ⟨s, hs⟩ := hc.braces r line h
  refine readLines_line (hc.one_line r line h) ?_
  rw [hs, ← List.cons_append, List.getLast?_concat]
  decide

namespace Intact
variable {file : Option AuditFile} {rs : List AuditRecord}

theorem parsed (hc : c.Lawful) (h : Intact c file rs) :
    (file.getD .empty).parsed c = rs.map .ok := by
  rw [AuditFile.parsed, AuditFile.lines, h.lines]
  exact parsed_records hc h.plain

theorem length_lt (hc : c.Lawful) (h : Intact c file rs) : rs.length < 2 ^ 63 := by
  have := length_parsed_lt c (f := file.getD .empty)
  rwa [h.parsed hc, List.length_map] at this

theorem seq_getElem (h : Intact c file rs) (i : Nat) (hi : i < rs.length) :
    rs[i].seq.toNat = i + 1 := by
  rw [Nat.add_comm]
  exact h.valid.seq_getElem i hi

theorem last_seq (h : Intact c file rs) : (rs.getLast?.map AuditRecord.seq).getD 0 = .ofNat rs.length := by
  rcases List.eq_nil_or_concat' rs with rfl | ⟨rs, r, rfl⟩
  · rfl
  have hr := h.seq_getElem rs.length (by simp)
  rw [List.getElem_concat_length rfl] at hr
  rw [List.getLast?_concat, List.length_append, List.length_singleton, ← hr, UInt64.ofNat_toNat]
  rfl

theorem open_eq (hc : c.Lawful) (h : Intact c file rs) :
    AuditLog.open c (fileOpen file) = .ok ⟨.ofNat rs.length, (auditChain c).head genesis rs⟩ := by
  rw [open_fileOpen, openLoop_records c (h.parsed hc), h.last_seq]

theorem verify_eq (hc : c.Lawful) (h : Intact c file rs) :
    AuditLog.verify c (.ok (file.getD .empty)) = .ok ⟨.ofNat rs.length, true, none⟩ :=
  (verify_ok_iff c).2 ⟨rs, h.parsed hc, h.valid, rfl⟩

/-- The next record continues the chain. -/
theorem links_next (hc : c.Lawful) (h : Intact c file rs) {log : AuditLog} (hlog : log.Follows c rs)
    (ts event : String) (detail : Json) :
    (auditChain c).Links (1 + rs.length) ((auditChain c).head genesis rs)
      (log.nextRecord c ts event detail) := hlog.links (h.length_lt hc) ts event detail

theorem append (hc : c.Lawful) (h : Intact c file rs) {log log' : AuditLog} {ts event : String}
    {detail : Json} {file' : Option AuditFile} {out : WriteOutcome} {r : AuditRecord}
    (hlog : log.Follows c rs) (hp : Plain detail)
    (ha : log.append c ts event detail file out = (.ok r, log', file')) :
    Intact c file' (rs ++ [r]) ∧ log'.Follows c (rs ++ [r]) := by
  obtain ⟨rfl, rfl, line, f', hl, rfl, hf⟩ := append_ok ha
  refine ⟨⟨?_, ?_, ?_, ?_⟩, hlog.next (h.length_lt hc) ts event detail⟩
  · show Ended f'.bytes
    rw [hf]
    exact ended_append_line h.ended (mt newline_mem_utf8.1 (hc.one_line _ _ hl))
  · show readLines f'.bytes = _
    rw [hf, readLines_append h.ended, h.lines, readLines_lineBytes hc hl, List.map_append,
      List.map_singleton, hl]
    rfl
  · intro r hr
    rcases List.mem_append.1 hr with hr | hr
    · exact h.plain r hr
    · rw [List.mem_singleton.1 hr]; exact hp
  · exact ((auditChain c).valid_snoc).2 ⟨h.valid, h.links_next hc hlog ts event detail⟩

end Intact

/-! ### Runs -/

/-- The file, the handle of the running session, and what the `append` calls have returned. -/
structure World where
  file : Option AuditFile
  log : Option AuditLog
  appended : List AuditRecord

/-- No file yet, and no session. -/
def World.start : World := ⟨none, none, []⟩

inductive Step (c : Crates) : World → World → Prop
  | opened {w : World} {log : AuditLog} (h : AuditLog.open c (fileOpen w.file) = .ok log) :
    Step c w { w with log := some log }
  | appended {w : World} {log log' : AuditLog} {ts event : String} {detail : Json} {r : AuditRecord}
    {file' : Option AuditFile} (hlog : w.log = some log) (hp : Plain detail)
    (h : log.append c ts event detail w.file .written = (.ok r, log', file')) :
    Step c w ⟨file', some log', w.appended ++ [r]⟩

def Runs (c : Crates) : World → World → Prop := Relation.ReflTransGen (Step c)

theorem Runs.appended_prefix {w w' : World} (h : Runs c w w') : w.appended <+: w'.appended := by
  induction h with
  | refl => exact List.prefix_rfl
  | tail _ hs ih =>
    rcases hs with _ | _
    · exact ih
    · exact ih.trans (List.prefix_append _ _)

structure World.Ok (c : Crates) (w : World) : Prop where
  intact : Intact c w.file w.appended
  follows : ∀ log, w.log = some log → log.Follows c w.appended

namespace World.Ok
variable {w w' : World}

theorem start : World.start.Ok c where
  intact := ⟨ended_nil, rfl, by simp [World.start], trivial⟩
  follows := by simp [World.start]

theorem step (hc : c.Lawful) (h : w.Ok c) (hs : Step c w w') : w'.Ok c := by
  rcases hs with ho | ⟨hlog, hp, ha⟩
  · refine ⟨h.intact, ?_⟩
    rintro log ⟨⟩
    rw [h.intact.open_eq hc] at ho
    cases ho
    exact ⟨rfl, rfl⟩
  · obtain ⟨hi, hf⟩ := h.intact.append hc (h.follows _ hlog) hp ha
    refine ⟨hi, ?_⟩
    rintro log ⟨⟩
    exact hf

theorem run (hc : c.Lawful) (h : w.Ok c) (hr : Runs c w w') : w'.Ok c := by
  induction hr with
  | refl => exact h
  | tail _ hs ih => exact ih.step hc hs

end World.Ok

/-! ### Sessions agree -/

/-- What `open`, `verify` and `append` make of the log agrees with what was appended. -/
structure World.Agrees (c : Crates) (w : World) : Prop where
  opens : ∃ log, AuditLog.open c (fileOpen w.file) = .ok log ∧
    log.lastSeq.toNat = w.appended.length ∧
    log.lastHash = (w.appended.getLast?.map AuditRecord.hash).getD genesis
  verifies : ∃ report, AuditLog.verify c (fileOpen w.file) = .ok report ∧ report.ok = true ∧
    report.records.toNat = w.appended.length ∧ report.brokenAt = none
  records : (w.file.getD .empty).parsed c = w.appended.map .ok
  seqs : ∀ (i : Nat) (hi : i < w.appended.length), w.appended[i].seq.toNat = i + 1
  appends : ∀ log ts event detail, w.log = some log →
    (∀ line, c.recordText (log.nextRecord c ts event detail) = .ok line →
      (lineBytes line).length ≤ (w.file.getD .empty).room) →
    ∃ r log' file', log.append c ts event detail w.file .written = (.ok r, log', file') ∧
      r.ts = ts ∧ r.event = event ∧ r.detail = detail

/-- After any number of sessions on a path without a file, `open` recovers the number of records and
the last hash, `verify` accepts, and the file is exactly what was appended. -/
theorem sessions_agree (hc : c.Lawful) {w : World} (hr : Runs c World.start w) : w.Agrees c := by
  have hi := (World.Ok.start.run hc hr).intact
  have hlen : (UInt64.ofNat w.appended.length).toNat = w.appended.length :=
    UInt64.toNat_ofNat_of_lt' (by have := hi.length_lt hc; show _ < 2 ^ 64; omega)
  refine ⟨⟨_, hi.open_eq hc, hlen, ?_⟩,
    ⟨_, (verify_fileOpen c w.file).trans (hi.verify_eq hc), rfl, hlen, rfl⟩, hi.parsed hc,
    hi.seq_getElem, ?_⟩
  · exact (auditChain c).head_eq_getLast?
  · intro log ts event detail _ hroom
    obtain ⟨line, hl⟩ := hc.prints (log.nextRecord c ts event detail)
    exact ⟨_, _, _, append_written hl (hroom line hl), rfl, rfl, rfl⟩

/-! ### Short records can be written -/

/-- The arguments of the `append` that made the record, and its time. -/
def AuditRecord.call (r : AuditRecord) : String × String × Json := (r.ts, r.event, r.detail)

/-- What one call of `append` with the arguments `call` adds to the file at most. -/
def callSize (call : String × String × Json) : Nat :=
  4 * (6 * (call.1.toList.length + call.2.1.toList.length) + call.2.2.text.length + 900) + 1

theorem length_recordJson_le (r : AuditRecord) (hprev : r.prevHash.toList.length = 64)
    (hhash : r.hash.toList.length = 64) : (recordJson r).text.length ≤
      6 * (r.ts.toList.length + r.event.toList.length) + r.detail.text.length + 900 := by
  have hseq := Json.length_digits_le (k := 19) (Nat.lt_trans r.seq.toNat_lt (by decide))
  have hts := Json.length_strText_le r.ts
  have hevent := Json.length_strText_le r.event
  have hprev' := Json.length_strText_le r.prevHash
  have hhash' := Json.length_strText_le r.hash
  have hkeys : (Json.strText "seq").length = 5 ∧ (Json.strText "ts").length = 4 ∧
      (Json.strText "event").length = 7 ∧ (Json.strText "detail").length = 8 ∧
      (Json.strText "prev_hash").length = 11 ∧ (Json.strText "hash").length = 6 := by decide
  simp only [recordJson, Json.text, Json.moreFields, Json.ofNat, Json.numText, Json.fracText,
    Json.expText, List.length_cons, List.length_append, List.length_nil, if_true,
    Bool.false_eq_true, if_false]
  omega

theorem length_line_le (r : AuditRecord) (hprev : r.prevHash.toList.length = 64)
    (hhash : r.hash.toList.length = 64) :
    (lineBytes (String.ofList (recordJson r).text)).length ≤ callSize r.call := by
  have hline := length_utf8_le (String.ofList (recordJson r).text)
  rw [String.toList_ofList] at hline
  rw [lineBytes, List.length_append, List.length_singleton]
  exact Nat.succ_le_succ (Nat.le_trans hline (Nat.mul_le_mul_left 4 (length_recordJson_le r hprev hhash)))

theorem length_genesis : genesis.toList.length = 64 := by decide +kernel

theorem length_head {n : Nat} {rs : List AuditRecord} (h : (auditChain c).Valid n genesis rs) :
    ((auditChain c).head genesis rs).toList.length = 64 := by
  rcases List.eq_nil_or_concat' rs with rfl | ⟨rs, r, rfl⟩
  · exact length_genesis
  · rw [HashChain.head_snoc, ((auditChain c).valid_snoc.1 h).2.2.2]
    exact Sha256.length_hexEncode _

namespace World.Ok
variable {w : World}

/-- An open log takes a short record while the file is short. -/
theorem exists_append (h : w.Ok .compact) {log : AuditLog} (hlog : w.log = some log)
    (call : String × String × Json) (hp : Plain call.2.2)
    (hsize : (w.file.getD .empty).bytes.length + callSize call < 2 ^ 63) :
    ∃ f log', Step .compact w
      ⟨some f, some log', w.appended ++ [log.nextRecord .compact call.1 call.2.1 call.2.2]⟩ ∧
      f.bytes.length ≤ (w.file.getD .empty).bytes.length + callSize call := by
  have hlen : log.lastHash.toList.length = 64 := by
    rw [(h.follows log hlog).hash]
    exact length_head h.intact.valid
  have hbytes : _ ≤ callSize call := length_line_le (log.nextRecord .compact call.1 call.2.1 call.2.2) hlen
    (Sha256.length_hexEncode _)
  have hroom : callSize call ≤ (w.file.getD .empty).room := by
    rw [AuditFile.room]; omega
  have hroom := Nat.le_trans hbytes hroom
  refine ⟨_, _, .appended hlog hp (append_written rfl hroom), ?_⟩
  rw [write_of_room hroom, List.length_append]
  omega

/-- A session that makes the given calls, while the file is short. -/
theorem exists_session (h : w.Ok .compact) (calls : List (String × String × Json))
    (hp : ∀ call ∈ calls, Plain call.2.2)
    (hsize : (w.file.getD .empty).bytes.length + (calls.map callSize).sum < 2 ^ 63) :
    ∃ w', Runs .compact w w' ∧ w'.appended.map AuditRecord.call = w.appended.map AuditRecord.call ++ calls ∧
      (w'.file.getD .empty).bytes.length ≤
        (w.file.getD .empty).bytes.length + (calls.map callSize).sum := by
  have hopen := Step.opened (h.intact.open_eq Crates.compact_lawful)
  suffices happend : ∀ {w log}, w.Ok .compact → w.log = some log →
      (w.file.getD .empty).bytes.length + (calls.map callSize).sum < 2 ^ 63 →
      ∃ w', Runs .compact w w' ∧
        w'.appended.map AuditRecord.call = w.appended.map AuditRecord.call ++ calls ∧
        (w'.file.getD .empty).bytes.length ≤
          (w.file.getD .empty).bytes.length + (calls.map callSize).sum by
    obtain ⟨w', hr, hw'⟩ := happend (h.step Crates.compact_lawful hopen) rfl hsize
    exact ⟨w', .head hopen hr, hw'⟩
  clear hopen hsize h
  induction calls with
  | nil => exact fun h _ _ => ⟨_, .refl, by simp, by simp⟩
  | cons call calls ih =>
    intro w log h hlog hsize
    rw [List.map_cons, List.sum_cons] at hsize ⊢
    obtain ⟨f, log', hs, hf⟩ := h.exists_append hlog call (hp call (by simp)) (by omega)
    obtain ⟨w', hr, hcalls, hlen⟩ := ih (fun call hc => hp call (by simp [hc]))
      (h.step Crates.compact_lawful hs) rfl (by show f.bytes.length + _ < _; omega)
    refine ⟨w', .head hs hr, ?_, Nat.le_trans hlen ?_⟩
    · rw [hcalls, List.map_append, List.append_assoc]; rfl
    · show f.bytes.length + _ ≤ _
      omega

end World.Ok

/-- Two sessions, the second event with a quote and a newline in it. -/
theorem sessions_agree_twice : ∃ w : World,
    w.appended.map AuditRecord.event = ["RUN_START", "a\"\nb"] ∧ w.Agrees Crates.compact := by
  have hc := Crates.compact_lawful
  obtain ⟨w₁, h₁, hw₁, hf⟩ := World.Ok.start.exists_session
    [("2025-01-01T00:00:00+00:00", "RUN_START", runStartDetail "ad")] (by decide) (by decide +kernel)
  obtain ⟨w₂, h₂, hw₂, -⟩ := (World.Ok.start.run hc h₁).exists_session
    [("2025-01-02T00:00:00+00:00", "a\"\nb", .obj [])] (by decide)
    (Nat.lt_of_le_of_lt (Nat.add_le_add_right hf _) (by decide +kernel))
  refine ⟨w₂, ?_, sessions_agree hc (h₁.trans h₂)⟩
  have h := congrArg (List.map fun call : String × String × Json => call.2.1) hw₂
  rwa [hw₁, List.map_map] at h

/-! ### The log of an agent that starts and stops -/

def startRecord : AuditRecord :=
  AuditLog.nextRecord .compact ⟨0, genesis⟩ "2025-01-01T00:00:00+00:00" "RUN_START" (runStartDetail "ad")

def stopRecord : AuditRecord :=
  AuditLog.nextRecord .compact ⟨1, startRecord.hash⟩ "2025-01-01T00:01:00+00:00" "RUN_STOP" (runStartDetail "ad")

/-- The log with its first record, open for the next one. -/
theorem exists_started : ∃ f : AuditFile,
    Runs .compact World.start ⟨some f, some ⟨1, startRecord.hash⟩, [startRecord]⟩ ∧
      f.bytes.length + callSize stopRecord.call < 2 ^ 63 := by
  have hc := Crates.compact_lawful
  have hopened : Step .compact World.start ⟨none, some ⟨0, genesis⟩, []⟩ := .opened rfl
  obtain ⟨f, log, hfirst, hlen⟩ := (World.Ok.start.step hc hopened).exists_append rfl startRecord.call
    (plain_runStartDetail "ad") (by decide +kernel)
  have hr : Runs .compact World.start ⟨some f, some log, [startRecord]⟩ := .head hopened (.single hfirst)
  refine ⟨f, hr.tail (.opened ((World.Ok.start.run hc hr).intact.open_eq hc)), ?_⟩
  exact Nat.lt_of_le_of_lt (Nat.add_le_add_right hlen _) (by decide +kernel)

/-- The log with both of them. -/
theorem exists_ended {f : AuditFile}
    (h : Runs .compact World.start ⟨some f, some ⟨1, startRecord.hash⟩, [startRecord]⟩)
    (hlen : f.bytes.length + callSize stopRecord.call < 2 ^ 63) :
    ∃ f' log', Step .compact ⟨some f, some ⟨1, startRecord.hash⟩, [startRecord]⟩
      ⟨some f', some log', [startRecord, stopRecord]⟩ := by
  obtain ⟨f', log', hs, -⟩ := (World.Ok.start.run Crates.compact_lawful h).exists_append rfl stopRecord.call
    (plain_runStartDetail "ad") hlen
  exact ⟨f', log', hs⟩

end NexusAgent
