import NexusAgent.AuditRuns

/-!
# A crash during an append

The process dies when the first `k` bytes of a record's line, newline included, have reached the file.
With no byte or with all of them there, the log goes on (`Recovers`). With the record but not its newline
there, the log opens and verifies with one record more. In between, the torn line does not parse, and `open`
refuses the log; the records before it are still there (`crash_outcome`).
-/

namespace NexusAgent
open Text

variable {c : Crates}

/-- The file after the first `k` bytes of the line of an `append`. -/
def AuditLog.crashFile (c : Crates) (log : AuditLog) (ts event : String) (detail : Json)
    (file : Option AuditFile) (k : Nat) : Option AuditFile :=
  (log.append c ts event detail file (.writeFails k (.other "crash"))).2.2

/-- After a restart on this file, `open` succeeds, and whatever is appended from then on, `verify` accepts
the log and the records `rs` are still its first ones. -/
structure Recovers (c : Crates) (file : Option AuditFile) (rs : List AuditRecord) : Prop where
  opens : ∃ log, AuditLog.open c (fileOpen file) = .ok log
  continues : ∀ w, Runs c ⟨file, none, rs⟩ w →
    (∃ report, AuditLog.verify c (fileOpen w.file) = .ok report ∧ report.ok = true) ∧
      ∃ more, (w.file.getD .empty).parsed c = (rs ++ more).map .ok

/-- What has been appended so far does not matter to a run. -/
theorem Runs.reappended {w w' : World} (h : Runs c w w') (rs : List AuditRecord) :
    ∃ rs', Runs c { w with appended := rs } { w' with appended := rs' } := by
  induction h with
  | refl => exact ⟨rs, .refl⟩
  | tail _ hs ih =>
    obtain ⟨rs', hr⟩ := ih
    rcases hs with ho | ⟨hlog, hp, ha⟩
    · exact ⟨rs', hr.tail (.opened ho)⟩
    · exact ⟨_, hr.tail (.appended hlog hp ha)⟩

/-- An intact log that begins with the records `rs` recovers them. -/
theorem Intact.recovers (hc : c.Lawful) {file : Option AuditFile} {rs extra : List AuditRecord}
    (h : Intact c file (rs ++ extra)) : Recovers c file rs := by
  refine ⟨⟨_, h.open_eq hc⟩, fun w hr => ?_⟩
  obtain ⟨all, hr⟩ := hr.reappended (rs ++ extra)
  have hok : World.Ok c ⟨file, none, rs ++ extra⟩ := ⟨h, fun _ hlog => by cases hlog⟩
  have hi := (hok.run hc hr).intact
  obtain ⟨more, hmore⟩ := hr.appended_prefix
  refine ⟨⟨_, (verify_fileOpen c w.file).trans (hi.verify_eq hc), rfl⟩, extra ++ more, ?_⟩
  rw [← List.append_assoc]
  exact (hi.parsed hc).trans (by rw [hmore])

section
variable {log : AuditLog} {ts event line : String} {detail : Json} {file : Option AuditFile} {k : Nat}
  {rs : List AuditRecord}

theorem crashFile_bytes (file : Option AuditFile)
    (hl : c.recordText (log.nextRecord c ts event detail) = .ok line)
    (hroom : k ≤ (file.getD .empty).room) :
    ((log.crashFile c ts event detail file k).getD .empty).bytes =
      (file.getD .empty).bytes ++ (lineBytes line).take k := by
  unfold AuditLog.nextRecord at hl
  simp only [AuditLog.crashFile, AuditLog.append, hl, writeln]
  exact write_of_room (Nat.le_trans (List.length_take_le ..) hroom)

/-- An unterminated line after an intact log is one more line. -/
theorem Intact.parsed_last (hc : c.Lawful) (h : Intact c file rs) {f : AuditFile} {bs : Bytes}
    (hf : f.bytes = (file.getD .empty).bytes ++ bs) (hne : bs ≠ []) (hbs : newline ∉ bs) :
    f.parsed c = rs.map .ok ++ NexusAgent.parsed c [AuditFile.lineResult (fromUtf8 bs)] := by
  rw [AuditFile.parsed, AuditFile.lines, hf, readLines_append h.ended, List.map_append,
    parsed_append, ← h.parsed hc]
  rw [readLines, readLines, rawLines_last hne hbs]
  show _ ++ NexusAgent.parsed c [AuditFile.lineResult ((fromUtf8 bs).map id)] = _
  rw [Option.map_id]; rfl

/-- A torn line does not parse. -/
theorem parsed_torn (hc : c.Lawful) (ht : c.Truncated) {r : AuditRecord} (hl : c.recordText r = .ok line)
    (h0 : 0 < k) (hk : k < (utf8 line).length) :
    ∃ e, NexusAgent.parsed c [AuditFile.lineResult (fromUtf8 ((utf8 line).take k))] = [.error e] := by
  rcases hs : fromUtf8 ((utf8 line).take k) with _ | s
  · exact ⟨_, rfl⟩
  have hs := utf8_of_fromUtf8 hs
  have hpre : s.toList <+: line.toList :=
    prefix_of_utf8_append (by rw [hs]; exact List.take_append_drop k (utf8 line))
  have hlen : (utf8 s).length = k := by rw [hs, List.length_take]; omega
  have hne : s ≠ line := by rintro rfl; omega
  obtain ⟨e, he⟩ := ht r line s hl hpre hne
  have hblank : isBlank s = false := by
    obtain ⟨body, hbody⟩ := hc.braces r line hl
    obtain ⟨rest, hrest⟩ := hpre
    rcases hcs : s.toList with _ | ⟨a, as⟩
    · rw [utf8, hcs] at hlen; simp at hlen; omega
    · rw [hcs, hbody, List.cons_append] at hrest
      rw [isBlank_eq_all, hcs, (List.cons.inj hrest).1]; rfl
  refine ⟨.audit s!"corrupt audit line: {e}", (parsed_line c hblank).trans ?_⟩
  rw [readLine, he]; rfl

theorem Intact.crash_none (h : Intact c file rs)
    (hl : c.recordText (log.nextRecord c ts event detail) = .ok line) :
    Intact c (log.crashFile c ts event detail file 0) rs := by
  have hbytes := crashFile_bytes file hl (Nat.zero_le _)
  rw [List.take_zero, List.append_nil] at hbytes
  exact ⟨hbytes ▸ h.ended, hbytes ▸ h.lines, h.plain, h.valid⟩

theorem Intact.crash_all (hc : c.Lawful) (h : Intact c file rs) (hlog : log.Follows c rs)
    (hp : Plain detail) (hl : c.recordText (log.nextRecord c ts event detail) = .ok line)
    (hroom : (lineBytes line).length ≤ (file.getD .empty).room) :
    Intact c (log.crashFile c ts event detail file (lineBytes line).length)
      (rs ++ [log.nextRecord c ts event detail]) := by
  have hi := (h.append hc hlog hp (append_written hl hroom)).1
  have hbytes := crashFile_bytes file hl hroom
  rw [List.take_length, ← write_of_room hroom] at hbytes
  exact ⟨hbytes ▸ hi.ended, hbytes ▸ hi.lines, hi.plain, hi.valid⟩

theorem one_lt_length_line (hc : c.Lawful) {r : AuditRecord} (hl : c.recordText r = .ok line) :
    1 < (utf8 line).length := by
  obtain ⟨body, hbody⟩ := hc.braces _ _ hl
  refine Nat.lt_of_lt_of_le ?_ (length_le_length_utf8 line)
  rw [hbody]; simp

theorem take_lineBytes (hk : k ≤ (utf8 line).length) : (lineBytes line).take k = (utf8 line).take k := by
  rw [lineBytes, List.take_append_of_le_length hk]

/-- The crash leaves a last line without a newline. -/
theorem Intact.crash_last (hc : c.Lawful) (h : Intact c file rs)
    (hl : c.recordText (log.nextRecord c ts event detail) = .ok line) (h0 : 0 < k)
    (hk : k ≤ (utf8 line).length) (hroom : k ≤ (file.getD .empty).room) :
    ((log.crashFile c ts event detail file k).getD .empty).parsed c =
      rs.map .ok ++ NexusAgent.parsed c [AuditFile.lineResult (fromUtf8 ((utf8 line).take k))] := by
  have hbytes := crashFile_bytes file hl hroom
  rw [take_lineBytes hk] at hbytes
  refine h.parsed_last hc hbytes ?_ fun hm => ?_
  · intro he
    have := congrArg List.length he
    rw [List.length_take, List.length_nil] at this
    omega
  · exact hc.one_line _ _ hl (newline_mem_utf8.1 (List.mem_of_mem_take hm))

theorem Intact.crash_torn (hc : c.Lawful) (ht : c.Truncated) (h : Intact c file rs)
    (hl : c.recordText (log.nextRecord c ts event detail) = .ok line) (h0 : 0 < k)
    (hk : k < (utf8 line).length) (hroom : k ≤ (file.getD .empty).room) :
    (∃ e, AuditLog.open c (fileOpen (log.crashFile c ts event detail file k)) = .error e) ∧
      ∃ e, ((log.crashFile c ts event detail file k).getD .empty).parsed c = rs.map .ok ++ [.error e] := by
  obtain ⟨e, he⟩ := parsed_torn hc ht hl h0 hk
  have hparsed := h.crash_last hc hl h0 (Nat.le_of_lt hk) hroom
  rw [he] at hparsed
  refine ⟨?_, e, hparsed⟩
  rw [open_fileOpen]
  exact openLoop_error c (show .error e ∈ AuditFile.parsed c _ by rw [hparsed]; simp)

end

/-- What a restart finds after a crash at byte `k` of the line of an append. -/
theorem crash_outcome (hc : c.Lawful) (ht : c.Truncated) {w : World} (hr : Runs c World.start w)
    {log : AuditLog} (hlog : w.log = some log) {ts event line : String} {detail : Json}
    (hp : Plain detail) (hl : c.recordText (log.nextRecord c ts event detail) = .ok line) {k : Nat}
    (hk : k ≤ (lineBytes line).length) (hroom : k ≤ (w.file.getD .empty).room) :
    let file := log.crashFile c ts event detail w.file k
    (k = 0 ∨ k = (lineBytes line).length → Recovers c file w.appended) ∧
    (k = (utf8 line).length →
      (∃ log', AuditLog.open c (fileOpen file) = .ok log') ∧
      (∃ report, AuditLog.verify c (fileOpen file) = .ok report ∧ report.ok = true) ∧
      (file.getD .empty).parsed c =
        (w.appended ++ [log.nextRecord c ts event detail]).map .ok) ∧
    (0 < k → k < (utf8 line).length →
      (∃ e, AuditLog.open c (fileOpen file) = .error e) ∧
      ∃ e, (file.getD .empty).parsed c = w.appended.map .ok ++ [.error e]) := by
  have hok := World.Ok.start.run hc hr
  have hi := hok.intact
  have hf := hok.follows log hlog
  have hlink := hi.links_next hc hf ts event detail
  intro file
  refine ⟨?_, ?_, ?_⟩
  · rintro (rfl | rfl)
    · have hnone := hi.crash_none hl
      rw [← List.append_nil w.appended] at hnone
      exact hnone.recovers hc
    · exact (hi.crash_all hc hf hp hl hroom).recovers hc
  · rintro rfl
    have h0 := Nat.lt_of_succ_lt (one_lt_length_line hc hl)
    have hparsed := hi.crash_last hc hl h0 (Nat.le_refl _) hroom
    rw [List.take_length, fromUtf8_utf8] at hparsed
    have hlast : NexusAgent.parsed c [.ok line] = [.ok (log.nextRecord c ts event detail)] := by
      rw [parsed_line c (not_blank hc hl), readLine, hc.reads _ line hp hl]; rfl
    have hall : (file.getD .empty).parsed c =
        (w.appended ++ [log.nextRecord c ts event detail]).map .ok := by
      rw [List.map_append]
      exact hparsed.trans (congrArg _ hlast)
    have hverify := (verify_ok_iff c).2 ⟨_, hall, (auditChain c).valid_snoc.2 ⟨hi.valid, hlink⟩, rfl⟩
    exact ⟨⟨_, (open_fileOpen c file).trans (openLoop_records c hall)⟩,
      ⟨_, (verify_fileOpen c file).trans hverify, rfl⟩, hall⟩
  · exact fun h0 hk => hi.crash_torn hc ht hl h0 hk hroom

/-- The line of a second record: missing, whole, without its newline, and torn after its first byte. -/
theorem crash_outcome_stop : ∃ (f : AuditFile) (line : String),
    Runs .compact World.start ⟨some f, some ⟨1, startRecord.hash⟩, [startRecord]⟩ ∧
      Crates.compact.recordText stopRecord = .ok line ∧
      let file := AuditLog.crashFile .compact ⟨1, startRecord.hash⟩ stopRecord.ts stopRecord.event stopRecord.detail
        (some f)
      Recovers .compact (file 0) [startRecord] ∧ Recovers .compact (file (lineBytes line).length) [startRecord] ∧
      ((∃ log', AuditLog.open .compact (fileOpen (file (utf8 line).length)) = .ok log') ∧
        (∃ report, AuditLog.verify .compact (fileOpen (file (utf8 line).length)) = .ok report ∧ report.ok = true) ∧
        ((file (utf8 line).length).getD .empty).parsed .compact = [.ok startRecord, .ok stopRecord]) ∧
      (∃ e, AuditLog.open .compact (fileOpen (file 1)) = .error e) ∧
      ∃ e, ((file 1).getD .empty).parsed .compact = [.ok startRecord, .error e] := by
  have hc := Crates.compact_lawful
  have ht := Crates.compact_truncated
  obtain ⟨f, hr, hlen⟩ := exists_started
  obtain ⟨line, hl⟩ := hc.prints stopRecord
  have hline : (lineBytes line).length ≤ callSize stopRecord.call := by
    rw [← Except.ok.inj hl]
    exact length_line_le _ (Sha256.length_hexEncode _) (Sha256.length_hexEncode _)
  have hroom : (lineBytes line).length ≤ f.room := by
    rw [AuditFile.room]
    omega
  have hshort : (utf8 line).length ≤ (lineBytes line).length := by simp [lineBytes]
  have hlong := one_lt_length_line hc hl
  have h (k : Nat) (hk : k ≤ (lineBytes line).length) := crash_outcome hc ht hr rfl (plain_runStartDetail "ad") hl hk
    (Nat.le_trans hk hroom)
  refine ⟨f, line, hr, hl, (h 0 (Nat.zero_le _)).1 (.inl rfl), (h _ le_rfl).1 (.inr rfl), (h _ hshort).2.1 rfl, ?_⟩
  exact (h 1 (by omega)).2.2 Nat.one_pos hlong

/-- A crash after the first byte of the first record's line: `open` does not succeed. -/
theorem torn_record_refused :
    Runs .compact World.start ⟨none, some ⟨0, genesis⟩, []⟩ ∧
    (∃ line, Crates.compact.recordText (AuditLog.nextRecord .compact ⟨0, genesis⟩
      "2025-01-01T00:00:00+00:00" "RUN_START" (runStartDetail "ad")) = .ok line ∧
      1 ≤ (lineBytes line).length) ∧
    ¬ Recovers .compact (AuditLog.crashFile .compact ⟨0, genesis⟩ "2025-01-01T00:00:00+00:00"
      "RUN_START" (runStartDetail "ad") none 1) [] := by
  have hc := Crates.compact_lawful
  have hr : Runs .compact World.start ⟨none, some ⟨0, genesis⟩, []⟩ := .single (.opened rfl)
  obtain ⟨line, hl⟩ := hc.prints (AuditLog.nextRecord .compact ⟨0, genesis⟩
    "2025-01-01T00:00:00+00:00" "RUN_START" (runStartDetail "ad"))
  refine ⟨hr, ⟨line, hl, by simp [lineBytes]⟩, fun h => ?_⟩
  obtain ⟨log, hopen⟩ := h.opens
  obtain ⟨⟨e, he⟩, -⟩ := (World.Ok.start.run hc hr).intact.crash_torn hc Crates.compact_truncated hl
    (by decide) (one_lt_length_line hc hl) (by decide)
  rw [he] at hopen
  cases hopen

end NexusAgent
