import NexusAgent.AuditRuns

/-!
# Evidence of tampering

A file that `verify` rejects stays one whatever later sessions append to it (`evidence_persists`). Where
the complete lines of the file are enough to stop `verify`, it never reads what is appended. Where the
unterminated last line is what stops it, the next record is glued to that line and does not parse.
-/

namespace NexusAgent
open Text

variable {c : Crates}

/-- `verify` on lines, each with whether a newline ended it. -/
def verifyLines (c : Crates) (ls : List (Bytes × Bool)) : Except AgentError VerifyReport :=
  verifyLoop c (ls.map fun l => AuditFile.lineResult (lineText l)) genesis 1 0

theorem verify_eq_verifyLines (f : AuditFile) :
    AuditLog.verify c (.ok f) = verifyLines c (rawLines f.bytes) := by
  show verifyLoop c ((readLines f.bytes).map AuditFile.lineResult) genesis 1 0 = _
  rw [readLines, List.map_map]
  rfl

/-- An error, or a report of a break. -/
def Rejected (res : Except AgentError VerifyReport) : Prop :=
  ∀ report, res = .ok report → report.ok = false

/-- The lines before `l` are accepted, and with `l` the break is reported. -/
structure FirstBroken (c : Crates) (f : AuditFile) (l : Bytes × Bool) (report : VerifyReport) : Prop where
  line : ∃ before after, rawLines f.bytes = before ++ l :: after ∧
    (∃ n, verifyLines c before = .ok ⟨n, true, none⟩) ∧ verifyLines c (before ++ [l]) = .ok report
  broken : report.ok = false

/-! ### `verify` and what follows -/

section
variable {ls : List (Except IoError String)} {prev : String} {seq count : UInt64}

/-- Once `verify` has stopped, it does not see what follows. -/
theorem verifyLoop_append (ls' : List (Except IoError String))
    (h : Rejected (verifyLoop c ls prev seq count)) :
    verifyLoop c (ls ++ ls') prev seq count = verifyLoop c ls prev seq count := by
  induction ls generalizing prev seq count with
  | nil =>
    have := h _ rfl
    cases this
  | cons l ls ih =>
    rcases l with e | line
    · rfl
    rw [List.cons_append]
    by_cases hb : isBlank line = true
    · rw [verifyLoop, if_pos hb] at h
      rw [verifyLoop, verifyLoop, if_pos hb, if_pos hb]
      exact ih h
    rw [verifyLoop, if_neg hb] at h
    rw [verifyLoop, verifyLoop, if_neg hb, if_neg hb]
    rcases hr : readLine c line with e | r
    · rfl
    rw [hr] at h
    dsimp only at h ⊢
    by_cases hl : r.seq ≠ seq ∨ r.prevHash ≠ prev ∨ r.hash ≠ computeHash c r.seq r.ts r.event r.detail prev
    · rw [if_pos hl, if_pos hl]
    · rw [if_neg hl] at h
      rw [if_neg hl, if_neg hl]
      exact ih h

theorem verifyLoop_blank {line : String} (hb : isBlank line = true) :
    verifyLoop c (ls ++ [.ok line]) prev seq count = verifyLoop c ls prev seq count := by
  induction ls generalizing prev seq count with
  | nil => rw [List.nil_append, verifyLoop.eq_3, if_pos hb]
  | cons l ls ih =>
    rcases l with e | l
    · rfl
    rw [List.cons_append, verifyLoop, verifyLoop]
    by_cases hl : isBlank l = true
    · rw [if_pos hl, if_pos hl, ih]
    rw [if_neg hl, if_neg hl]
    rcases readLine c l with e | r
    · rfl
    · dsimp only
      rw [ih]

/-- A reported break has a line. -/
theorem verifyLoop_broken {report : VerifyReport} (h : verifyLoop c ls prev seq count = .ok report)
    (hok : report.ok = false) : ∃ before l after, ls = before ++ l :: after ∧
      (∃ n, verifyLoop c before prev seq count = .ok ⟨n, true, none⟩) ∧
      verifyLoop c (before ++ [l]) prev seq count = .ok report := by
  induction ls generalizing prev seq count with
  | nil =>
    rw [verifyLoop] at h
    cases h
    cases hok
  | cons l ls ih =>
    rcases l with e | line
    · rw [verifyLoop] at h; cases h
    by_cases hb : isBlank line = true
    · rw [verifyLoop, if_pos hb] at h
      obtain ⟨before, l, after, rfl, ⟨n, hn⟩, hl⟩ := ih h
      refine ⟨.ok line :: before, l, after, rfl, ⟨n, ?_⟩, ?_⟩
      · rw [verifyLoop, if_pos hb, hn]
      · rw [List.cons_append, verifyLoop, if_pos hb, hl]
    rw [verifyLoop, if_neg hb] at h
    rcases hr : readLine c line with e | r
    · rw [hr] at h; cases h
    rw [hr] at h
    dsimp only at h
    by_cases hl : r.seq ≠ seq ∨ r.prevHash ≠ prev ∨ r.hash ≠ computeHash c r.seq r.ts r.event r.detail prev
    · refine ⟨[], .ok line, ls, rfl, ⟨count, rfl⟩, ?_⟩
      rw [if_pos hl] at h
      rw [List.nil_append, verifyLoop, if_neg hb, hr]
      dsimp only
      rw [if_pos hl, h]
    · rw [if_neg hl] at h
      obtain ⟨before, l, after, rfl, ⟨n, hn⟩, hlast⟩ := ih h
      refine ⟨.ok line :: before, l, after, rfl, ⟨n, ?_⟩, ?_⟩
      · rw [verifyLoop, if_neg hb, hr]
        dsimp only
        rw [if_neg hl, hn]
      · rw [List.cons_append, verifyLoop, if_neg hb, hr]
        dsimp only
        rw [if_neg hl, hlast]

end

theorem verifyLines_append {ls : List (Bytes × Bool)} (ls' : List (Bytes × Bool))
    (h : Rejected (verifyLines c ls)) : verifyLines c (ls ++ ls') = verifyLines c ls := by
  rw [verifyLines, List.map_append]
  exact verifyLoop_append _ h

theorem exists_firstBroken {f : AuditFile} {report : VerifyReport}
    (h : AuditLog.verify c (.ok f) = .ok report) (hok : report.ok = false) :
    ∃ l, FirstBroken c f l report := by
  rw [verify_eq_verifyLines] at h
  obtain ⟨before, l, after, hls, ⟨n, hn⟩, hl⟩ := verifyLoop_broken h hok
  obtain ⟨bs, rest, hraw, rfl, hrest⟩ := List.map_eq_append_iff.1 hls
  obtain ⟨p, as, rfl, rfl, rfl⟩ := List.map_eq_cons_iff.1 hrest
  refine ⟨p, ⟨bs, as, hraw, ⟨n, hn⟩, ?_⟩, hok⟩
  rw [verifyLines, List.map_append]
  exact hl

/-- A file with a line that does not parse is rejected. -/
theorem rejected_of_parsed {f : AuditFile} {err : AgentError} (h : .error err ∈ f.parsed c) :
    Rejected (AuditLog.verify c (.ok f)) := by
  intro report hrep
  by_contra hok
  rw [Bool.not_eq_false] at hok
  have hlen := length_parsed_lt c (f := f)
  obtain ⟨rs, hrs, -⟩ := verifyLoop_ok c hrep hok (by show 1 + (f.parsed c).length ≤ _; omega)
  have hrs : f.parsed c = rs.map .ok := hrs
  rw [hrs, List.mem_map] at h
  obtain ⟨r, -, hr⟩ := h
  cases hr

/-- Complete lines at the front of the file that stop `verify` decide what it returns. -/
theorem verify_of_front {f : AuditFile} {as x : Bytes} (hf : f.bytes = as ++ x) (has : Ended as)
    (h : Rejected (verifyLines c (rawLines as))) :
    AuditLog.verify c (.ok f) = verifyLines c (rawLines as) := by
  rw [verify_eq_verifyLines, hf, rawLines_append has]
  exact verifyLines_append _ h

/-- Nothing that stands after a broken line changes what is reported. -/
theorem FirstBroken.verify {f f' : AuditFile} {l : Bytes} {report : VerifyReport}
    (h : FirstBroken c f (l, true) report) (hf : f.bytes <+: f'.bytes) : AuditLog.verify c (.ok f') = .ok report := by
  obtain ⟨before, after, hraw, -, hreport⟩ := h.line
  obtain ⟨as, x, hsplit, hlines, has⟩ := rawLines_split hraw
  rw [← hlines] at hreport
  have hfront : Rejected (verifyLines c (rawLines as)) := by
    intro report' hres
    rw [hreport] at hres
    cases hres
    exact h.broken
  obtain ⟨y, hy⟩ := hf
  have hf' : f'.bytes = as ++ (x ++ y) := by rw [← hy, hsplit, List.append_assoc]
  rw [verify_of_front hf' has hfront, hreport]

/-! ### The last line and the next record -/

/-- A record written after text on the same line is glued to it, and the line of both does not parse. -/
theorem parsed_after_text (hc : c.Lawful) (hu : c.Unglued) {f : AuditFile} {as l rest : Bytes} {r : AuditRecord}
    {line : String} (hline : c.recordText r = .ok line) (hf : f.bytes = as ++ (l ++ (lineBytes line ++ rest)))
    (has : Ended as) (hl : newline ∉ l) (htext : ∀ t, fromUtf8 l = some t → isBlank t = false) :
    ∃ err, .error err ∈ f.parsed c := by
  obtain ⟨body, hbody⟩ := hc.braces r line hline
  have hglued : newline ∉ l ++ utf8 line := by
    rw [List.mem_append, not_or, newline_mem_utf8]
    exact ⟨hl, hc.one_line r line hline⟩
  have hbytes : f.bytes = as ++ ((l ++ utf8 line) ++ newline :: rest) := by
    rw [hf, lineBytes]
    simp only [List.append_assoc, List.singleton_append]
  suffices hlast : ∃ err, parsed c [AuditFile.lineResult (lineText (l ++ utf8 line, true))] = [.error err] by
    obtain ⟨err, herr⟩ := hlast
    refine ⟨err, ?_⟩
    rw [AuditFile.parsed, AuditFile.lines, hbytes, readLines_append has, List.map_append, parsed_append,
      readLines, readLines, rawLines_line hglued, List.map_cons, List.map_cons,
      ← List.singleton_append (l := List.map _ _), parsed_append, herr]
    simp
  rcases hdecoded : fromUtf8 (l ++ utf8 line) with _ | s
  · exact ⟨.io .invalidData, by rw [lineText, hdecoded]; rfl⟩
  obtain ⟨t, ht, rfl⟩ := fromUtf8_append (by decide) hbody hdecoded
  obtain ⟨e, he⟩ := hu r line t hline (htext t ht)
  have hend : (t ++ line).toList.getLast? ≠ some '\r' := by
    rw [String.toList_append, hbody, ← List.cons_append, ← List.append_assoc, List.getLast?_concat]
    decide
  have hnot : isBlank (t ++ line) = false := by
    rw [isBlank_eq_all, String.toList_append, List.all_append, hbody]
    show (_ && (false && _)) = false
    simp
  refine ⟨.audit s!"corrupt audit line: {e}", ?_⟩
  have hstrip : lineText (l ++ utf8 line, true) = some (t ++ line) := by
    rw [lineText, hdecoded, Option.map_some, if_neg]
    rw [Bool.true_and, beq_iff_eq]
    exact hend
  rw [hstrip]
  refine (parsed_line c hnot).trans ?_
  rw [readLine, he]
  rfl

/-- A record written after an unterminated last line that `verify` rejects is glued to it. -/
theorem parsed_glued (hc : c.Lawful) (hu : c.Unglued) {f f' : AuditFile} {as l : Bytes} {r : AuditRecord}
    {line : String} (hline : c.recordText r = .ok line) (hf : f.bytes = as ++ l) (has : Ended as)
    (hl : newline ∉ l) (hne : l ≠ []) (hfront : ¬ Rejected (verifyLines c (rawLines as)))
    (hb : Rejected (AuditLog.verify c (.ok f))) (hf' : f'.bytes = f.bytes ++ lineBytes line) :
    ∃ err, .error err ∈ f'.parsed c := by
  have hbytes : f'.bytes = as ++ (l ++ (lineBytes line ++ [])) := by
    rw [hf', hf, List.append_nil, List.append_assoc]
  refine parsed_after_text hc hu hline hbytes has hl ?_
  intro t ht
  -- a blank last line would not have stopped `verify`
  rw [← Bool.not_eq_true]
  intro hblank
  refine hfront ?_
  rw [verify_eq_verifyLines, hf, rawLines_append has, rawLines_last hne hl, verifyLines,
    List.map_append, List.map_singleton, lineText, ht] at hb
  rw [verifyLines, ← verifyLoop_blank hblank]
  exact hb

/-! ### Later sessions -/

/-- The file and the handles of the sessions on it. -/
structure Sessions where
  file : AuditFile
  logs : List AuditLog

/-- A session opens the log, or one of them appends a record. -/
inductive Sessions.Step (c : Crates) : Sessions → Sessions → Prop
  | opened {w : Sessions} {log : AuditLog} (h : AuditLog.open c (.ok w.file) = .ok log) :
    Step c w { w with logs := w.logs ++ [log] }
  | appended {w : Sessions} {before after : List AuditLog} {log log' : AuditLog} {ts event : String}
    {detail : Json} {out : WriteOutcome} {r : AuditRecord} {f : AuditFile}
    (hlogs : w.logs = before ++ log :: after)
    (h : log.append c ts event detail (some w.file) out = (.ok r, log', some f)) :
    Step c w ⟨f, before ++ log' :: after⟩

def Sessions.Runs (c : Crates) : Sessions → Sessions → Prop := Relation.ReflTransGen (Sessions.Step c)

namespace Sessions
variable {w w' : Sessions}

/-- A step leaves the file alone or writes the line of a record. -/
theorem Step.bytes (h : Step c w w') :
    w'.file = w.file ∨
      ∃ r line, c.recordText r = .ok line ∧ w'.file.bytes = w.file.bytes ++ lineBytes line := by
  cases h with
  | opened => exact .inl rfl
  | appended hlogs ha =>
    obtain ⟨-, -, line, f', hline, hf, hbytes⟩ := append_ok ha
    cases hf
    exact .inr ⟨_, line, hline, hbytes⟩

theorem Runs.bytes_prefix (h : Runs c w w') : w.file.bytes <+: w'.file.bytes := by
  induction h with
  | refl => exact List.prefix_rfl
  | tail _ hs ih =>
    rcases hs.bytes with hf | ⟨r, line, -, hf⟩
    · rw [hf]; exact ih
    · rw [hf]; exact ih.trans (List.prefix_append _ _)

theorem Step.rejected (hc : c.Lawful) (hu : c.Unglued) (h : Step c w w')
    (hb : Rejected (AuditLog.verify c (.ok w.file))) : Rejected (AuditLog.verify c (.ok w'.file)) := by
  rcases h.bytes with hf | ⟨r, line, hline, hf⟩
  · rw [hf]; exact hb
  obtain ⟨as, l, hsplit, has, hl⟩ := exists_last_line w.file.bytes
  by_cases hfront : Rejected (verifyLines c (rawLines as))
  · have hf' : w'.file.bytes = as ++ (l ++ lineBytes line) := by rw [hf, hsplit, List.append_assoc]
    rw [verify_of_front hf' has hfront]
    exact hfront
  · have hne : l ≠ [] := by
      rintro rfl
      refine hfront ?_
      rw [List.append_nil] at hsplit
      rw [verify_eq_verifyLines, hsplit] at hb
      exact hb
    obtain ⟨err, herr⟩ := parsed_glued hc hu hline hsplit has hl hne hfront hb hf
    exact rejected_of_parsed herr

theorem Runs.rejected (hc : c.Lawful) (hu : c.Unglued) (h : Runs c w w')
    (hb : Rejected (AuditLog.verify c (.ok w.file))) : Rejected (AuditLog.verify c (.ok w'.file)) := by
  induction h with
  | refl => exact hb
  | tail _ hs ih => exact hs.rejected hc hu ih

end Sessions

/-- A file that `verify` rejects stays rejected whatever later sessions append, and a break at a complete
line is reported the same for ever. -/
theorem evidence_persists (hc : c.Lawful) (hu : c.Unglued) {w w' : Sessions}
    (hr : Sessions.Runs c w w') (hb : Rejected (AuditLog.verify c (.ok w.file))) :
    Rejected (AuditLog.verify c (.ok w'.file)) ∧
      ∀ l report, FirstBroken c w.file (l, true) report →
        AuditLog.verify c (.ok w.file) = .ok report ∧ AuditLog.verify c (.ok w'.file) = .ok report := by
  refine ⟨hr.rejected hc hu hb, ?_⟩
  intro l report hl
  exact ⟨hl.verify List.prefix_rfl, hl.verify hr.bytes_prefix⟩

/-- A first record that claims to be the second one. -/
def renumbered : AuditRecord :=
  ⟨2, "2025-01-01T00:00:00+00:00", "RUN_START", runStartDetail "ad", genesis, genesis⟩

/-- A short file with this record only: it opens at the record, and is broken there. -/
theorem exists_renumbered : ∃ f l, f.bytes.length ≤ 5000 ∧
    AuditLog.open .compact (.ok f) = .ok ⟨2, genesis⟩ ∧ FirstBroken .compact f (l, true) ⟨0, false, some 2⟩ := by
  have hc := Crates.compact_lawful
  obtain ⟨line, hline⟩ := hc.prints renumbered
  have hprev : renumbered.prevHash.toList.length = 64 := by
    rw [renumbered]
    exact length_genesis
  have hlen : (lineBytes line).length ≤ callSize renumbered.call := by
    rw [← Except.ok.inj hline]
    exact length_line_le renumbered hprev hprev
  have hcall : callSize renumbered.call ≤ 5000 := by decide +kernel
  let f : AuditFile := ⟨lineBytes line, by omega⟩
  have hlines : f.lines = [.ok line] := by
    show (readLines (lineBytes line)).map AuditFile.lineResult = _
    rw [readLines_lineBytes hc hline]
    rfl
  have hparse : readLine Crates.compact line = .ok renumbered :=
    readLine_record hc (plain_runStartDetail _) hline
  have hraw : rawLines f.bytes = [(utf8 line, true)] :=
    rawLines_line (mt newline_mem_utf8.1 (hc.one_line _ line hline)) []
  refine ⟨f, utf8 line, by show (lineBytes line).length ≤ _; omega, ?_, ⟨[], [], hraw, ⟨0, rfl⟩, ?_⟩, rfl⟩
  · show openLoop _ f.lines _ _ = _
    rw [hlines, openLoop, not_blank hc hline, if_neg (by simp), hparse]
    rfl
  · rw [List.nil_append, ← hraw, ← verify_eq_verifyLines]
    show verifyLoop _ f.lines _ _ _ = _
    rw [hlines, verifyLoop, not_blank hc hline, if_neg (by simp), hparse]
    dsimp only
    rw [if_pos (.inl (by decide))]
    rfl

/-- A session on that file, and its report. -/
theorem evidence_persists_renumbered : ∃ w w' : Sessions, Sessions.Runs .compact w w' ∧
    w.file.bytes.length < w'.file.bytes.length ∧
      AuditLog.verify .compact (.ok w'.file) = .ok ⟨0, false, some 2⟩ := by
  have hc := Crates.compact_lawful
  obtain ⟨f, l, hf, hopen, hbroken⟩ := exists_renumbered
  let log : AuditLog := ⟨2, genesis⟩
  obtain ⟨line, hline⟩ := hc.prints
    (log.nextRecord .compact "2025-01-02T00:00:00+00:00" "RUN_START" (runStartDetail "ad"))
  have hlen : (lineBytes line).length ≤ 5000 := by
    cases hline
    exact Nat.le_trans (length_line_le _ length_genesis (Sha256.length_hexEncode _)) (by decide +kernel)
  have hroom : (lineBytes line).length ≤ f.room := by
    rw [AuditFile.room]
    omega
  have happend : log.append .compact _ _ _ (some f) .written = _ := append_written hline hroom
  have hlogs : (⟨f, [log]⟩ : Sessions).logs = [] ++ log :: [] := rfl
  have hr : Sessions.Runs .compact ⟨f, []⟩ _ :=
    (Relation.ReflTransGen.single (.opened hopen)).tail (.appended hlogs happend)
  have hb : Rejected (AuditLog.verify .compact (.ok f)) := by
    intro report hreport
    rw [hbroken.verify List.prefix_rfl] at hreport
    cases hreport
    rfl
  refine ⟨_, _, hr, ?_, ((evidence_persists hc Crates.compact_unglued hr hb).2 _ _ hbroken).2⟩
  show f.bytes.length < (f.write (lineBytes line)).bytes.length
  rw [write_of_room hroom, List.length_append, lineBytes, List.length_append, List.length_singleton]
  omega

end NexusAgent
