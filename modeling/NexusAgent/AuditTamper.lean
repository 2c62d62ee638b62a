import NexusAgent.AuditRuns
import Mathlib.Data.List.Perm.Subperm

/-!
# Tampering with the log

Against a log written by `append`: a file that `verify` accepts and that ends in the hash of a record of
the log is the log up to that record (`verify_commits`); of the files made of the log's own lines `verify`
accepts exactly the prefixes of the log (`verify_rearranged`).
-/

namespace NexusAgent
open Text

variable {c : Crates}

/-! ### The hash input determines the record -/

/-- The bytes the hash of a record is taken of. -/
def AuditRecord.hashInput (c : Crates) (r : AuditRecord) : Bytes :=
  NexusAgent.hashInput c r.seq r.ts r.event r.detail r.prevHash

theorem hashInput_eq_joinLines (r : AuditRecord) :
    r.hashInput c = joinLines [utf8 (String.ofList (Json.digits r.seq.toNat)), utf8 r.ts, utf8 r.event,
      utf8 (c.valueText r.detail), utf8 r.prevHash] := rfl

/-- The fields that the caller and the chain supply are single lines. -/
structure AuditRecord.OneLine (r : AuditRecord) : Prop where
  ts : '\n' ∉ r.ts.toList
  event : '\n' ∉ r.event.toList
  prevHash : '\n' ∉ r.prevHash.toList

/-- A record with single-line fields shares its hash input with no other record, whatever the fields
of the other one hold. -/
theorem hashInput_injective (hv : c.ValueText) {r s : AuditRecord} (hs : s.OneLine)
    (h : r.hashInput c = s.hashInput c) (hash : r.hash = s.hash) : r = s := by
  have hlines : ∀ l ∈ [utf8 (String.ofList (Json.digits s.seq.toNat)), utf8 s.ts, utf8 s.event,
      utf8 (c.valueText s.detail), utf8 s.prevHash], newline ∉ l := by
    simp only [List.mem_cons, List.not_mem_nil, or_false, forall_eq_or_imp, forall_eq, newline_mem_utf8]
    exact ⟨by rw [String.toList_ofList]; exact Json.newline_not_mem_digits _, hs.ts, hs.event,
      hv.one_line _, hs.prevHash⟩
  rw [hashInput_eq_joinLines, hashInput_eq_joinLines] at h
  have hfields := joinLines_injective (by rfl) hlines h
  simp only [List.cons.injEq, and_true] at hfields
  obtain ⟨hseq, hts, hevent, hdetail, hprev⟩ := hfields
  have hseq := UInt64.toNat_inj.1 (Json.digits_injective (String.ofList_injective (utf8_injective hseq)))
  have hts := utf8_injective hts
  have hevent := utf8_injective hevent
  have hdetail := hv.injective _ _ (utf8_injective hdetail)
  have hprev := utf8_injective hprev
  rcases r with ⟨⟩
  rcases s with ⟨⟩
  simp_all

/-- No record of `rs` has a hash input that differs from one of `ss` but has the same digest. -/
def NoCollision (c : Crates) (rs ss : List AuditRecord) : Prop :=
  ∀ r ∈ rs, ∀ s ∈ ss, c.sha256 (r.hashInput c) = c.sha256 (s.hashInput c) →
    r.hashInput c = s.hashInput c

instance (rs ss : List AuditRecord) : Decidable (NoCollision c rs ss) :=
  inferInstanceAs (Decidable (∀ r ∈ rs, ∀ s ∈ ss, _ → _))

/-! ### A forged file -/

/-- The records of the lines that parse. -/
def AuditFile.records (c : Crates) (f : AuditFile) : List AuditRecord :=
  (f.parsed c).filterMap Except.toOption

theorem records_eq {f : AuditFile} {rs : List AuditRecord} (h : f.parsed c = rs.map .ok) :
    f.records c = rs := by
  rw [AuditFile.records, h, List.filterMap_map]
  exact List.filterMap_some

theorem oneLine_prevHash {rs : List AuditRecord} (h : (auditChain c).Valid 1 genesis rs) :
    ∀ r ∈ rs, '\n' ∉ r.prevHash.toList :=
  h.forall_prev (P := fun s => '\n' ∉ s.toList) (by decide +kernel)
    fun _ _ => Sha256.newline_not_mem_hexEncode _

/-- A file that `verify` accepts and whose last hash is that of record `k` of a log is that log up to
record `k`. -/
theorem verify_commits (hc : c.Lawful) (hv : c.ValueText) {w : World} (hr : Runs c World.start w)
    (hline : ∀ r ∈ w.appended, '\n' ∉ r.ts.toList ∧ '\n' ∉ r.event.toList)
    {f : AuditFile} {report : VerifyReport} (hf : AuditLog.verify c (.ok f) = .ok report)
    (hok : report.ok = true) (hsha : NoCollision c (f.records c) w.appended)
    {k : Nat} (hk : k < w.appended.length)
    (hlast : (f.records c).getLast?.map AuditRecord.hash = some w.appended[k].hash) :
    f.parsed c = (w.appended.take (k + 1)).map .ok := by
  have hi := (World.Ok.start.run hc hr).intact
  have hlen := length_parsed_lt c (f := f)
  obtain ⟨rs, hrs, hvalid⟩ := verifyLoop_ok c hf hok (by show 1 + (f.parsed c).length ≤ _; omega)
  have hrs : f.parsed c = rs.map .ok := hrs
  rw [records_eq hrs] at hsha hlast
  have htake := hi.valid.of_prefix (List.take_prefix (k + 1) w.appended)
  rw [hrs]
  congr 1
  refine HashChain.Valid.commit hvalid htake ?_ ?_ ?_ ?_
  · rintro rfl
    simp at hlast
  · intro h
    rcases List.take_eq_nil_iff.1 h with h | h
    · cases h
    · rw [h] at hk; cases hk
  · rw [HashChain.head_eq_getLast?, HashChain.head_eq_getLast?]
    show (rs.getLast?.map AuditRecord.hash).getD _ = ((List.take _ _).getLast?.map AuditRecord.hash).getD _
    rw [hlast, List.getLast?_take]
    simp [hk]
  · intro r hr s hs hdigest hhash
    have hs := List.mem_of_mem_take hs
    exact hashInput_injective hv ⟨(hline s hs).1, (hline s hs).2, oneLine_prevHash hi.valid s hs⟩
      (hsha r hr s hs (Sha256.hexEncode_injective hdigest)) hhash

/-- A log of two records, and its file when it had one. -/
theorem verify_commits_start : ∃ w w' : World, Runs .compact World.start w ∧ Runs .compact w w' ∧
    w'.appended = [startRecord, stopRecord] ∧
      (w.file.getD .empty).parsed .compact = (w'.appended.take 1).map .ok := by
  have hc := Crates.compact_lawful
  obtain ⟨f, hr, hlen⟩ := exists_started
  obtain ⟨f', log', hs⟩ := exists_ended hr hlen
  have hi := (World.Ok.start.run hc hr).intact
  have hrecords : f.records .compact = [startRecord] := records_eq (hi.parsed hc)
  refine ⟨_, _, hr, .single hs, rfl, ?_⟩
  refine verify_commits hc Crates.compact_valueText (hr.tail hs) ?_ (hi.verify_eq hc) rfl ?_ (k := 0) Nat.two_pos ?_
  · show ∀ r ∈ [startRecord, stopRecord], '\n' ∉ r.ts.toList ∧ '\n' ∉ r.event.toList
    decide +kernel
  · show NoCollision .compact (f.records .compact) [startRecord, stopRecord]
    rw [hrecords]
    decide +kernel
  · show (f.records .compact).getLast?.map AuditRecord.hash = some startRecord.hash
    rw [hrecords]
    rfl

/-! ### Rearranged lines -/

/-- Of the files made of lines of the log, each taken at most as often as it occurs there, and in any
order, `verify` accepts those that are a prefix of the log. -/
theorem verify_rearranged (hc : c.Lawful) {w : World} (hr : Runs c World.start w)
    {kept : List AuditRecord} (hsub : kept.Subperm w.appended) {f : AuditFile}
    (hf : readLines f.bytes = kept.map fun r => (c.recordText r).toOption) :
    (∃ report, AuditLog.verify c (.ok f) = .ok report ∧ report.ok = true) ↔ kept <+: w.appended := by
  have hi := (World.Ok.start.run hc hr).intact
  have hparsed : f.parsed c = kept.map .ok := by
    rw [AuditFile.parsed, AuditFile.lines, hf]
    exact parsed_records hc fun r hr => hi.plain r (hsub.subset hr)
  have hlen := length_parsed_lt c (f := f)
  constructor
  · rintro ⟨report, hv, hok⟩
    obtain ⟨rs, hrs, hvalid⟩ := verifyLoop_ok c hv hok (by show 1 + (f.parsed c).length ≤ _; omega)
    have hrs : f.parsed c = rs.map .ok := hrs
    rw [← records_eq hparsed, records_eq hrs]
    refine hi.valid.prefix_of_subset hvalid fun r hr => hsub.subset ?_
    rwa [← records_eq hparsed, records_eq hrs]
  · intro hpre
    exact ⟨_, (verify_ok_iff c).2 ⟨kept, hparsed, hi.valid.of_prefix hpre, rfl⟩, rfl⟩

/-- A deletion or reordering is detected unless it only cuts off the end of the log. -/
theorem rearrangement_detected_iff (hc : c.Lawful) {w : World} (hr : Runs c World.start w)
    {kept : List AuditRecord} (hsub : kept.Subperm w.appended) {f : AuditFile}
    (hf : readLines f.bytes = kept.map fun r => (c.recordText r).toOption) :
    (¬ ∃ report, AuditLog.verify c (.ok f) = .ok report ∧ report.ok = true) ↔
      ¬ kept <+: w.appended :=
  not_congr (verify_rearranged hc hr hsub hf)

/-- A log of two records, after the first and after the second one. -/
theorem exists_two_records : ∃ (w₁ w₂ : World) (r₁ r₂ : AuditRecord),
    Runs .compact World.start w₁ ∧ Runs .compact World.start w₂ ∧ w₁.appended = [r₁] ∧
      w₂.appended = [r₁, r₂] ∧ r₁.event = "RUN_START" ∧
      r₂.call = ("2025-01-01T00:05:00+00:00", "RUN_STOP", runStartDetail "ad") := by
  obtain ⟨w₁, h₁, hw₁, hf⟩ := World.Ok.start.exists_session
    [("2025-01-01T00:00:00+00:00", "RUN_START", runStartDetail "ad")] (by decide) (by decide +kernel)
  obtain ⟨w₂, h₂, hw₂, -⟩ := (World.Ok.start.run Crates.compact_lawful h₁).exists_session
    [("2025-01-01T00:05:00+00:00", "RUN_STOP", runStartDetail "ad")] (by decide)
    (Nat.lt_of_le_of_lt (Nat.add_le_add_right hf _) (by decide +kernel))
  obtain ⟨r₁, happ₁, hcall₁⟩ := List.map_eq_singleton_iff.1 hw₁
  obtain ⟨rest, hrest⟩ := h₂.appended_prefix
  rw [← hrest, List.map_append, List.append_cancel_left_eq, List.map_eq_singleton_iff] at hw₂
  obtain ⟨r₂, rfl, hcall₂⟩ := hw₂
  refine ⟨w₁, w₂, r₁, r₂, h₁, h₁.trans h₂, happ₁, by rw [← hrest, happ₁]; rfl, ?_, hcall₂⟩
  exact congrArg (fun call : String × String × Json => call.2.1) hcall₁

/-- Deleting the last record of a log is not detected. -/
theorem cut_not_detected : ∃ (w : World) (kept : List AuditRecord) (f : AuditFile),
    Runs .compact World.start w ∧ w.appended.map AuditRecord.event = ["RUN_START", "RUN_STOP"] ∧
      kept.map AuditRecord.event = ["RUN_START"] ∧ kept.Subperm w.appended ∧ kept ≠ w.appended ∧
      readLines f.bytes = kept.map (fun r => (Crates.compact.recordText r).toOption) ∧
      ∃ report, AuditLog.verify .compact (.ok f) = .ok report ∧ report.ok = true := by
  have hc := Crates.compact_lawful
  obtain ⟨w₁, w₂, r₁, r₂, h₁, h₂, happ₁, happ₂, hr₁, hr₂⟩ := exists_two_records
  have hlines := (World.Ok.start.run hc h₁).intact.lines
  have hpre : w₁.appended <+: w₂.appended := by rw [happ₁, happ₂]; exact ⟨[r₂], rfl⟩
  refine ⟨w₂, w₁.appended, w₁.file.getD .empty, h₂, ?_, ?_, hpre.sublist.subperm, ?_, hlines, ?_⟩
  · rw [happ₂, List.map_cons, List.map_singleton, hr₁]
    rw [show r₂.event = "RUN_STOP" from congrArg (fun call : String × String × Json => call.2.1) hr₂]
  · rw [happ₁, List.map_singleton, hr₁]
  · rw [happ₁, happ₂]; simp
  · exact (verify_rearranged hc h₂ hpre.sublist.subperm hlines).2 hpre

/-- Deleting the first record of a log is detected. -/
theorem rearrangement_detected_head : ∃ (w : World) (f : AuditFile) (r₁ r₂ : AuditRecord),
    w.appended = [r₁, r₂] ∧ readLines f.bytes = [(Crates.compact.recordText r₂).toOption] ∧
      ((¬ ∃ report, AuditLog.verify .compact (.ok f) = .ok report ∧ report.ok = true) ↔
        ¬ [r₂] <+: w.appended) := by
  have hc := Crates.compact_lawful
  obtain ⟨w₁, w, r₁, r₂, -, h, -, happ, hr₁, hr₂⟩ := exists_two_records
  have hvalid := (World.Ok.start.run hc h).intact.valid
  have hmem : r₂ ∈ w.appended := by rw [happ]; simp
  have hprev := hvalid.forall_prev (P := fun s => s.toList.length = 64) (by decide +kernel)
    (fun _ _ => Sha256.length_hexEncode _) r₂ hmem
  have hhash : r₂.hash.toList.length = 64 :=
    (congrArg (·.toList.length) (hvalid.hash_eq r₂ hmem)).trans (Sha256.length_hexEncode _)
  have hsize := length_line_le r₂ hprev hhash
  have hroom : callSize r₂.call ≤ AuditFile.empty.room := by rw [hr₂]; decide +kernel
  have hl : Crates.compact.recordText r₂ = .ok (String.ofList (recordJson r₂).text) := rfl
  generalize String.ofList (recordJson r₂).text = line at hl hsize
  have hlines : readLines (AuditFile.empty.write (lineBytes line)).bytes =
      [r₂].map fun r => (Crates.compact.recordText r).toOption := by
    rw [write_of_room (Nat.le_trans hsize hroom), List.map_singleton, hl]
    exact readLines_lineBytes hc hl
  have hsub : [r₂].Subperm w.appended := List.singleton_subperm_iff.2 hmem
  exact ⟨w, _, r₁, r₂, happ, hlines, rearrangement_detected_iff hc h hsub hlines⟩

end NexusAgent
