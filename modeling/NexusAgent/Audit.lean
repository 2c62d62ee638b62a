import NexusAgent.Error
import NexusAgent.Lib.Json
import NexusAgent.Lib.Sha256

/-!
# The event log (`audit.rs`)

The log file is its bytes. What `sha2` and `serde_json` compute is a parameter (`Crates`), and so is
what the file system does with one append (`WriteOutcome`).
-/

namespace NexusAgent
open Text

structure AuditRecord where
  seq : UInt64
  ts : String
  event : String
  detail : Json
  prevHash : String
  hash : String
  deriving DecidableEq

/-- The library functions the log calls. -/
structure Crates where
  sha256 : Bytes → Vector UInt8 32
  /-- `Value::to_string` -/
  valueText : Json → String
  /-- `serde_json::to_string` of a record -/
  recordText : AuditRecord → Except String String
  /-- `serde_json::from_str` into a record -/
  readRecord : String → Except String AuditRecord

def genesis : String := "0000000000000000000000000000000000000000000000000000000000000000"

/-! ### Counters -/

structure SyncCounters where
  inspected : Nat := 0
  created : Nat := 0
  updated : Nat := 0
  disabled : Nat := 0
  failed : Nat := 0
  deriving Repr, DecidableEq

def SyncCounters.recordOk (c : SyncCounters) (op : String) : SyncCounters :=
  let c := { c with inspected := c.inspected + 1 }
  if op = "CREATE_ACCOUNT" then { c with created := c.created + 1 }
  else if op = "UPDATE_ATTRIBUTES" ∨ op = "ENABLE_ACCOUNT" then { c with updated := c.updated + 1 }
  else if op = "DISABLE_ACCOUNT" then { c with disabled := c.disabled + 1 }
  else c

def SyncCounters.recordFailure (c : SyncCounters) : SyncCounters :=
  { c with inspected := c.inspected + 1, failed := c.failed + 1 }

/-- The counters as a JSON value; the keys of a `serde_json` object are sorted. -/
def SyncCounters.toJson (c : SyncCounters) : Json :=
  .obj [("created", .ofNat c.created), ("disabled", .ofNat c.disabled), ("failed", .ofNat c.failed),
    ("inspected", .ofNat c.inspected), ("updated", .ofNat c.updated)]

/-! ### The file -/

/-- The file at the log's path. File offsets are signed 64-bit numbers. -/
structure AuditFile where
  bytes : Bytes
  size : bytes.length < 2 ^ 63

namespace AuditFile

def empty : AuditFile := ⟨[], by decide⟩

/-- How many more bytes the file can hold. -/
def room (f : AuditFile) : Nat := 2 ^ 63 - 1 - f.bytes.length

/-- Appends as much of `bs` as the file can hold. -/
def write (f : AuditFile) (bs : Bytes) : AuditFile :=
  ⟨f.bytes ++ bs.take f.room, by
    have := f.size
    have := List.length_take_le f.room bs
    simp only [List.length_append, room] at *
    omega⟩

def lineResult : Option String → Except IoError String
  | some s => .ok s
  | none => .error .invalidData

/-- The lines of a `BufReader` over the file. -/
def lines (f : AuditFile) : List (Except IoError String) := (readLines f.bytes).map lineResult

end AuditFile

/-- What the file system does with one append: it refuses to open the file, it takes the first `n`
bytes and then reports an error, or it takes every byte there is room for. -/
inductive WriteOutcome where
  | openFails (e : IoError)
  | writeFails (n : Nat) (e : IoError)
  | written

def lineBytes (line : String) : Bytes := utf8 line ++ [newline]

/-- Opening the file for appending, creating it where it is missing, and `writeln!`. -/
def writeln (file : Option AuditFile) (line : String) :
    WriteOutcome → Except IoError Unit × Option AuditFile
  | .openFails e => (.error e, file)
  | .writeFails n e => (.error e, some ((file.getD .empty).write ((lineBytes line).take n)))
  | .written =>
    let f := file.getD .empty
    (if (lineBytes line).length ≤ f.room then .ok () else .error (.other "File too large (os error 27)"),
      some (f.write (lineBytes line)))

/-- `File::open` on the log's path. -/
def fileOpen : Option AuditFile → Except IoError AuditFile
  | some f => .ok f
  | none => .error .notFound

/-! ### The log -/

structure AuditLog where
  lastSeq : UInt64
  lastHash : String
  deriving DecidableEq

structure VerifyReport where
  records : UInt64
  ok : Bool
  brokenAt : Option UInt64
  deriving Repr, DecidableEq

variable (c : Crates)

def readLine (line : String) : Except AgentError AuditRecord :=
  (c.readRecord line).mapError fun e => .audit s!"corrupt audit line: {e}"

/-- The bytes `compute_hash` feeds to the hash. -/
def hashInput (seq : UInt64) (ts event : String) (detail : Json) (prev : String) : Bytes :=
  utf8 (String.ofList (Json.digits seq.toNat)) ++ newline :: (utf8 ts ++ newline :: (utf8 event ++
    newline :: (utf8 (c.valueText detail) ++ newline :: utf8 prev)))

def computeHash (seq : UInt64) (ts event : String) (detail : Json) (prev : String) : String :=
  Sha256.hexEncode (c.sha256 (hashInput c seq ts event detail prev))

def openLoop : List (Except IoError String) → UInt64 → String → Except AgentError AuditLog
  | [], seq, hash => .ok ⟨seq, hash⟩
  | .error e :: _, _, _ => .error (.io e)
  | .ok line :: rest, seq, hash =>
    if isBlank line then openLoop rest seq hash
    else match readLine c line with
      | .error e => .error e
      | .ok r => openLoop rest r.seq r.hash

def AuditLog.open : Except IoError AuditFile → Except AgentError AuditLog
  | .ok f => openLoop c f.lines 0 genesis
  | .error .notFound => .ok ⟨0, genesis⟩
  | .error e => .error (.io e)

/-- The record, the handle and the file after an `append` at the time `ts`. -/
def AuditLog.append (log : AuditLog) (ts event : String) (detail : Json) (file : Option AuditFile)
    (out : WriteOutcome) : Except AgentError AuditRecord × AuditLog × Option AuditFile :=
  let seq := log.lastSeq + 1
  let hash := computeHash c seq ts event detail log.lastHash
  let r : AuditRecord := ⟨seq, ts, event, detail, log.lastHash, hash⟩
  match c.recordText r with
  | .error e => (.error (.audit s!"serialize: {e}"), log, file)
  | .ok line =>
    match writeln file line out with
    | (.error e, file) => (.error (.io e), log, file)
    | (.ok (), file) => (.ok r, ⟨seq, hash⟩, file)

def runStartDetail (mode : String) : Json := .obj [("mode", .str mode)]

def summaryDetail (mode : String) (counters : SyncCounters) : Json :=
  .obj [("counts", counters.toJson), ("mode", .str mode)]

def verifyLoop : List (Except IoError String) → String → UInt64 → UInt64 →
    Except AgentError VerifyReport
  | [], _, _, count => .ok ⟨count, true, none⟩
  | .error e :: _, _, _, _ => .error (.io e)
  | .ok line :: rest, prev, expectedSeq, count =>
    if isBlank line then verifyLoop rest prev expectedSeq count
    else match readLine c line with
      | .error e => .error e
      | .ok r =>
        let recomputed := computeHash c r.seq r.ts r.event r.detail prev
        if r.seq ≠ expectedSeq ∨ r.prevHash ≠ prev ∨ r.hash ≠ recomputed then
          .ok ⟨count, false, some r.seq⟩
        else verifyLoop rest r.hash (expectedSeq + 1) (count + 1)

def AuditLog.verify : Except IoError AuditFile → Except AgentError VerifyReport
  | .ok f => verifyLoop c f.lines genesis 1 0
  | .error .notFound => .ok ⟨0, true, none⟩
  | .error e => .error (.io e)

end NexusAgent
