import Mathlib.Data.List.TakeWhile
import NexusAgent.Serde
import NexusAgent.Lib.SortedMap

/-!
# What comes over the wire

The values the agent decodes from the broker's JSON, and the library functions it uses (`Externals`).
-/

namespace NexusAgent
open Text

/-- One unit of work from the broker's queue (`server.rs`). -/
structure Operation where
  id : String
  opType : String
  userId : String
  userEmail : Option String
  attributesJson : Option String
  encryptedPassword : Option String
  directoryIntegrationId : Option String
  targetBaseDn : Option String
  forestContextJson : Option String
  deriving DecidableEq

/-- The forest an operation is for (`connectors/ldap.rs`). -/
structure ForestContext where
  forestId : String
  rootDn : String
  globalCatalogHost : Option String
  servers : List String
  authType : String
  useGmsa : Bool
  serviceAccount : Option String
  serviceAccountPasswordEncrypted : Option String
  useTls : Bool
  resourceForest : Bool
  deriving DecidableEq

structure RemoteDirectory where
  url : Option String
  bindDn : Option String
  baseDn : Option String
  passwordWriteback : Option Bool
  deriving DecidableEq

/-- The broker's live configuration (`config.rs`). -/
structure RemoteConfig where
  mode : Option String
  pollIntervalSecs : Option Nat
  directory : Option RemoteDirectory
  deriving DecidableEq

/-- A change to apply to the row with the key `key` (`server.rs`). -/
structure WritebackChange where
  key : String
  fields : SortedMap String String

/-- The library functions the agent calls, its environment variables, and its `kerberos` feature. -/
structure Externals extends Crates where
  env : String → Option String
  base64Decode : String → Except String Bytes
  /-- key, nonce, ciphertext with its tag -/
  aesDecrypt : Bytes → Bytes → Bytes → Option Bytes
  /-- the text of the error of `String::from_utf8` -/
  utf8Error : Bytes → String
  readAttributes : String → Except String (SortedMap String String)
  readForest : String → Except String ForestContext
  kerberos : Bool

/-- Libraries that read texts as given, with no environment variables and no keys. -/
def Externals.reading (readAttributes : String → Except String (SortedMap String String))
    (readForest : String → Except String ForestContext) (kerberos : Bool) : Externals :=
  { Crates.compact with
    env := fun _ => none
    base64Decode := fun _ => .error "Invalid padding"
    aesDecrypt := fun _ _ _ => none
    utf8Error := fun _ => "invalid utf-8 sequence"
    readAttributes, readForest, kerberos }

/-! ### Maps of strings -/

/-- The entries of an object, put into a map one after the other; their values have to be strings. -/
def insertStrings (m : SortedMap String String) : List (String × Json) → Except String (SortedMap String String)
  | [] => .ok m
  | (k, .str v) :: fields => insertStrings (m.insert k v) fields
  | _ => .error "invalid type, expected a string"

/-- `serde_json` reads a `BTreeMap<String, String>`. -/
def readStrings (text : String) : Except String (SortedMap String String) :=
  match Json.read text.toList with
  | some (.obj fields) => insertStrings .empty fields
  | some _ => .error "invalid type, expected a map"
  | none => .error "EOF while parsing a value"

def stringsText (m : SortedMap String String) : String :=
  String.ofList (Json.obj (m.entries.map fun e => (e.1, .str e.2))).text

theorem insertStrings_map (m : SortedMap String String) (es : List (String × String)) :
    insertStrings m (es.map fun e => (e.1, .str e.2)) = .ok (es.foldl (fun m e => m.insert e.1 e.2) m) := by
  induction es generalizing m with
  | nil => rfl
  | cons e es ih => exact ih (m.insert e.1 e.2)

theorem readStrings_stringsText (m : SortedMap String String) : readStrings (stringsText m) = .ok m := by
  unfold readStrings stringsText
  rw [String.toList_ofList, Json.read_text]
  exact (insertStrings_map .empty m.entries).trans (congrArg _ m.foldl_insert)

/-- Libraries that read attribute maps, and no forests. -/
def Externals.plain : Externals := .reading readStrings (fun _ => .error "EOF while parsing a value") false

/-! ### Strings -/

/-- `str::strip_prefix` -/
def stripPrefix (p s : String) : Option String :=
  if p.toList.isPrefixOf s.toList then some (String.ofList (s.toList.drop p.toList.length)) else none

/-- `s.split(sep).next()` -/
def splitNext (sep : Char) (s : String) : Option String :=
  some (String.ofList (s.toList.takeWhile (· != sep)))

/-- `s.rsplit(sep).next()` -/
def rsplitNext (sep : Char) (s : String) : Option String :=
  some (String.ofList (s.toList.reverse.takeWhile (· != sep)).reverse)

/-- `str::starts_with` -/
def startsWith (p s : String) : Bool := p.toList.isPrefixOf s.toList

/-- `str::eq_ignore_ascii_case` -/
def eqIgnoreAsciiCase (s t : String) : Bool := s.toList.map Char.toLower == t.toList.map Char.toLower

/-- `str::trim_end_matches` of a character -/
def trimEndMatches (c : Char) (s : String) : String :=
  String.ofList (s.toList.reverse.dropWhile (· == c)).reverse

/-- `Option::filter(|s| !s.is_empty())` -/
def nonEmpty (s : Option String) : Option String := s.filter (· ≠ "")

/-! ### Fields -/

section
variable {α : Type} [DecidableEq α] {l field : List α} {sep : α}

theorem takeWhile_ne_eq_iff :
    l.takeWhile (· != sep) = field ↔ sep ∉ field ∧ (l = field ∨ ∃ rest, l = field ++ sep :: rest) := by
  constructor
  · rintro rfl
    refine ⟨fun hmem => by simpa using List.mem_takeWhile_imp hmem, ?_⟩
    have hsplit := List.takeWhile_append_dropWhile (p := (· != sep)) (l := l)
    rcases hrest : l.dropWhile (· != sep) with _ | ⟨a, rest⟩
    · rw [hrest, List.append_nil] at hsplit
      exact .inl hsplit.symm
    · have ha : a = sep := by
        have h := List.head?_dropWhile_not (· != sep) l
        rw [hrest] at h
        simpa using h
      rw [hrest, ha] at hsplit
      exact .inr ⟨rest, hsplit.symm⟩
  · rintro ⟨hsep, hl⟩
    have hne : ∀ a ∈ field, (a != sep) = true := fun a ha => bne_iff_ne.2 fun he => hsep (he ▸ ha)
    rcases hl with rfl | ⟨rest, rfl⟩
    · rw [List.takeWhile_eq_self_iff]
      exact hne
    · rw [List.takeWhile_append_of_pos hne]
      simp

/-- The last field, read from the end. -/
theorem rtakeWhile_ne_eq_iff :
    (l.reverse.takeWhile (· != sep)).reverse = field ↔
      sep ∉ field ∧ (l = field ∨ ∃ rest, l = rest ++ sep :: field) := by
  rw [List.reverse_eq_iff, takeWhile_ne_eq_iff, List.mem_reverse, List.reverse_inj]
  refine and_congr_right fun _ => or_congr_right ?_
  constructor
  · rintro ⟨rest, h⟩
    refine ⟨rest.reverse, ?_⟩
    rw [← List.reverse_inj, h]
    simp
  · rintro ⟨rest, rfl⟩
    exact ⟨rest.reverse, by simp⟩

end

theorem ofList_eq_iff {cs : List Char} {s : String} : String.ofList cs = s ↔ cs = s.toList := by
  constructor
  · rintro rfl
    rw [String.toList_ofList]
  · rintro rfl
    rw [String.ofList_toList]

section
variable {s field : String} {sep : Char}

theorem splitNext_eq_some : splitNext sep s = some field ↔
    sep ∉ field.toList ∧ (s = field ∨ ∃ rest, s = field ++ String.singleton sep ++ rest) := by
  rw [splitNext, Option.some.injEq, ofList_eq_iff, takeWhile_ne_eq_iff, String.toList_inj]
  refine and_congr_right fun _ => or_congr_right ⟨?_, ?_⟩
  · rintro ⟨rest, h⟩
    refine ⟨String.ofList rest, String.toList_inj.1 ?_⟩
    rw [h]
    simp
  · rintro ⟨rest, rfl⟩
    exact ⟨rest.toList, by simp⟩

theorem rsplitNext_eq_some : rsplitNext sep s = some field ↔
    sep ∉ field.toList ∧ (s = field ∨ ∃ front, s = front ++ String.singleton sep ++ field) := by
  rw [rsplitNext, Option.some.injEq, ofList_eq_iff, rtakeWhile_ne_eq_iff, String.toList_inj]
  refine and_congr_right fun _ => or_congr_right ⟨?_, ?_⟩
  · rintro ⟨front, h⟩
    refine ⟨String.ofList front, String.toList_inj.1 ?_⟩
    rw [h]
    simp
  · rintro ⟨front, rfl⟩
    exact ⟨front.toList, by simp⟩

end

end NexusAgent
