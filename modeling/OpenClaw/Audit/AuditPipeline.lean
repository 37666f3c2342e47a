import OpenClaw.Foundation.JsonRoundTrip
import OpenClaw.Foundation.TextBytes

/-!
# The audit log

`services/audit_pipeline.py` and the writer of `services/audit.py`. The log is a chain of files:
the active one, and the rotated ones that carry a number. A file is its text, with a line feed for
a line end. The keyed hash of the standard library is a parameter.
-/

namespace OpenClaw.Audit

open Foundation
set_option autoImplicit false

/-- What the pipeline gets from the interpreter: floats, the text of a JSON decoding error, and
`hmac.digest` under the chain key. -/
structure Runtime (φ : Type) where
  floats : Json.FloatFormat φ
  decodeError : List Char → String
  digest : List UInt8 → List UInt8
  digest_ne_nil : ∀ message, digest message ≠ []

abbrev Fields (φ : Type) := List (PyStr × Json φ)

def genesis : PyStr := PyStr.ofString "GENESIS"

/-! ## Files -/

/-- The texts of the files, by number; 0 is the active file. -/
structure ChainFiles where
  text : ℕ → Option (List Char)
  bound : ℕ
  outside : ∀ i, bound < i → text i = none

namespace ChainFiles

def empty : ChainFiles := ⟨fun _ => none, 0, fun _ _ => rfl⟩

/-- The files below number `n` that exist, oldest first. -/
def collect (text : ℕ → Option (List Char)) : ℕ → List (ℕ × List Char)
  | 0 => []
  | n + 1 => ((text n).map fun t => (n, t)).toList ++ collect text n

/-- `iter_audit_chain_paths`: the highest number first, the active file last. -/
def chain (fs : ChainFiles) : List (ℕ × List Char) := collect fs.text (fs.bound + 1)

def remove (fs : ChainFiles) (i : ℕ) : ChainFiles where
  text := Function.update fs.text i none
  bound := fs.bound
  outside j hj := by
    rw [Function.update_apply, fs.outside j hj, ite_self]

def write (fs : ChainFiles) (i : ℕ) (t : List Char) : ChainFiles where
  text := Function.update fs.text i (some t)
  bound := max fs.bound i
  outside j hj := by
    have hne : j ≠ i := by omega
    rw [Function.update_of_ne hne, fs.outside j (by omega)]

/-- `os.replace(src, dst)` of a file that exists. -/
def replace (fs : ChainFiles) (src dst : ℕ) : ChainFiles :=
  match fs.text src with
  | none => fs
  | some t => (fs.write dst t).remove src

def append (fs : ChainFiles) (line : List Char) : ChainFiles :=
  fs.write 0 ((fs.text 0).getD [] ++ line)

/-- The loop of `rotate_if_needed` from number `idx` down. -/
def shiftFrom (backups : ℕ) : ℕ → ChainFiles → ChainFiles
  | 0, fs => fs
  | idx + 1, fs =>
    shiftFrom backups idx <|
      if (fs.text (idx + 1)).isSome then
        if idx + 1 = backups then fs.remove (idx + 1) else fs.replace (idx + 1) (idx + 2)
      else fs

/-- Whether `rotate_if_needed` has to rotate. -/
def rotationDue (fs : ChainFiles) (maxBytes backups : ℤ) : Bool :=
  decide (0 < maxBytes) && decide (0 ≤ backups) &&
    (fs.text 0).any fun active => decide (maxBytes ≤ byteSize active)

def rotateIfNeeded (fs : ChainFiles) (maxBytes backups : ℤ) : ChainFiles :=
  if fs.rotationDue maxBytes backups then
    if backups = 0 then fs.remove 0
    else (shiftFrom backups.toNat backups.toNat fs).replace 0 1
  else fs

end ChainFiles

section Pipeline
variable {φ : Type} (rt : Runtime φ)

/-- `wrapped.get(key)`. -/
def get? (fields : Fields φ) (key : String) : Option (Json φ) :=
  (fields.find? fun f => f.1 = PyStr.ofString key).map Prod.snd

/-- `fields[key] = value`. -/
def setField (fields : Fields φ) (key : String) (value : Json φ) : Fields φ :=
  replaceRow Prod.fst (PyStr.ofString key, value) fields

/-- `_chain_hash`; a lone surrogate in the previous hash has no encoding. -/
def chainHash (prevHash : PyStr) (entry : Fields φ) : Option PyStr :=
  prevHash.chars?.map fun cs =>
    PyStr.ofList (hex (rt.digest (utf8
      (cs ++ '|' :: Json.dumpsSorted rt.floats.repr Json.Separators.compact (.obj entry)))))

/-! ## Reading the tail -/

def tailWindow : ℕ := 8192

/-- The end of a text that fits into so many bytes; a character that is cut is ignored. -/
def tailChars (bytes : ℕ) : List Char → List Char
  | [] => []
  | c :: cs => if byteSize (c :: cs) ≤ bytes then c :: cs else tailChars bytes cs

/-- `_tail_hash_from_file`; a line that is no object raises. -/
def tailHashFromFile (text : List Char) : Except String (Option PyStr) :=
  let lines := ((linesOf isLineBreak (tailChars tailWindow text)).map PyText.strip).filter (· ≠ [])
  match lines.getLast? with
  | none => .ok none
  | some line =>
    match Json.loads rt.floats.read line with
    | none => .ok none
    | some (.obj payload) =>
      match get? payload "entry_hash" with
      | some (.str value) => .ok (if value = [] then none else some value)
      | _ => .ok none
    | some _ => .error "AttributeError"

/-- The first hash that the texts, newest first, yield. -/
def firstTailHash : List (List Char) → Except String PyStr
  | [] => .ok genesis
  | text :: texts =>
    match tailHashFromFile rt text with
    | .error e => .error e
    | .ok (some value) => .ok value
    | .ok none => firstTailHash texts

def readLastEntryHashFromChain (fs : ChainFiles) : Except String PyStr :=
  firstTailHash rt (fs.chain.map Prod.snd).reverse

/-! ## Writing -/

/-- An entry without hashes, as a dictionary. -/
structure AuditEntry (φ : Type) where
  fields : Fields φ
  valid : Json.Valid (.obj fields)
  plain : ∀ f ∈ fields, f.1 ≠ PyStr.ofString "prev_hash" ∧ f.1 ≠ PyStr.ofString "entry_hash"

/-- `value or default`. -/
def orElse (value fallback : PyStr) : PyStr := if value = [] then fallback else value

/-- `_persistable_audit_entry`, with the time, a fresh id and the redacted details. -/
def persistableAuditEntry (now : φ) (uuid action target outcome : PyStr) (statusCode : ℤ)
    (source traceId : PyStr) (details : Json φ) (hd : Json.Valid details) : AuditEntry φ where
  fields :=
    [(PyStr.ofString "ts", .float now),
      (PyStr.ofString "source", .str (orElse source (PyStr.ofString "openclaw"))),
      (PyStr.ofString "trace_id", .str (orElse traceId uuid)), (PyStr.ofString "action", .str action),
      (PyStr.ofString "target", .str target), (PyStr.ofString "outcome", .str outcome),
      (PyStr.ofString "status_code", .int statusCode), (PyStr.ofString "details", details)]
  valid := by
    refine .obj (by simp) fun f hf => ?_
    simp only [List.mem_cons, List.not_mem_nil, or_false] at hf
    rcases hf with rfl | rfl | rfl | rfl | rfl | rfl | rfl | rfl
    · exact .float now
    · exact .str _
    · exact .str _
    · exact .str action
    · exact .str target
    · exact .str outcome
    · exact .int statusCode
    · exact hd
  plain := by simp

/-- The entry with its hashes. -/
def wrap (fields : Fields φ) (prevHash entryHash : PyStr) : Fields φ :=
  setField (setField fields "prev_hash" (.str prevHash)) "entry_hash" (.str entryHash)

def lineOf (fields : Fields φ) (prevHash entryHash : PyStr) : List Char :=
  Json.dumpsSorted rt.floats.repr Json.Separators.standard (.obj (wrap fields prevHash entryHash)) ++
    ['\n']

structure SinkConfig where
  maxBytes : ℤ
  backups : ℤ

/-- `LocalFileAuditSink.append_entry`: the files, and the new hash or the exception. -/
def appendEntry (cfg : SinkConfig) (fs : ChainFiles) (entry : AuditEntry φ)
    (lastHash : Option PyStr) : ChainFiles × Except String PyStr :=
  let fs := fs.rotateIfNeeded cfg.maxBytes cfg.backups
  let prev := match lastHash with
    | some hash => if hash = [] then readLastEntryHashFromChain rt fs else .ok hash
    | none => readLastEntryHashFromChain rt fs
  match prev with
  | .error e => (fs, .error e)
  | .ok prevHash =>
    match chainHash rt prevHash entry.fields with
    | none => (fs, .error "UnicodeEncodeError")
    | some eventHash => (fs.append (lineOf rt entry.fields prevHash eventHash), .ok eventHash)

/-- The files and the `_LAST_HASH` of the process. -/
structure AuditLog where
  files : ChainFiles
  lastHash : Option PyStr

/-- `_write_audit_entry`, which logs an exception and goes on. -/
def writeAuditEntry (cfg : SinkConfig) (log : AuditLog) (entry : AuditEntry φ) : AuditLog :=
  match appendEntry rt cfg log.files entry log.lastHash with
  | (files, .ok hash) => ⟨files, some hash⟩
  | (files, .error _) => ⟨files, log.lastHash⟩

/-! ## Verification -/

structure AuditVerificationIssue where
  code : String
  filePath : String
  lineNumber : ℕ
  message : String
  deriving DecidableEq

structure AuditVerificationResult where
  ok : Bool
  filesChecked : List String
  entriesChecked : ℕ
  windowStartPrevHash : PyStr
  terminalHash : PyStr
  windowTruncated : Bool
  issues : List AuditVerificationIssue
  deriving DecidableEq

/-- The variables of `verify_audit_chain`. -/
structure VerifyState where
  previousEntryHash : Option PyStr := none
  windowStartPrevHash : PyStr := genesis
  entriesChecked : ℕ := 0

inductive LineResult where
  | next (st : VerifyState)
  | issue (st : VerifyState) (code message : String)
  | raised (exception : String)

/-- `payload.pop("prev_hash")` and `payload.pop("entry_hash")`. -/
def dropHashes (fields : Fields φ) : Fields φ :=
  fields.filter fun f =>
    decide (f.1 ≠ PyStr.ofString "prev_hash" ∧ f.1 ≠ PyStr.ofString "entry_hash")

/-- An entry with its two hashes. -/
def verifyEntry (st : VerifyState) (fields : Fields φ) (prevHash entryHash : PyStr) : LineResult :=
  if st.previousEntryHash.any fun previous => prevHash ≠ previous then
    .issue st "prev_hash_mismatch"
      "Audit chain continuity failed: prev_hash does not match the preceding entry_hash."
  else
    let st := if st.previousEntryHash.isNone then { st with windowStartPrevHash := prevHash } else st
    match chainHash rt prevHash (dropHashes fields) with
    | none => .raised "UnicodeEncodeError"
    | some expected =>
      if entryHash ≠ expected then
        .issue st "entry_hash_mismatch" "Audit entry_hash does not match the persisted payload."
      else .next { st with
        previousEntryHash := some entryHash
        entriesChecked := st.entriesChecked + 1 }

def verifyLine (st : VerifyState) (rawLine : List Char) : LineResult :=
  let line := PyText.strip rawLine
  if line = [] then .next st
  else
    match Json.loads rt.floats.read line with
    | none => .issue st "invalid_json" ("Invalid JSON entry: " ++ rt.decodeError line)
    | some (.obj wrapped) =>
      match get? wrapped "prev_hash", get? wrapped "entry_hash" with
      | some (.str prevHash), some (.str entryHash) => verifyEntry rt st wrapped prevHash entryHash
      | _, _ => .issue st "missing_hash_fields"
          "Audit entry is missing string prev_hash/entry_hash fields."
    | some _ => .raised "AttributeError"

def VerifyState.result (st : VerifyState) (ok : Bool) (files : List String)
    (issues : List AuditVerificationIssue) : AuditVerificationResult where
  ok
  filesChecked := files
  entriesChecked := st.entriesChecked
  windowStartPrevHash := st.windowStartPrevHash
  terminalHash := match st.previousEntryHash with
    | none => genesis
    | some hash => if hash = [] then genesis else hash
  windowTruncated := decide (st.windowStartPrevHash ≠ genesis)
  issues

/-- The lines of the files, each with its file and its number. -/
def chainLines (files : List (String × List Char)) : List (String × ℕ × List Char) :=
  files.flatMap fun f => ((linesOf isNewline f.2).zipIdx 1).map fun l => (f.1, l.2, l.1)

def verifyLines (paths : List String) :
    VerifyState → List (String × ℕ × List Char) → Except String AuditVerificationResult
  | st, [] => .ok (st.result true paths [])
  | st, (path, number, raw) :: rest =>
    match verifyLine rt st raw with
    | .next st => verifyLines paths st rest
    | .issue st code message => .ok (st.result false paths [⟨code, path, number, message⟩])
    | .raised exception => .error exception

/-- `verify_audit_chain` over the files in their order. -/
def verifyAuditChain (basePath : String) (files : List (String × List Char)) :
    Except String AuditVerificationResult :=
  if files = [] then
    .ok (({} : VerifyState).result false []
      [⟨"missing_chain", basePath, 0, "No audit log files found for verification."⟩])
  else verifyLines rt (files.map Prod.fst) {} (chainLines files)

end Pipeline

/-- The paths and texts that `verify_audit_chain` goes through. -/
def ChainFiles.named (fs : ChainFiles) (basePath : String) : List (String × List Char) :=
  fs.chain.map fun f => (if f.1 = 0 then basePath else s!"{basePath}.{f.1}", f.2)

end OpenClaw.Audit
