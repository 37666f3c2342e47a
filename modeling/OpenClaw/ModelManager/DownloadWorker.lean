import OpenClaw.Foundation.PyText
import OpenClaw.ModelManager.DownloadTasks

/-!
# The worker of a download

`run_task`, `download` and `stream_response_to_part` of `services/model_manager_transfer.py`, one
step for each block that holds the lock and for each call of the network or of the file system, so
that other tasks, a cancellation or a restart can come between any two. The digest is kept as the
bytes that it has been given. A checkpoint that was written is read back as it was.
-/

namespace OpenClaw.ModelManager

open Foundation
set_option autoImplicit false

/-- What a worker uses of its process. -/
structure Host where
  /-- the hexadecimal digest -/
  sha256 : List UInt8 → String
  stagingDir : String

/-- `final` of `download`. -/
def Host.stagedFile (h : Host) (spec : DownloadSpec) : String :=
  h.stagingDir ++ "/" ++ spec.taskId ++ "/" ++ spec.filename

structure Checkpoint where
  version : ℕ
  taskId : String
  downloadUrl : String
  expectedSha256 : String
  filename : String
  bytesDownloaded : ℕ
  totalBytes : ℕ
  etag : List Char
  lastModified : List Char
  updatedAt : ℚ

def checkpointVersion : ℕ := 1

/-- The directory of a task under the staging directory. -/
structure StageDir where
  part : Option (List UInt8) := none
  checkpoint : Option Checkpoint := none
  final : Option (List UInt8) := none

/-- What is left of the part file when not all of it was flushed. -/
def StageDir.cut (d : StageDir) (flushed : ℕ) : StageDir :=
  { d with part := d.part.map (List.take flushed) }

/-! ## Resuming -/

/-- `x or -1` of a number. -/
def orMinusOne (n : ℕ) : ℤ := if n = 0 then -1 else n

def checkpointMatchesTask (spec : DownloadSpec) (checkpoint : Option Checkpoint)
    (partBytes : ℕ) : Bool :=
  checkpoint.any fun c =>
    orMinusOne c.version == checkpointVersion && c.taskId == spec.taskId &&
      c.downloadUrl == spec.downloadUrl && c.expectedSha256 == spec.expectedSha256 &&
      c.filename == spec.filename && orMinusOne c.bytesDownloaded == partBytes

/-- Headers are texts of one-byte characters. -/
structure Response where
  code : ℕ := 200
  etag : List Char := []
  lastModified : List Char := []
  contentLength : List Char := []
  contentRange : List Char := []

def validatorsMatch (checkpoint : Option Checkpoint) (etag lastModified : List Char) : Bool :=
  let agrees := fun (expected actual : List Char) =>
    expected == [] || actual == [] || expected == actual
  checkpoint.all fun c =>
    agrees (PyText.strip c.etag) etag && agrees (PyText.strip c.lastModified) lastModified

/-- `_parse_content_range`. What it raises is the failing unpacking of a range without a hyphen. -/
def parseContentRange (value : List Char) : Except String (ℤ × ℤ × ℤ) :=
  let text := PyText.strip value
  let body := text.drop 6
  let rangePart := body.takeWhile (· ≠ '/')
  let totalPart := (body.dropWhile (· ≠ '/')).drop 1
  if (text.take 6).map Char.toLower ≠ "bytes ".toList then .ok (-1, -1, -1)
  else if '/' ∉ body ∨ '-' ∉ body then .ok (-1, -1, -1)
  else if '-' ∉ rangePart then .error "not enough values to unpack (expected 2, got 1)"
  else
    let start? := PyText.int? (rangePart.takeWhile (· ≠ '-'))
    let stop? := PyText.int? ((rangePart.dropWhile (· ≠ '-')).drop 1)
    let total? :=
      if PyText.strip totalPart = ['*'] then some (-1) else PyText.int? totalPart
    match start?, stop?, total? with
    | some start, some stop, some total =>
      if start < 0 ∨ stop < start then .ok (-1, -1, -1)
      else if total ≠ -1 ∧ total ≤ stop then .ok (-1, -1, -1)
      else .ok (start, stop, total)
    | _, _, _ => .ok (-1, -1, -1)

example : parseContentRange "Bytes 5-9/10".toList = .ok (5, 9, 10) := by decide +kernel

def Response.contentBytes (r : Response) : ℕ :=
  ((PyText.int? (if r.contentLength = [] then ['0'] else r.contentLength)).getD 0).toNat

/-- A call of `stream_response_to_part`: `resume_bytes` of the download that makes it, and its
arguments. -/
structure Attempt where
  resumeBytes : ℕ
  resumeFrom : ℕ := 0
  checkpoint : Option Checkpoint := none
  digest : List UInt8 := []

/-- The call while it reads the body. -/
structure Stream extends Attempt where
  downloaded : ℕ
  total : ℕ
  etag : List Char
  lastModified : List Char
  lastEmit : ℚ := 0

inductive Opening where
  | raises (text : String)
  | fallback (reason : String)
  | stream (s : Stream)

/-- What the call does with the head of a response. -/
def Attempt.openStream (a : Attempt) (r : Response) : Opening :=
  if r.code ∈ [301, 302, 303, 307, 308] then .raises "redirect blocked for managed downloads"
  else if 400 ≤ r.code then .raises ("HTTP " ++ toString r.code)
  else
    let etag := PyText.strip r.etag
    let lastModified := PyText.strip r.lastModified
    if 0 < a.resumeFrom then
      if r.code ≠ 206 then .fallback "resume_fallback_range_not_supported"
      else if !validatorsMatch a.checkpoint etag lastModified then
        .fallback "resume_fallback_validator_mismatch"
      else
        match parseContentRange r.contentRange with
        | .error text => .raises text
        | .ok (start, _, rangeTotal) =>
          if start ≠ a.resumeFrom then .fallback "resume_fallback_content_range_mismatch"
          else
            .stream { a with
              downloaded := a.resumeFrom
              total := if 0 < rangeTotal then rangeTotal.toNat else a.resumeFrom + r.contentBytes
              etag := etag
              lastModified := lastModified }
    else
      .stream { a with
        downloaded := 0
        total := r.contentBytes
        etag := etag
        lastModified := lastModified }

/-! ## Steps -/

inductive Raised where
  | cancelled
  | error (text : String)

/-- Where a call stands that reads the body. -/
inductive Reading where
  | chunk | progress | checkpoint | cancelled | ended | lastCheckpoint | verify

inductive Phase where
  | submitted
  | preparing
  | resumeAttempt (a : Attempt)
  | requesting (a : Attempt)
  | fallingBack (reason : String) (resumeBytes : ℕ)
  | discarding (resumeBytes : ℕ)
  | receiving (point : Reading) (s : Stream)
  | renamed (s : Stream)
  | finishing (s : Stream)
  | completing (digest : String)
  | raising (e : Raised)

/-- What the process meets in one step of a worker. -/
structure Outside where
  now : ℚ := 0
  save : Save := ⟨0, true⟩
  /-- whether the call of the network or of the file system raises -/
  fault : Bool := false
  /-- the text of what is raised -/
  errorText : String := ""
  /-- whether `_safe_unlink` can remove the file -/
  unlinked : Bool := true
  checkpointUnlinked : Bool := true
  /-- how much of the part file is on disk after a fault -/
  flushed : ℕ := 0
  response : Response := {}
  chunk : List UInt8 := []

def Outside.error (o : Outside) : Phase := .raising (.error o.errorText)

/-- What a step of a worker leaves; a worker that is done has no phase. -/
structure Desk where
  store : TaskStore
  stage : StageDir
  phase : Option Phase

/-- A block and what follows it; a save that fails raises. -/
def Outside.after (o : Outside) (block : TaskStore × Bool) (stage : StageDir) (next : Phase) :
    Desk :=
  ⟨block.1, stage, some (if block.2 then o.error else next)⟩

/-- A block while the part file is open. -/
def Outside.afterOpen (o : Outside) (block : TaskStore × Bool) (stage : StageDir) (next : Phase) :
    Desk :=
  o.after block (if block.2 then stage.cut o.flushed else stage) next

def saveCheckpoint (s : TaskStore) (spec : DownloadSpec) (d : StageDir) (st : Stream)
    (o : Outside) : (TaskStore × Bool) × StageDir :=
  if o.fault then
    ((s, true), d)
  else
    (s.checkpointSaved spec.taskId o.now o.save,
      { d with checkpoint := some {
          version := checkpointVersion
          taskId := spec.taskId
          downloadUrl := spec.downloadUrl
          expectedSha256 := spec.expectedSha256
          filename := spec.filename
          bytesDownloaded := st.downloaded
          totalBytes := st.total
          etag := st.etag
          lastModified := st.lastModified
          updatedAt := o.now } })

section Worker
variable (h : Host) (s : TaskStore) (spec : DownloadSpec) (d : StageDir) (o : Outside)

/-- `download` up to the choice between resuming and starting again. -/
def prepare : Desk :=
  let d := if o.unlinked then { d with final := none } else d
  let bytes := d.part.getD []
  if o.fault then
    ⟨s, d, some o.error⟩
  else if 0 < bytes.length ∧ checkpointMatchesTask spec d.checkpoint bytes.length then
    ⟨s, d, some (.resumeAttempt ⟨bytes.length, bytes.length, d.checkpoint, bytes⟩)⟩
  else if 0 < bytes.length then
    ⟨s, d, some (.fallingBack "resume_fallback_checkpoint_mismatch" bytes.length)⟩
  else
    ⟨s, d, some (.discarding 0)⟩

def request (a : Attempt) : Desk :=
  if o.fault then
    ⟨s, d, some o.error⟩
  else
    match a.openStream o.response with
    | .raises text => ⟨s, d, some (.raising (.error text))⟩
    | .fallback reason =>
      if 0 < a.resumeFrom then ⟨s, d, some (.fallingBack reason a.resumeBytes)⟩
      else ⟨s, d, some (.raising (.error reason))⟩
    | .stream st =>
      ⟨s, { d with part := some (if 0 < a.resumeFrom then d.part.getD [] else []) },
        some (.receiving .chunk st)⟩

/-- One turn of the loop over the chunks. -/
def readChunk (cancelled : Bool) (st : Stream) : Desk :=
  let d' := { d with part := d.part.map (· ++ o.chunk) }
  if cancelled then
    ⟨s, d, some (.receiving .cancelled st)⟩
  else if o.fault then
    ⟨s, d'.cut o.flushed, some o.error⟩
  else if o.chunk = [] then
    ⟨s, d, some (.receiving .ended st)⟩
  else
    let st := { st with
      digest := st.digest ++ o.chunk, downloaded := st.downloaded + o.chunk.length }
    if 35 / 100 ≤ o.now - st.lastEmit then
      ⟨s, d', some (.receiving .progress { st with lastEmit := o.now })⟩
    else
      ⟨s, d', some (.receiving .chunk st)⟩

/-- `total or downloaded`. -/
def Stream.lastTotal (st : Stream) : ℕ := if st.total = 0 then st.downloaded else st.total

def verify (st : Stream) : Desk :=
  let checkpoint := if o.checkpointUnlinked then none else d.checkpoint
  if h.sha256 st.digest ≠ spec.expectedSha256 then
    ⟨s, { d with part := if o.unlinked then none else d.part, checkpoint := checkpoint },
      some (.raising (.error
        ("expected " ++ spec.expectedSha256 ++ ", got " ++ h.sha256 st.digest)))⟩
  else if o.fault then
    ⟨s, d, some o.error⟩
  else
    ⟨s, ⟨none, checkpoint, d.part⟩, some (.renamed st)⟩

/-- The status that a staged file leaves: none if an earlier part was given up. -/
def Stream.stagedStatus (st : Stream) : Option String :=
  if 0 < st.resumeFrom then some "resumed_partial"
  else if st.resumeBytes = 0 then some "started_fresh"
  else none

def receive (cancelled : Bool) (st : Stream) : Reading → Desk
  | .chunk => readChunk s d o cancelled st
  | .progress =>
    o.afterOpen (s.progress spec.taskId st.downloaded st.total o.now o.save) d
      (.receiving .checkpoint st)
  | .checkpoint =>
    let saved := saveCheckpoint s spec d st o
    o.afterOpen saved.1 saved.2 (.receiving .chunk st)
  | .cancelled =>
    let saved := saveCheckpoint s spec d st o
    ⟨saved.1.1, saved.2.cut o.flushed, some (if saved.1.2 then o.error else .raising .cancelled)⟩
  | .ended =>
    o.after (s.progress spec.taskId st.downloaded st.lastTotal o.now o.save) d
      (.receiving .lastCheckpoint st)
  | .lastCheckpoint =>
    let saved := saveCheckpoint s spec d st o
    o.after saved.1 saved.2 (.receiving .verify st)
  | .verify => verify h s spec d o st

/-- The next step of the worker of a task. -/
def workStep (cancelled : Bool) : Phase → Desk
  | .submitted =>
    let block := s.runBegins spec.taskId o.now o.save
    ⟨block.1, d, if block.2 then none else some .preparing⟩
  | .preparing => prepare s spec d o
  | .resumeAttempt a =>
    o.after (s.setResumeStatus spec.taskId "resume_attempt" o.now o.save) d (.requesting a)
  | .requesting a => request s d o a
  | .fallingBack reason resumeBytes =>
    o.after (s.setResumeStatus spec.taskId reason o.now o.save) d (.discarding resumeBytes)
  | .discarding resumeBytes =>
    ⟨s, { d with
        part := if o.unlinked then none else d.part
        checkpoint := if o.checkpointUnlinked then none else d.checkpoint },
      some (.requesting { resumeBytes := resumeBytes })⟩
  | .receiving point st => receive h s spec d o cancelled st point
  | .renamed st =>
    match st.stagedStatus with
    | some status => o.after (s.setResumeStatus spec.taskId status o.now o.save) d (.finishing st)
    | none => ⟨s, d, some (.finishing st)⟩
  | .finishing st =>
    o.after (s.progress spec.taskId st.downloaded st.lastTotal o.now o.save) d
      (.completing (h.sha256 st.digest))
  | .completing digest =>
    let block := s.runCompletes spec.taskId (h.stagedFile spec) digest o.now o.save
    ⟨block.1, d, if block.2 then some o.error else none⟩
  | .raising .cancelled => ⟨(s.runIsCancelled spec.taskId o.now o.save).1, d, none⟩
  | .raising (.error text) => ⟨(s.runFails spec.taskId text o.now o.save).1, d, none⟩

end Worker

end OpenClaw.ModelManager
