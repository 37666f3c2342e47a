import OpenClaw.Jobs.JobsSecurity

/-!
# The list of jobs

`services/jobs_read_model.py`: a bounded snapshot of the host's queue and history, the records of
it that the tenant may see, and what `get_all_jobs` of the host makes of them. The records of the
history are told apart by identity, so they are addresses with a value.
-/

namespace OpenClaw.Jobs

open Foundation
set_option autoImplicit false

variable {φ : Type}

inductive JobsReadModelError where
  | hostContractUnsupported
  | backendUnavailable
  deriving DecidableEq

def JobsReadModelError.code : JobsReadModelError → String
  | hostContractUnsupported => "jobs_host_contract_unsupported"
  | backendUnavailable => "jobs_backend_unavailable"

def JobsReadModelError.safeMessage : JobsReadModelError → String
  | hostContractUnsupported => "Jobs host contract is unsupported."
  | backendUnavailable => "Jobs backend is unavailable."

structure HistoryItem (φ : Type) where
  promptId : PyKey φ
  /-- the identity of the record -/
  record : ℕ

/-- A mapping of prompt ids to records. -/
structure History (φ : Type) where
  items : List (HistoryItem φ)
  objects : ℕ → HostValue φ
  nodup : (items.map HistoryItem.promptId).Nodup

/-- The sources of a snapshot. -/
structure Sources (φ : Type) where
  running : List (HostValue φ)
  queued : List (HostValue φ)
  history : History φ

/-- What the prompt queue answers; a history that is no mapping is none. -/
structure PromptQueue (φ : Type) where
  queueSnapshot : HostValue φ
  historySnapshot : Option (History φ)

def Sources.toQueue (s : Sources φ) : PromptQueue φ :=
  ⟨.seq [.seq s.running, .seq s.queued], some s.history⟩

def Sources.available (s : Sources φ) : ℕ :=
  s.running.length + s.queued.length + s.history.items.length

structure BoundedSnapshot (φ : Type) extends Sources φ where
  examined : ℕ
  truncated : Bool

def History.take (h : History φ) (n : ℕ) : History φ where
  items := h.items.take n
  objects := h.objects
  nodup := h.nodup.sublist ((List.take_sublist n h.items).map _)

/-- The window over the sources. -/
def Sources.bounded (s : Sources φ) : BoundedSnapshot φ :=
  let running := s.running.take maxJobsSourceWindow
  let queued := s.queued.take (maxJobsSourceWindow - running.length)
  let history := s.history.take (maxJobsSourceWindow - running.length - queued.length)
  let examined := running.length + queued.length + history.items.length
  { running := running
    queued := queued
    history := history
    examined := examined
    truncated := decide (examined < s.available) }

def readBoundedSnapshot (q : PromptQueue φ) : Except JobsReadModelError (BoundedSnapshot φ) :=
  match q.queueSnapshot, q.historySnapshot with
  | .seq [.seq running, .seq queued], some history =>
    .ok (Sources.mk running queued history).bounded
  | _, _ => .error .backendUnavailable

/-! ## Records for the host -/

/-- A list or tuple of five items at least, with a mapping as its fourth, cut to five. -/
def fiveItems : HostValue φ → Option (List (HostValue φ))
  | .seq items =>
    match (items[3]? : Option (HostValue φ)) with
    | some (.mapping _) => if 5 ≤ items.length then some (items.take 5) else none
    | _ => none
  | _ => none

/-- A record of the history with its prompt cut to five items. -/
def sanitizedRecord : HostValue φ → Option (Fields φ)
  | .mapping fields =>
    (fiveItems (Fields.get fields "prompt")).map fun prompt => Fields.set fields "prompt" (.seq prompt)
  | _ => none

structure PreparedRecords (α : Type) where
  ready : List α
  excluded : ℕ
  malformed : ℕ

section Prepare
variable (py : HostPython φ) (tenantId : PyStr) (multiTenant : Bool)

def prepareQueueRecords (records : List (HostValue φ)) :
    Except JobsReadModelError (PreparedRecords (List (HostValue φ))) :=
  match filterVisibleJobRecords py .queue id tenantId multiTenant records with
  | .error _ => .error .backendUnavailable
  | .ok visibility =>
    let additionalMalformed := visibility.records.countP fun r => (fiveItems r).isNone
    .ok ⟨visibility.records.filterMap fiveItems, visibility.excludedCount + additionalMalformed,
      visibility.malformedCount + additionalMalformed⟩

/-- The items whose record is among the visible ones, each as often as it is. -/
def visibleItems (counts : ℕ → ℕ) : List (HistoryItem φ) → List (HistoryItem φ)
  | [] => []
  | item :: items =>
    if counts item.record = 0 then visibleItems counts items
    else item :: visibleItems (Function.update counts item.record (counts item.record - 1)) items

def prepareHistoryRecords (history : History φ) :
    Except JobsReadModelError (PreparedRecords (PyKey φ × Fields φ)) :=
  match filterVisibleJobRecords py .history history.objects tenantId multiTenant
      (history.items.map HistoryItem.record) with
  | .error _ => .error .backendUnavailable
  | .ok visibility =>
    let items := visibleItems (fun r => visibility.records.count r) history.items
    let sanitized := fun (item : HistoryItem φ) => sanitizedRecord (history.objects item.record)
    let additionalMalformed := items.countP fun item => (sanitized item).isNone
    .ok ⟨items.filterMap fun item => (sanitized item).map fun record => (item.promptId, record),
      visibility.excludedCount + additionalMalformed,
      visibility.malformedCount + additionalMalformed⟩

end Prepare

/-! ## The answer -/

structure JobsQueryWarning where
  code : String
  field : String
  normalized : ℤ

structure JobsQuery where
  status : Option PyStr
  workflowId : Option PyStr
  sortBy : String
  sortOrder : String
  limit : ℕ
  offset : ℕ
  warnings : List JobsQueryWarning

/-- The arguments of `get_all_jobs` beside the limit and the offset, which ask for all. -/
structure HostCall (φ : Type) where
  running : List (List (HostValue φ))
  queued : List (List (HostValue φ))
  history : List (PyKey φ × Fields φ)
  statusFilter : Option (List PyStr)
  workflowId : Option PyStr
  sortBy : String
  sortOrder : String

/-- `get_all_jobs` of the host, as a function of its arguments. -/
abbrev GetAllJobs (φ : Type) := HostCall φ → Except HostError (HostValue φ)

abbrev JobSummary (φ : Type) := List (String × HostValue φ)

structure Pagination where
  limit : ℕ
  offset : ℕ
  warnings : List JobsQueryWarning
  total : ℕ
  hasMore : Bool

structure Scan where
  window : ℕ
  examined : ℕ
  excluded : ℕ
  malformed : ℕ
  truncated : Bool

structure JobsBody (φ : Type) where
  contractVersion : ℕ := 1
  jobs : List (JobSummary φ)
  pagination : Pagination
  adapter : String := "comfy_execution.jobs"
  authority : String := "in_process"
  scan : Scan

/-- The records that are passed on, and the numbers of the scan. -/
structure PreparedJobs (φ : Type) where
  running : List (List (HostValue φ))
  queued : List (List (HostValue φ))
  history : List (PyKey φ × Fields φ)
  scan : Scan

section Read
variable (py : HostPython φ) (getAllJobs : GetAllJobs φ) (tenantId : PyStr) (multiTenant : Bool)

/-- `_read_jobs` before the host is asked. -/
def prepareJobs (q : PromptQueue φ) : Except JobsReadModelError (PreparedJobs φ) := do
  let snapshot ← readBoundedSnapshot q
  let running ← prepareQueueRecords py tenantId multiTenant snapshot.running
  let queued ← prepareQueueRecords py tenantId multiTenant snapshot.queued
  let history ← prepareHistoryRecords py tenantId multiTenant snapshot.history
  .ok {
    running := running.ready
    queued := queued.ready
    history := history.ready
    scan := {
      window := maxJobsSourceWindow
      examined := snapshot.examined
      excluded := running.excluded + queued.excluded + history.excluded
      malformed := running.malformed + queued.malformed + history.malformed
      truncated := snapshot.truncated } }

/-- Everything that goes wrong on the way is the same error. -/
def unavailable {ε α : Type} : Except ε α → Except JobsReadModelError α
  | .error _ => .error .backendUnavailable
  | .ok a => .ok a

def normalizeAndProject (p : PreparedJobs φ) (query : JobsQuery) :
    Except JobsReadModelError (List (JobSummary φ)) := do
  let normalized ← unavailable (getAllJobs {
    running := p.running
    queued := p.queued
    history := p.history
    statusFilter := query.status.bind fun status => if status = [] then none else some [status]
    workflowId := query.workflowId
    sortBy := query.sortBy
    sortOrder := query.sortOrder })
  match normalized with
  | .seq [.seq rawJobs, .int upstreamTotal] =>
    if upstreamTotal ≠ rawJobs.length ∨ maxJobsSourceWindow < rawJobs.length then
      .error .backendUnavailable
    else
      unavailable (rawJobs.mapM (projectJobSummary py))
  | _ => .error .backendUnavailable

def readJobs (query : JobsQuery) (q : PromptQueue φ) : Except JobsReadModelError (JobsBody φ) := do
  let p ← prepareJobs py tenantId multiTenant q
  let jobs ← normalizeAndProject py getAllJobs p query
  let page := (jobs.drop query.offset).take query.limit
  .ok {
    jobs := page
    pagination := {
      limit := query.limit
      offset := query.offset
      warnings := query.warnings
      total := jobs.length
      hasMore := decide (query.offset + page.length < jobs.length) }
    scan := p.scan }

end Read

end OpenClaw.Jobs
