import Mathlib.Algebra.Group.Int.Defs
import Mathlib.Algebra.Group.Nat.Defs
import OpenClaw.Jobs.JobsReadModel

/-!
# One tenant's jobs

What a tenant is shown depends on its own records alone, as long as no record raises when it is
asked for its owner. One that does makes the whole list unavailable. Whatever the records are, each
one that is examined is passed on or counted as excluded.
-/

namespace OpenClaw.Jobs

open Foundation
open Tenants (normalizeTenantId)
set_option autoImplicit false

variable {φ : Type}

/-! ## Examined records -/

theorem length_filterMap_add {α β : Type} (f : α → Option β) (xs : List α) :
    (xs.filterMap f).length + xs.countP (fun x => (f x).isNone) = xs.length := by
  induction xs with
  | nil => rfl
  | cons x xs ih =>
    cases hx : f x with
    | none =>
      rw [List.filterMap_cons_none hx, List.countP_cons_of_pos (by rw [hx]; rfl), List.length_cons]
      omega
    | some y =>
      rw [List.filterMap_cons_some hx, List.countP_cons_of_neg (by rw [hx]; exact Bool.noConfusion),
        List.length_cons, List.length_cons]
      omega

/-- Counting identities finds the visible items again, since equal identities are visible alike. -/
theorem visibleItems_eq (P : ℕ → Bool) (items : List (HistoryItem φ)) (counts : ℕ → ℕ)
    (h : ∀ r, counts r = ((items.map HistoryItem.record).filter P).count r) :
    visibleItems counts items = items.filter fun item => P item.record := by
  induction items generalizing counts with
  | nil => rfl
  | cons item items ih =>
    rw [visibleItems]
    cases hP : P item.record with
    | false =>
      have hskip : ∀ r, counts r = ((items.map HistoryItem.record).filter P).count r := by
        intro r
        rw [h r, List.map_cons, List.filter_cons_of_neg (by simp [hP])]
      have hzero : counts item.record = 0 := by
        rw [hskip, List.count_eq_zero]
        intro hmem
        have htrue := (List.mem_filter.mp hmem).2
        rw [hP] at htrue
        cases htrue
      rw [if_pos hzero, List.filter_cons_of_neg (by simp [hP])]
      exact ih counts hskip
    | true =>
      have hcons : ∀ r, counts r =
          (item.record :: (items.map HistoryItem.record).filter P).count r := by
        intro r
        rw [h r, List.map_cons, List.filter_cons_of_pos hP]
      have hpos : counts item.record ≠ 0 := by
        rw [hcons, List.count_cons_self]
        exact Nat.succ_ne_zero _
      have hfilter : (item :: items).filter (fun item => P item.record) =
          item :: items.filter fun item => P item.record := List.filter_cons_of_pos hP
      rw [if_neg hpos, hfilter]
      refine congrArg (item :: ·) (ih _ fun r => ?_)
      by_cases hr : r = item.record
      · rw [hr, Function.update_self, hcons, List.count_cons_self, Nat.add_sub_cancel]
      · rw [Function.update_of_ne hr, hcons, List.count_cons_of_ne (Ne.symm hr)]

section Counts
variable {py : HostPython φ} {tenantId : PyStr} {multiTenant : Bool}

/-- Records that are visible are so by their value. -/
theorem filterVisible_eq {ρ : Type} {source : JobSource} {value : ρ → HostValue φ}
    {records : List ρ} {result : VisibilityFilterResult ρ}
    (h : filterVisibleJobRecords py source value tenantId multiTenant records = .ok result) :
    ∃ P : HostValue φ → Bool, result.records = records.filter fun r => P (value r) := by
  unfold filterVisibleJobRecords at h
  split at h
  · cases h
    exact ⟨fun _ => true, (List.filter_true records).symm⟩
  split at h
  · cases h
  · rename_i expectedTenant _
    cases hvisible : visibleRecords py source value expectedTenant records with
    | error e =>
      rw [hvisible] at h
      cases h
    | ok visible =>
      rw [hvisible] at h
      cases h
      exact ⟨isOwned py source expectedTenant, eq_of_visibleRecords hvisible⟩

theorem length_prepareQueue {records : List (HostValue φ)}
    {p : PreparedRecords (List (HostValue φ))}
    (h : prepareQueueRecords py tenantId multiTenant records = .ok p) :
    records.length = p.ready.length + p.excluded := by
  unfold prepareQueueRecords at h
  split at h
  · cases h
  · rename_i visibility hvisibility
    cases h
    have hlen := length_filterVisible hvisibility
    have hready := length_filterMap_add fiveItems visibility.records
    simp only
    omega

theorem length_prepareHistory {history : History φ} {p : PreparedRecords (PyKey φ × Fields φ)}
    (h : prepareHistoryRecords py tenantId multiTenant history = .ok p) :
    history.items.length = p.ready.length + p.excluded := by
  unfold prepareHistoryRecords at h
  split at h
  · cases h
  · rename_i visibility hvisibility
    cases h
    have hlen := length_filterVisible hvisibility
    rw [List.length_map] at hlen
    obtain ⟨P, hP⟩ := filterVisible_eq hvisibility
    have hitems := visibleItems_eq (fun r => P (history.objects r)) history.items
      (fun r => visibility.records.count r) (fun r => by rw [hP])
    have hvisible : (visibleItems (fun r => visibility.records.count r) history.items).length =
        visibility.records.length := by
      rw [hitems, hP, List.filter_map, List.length_map]
      rfl
    have hready := length_filterMap_add (fun item : HistoryItem φ =>
      (sanitizedRecord (history.objects item.record)).map fun record => (item.promptId, record))
      (visibleItems (fun r => visibility.records.count r) history.items)
    simp only [Option.isNone_map] at hready
    simp only
    omega

/-- The numbers of a scan add up. -/
theorem examined_eq {q : PromptQueue φ} {p : PreparedJobs φ}
    (h : prepareJobs py tenantId multiTenant q = .ok p) :
    p.scan.examined = p.running.length + p.queued.length + p.history.length + p.scan.excluded := by
  unfold prepareJobs at h
  cases hsnapshot : readBoundedSnapshot q with
  | error e => rw [hsnapshot] at h; cases h
  | ok snapshot =>
    have hexamined : snapshot.examined = snapshot.running.length + snapshot.queued.length +
        snapshot.history.items.length := by
      unfold readBoundedSnapshot at hsnapshot
      split at hsnapshot
      · cases hsnapshot
        rfl
      · cases hsnapshot
    rw [hsnapshot] at h
    cases hrunning : prepareQueueRecords py tenantId multiTenant snapshot.running with
    | error e => simp only [bind, Except.bind, hrunning] at h; cases h
    | ok running =>
      cases hqueued : prepareQueueRecords py tenantId multiTenant snapshot.queued with
      | error e => simp only [bind, Except.bind, hrunning, hqueued] at h; cases h
      | ok queued =>
        cases hhistory : prepareHistoryRecords py tenantId multiTenant snapshot.history with
        | error e => simp only [bind, Except.bind, hrunning, hqueued, hhistory] at h; cases h
        | ok history =>
          simp only [bind, Except.bind, hrunning, hqueued, hhistory] at h
          cases h
          have hr := length_prepareQueue hrunning
          have hq := length_prepareQueue hqueued
          have hh := length_prepareHistory hhistory
          simp only
          omega

end Counts

/-! ## The records of one tenant -/

section Tenant
variable (py : HostPython φ) (tenant : PyStr)

def ownQueue (records : List (HostValue φ)) : List (HostValue φ) :=
  records.filter (isOwned py .queue tenant)

/-- The tenant's records of the history, each with its id. -/
def ownHistory (history : History φ) : List (PyKey φ × HostValue φ) :=
  (history.items.map fun item => (item.promptId, history.objects item.record)).filter fun r =>
    isOwned py .history tenant r.2

/-- Two snapshots with the same records of the tenant, in the same order. -/
structure SameRecords (s s' : Sources φ) : Prop where
  running : ownQueue py tenant s.running = ownQueue py tenant s'.running
  queued : ownQueue py tenant s.queued = ownQueue py tenant s'.queued
  history : ownHistory py tenant s.history = ownHistory py tenant s'.history

/-- No record raises when it is asked for its owner. -/
structure Readable (s : Sources φ) : Prop where
  running : ∀ r ∈ s.running, HasReadableOwner py .queue r
  queued : ∀ r ∈ s.queued, HasReadableOwner py .queue r
  history : ∀ item ∈ s.history.items, HasReadableOwner py .history (s.history.objects item.record)

/-- The jobs and the pagination of an answer, or its error. -/
def shown (answer : Except JobsReadModelError (JobsBody φ)) :
    Except JobsReadModelError (List (JobSummary φ) × Pagination) :=
  answer.map fun body => (body.jobs, body.pagination)

/-- The tenant is shown the same of both snapshots, whatever the host makes of what it is given. -/
def Noninterfering (s s' : Sources φ) : Prop :=
  ∀ getAllJobs query, shown (readJobs py getAllJobs tenant true query s.toQueue) =
    shown (readJobs py getAllJobs tenant true query s'.toQueue)

/-- In every snapshot each record that is examined is passed on or counted as excluded. -/
def CountsAddUp : Prop :=
  ∀ (multiTenant : Bool) (q : PromptQueue φ) (p : PreparedJobs φ),
    prepareJobs py tenant multiTenant q = .ok p →
      p.scan.examined = p.running.length + p.queued.length + p.history.length + p.scan.excluded

variable {py tenant} {s s' : Sources φ}

theorem filterVisible_of_readable {ρ : Type} {source : JobSource} (value : ρ → HostValue φ)
    {records : List ρ} (ht : normalizeTenantId tenant = .ok tenant)
    (h : ∀ r ∈ records, HasReadableOwner py source (value r)) :
    ∃ result, filterVisibleJobRecords py source value tenant true records = .ok result ∧
      result.records = records.filter fun r => isOwned py source tenant (value r) := by
  obtain ⟨malformed, heq⟩ := visibleRecords_of_readable tenant h
  refine ⟨⟨records.filter fun r => isOwned py source tenant (value r),
    records.length - (records.filter fun r => isOwned py source tenant (value r)).length,
    malformed⟩, ?_, rfl⟩
  simp only [filterVisibleJobRecords, Bool.true_eq_false, if_false, ht, heq]
  rfl

theorem filterVisible_of_unreadable {ρ : Type} {source : JobSource} (value : ρ → HostValue φ)
    {records : List ρ} (ht : normalizeTenantId tenant = .ok tenant) {r : ρ} (hr : r ∈ records)
    (h : ¬ HasReadableOwner py source (value r)) :
    ∃ e, filterVisibleJobRecords py source value tenant true records = .error e := by
  obtain ⟨e, he⟩ := visibleRecords_of_unreadable tenant hr h
  refine ⟨e, ?_⟩
  simp only [filterVisibleJobRecords, Bool.true_eq_false, if_false, ht, he]
  rfl

theorem prepareQueue_of_readable {records : List (HostValue φ)}
    (ht : normalizeTenantId tenant = .ok tenant)
    (h : ∀ r ∈ records, HasReadableOwner py .queue r) :
    ∃ p, prepareQueueRecords py tenant true records = .ok p ∧
      p.ready = (ownQueue py tenant records).filterMap fiveItems := by
  obtain ⟨result, hresult, hrecords⟩ := filterVisible_of_readable id ht h
  refine ⟨_, by rw [prepareQueueRecords, hresult], ?_⟩
  exact congrArg (List.filterMap fiveItems) hrecords

theorem prepareQueue_of_unreadable {records : List (HostValue φ)}
    (ht : normalizeTenantId tenant = .ok tenant)
    (h : ¬ ∀ r ∈ records, HasReadableOwner py .queue r) :
    prepareQueueRecords py tenant true records = .error .backendUnavailable := by
  simp only [not_forall] at h
  obtain ⟨r, hr, hbad⟩ := h
  obtain ⟨e, he⟩ := filterVisible_of_unreadable id ht hr hbad
  rw [prepareQueueRecords, he]

theorem prepareHistory_of_readable {history : History φ}
    (ht : normalizeTenantId tenant = .ok tenant)
    (h : ∀ item ∈ history.items, HasReadableOwner py .history (history.objects item.record)) :
    ∃ p, prepareHistoryRecords py tenant true history = .ok p ∧
      p.ready = (ownHistory py tenant history).filterMap fun r =>
        (sanitizedRecord r.2).map fun record => (r.1, record) := by
  have hread : ∀ r ∈ history.items.map HistoryItem.record,
      HasReadableOwner py .history (history.objects r) := by
    intro r hr
    obtain ⟨item, hitem, rfl⟩ := List.mem_map.mp hr
    exact h item hitem
  obtain ⟨result, hresult, hrecords⟩ := filterVisible_of_readable history.objects ht hread
  have hitems := visibleItems_eq (fun r => isOwned py .history tenant (history.objects r))
    history.items (fun r => result.records.count r) (fun r => by rw [hrecords])
  refine ⟨_, by rw [prepareHistoryRecords, hresult], ?_⟩
  simp only [hitems, ownHistory, List.filter_map, List.filterMap_map]
  rfl

theorem prepareHistory_of_unreadable {history : History φ}
    (ht : normalizeTenantId tenant = .ok tenant)
    (h : ¬ ∀ item ∈ history.items,
      HasReadableOwner py .history (history.objects item.record)) :
    prepareHistoryRecords py tenant true history = .error .backendUnavailable := by
  simp only [not_forall] at h
  obtain ⟨item, hitem, hbad⟩ := h
  obtain ⟨e, he⟩ := filterVisible_of_unreadable history.objects ht (List.mem_map_of_mem hitem) hbad
  rw [prepareHistoryRecords, he]

/-- Within the window the snapshot is the whole of the sources. -/
theorem bounded_of_within (h : s.available ≤ maxJobsSourceWindow) :
    s.bounded.running = s.running ∧ s.bounded.queued = s.queued ∧ s.bounded.history = s.history := by
  rw [Sources.available] at h
  have hrunning : s.bounded.running = s.running := List.take_of_length_le (by omega)
  have hqueued : s.bounded.queued = s.queued := by
    change s.queued.take (maxJobsSourceWindow - s.bounded.running.length) = s.queued
    rw [hrunning]
    exact List.take_of_length_le (by omega)
  refine ⟨hrunning, hqueued, ?_⟩
  change s.history.take (maxJobsSourceWindow - s.bounded.running.length -
    s.bounded.queued.length) = s.history
  rw [hrunning, hqueued]
  have hitems : s.history.items.take (maxJobsSourceWindow - s.running.length - s.queued.length) =
      s.history.items := List.take_of_length_le (by omega)
  simp only [History.take, hitems]

theorem prepareJobs_of_readable (ht : normalizeTenantId tenant = .ok tenant)
    (hs : s.available ≤ maxJobsSourceWindow) (h : Readable py s) :
    ∃ p, prepareJobs py tenant true s.toQueue = .ok p ∧
      p.running = (ownQueue py tenant s.running).filterMap fiveItems ∧
      p.queued = (ownQueue py tenant s.queued).filterMap fiveItems ∧
      p.history = (ownHistory py tenant s.history).filterMap fun r =>
        (sanitizedRecord r.2).map fun record => (r.1, record) := by
  obtain ⟨hr, hq, hh⟩ := bounded_of_within hs
  obtain ⟨running, hrunning, hreadyr⟩ := prepareQueue_of_readable ht h.running
  obtain ⟨queued, hqueued, hreadyq⟩ := prepareQueue_of_readable ht h.queued
  obtain ⟨history, hhistory, hreadyh⟩ := prepareHistory_of_readable ht h.history
  have hsnapshot : readBoundedSnapshot s.toQueue = .ok s.bounded := rfl
  have hprepared : ∃ scan, prepareJobs py tenant true s.toQueue =
      .ok ⟨running.ready, queued.ready, history.ready, scan⟩ := by
    simp only [prepareJobs, bind, Except.bind, hsnapshot, hr, hq, hh, hrunning, hqueued, hhistory]
    exact ⟨_, rfl⟩
  obtain ⟨scan, hscan⟩ := hprepared
  exact ⟨_, hscan, hreadyr, hreadyq, hreadyh⟩

theorem prepareJobs_of_unreadable (ht : normalizeTenantId tenant = .ok tenant)
    (hs : s.available ≤ maxJobsSourceWindow) (h : ¬ Readable py s) :
    prepareJobs py tenant true s.toQueue = .error .backendUnavailable := by
  obtain ⟨hr, hq, hh⟩ := bounded_of_within hs
  have hsnapshot : readBoundedSnapshot s.toQueue = .ok s.bounded := rfl
  simp only [prepareJobs, bind, Except.bind, hsnapshot, hr, hq, hh]
  by_cases hrunning : ∀ r ∈ s.running, HasReadableOwner py .queue r
  · obtain ⟨running, hrunning', -⟩ := prepareQueue_of_readable ht hrunning
    by_cases hqueued : ∀ r ∈ s.queued, HasReadableOwner py .queue r
    · obtain ⟨queued, hqueued', -⟩ := prepareQueue_of_readable ht hqueued
      have hhistory : ¬ ∀ item ∈ s.history.items,
          HasReadableOwner py .history (s.history.objects item.record) :=
        fun hhistory => h ⟨hrunning, hqueued, hhistory⟩
      simp only [hrunning', hqueued', prepareHistory_of_unreadable ht hhistory]
    · simp only [hrunning', prepareQueue_of_unreadable ht hqueued]
  · simp only [prepareQueue_of_unreadable ht hrunning]

/-- What is shown is made of the records that are passed on. -/
theorem shown_of_prepared {p p' : PreparedJobs φ} {q q' : PromptQueue φ}
    (hp : prepareJobs py tenant true q = .ok p) (hp' : prepareJobs py tenant true q' = .ok p')
    (hrunning : p.running = p'.running) (hqueued : p.queued = p'.queued)
    (hhistory : p.history = p'.history) (getAllJobs : GetAllJobs φ) (query : JobsQuery) :
    shown (readJobs py getAllJobs tenant true query q) =
      shown (readJobs py getAllJobs tenant true query q') := by
  have hjobs : normalizeAndProject py getAllJobs p query =
      normalizeAndProject py getAllJobs p' query := by
    unfold normalizeAndProject
    rw [hrunning, hqueued, hhistory]
  simp only [readJobs, bind, Except.bind, hp, hp', hjobs]
  cases normalizeAndProject py getAllJobs p' query with
  | error e => rfl
  | ok jobs => rfl

theorem shown_of_unprepared {q : PromptQueue φ}
    (hq : prepareJobs py tenant true q = .error .backendUnavailable) (getAllJobs : GetAllJobs φ)
    (query : JobsQuery) :
    shown (readJobs py getAllJobs tenant true query q) = .error .backendUnavailable := by
  simp only [readJobs, bind, Except.bind, hq]
  rfl

/-- A host that has no job. -/
def noJobs : GetAllJobs φ := fun _ => .ok (.seq [.seq [], .int 0])

theorem shown_noJobs {q : PromptQueue φ} {p : PreparedJobs φ}
    (hp : prepareJobs py tenant true q = .ok p) (query : JobsQuery) :
    ∃ answer, shown (readJobs py noJobs tenant true query q) = .ok answer := by
  simp only [readJobs, bind, Except.bind, hp]
  exact ⟨_, rfl⟩

def anyQuery : JobsQuery := ⟨none, none, "created_at", "desc", 50, 0, []⟩

/-- Two snapshots with the same records of a tenant are told apart exactly when one of them, and
not the other, has a record that raises when it is asked for its owner. -/
theorem noninterfering_iff (ht : normalizeTenantId tenant = .ok tenant)
    (hs : s.available ≤ maxJobsSourceWindow) (hs' : s'.available ≤ maxJobsSourceWindow)
    (hsame : SameRecords py tenant s s') :
    (Noninterfering py tenant s s' ∧ CountsAddUp py tenant) ↔ (Readable py s ↔ Readable py s') := by
  by_cases hread : Readable py s
  · obtain ⟨p, hp, hr, hq, hh⟩ := prepareJobs_of_readable ht hs hread
    by_cases hread' : Readable py s'
    · obtain ⟨p', hp', hr', hq', hh'⟩ := prepareJobs_of_readable ht hs' hread'
      refine ⟨fun _ => ⟨fun _ => hread', fun _ => hread⟩, fun _ => ⟨?_, fun _ _ _ => examined_eq⟩⟩
      refine shown_of_prepared hp hp' ?_ ?_ ?_
      · rw [hr, hr', hsame.running]
      · rw [hq, hq', hsame.queued]
      · rw [hh, hh', hsame.history]
    · refine ⟨fun ⟨hnon, _⟩ => absurd (hnon noJobs anyQuery) ?_, fun h => absurd (h.mp hread) hread'⟩
      obtain ⟨answer, hanswer⟩ := shown_noJobs hp anyQuery
      rw [hanswer, shown_of_unprepared (prepareJobs_of_unreadable ht hs' hread')]
      exact nofun
  · have hp := prepareJobs_of_unreadable ht hs hread
    by_cases hread' : Readable py s'
    · obtain ⟨p', hp', -⟩ := prepareJobs_of_readable ht hs' hread'
      refine ⟨fun ⟨hnon, _⟩ => absurd (hnon noJobs anyQuery) ?_, fun h => absurd (h.mpr hread') hread⟩
      obtain ⟨answer, hanswer⟩ := shown_noJobs hp' anyQuery
      rw [hanswer, shown_of_unprepared hp]
      exact nofun
    · have hp' := prepareJobs_of_unreadable ht hs' hread'
      refine ⟨fun _ => ⟨fun h => absurd h hread, fun h => absurd h hread'⟩,
        fun _ => ⟨fun getAllJobs query => ?_, fun _ _ _ => examined_eq⟩⟩
      rw [shown_of_unprepared hp, shown_of_unprepared hp']

end Tenant

/-! ## A record that raises -/

/-- `str` without float objects; an integer has 4300 digits at most. -/
def strictText : HostValue Unit → Except HostError PyStr
  | .none | .bool false | .seq [] | .mapping [] => .ok []
  | .bool true => .ok (PyStr.ofString "True")
  | .int i =>
    if (10 ^ 100) ^ 43 ≤ i.natAbs then
      .error "Exceeds the limit (4300 digits) for integer string conversion"
    else if i = 0 then .ok []
    else .ok (PyStr.ofList (Json.showInt i))
  | .float _ => .ok (PyStr.ofString "1.0")
  | .str s => .ok s
  | .seq _ => .ok (PyStr.ofString "[...]")
  | .mapping _ => .ok (PyStr.ofString "\x7b...\x7d")
  | .object _ => .ok (PyStr.ofString "<object>")

def strictPython : HostPython Unit := ⟨strictText, fun _ => true⟩

def teamA : PyStr := PyStr.ofString "team-a"

def nameKey (name : String) : PyKey Unit := .str (name.toList.map fun c => Fin.ofNat _ c.toNat)

/-- A pending prompt whose extra data name an owner. -/
def pendingOf (owner : HostValue Unit) : HostValue Unit :=
  .seq [.int 1, .str (PyStr.ofString "job-1"), .mapping [],
    .mapping [(nameKey "openclaw", .mapping [(nameKey "tenant_id", owner)])], .seq []]

def noHistory : History Unit := ⟨[], fun _ => .none, List.nodup_nil⟩

def pendingSources (records : List (HostValue Unit)) : Sources Unit := ⟨[], records, noHistory⟩

theorem sameRecords_pending {records records' : List (HostValue Unit)}
    (h : ownQueue strictPython teamA records = ownQueue strictPython teamA records') :
    SameRecords strictPython teamA (pendingSources records) (pendingSources records') :=
  ⟨rfl, h, rfl⟩

def teamB : PyStr := PyStr.ofString "team-b"

theorem normalizeTenantId_teamA : normalizeTenantId teamA = .ok teamA := by decide +kernel

/-- Another tenant's record, a malformed one and one of the tenant. -/
def mixedSources : Sources Unit :=
  pendingSources [pendingOf (.str teamB), .none, pendingOf (.str teamA)]

def hugeOwner : HostValue Unit := .int ((10 ^ 100) ^ 43)

theorem hidden_owners : isOwned strictPython .queue teamA (pendingOf (.str teamB)) = false ∧
    isOwned strictPython .queue teamA .none = false ∧
    isOwned strictPython .queue teamA (pendingOf hugeOwner) = false := by
  decide +kernel

theorem sameRecords_mixed :
    SameRecords strictPython teamA mixedSources (pendingSources [pendingOf (.str teamA)]) := by
  obtain ⟨hother, hbad, -⟩ := hidden_owners
  apply sameRecords_pending
  rw [ownQueue, List.filter_cons_of_neg (by rw [hother]; exact Bool.noConfusion),
    List.filter_cons_of_neg (by rw [hbad]; exact Bool.noConfusion), ← ownQueue]

theorem noninterfering_mixed :
    (Noninterfering strictPython teamA mixedSources (pendingSources [pendingOf (.str teamA)]) ∧
        CountsAddUp strictPython teamA) ↔
      (Readable strictPython mixedSources ↔
        Readable strictPython (pendingSources [pendingOf (.str teamA)])) :=
  noninterfering_iff normalizeTenantId_teamA (by decide) (by decide) sameRecords_mixed

theorem hugeOwner_unreadable :
    ¬ Readable strictPython (pendingSources [pendingOf hugeOwner]) := by
  intro h
  have hread := h.queued (pendingOf hugeOwner) List.mem_cons_self
  exact absurd hread (by unfold HasReadableOwner; decide +kernel)

/-- Another tenant's record with such an owner takes the tenant's empty list away. -/
theorem hugeOwner_interferes :
    SameRecords strictPython teamA (pendingSources [pendingOf hugeOwner]) (pendingSources []) ∧
      ¬ Noninterfering strictPython teamA (pendingSources [pendingOf hugeOwner])
        (pendingSources []) := by
  obtain ⟨-, -, howned⟩ := hidden_owners
  have hnone : ownQueue strictPython teamA [pendingOf hugeOwner] = [] :=
    List.filter_cons_of_neg (by rw [howned]; exact Bool.noConfusion)
  refine ⟨sameRecords_pending hnone, fun hnon => ?_⟩
  have hempty : Readable strictPython (pendingSources []) := by
    constructor <;> exact fun _ h => absurd h List.not_mem_nil
  have htenant := normalizeTenantId_teamA
  obtain ⟨p, hp, -⟩ := prepareJobs_of_readable htenant (by decide) hempty
  obtain ⟨answer, hanswer⟩ := shown_noJobs hp anyQuery
  have hshown := hnon noJobs anyQuery
  rw [hanswer, shown_of_unprepared (prepareJobs_of_unreadable htenant (by decide)
    hugeOwner_unreadable)] at hshown
  cases hshown

end OpenClaw.Jobs
