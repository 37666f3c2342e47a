import OpenClaw.Api.RejectedUpdate
import OpenClaw.Foundation.Checks
import OpenClaw.Scheduler.ScheduleStorage

/-!
# Are schedule store operations atomic?

A call changes the map before it saves it, and answers with the outcome of the save. So a failed save
leaves a change that was reported as refused. What was saved comes back as long as every schedule of
the map passes its own validation.
-/

namespace OpenClaw.ScheduleStorage

open Foundation DeliveryContract
open Api (TriggerType)
set_option autoImplicit false

variable {φ : Type} {py : Interpreter φ}

/-! ## Round trips -/

section RoundTrip

/-- The schedule has a trigger type, its delivery is normalized, and it passes its own validation. -/
structure Valid (py : Interpreter φ) (s : Schedule φ) : Prop where
  trigger : ∃ t, s.triggerType = .kind t
  delivery : normalize py s.delivery = .ok s.delivery
  validates : validate py s = .ok s

theorem triggerType?_text (t : TriggerType) : triggerType? (triggerText t) = .ok t := by
  cases t <;> decide

theorem normalize_twice {v d : Json φ} (h : normalize py v = .ok d) : normalize py d = .ok d := by
  unfold normalize Api.normalizeDelivery at h ⊢
  cases hv : normalizeScheduleDelivery py v with
  | error e =>
    rw [hv] at h
    cases h
  | ok d' =>
    rw [hv] at h
    cases h
    rw [normalize_normalized hv]
    rfl

theorem revalidated_eq {d d' : Json φ} (hd : normalize py d = .ok d)
    (h : revalidated py d = .ok d') : d' = d := by
  unfold revalidated at h
  split at h
  · rw [hd] at h
    exact (Except.ok.inj h).symm
  · exact (Except.ok.inj h).symm

/-- Validation writes nothing but the delivery. -/
theorem validate_eq {s s' : Schedule φ} (h : validate py s = .ok s') :
    ∃ d, revalidated py s.delivery = .ok d ∧ s' = { s with delivery := d } := by
  unfold validate at h
  obtain ⟨_, -, h⟩ := bind_eq_ok h
  obtain ⟨d, hd, h⟩ := bind_eq_ok h
  obtain ⟨_, -, h⟩ := bind_eq_ok h
  exact ⟨d, hd, (Except.ok.inj h).symm⟩

theorem postInit_eq_iff (s : Schedule φ) : postInit py s = .ok s ↔
    normalize py s.delivery = .ok s.delivery ∧ validate py s = .ok s := by
  constructor
  · intro h
    obtain ⟨d, hd, hv⟩ := bind_eq_ok h
    obtain ⟨d', hd', hs⟩ := validate_eq hv
    have hsame : s.delivery = d := by
      rw [← revalidated_eq (normalize_twice hd) hd']
      exact congrArg Schedule.delivery hs
    rw [← hsame] at hd hv
    exact ⟨hd, hv⟩
  · rintro ⟨hd, hv⟩
    rw [postInit, hd]
    exact hv

theorem fields_known (s : Schedule φ) (t : TriggerType) :
    (s.fields t).all (fun f => f.1 ∈ fieldNames) = true := by
  have hnames : (s.fields t).map Prod.fst = fieldNames := rfl
  rw [List.all_eq_true]
  intro f hf
  rw [decide_eq_true_eq, ← hnames]
  exact List.mem_map_of_mem hf

/-- Reading the dictionary of a schedule back runs its initialization again. -/
theorem fromDict_fields (now : PyStr) {s : Schedule φ} {t : TriggerType}
    (ht : s.triggerType = .kind t) : fromDict py now (.obj (s.fields t)) = postInit py s := by
  have hread : readTrigger (s.fields t) = .ok (.kind t) := by
    simp [readTrigger, Schedule.fields, triggerType?_text, Except.map]
  have hconstruct : construct py now (s.fields t) (.kind t) = postInit py s := by
    have hid : get? (s.fields t) "schedule_id" = some s.scheduleId := by simp [Schedule.fields]
    have hname : get? (s.fields t) "name" = some s.name := by simp [Schedule.fields]
    have htemplate : get? (s.fields t) "template_id" = some s.templateId := by
      simp [Schedule.fields]
    simp only [construct, hid, hname, htemplate, fields_known, if_true, ← ht]
    simp [Schedule.fields]
  rw [fromDict, hread]
  exact hconstruct

theorem toDict_ok {s : Schedule φ} {j : Json φ} (h : s.toDict = .ok j) :
    ∃ t, s.triggerType = .kind t ∧ j = .obj (s.fields t) := by
  unfold Schedule.toDict at h
  split at h
  · cases h
    exact ⟨_, ‹_›, rfl⟩
  · cases h

theorem fromDict_toDict_iff (now : PyStr) {s : Schedule φ} {j : Json φ} (h : s.toDict = .ok j) :
    fromDict py now j = .ok s ↔ Valid py s := by
  obtain ⟨t, ht, rfl⟩ := toDict_ok h
  rw [fromDict_fields now ht, postInit_eq_iff]
  exact ⟨fun ⟨hd, hv⟩ => ⟨⟨t, ht⟩, hd, hv⟩, fun hv => ⟨hv.delivery, hv.validates⟩⟩

/-! ## Whole files -/

theorem loadRows_keys {now : PyStr} {data : List (PyStr × Json φ)} :
    ∀ {loaded : List (PyStr × Schedule φ)}, loadRows py now data = .ok loaded →
      (loaded.map Prod.fst).Sublist (data.map Prod.fst) := by
  induction data with
  | nil =>
    intro loaded h
    cases h
    exact List.Sublist.refl _
  | cons row data ih =>
    intro loaded h
    obtain ⟨sid, sdata⟩ := row
    unfold loadRows at h
    split at h
    · cases hrest : loadRows py now data with
      | error e =>
        rw [hrest] at h
        cases h
      | ok rest =>
        rw [hrest] at h
        cases h
        exact (ih hrest).cons_cons sid
    · split at h
      · exact (ih h).cons sid
      · cases h

theorem toData_keys {rows : List (PyStr × Schedule φ)} : ∀ {data : List (PyStr × Json φ)},
    toData rows = .ok data → data.map Prod.fst = rows.map Prod.fst := by
  induction rows with
  | nil =>
    intro data h
    cases h
    rfl
  | cons row rows ih =>
    intro data h
    obtain ⟨sid, s⟩ := row
    unfold toData at h
    split at h
    · cases hrest : toData rows with
      | error e =>
        rw [hrest] at h
        cases h
      | ok rest =>
        rw [hrest] at h
        cases h
        exact congrArg (List.cons sid) (ih hrest)
    · cases h

/-- What was saved is loaded again exactly when every schedule is valid. -/
theorem loadRows_toData_iff (now : PyStr) {rows : List (PyStr × Schedule φ)} :
    ∀ {data : List (PyStr × Json φ)}, toData rows = .ok data →
      (loadRows py now data = .ok rows ↔ ∀ row ∈ rows, Valid py row.2) := by
  induction rows with
  | nil =>
    intro data h
    cases h
    exact ⟨fun _ _ hrow => (by cases hrow), fun _ => rfl⟩
  | cons row rows ih =>
    intro data h
    obtain ⟨sid, s⟩ := row
    have hkeys := toData_keys h
    unfold toData at h
    split at h
    · rename_i j hj
      cases hrest : toData rows with
      | error e =>
        rw [hrest] at h
        cases h
      | ok rest =>
        rw [hrest] at h
        cases h
        rw [List.forall_mem_cons, ← ih hrest, ← fromDict_toDict_iff now hj, loadRows]
        cases hfrom : fromDict py now j with
        | ok s' =>
          cases hload : loadRows py now rest with
          | error e => simp [Except.map]
          | ok loaded => simp [Except.map]
        | error e =>
          have hno : ∀ loaded, (if e.skipped then loadRows py now rest else .error e) =
              .ok loaded → loaded ≠ (sid, s) :: rows := by
            rintro loaded hload rfl
            split at hload
            · have hlen := (loadRows_keys hload).length_le
              rw [List.length_map, List.length_map, List.length_cons] at hlen
              have hsame := congrArg List.length (toData_keys hrest)
              rw [List.length_map, List.length_map] at hsame
              omega
            · cases hload
          constructor
          · exact fun hload => absurd rfl (hno _ hload)
          · intro hok
            cases hok.1
    · cases h

theorem load_save_iff (now : PyStr) {schedules : Schedules φ} {data : List (PyStr × Json φ)}
    (h : toData schedules.rows = .ok data) :
    loadSchedules py now (.document (.obj data)) = .ok schedules ↔
      ∀ row ∈ schedules.rows, Valid py row.2 := by
  rw [← loadRows_toData_iff now h, loadSchedules]
  constructor
  · intro hload
    cases hrows : loadRows py now data with
    | error e =>
      rw [hrows] at hload
      cases hload
    | ok loaded =>
      rw [hrows] at hload
      have hsub := loadRows_keys hrows
      rw [toData_keys h] at hsub
      have hnodup : (loaded.map Prod.fst).Nodup := hsub.nodup schedules.nodup
      have htable : (Table.ofRows loaded : Schedules φ) = schedules := Except.ok.inj hload
      rw [← htable, Table.rows_ofRows hnodup]
  · intro hrows
    rw [hrows]
    have htable : (Table.ofRows schedules.rows : Schedules φ) = schedules :=
      Table.ext (Table.rows_ofRows schedules.nodup)
    exact congrArg Except.ok htable

end RoundTrip

/-! ## One call -/

/-- Every schedule has a trigger type that can be written. -/
def Serializable (schedules : Schedules φ) : Prop :=
  ∀ row ∈ schedules.rows, ∃ t, row.2.triggerType = .kind t

theorem toData_ok_iff {rows : List (PyStr × Schedule φ)} :
    (∃ data, toData rows = .ok data) ↔ ∀ row ∈ rows, ∃ t, row.2.triggerType = .kind t := by
  induction rows with
  | nil => exact ⟨fun _ _ hrow => (by cases hrow), fun _ => ⟨[], rfl⟩⟩
  | cons row rows ih =>
    obtain ⟨sid, s⟩ := row
    rw [List.forall_mem_cons, ← ih]
    cases ht : s.triggerType with
    | kind t =>
      have hdict : s.toDict = .ok (.obj (s.fields t)) := by simp only [Schedule.toDict, ht]
      rw [toData, hdict]
      constructor
      · rintro ⟨data, hdata⟩
        refine ⟨⟨t, rfl⟩, ?_⟩
        cases hrest : toData rows with
        | error e =>
          rw [hrest] at hdata
          cases hdata
        | ok rest => exact ⟨rest, rfl⟩
      · rintro ⟨-, rest, hrest⟩
        rw [hrest]
        exact ⟨_, rfl⟩
    | other value =>
      have hdict : s.toDict = .error .attributeError := by simp only [Schedule.toDict, ht]
      rw [toData, hdict]
      constructor
      · rintro ⟨data, hdata⟩
        cases hdata
      · rintro ⟨⟨t, hkind⟩, -⟩
        cases hkind

theorem toData_error {rows : List (PyStr × Schedule φ)} {e : Raised} (h : toData rows = .error e) :
    ¬∀ row ∈ rows, ∃ t, row.2.triggerType = .kind t := by
  rw [← toData_ok_iff]
  rintro ⟨data, hdata⟩
  rw [h] at hdata
  cases hdata

/-- The save of the map answers with a failure. -/
def SaveFails (schedules : Schedules φ) (io : Io) : Prop :=
  maxSchedules < schedules.size ∨ io = .writeFails ∧ Serializable schedules

/-- The save of the map goes through. -/
def Saved (schedules : Schedules φ) (io : Io) : Prop :=
  schedules.size ≤ maxSchedules ∧ io = .fine ∧ Serializable schedules

theorem saveSchedules_false_iff {schedules : Schedules φ} {io : Io} {file : File φ} :
    (saveSchedules schedules io file).2 = .ok false ↔ SaveFails schedules io := by
  unfold saveSchedules SaveFails
  by_cases hsize : maxSchedules < schedules.size
  · rw [if_pos hsize]
    exact ⟨fun _ => .inl hsize, fun _ => rfl⟩
  · rw [if_neg hsize]
    cases hdata : toData schedules.rows with
    | ok data =>
      have hser : Serializable schedules := toData_ok_iff.mp ⟨data, hdata⟩
      cases io <;> simp [hsize, hser]
    | error e =>
      have hser : ¬Serializable schedules := toData_error hdata
      cases io <;> simp [hsize, hser]

theorem saveSchedules_true {schedules : Schedules φ} {io : Io} {file : File φ}
    (h : (saveSchedules schedules io file).2 = .ok true) : Saved schedules io ∧
      ∃ data, toData schedules.rows = .ok data ∧
        (saveSchedules schedules io file).1 = .document (.obj data) := by
  unfold saveSchedules at h ⊢
  by_cases hsize : maxSchedules < schedules.size
  · rw [if_pos hsize] at h
    cases h
  · rw [if_neg hsize] at h ⊢
    cases hdata : toData schedules.rows with
    | ok data =>
      rw [hdata] at h
      cases io with
      | fine =>
        exact ⟨⟨not_lt.mp hsize, rfl, toData_ok_iff.mp ⟨data, hdata⟩⟩, data, rfl, rfl⟩
      | writeFails => cases h
      | pathFails => cases h
    | error e =>
      rw [hdata] at h
      cases io <;> cases h

theorem saveSchedules_of_saved {schedules : Schedules φ} {io : Io} (file : File φ)
    (h : Saved schedules io) : (saveSchedules schedules io file).2 = .ok true := by
  obtain ⟨hsize, rfl, hser⟩ := h
  obtain ⟨data, hdata⟩ := toData_ok_iff.mpr hser
  simp only [saveSchedules, if_neg (not_lt.mpr hsize), hdata]

/-- A reader sees no difference only where there is none. -/
theorem unchanged_of_reads {c : Call φ} {schedules after : Schedules φ}
    (h : c.carriedOut schedules = some after)
    (hget : ∀ id, (after.get? id).map Prod.snd = (schedules.get? id).map Prod.snd)
    (hlist : after.rows.map Prod.snd = schedules.rows.map Prod.snd) : after = schedules := by
  have hsize : after.size = schedules.size := by
    have hlen := congrArg List.length hlist
    rwa [List.length_map, List.length_map] at hlen
  cases c with
  | add s =>
    rw [Call.carriedOut] at h
    split at h
    · cases h
    · rename_i hno
      cases h
      have hnone : ¬(schedules.get? s.id).isSome = true := fun hsome => hno (.inr hsome)
      rw [Table.size_put, if_neg hnone] at hsize
      omega
  | update s =>
    rw [Call.carriedOut] at h
    split at h
    · cases h
    · cases h
      have hself := hget s.id
      rw [Table.get?_put, if_pos rfl, Option.map_some] at hself
      obtain ⟨⟨k, s'⟩, hrow, hs⟩ := Option.map_eq_some_iff.mp hself.symm
      have hkey : k = s.id := Table.key_of_get? hrow
      have hschedule : s' = s.schedule := hs
      rw [hkey, hschedule] at hrow
      exact Table.put_of_get? hrow
  | delete scheduleId =>
    rw [Call.carriedOut] at h
    split at h
    · cases h
    · rename_i hsome
      cases h
      obtain ⟨row, hrow⟩ := Option.ne_none_iff_exists'.mp
        (fun hnone => hsome (by rw [hnone]; rfl) : schedules.get? scheduleId ≠ none)
      have hnone := hget scheduleId
      rw [Table.get?_drop, if_pos rfl, hrow] at hnone
      cases hnone

/-- A call that answers `False` leaves what `get` and `list_all` give, and after one that answers
`True` a reload gives the map in memory. -/
structure Atomic (py : Interpreter φ) (st : Store φ) (c : Call φ) (now : PyStr) (io : Io) :
    Prop where
  refused : (st.call py c now io).2 = .ok false →
    (∀ id, (st.call py c now io).1.get py now id = st.get py now id) ∧
      (st.call py c now io).1.listAll py now = st.listAll py now
  saved : (st.call py c now io).2 = .ok true →
    loadSchedules py now (st.call py c now io).1.file = .ok (st.call py c now io).1.schedules

/-- Where a call is carried out, a failing save finds the map as it was, and a save that goes through
has valid schedules only. -/
def Safe (py : Interpreter φ) (st : Store φ) (c : Call φ) (now : PyStr) (io : Io) : Prop :=
  ∀ t after, st.ensureLoaded py now = .ok t → c.carriedOut t.schedules = some after →
    (SaveFails after io → after = t.schedules) ∧
      (Saved after io → ∀ row ∈ after.rows, Valid py row.2)

theorem ensureLoaded_loaded {st t : Store φ} {now : PyStr} (h : st.ensureLoaded py now = .ok t) :
    t.loaded = true := by
  unfold Store.ensureLoaded at h
  split at h
  · cases h
    assumption
  · cases hload : loadSchedules py now st.file with
    | error e =>
      rw [hload] at h
      cases h
    | ok schedules =>
      rw [hload] at h
      cases h
      rfl

theorem ensureLoaded_of_loaded {st : Store φ} (h : st.loaded = true) (now : PyStr) :
    st.ensureLoaded py now = .ok st := by
  rw [Store.ensureLoaded, if_pos h]

theorem call_atomic_iff (st : Store φ) (c : Call φ) (now : PyStr) (io : Io) :
    Atomic py st c now io ↔ Safe py st c now io := by
  cases hload : st.ensureLoaded py now with
  | error e =>
    have hcall : st.call py c now io = (st, .error e) := by rw [Store.call, hload]
    constructor
    · intro _ t after ht
      rw [hload] at ht
      cases ht
    · intro _
      constructor <;> rw [hcall] <;> intro hans <;> cases hans
  | ok t =>
    have hget : ∀ id, st.get py now id = .ok ((t.schedules.get? id).map Prod.snd) := by
      intro id
      rw [Store.get, hload]
      rfl
    have hlist : st.listAll py now = .ok (t.schedules.rows.map Prod.snd) := by
      rw [Store.listAll, hload]
      rfl
    cases hout : c.carriedOut t.schedules with
    | none =>
      have hcall : st.call py c now io = (t, .ok false) := by
        simp only [Store.call, hload, hout]
      constructor
      · intro _ t' after ht hafter
        rw [hload] at ht
        cases ht
        rw [hout] at hafter
        cases hafter
      · intro _
        constructor
        · intro _
          rw [hcall, hlist]
          have hself : t.ensureLoaded py now = .ok t :=
            ensureLoaded_of_loaded (ensureLoaded_loaded hload) now
          refine ⟨fun id => ?_, ?_⟩
          · rw [hget, Store.get, hself]
            rfl
          · rw [Store.listAll, hself]
            rfl
        · rw [hcall]
          intro hans
          cases hans
    | some after =>
      have hcall : st.call py c now io =
          ({ t with schedules := after, file := (saveSchedules after io t.file).1 },
            (saveSchedules after io t.file).2) := by
        simp only [Store.call, hload, hout]
      have hloaded : (st.call py c now io).1.loaded = true := by
        rw [hcall]
        exact (ensureLoaded_loaded hload : t.loaded = true)
      have hself : (st.call py c now io).1.ensureLoaded py now = .ok (st.call py c now io).1 :=
        ensureLoaded_of_loaded hloaded now
      have hget' : ∀ id, (st.call py c now io).1.get py now id =
          .ok ((after.get? id).map Prod.snd) := by
        intro id
        rw [Store.get, hself, hcall]
        rfl
      have hlist' : (st.call py c now io).1.listAll py now = .ok (after.rows.map Prod.snd) := by
        rw [Store.listAll, hself, hcall]
        rfl
      have hans : (st.call py c now io).2 = (saveSchedules after io t.file).2 := by rw [hcall]
      constructor
      · intro h t' after' ht hafter
        rw [hload] at ht
        cases ht
        rw [hout] at hafter
        cases hafter
        constructor
        · intro hfails
          obtain ⟨hgets, hlists⟩ := h.refused (hans.trans (saveSchedules_false_iff.mpr hfails))
          apply unchanged_of_reads hout
          · intro id
            have hid := hgets id
            rw [hget', hget] at hid
            exact Except.ok.inj hid
          · rw [hlist', hlist] at hlists
            exact Except.ok.inj hlists
        · intro hsaved
          have htrue := saveSchedules_of_saved t.file hsaved
          obtain ⟨-, data, hdata, hfile⟩ := saveSchedules_true htrue
          have hback := h.saved (hans.trans htrue)
          rw [hcall] at hback
          rw [← load_save_iff now hdata, ← hfile]
          exact hback
      · intro h
        obtain ⟨hsame, hvalid⟩ := h t after hload hout
        constructor
        · intro hfalse
          have hafter := hsame (saveSchedules_false_iff.mp (hans.symm.trans hfalse))
          refine ⟨fun id => ?_, ?_⟩
          · rw [hget', hget, hafter]
          · rw [hlist', hlist, hafter]
        · intro htrue
          obtain ⟨hsaved, data, hdata, hfile⟩ := saveSchedules_true (hans.symm.trans htrue)
          rw [hcall]
          change loadSchedules py now (saveSchedules after io t.file).1 = .ok after
          rw [hfile]
          exact (load_save_iff now hdata).mpr (hvalid hsaved)

def dailyReport : Identified Empty where
  schedule :=
    { scheduleId := .str (PyStr.ofString "sched_1")
      name := .str (PyStr.ofString "Daily")
      templateId := .str (PyStr.ofString "report")
      intervalSec := .int 3600
      createdAt := .str (PyStr.ofString "2026-01-01T00:00:00+00:00")
      updatedAt := .str (PyStr.ofString "2026-01-01T00:00:00+00:00") }
  id := PyStr.ofString "sched_1"
  same := rfl

/-- The disk is full: the schedule is refused, and listed. -/
theorem refused_but_listed : ¬Atomic Api.asciiInterpreter { file := .missing } (.add dailyReport)
    (PyStr.ofString "2026-01-01T00:00:00+00:00") .writeFails := by
  intro h
  have hlist := (h.refused rfl).2
  have hlength := congrArg (Except.map List.length) hlist
  cases hlength

end OpenClaw.ScheduleStorage
