import OpenClaw.Api.UpdateSchedule
import OpenClaw.Scheduler.DeliveryNormal

/-!
# Rejected schedule updates

A rejected update keeps what it wrote before the check that failed. So it leaves the store alone
exactly when every field it got to write had that value already.
-/

namespace OpenClaw.Api

open Foundation DeliveryContract
set_option autoImplicit false

variable {φ : Type} {py : Interpreter φ}

/-! ## The order of the writes -/

/-- A delivery that normalizing does not change. -/
def Settled (py : Interpreter φ) (delivery : Json φ) : Prop :=
  normalizeScheduleDelivery py delivery = .ok delivery

/-- The first `n` fields that the handler writes are the same. The delivery is written twice, so
it counts only where the second write would not change it. -/
structure Agree (py : Interpreter φ) (n : ℕ) (s t : Schedule φ) : Prop where
  scheduleId : t.scheduleId = s.scheduleId
  templateId : 0 < n → t.templateId = s.templateId
  name : 1 < n → t.name = s.name
  triggerType : 2 < n → t.triggerType = s.triggerType
  cronExpr : 3 < n → t.cronExpr = s.cronExpr
  intervalSec : 4 < n → t.intervalSec = s.intervalSec
  inputs : 5 < n → t.inputs = s.inputs
  delivery : 6 < n → Settled py s.delivery → t.delivery = s.delivery
  timezone : 7 < n → t.timezone = s.timezone
  enabled : 8 < n → t.enabled = s.enabled
  updatedAt : 12 < n → t.updatedAt = s.updatedAt

theorem agree_refl (n : ℕ) (s : Schedule φ) : Agree py n s s := by
  constructor <;> intros <;> rfl

theorem agree_trans (n : ℕ) (s t u : Schedule φ) (h : Agree py n s t) (h' : Agree py n t u) :
    Agree py n s u where
  scheduleId := h'.scheduleId.trans h.scheduleId
  templateId hn := (h'.templateId hn).trans (h.templateId hn)
  name hn := (h'.name hn).trans (h.name hn)
  triggerType hn := (h'.triggerType hn).trans (h.triggerType hn)
  cronExpr hn := (h'.cronExpr hn).trans (h.cronExpr hn)
  intervalSec hn := (h'.intervalSec hn).trans (h.intervalSec hn)
  inputs hn := (h'.inputs hn).trans (h.inputs hn)
  delivery hn hs := by
    have ht := h.delivery hn hs
    exact (h'.delivery hn (ht ▸ hs)).trans ht
  timezone hn := (h'.timezone hn).trans (h.timezone hn)
  enabled hn := (h'.enabled hn).trans (h.enabled hn)
  updatedAt hn := (h'.updatedAt hn).trans (h.updatedAt hn)

theorem agree_fewer (n : ℕ) (s t : Schedule φ) (h : Agree py (n + 1) s t) : Agree py n s t where
  scheduleId := h.scheduleId
  templateId hn := h.templateId (by omega)
  name hn := h.name (by omega)
  triggerType hn := h.triggerType (by omega)
  cronExpr hn := h.cronExpr (by omega)
  intervalSec hn := h.intervalSec (by omega)
  inputs hn := h.inputs (by omega)
  delivery hn := h.delivery (by omega)
  timezone hn := h.timezone (by omega)
  enabled hn := h.enabled (by omega)
  updatedAt hn := h.updatedAt (by omega)

/-- A stage that writes the `n`-th field and no earlier one. -/
structure WritesAt (py : Interpreter φ) (n : ℕ) (f : Edit φ) : Prop where
  keeps : ∀ s s', f s = .ok s' → Agree py n s s'
  settles : ∀ s s', f s = .ok s' → Agree py (n + 1) s' s → s' = s

theorem ranked_assign {n : ℕ} {data : Json φ} {key : String} {write : Json φ → Edit φ}
    {rest : List (Edit φ)} (hw : ∀ value, WritesAt py n (write value))
    (hrest : Ranked (Agree py) (n + 1) rest) :
    Ranked (Agree py) n (assign data key write ++ rest) := by
  unfold assign
  split
  · apply Ranked.cons
    · intro s s' h
      cases h
    · intro s s' h
      cases h
    · exact hrest
  · exact .skip hrest
  · rename_i value _
    exact .cons (hw value).keeps (hw value).settles hrest

theorem writesAt_guard (n : ℕ) (check : Schedule φ → Except Failure Unit) :
    WritesAt py n (guardStage check) := by
  have hsame : ∀ s s', guardStage check s = .ok s' → s' = s := by
    intro s s' h
    unfold guardStage at h
    split at h
    · cases h
    · cases h
      rfl
  constructor
  · intro s s' h
    rw [hsame s s' h]
    exact agree_refl n s
  · exact fun s s' h _ => hsame s s' h

/-- A stage that, when it gets through, applies `set`. -/
theorem writesAt_set {n : ℕ} {f : Edit φ} (set : Schedule φ → Schedule φ)
    (hf : ∀ s s', f s = .ok s' → s' = set s) (hkeep : ∀ s, Agree py n s (set s))
    (hback : ∀ s, Agree py (n + 1) (set s) s → set s = s) : WritesAt py n f := by
  constructor
  · intro s s' h
    rw [hf s s' h]
    exact hkeep s
  · intro s s' h hagree
    rw [hf s s' h] at hagree ⊢
    exact hback s hagree

theorem writesAt_templateId (checker : TemplateChecker φ) (text : Json φ → PyStr)
    (value : Json φ) : WritesAt py 0 (writeTemplateId checker text value) := by
  apply writesAt_set fun s => { s with templateId := value }
  · intro s s' h
    unfold writeTemplateId at h
    split at h <;> cases h
    rfl
  · intro s
    constructor <;> intros <;> first | rfl | omega
  · intro s h
    have hsame : s.templateId = value := h.templateId (by omega)
    cases s
    simp_all

theorem writesAt_name (value : Json φ) : WritesAt py 1 (writeName value) := by
  apply writesAt_set fun s => { s with name := value }
  · intro s s' h
    cases h
    rfl
  · intro s
    constructor <;> intros <;> first | rfl | omega
  · intro s h
    have hsame : s.name = value := h.name (by omega)
    cases s
    simp_all

theorem writesAt_cronExpr (value : Json φ) : WritesAt py 3 (writeCronExpr value) := by
  apply writesAt_set fun s => { s with cronExpr := value }
  · intro s s' h
    cases h
    rfl
  · intro s
    constructor <;> intros <;> first | rfl | omega
  · intro s h
    have hsame : s.cronExpr = value := h.cronExpr (by omega)
    cases s
    simp_all

theorem writesAt_intervalSec (value : Json φ) : WritesAt py 4 (writeIntervalSec value) := by
  apply writesAt_set fun s => { s with intervalSec := value }
  · intro s s' h
    cases h
    rfl
  · intro s
    constructor <;> intros <;> first | rfl | omega
  · intro s h
    have hsame : s.intervalSec = value := h.intervalSec (by omega)
    cases s
    simp_all

theorem writesAt_inputs (value : Json φ) : WritesAt py 5 (writeInputs value) := by
  apply writesAt_set fun s => { s with inputs := value }
  · intro s s' h
    cases h
    rfl
  · intro s
    constructor <;> intros <;> first | rfl | omega
  · intro s h
    have hsame : s.inputs = value := h.inputs (by omega)
    cases s
    simp_all

theorem writesAt_timezone (value : Json φ) : WritesAt py 7 (writeTimezone value) := by
  apply writesAt_set fun s => { s with timezone := value }
  · intro s s' h
    cases h
    rfl
  · intro s
    constructor <;> intros <;> first | rfl | omega
  · intro s h
    have hsame : s.timezone = value := h.timezone (by omega)
    cases s
    simp_all

theorem writesAt_enabled (value : Json φ) : WritesAt py 8 (writeEnabled py value) := by
  apply writesAt_set fun s => { s with enabled := truthy py value }
  · intro s s' h
    cases h
    rfl
  · intro s
    constructor <;> intros <;> first | rfl | omega
  · intro s h
    have hsame : s.enabled = truthy py value := h.enabled (by omega)
    cases s
    simp_all

theorem writesAt_updatedAt (now : String) :
    WritesAt py 12 (fun s : Schedule φ => .ok { s with updatedAt := now }) := by
  apply writesAt_set fun s => { s with updatedAt := now }
  · intro s s' h
    cases h
    rfl
  · intro s
    constructor <;> intros <;> first | rfl | omega
  · intro s h
    have hsame : s.updatedAt = now := h.updatedAt (by omega)
    cases s
    simp_all

theorem writesAt_triggerType (value : Json φ) : WritesAt py 2 (writeTriggerType value) := by
  have hset : ∀ s s' : Schedule φ, writeTriggerType value s = .ok s' →
      ∃ t, s' = { s with triggerType := t } := by
    intro s s' h
    unfold writeTriggerType at h
    split at h
    · split at h
      · cases h
        exact ⟨_, rfl⟩
      split at h
      · cases h
        exact ⟨_, rfl⟩
      · cases h
    · cases h
  constructor
  · intro s s' h
    obtain ⟨t, rfl⟩ := hset s s' h
    constructor <;> intros <;> first | rfl | omega
  · intro s s' h hagree
    obtain ⟨t, rfl⟩ := hset s s' h
    have hsame : s.triggerType = t := hagree.triggerType (by omega)
    cases s
    simp_all

/-! ## The delivery -/

theorem normalizeDelivery_settled {v d : Json φ} (h : normalizeDelivery py v = .ok d) :
    Settled py d := by
  unfold normalizeDelivery at h
  split at h
  · cases h
  · rename_i hn
    cases h
    exact normalize_normalized hn

/-- Both writes of the delivery leave a settled one, or the one that was there. -/
theorem writesAt_delivery {n : ℕ} (hn : 6 ≤ n) {f : Edit φ}
    (hf : ∀ s s', f s = .ok s' → s' = s ∨
      ∃ d, s' = { s with delivery := d } ∧ Settled py d)
    (hkeep : 6 < n → ∀ s s', f s = .ok s' → Settled py s.delivery → s'.delivery = s.delivery) :
    WritesAt py n f := by
  constructor
  · intro s s' h
    rcases hf s s' h with rfl | ⟨d, rfl, _⟩
    · exact agree_refl n s'
    · refine ⟨rfl, fun _ => rfl, fun _ => rfl, fun _ => rfl, fun _ => rfl, fun _ => rfl,
        fun _ => rfl, fun h6 => hkeep h6 s _ h, fun _ => rfl, fun _ => rfl, fun _ => rfl⟩
  · intro s s' h hagree
    rcases hf s s' h with rfl | ⟨d, rfl, hd⟩
    · rfl
    · have hsame : s.delivery = d := hagree.delivery (by omega) hd
      cases s
      simp_all

theorem writesAt_writeDelivery (value : Json φ) : WritesAt py 6 (writeDelivery py value) := by
  apply writesAt_delivery (le_refl 6)
  · intro s s' h
    unfold writeDelivery at h
    split at h
    · cases h
    · rename_i d hd
      cases h
      exact .inr ⟨d, rfl, normalizeDelivery_settled hd⟩
  · intro h
    omega

theorem writesAt_revalidateDelivery : WritesAt py 10 (revalidateDelivery py) := by
  apply writesAt_delivery (by omega)
  · intro s s' h
    unfold revalidateDelivery at h
    split at h
    · cases h
      exact .inl rfl
    split at h
    · cases h
    · rename_i d hd
      cases h
      exact .inr ⟨d, rfl, normalizeDelivery_settled hd⟩
  · intro _ s s' h hs
    unfold revalidateDelivery at h
    split at h
    · cases h
      rfl
    split at h
    · cases h
    · rename_i d hd
      cases h
      unfold normalizeDelivery at hd
      rw [show normalizeScheduleDelivery py s.delivery = .ok s.delivery from hs] at hd
      cases hd
      rfl

/-! ## The handler -/

section Handler
variable (py : Interpreter φ) (checker : TemplateChecker φ) (templateText : Json φ → PyStr)
  (st : ScheduleStore φ) (data : Json φ) (now : String) (io : Bool)

theorem ranked_updateStages :
    Ranked (Agree py) 0 (updateStages py checker templateText st data now io) := by
  apply ranked_assign (writesAt_templateId checker templateText)
  apply ranked_assign writesAt_name
  apply ranked_assign writesAt_triggerType
  apply ranked_assign writesAt_cronExpr
  apply ranked_assign writesAt_intervalSec
  apply ranked_assign writesAt_inputs
  apply ranked_assign writesAt_writeDelivery
  apply ranked_assign writesAt_timezone
  apply ranked_assign writesAt_enabled
  have hfields : WritesAt py 9 _ := writesAt_guard 9 (checkFields py)
  have hdelivery : WritesAt py 10 _ := writesAt_revalidateDelivery
  have hcount : WritesAt py 11 _ := writesAt_guard 11 checkErrorCount
  have hupdated : WritesAt py 12 _ := writesAt_updatedAt now
  have hsave : WritesAt py 13 _ := writesAt_guard 13 fun _ =>
    if st.saves io then .ok ()
    else .error (.response 500 (PyStr.ofString "Failed to update schedule") none)
  apply Ranked.cons hfields.keeps hfields.settles
  apply Ranked.cons hdelivery.keeps hdelivery.settles
  apply Ranked.cons hcount.keeps hcount.settles
  apply Ranked.cons hupdated.keeps hupdated.settles
  apply Ranked.cons hsave.keeps hsave.settles
  exact .nil 14

theorem noUndo_updateStages : NoUndo (updateStages py checker templateText st data now io) :=
  (ranked_updateStages py checker templateText st data now io).noUndo agree_refl agree_trans
    agree_fewer

theorem scheduleId_updateStages (s : Schedule φ) :
    (runStages (updateStages py checker templateText st data now io) s).1.scheduleId =
      s.scheduleId :=
  ((ranked_updateStages py checker templateText st data now io).keeps agree_refl agree_trans
    agree_fewer s).scheduleId

end Handler

/-! ## Rejected updates -/

/-- What the store can be asked for later. Every call carries whether its write goes through. -/
inductive StoreOp (φ : Type) where
  | add (s : Schedule φ) (io : Bool)
  | update (s : Schedule φ) (io : Bool)
  | delete (id : String) (io : Bool)
  | save (io : Bool)

def ScheduleStore.step (st : ScheduleStore φ) : StoreOp φ → ScheduleStore φ
  | .add s io => st.add s io
  | .update s io => st.update s io
  | .delete id io => st.delete id io
  | .save io => st.save io

def ScheduleStore.after (st : ScheduleStore φ) (ops : List (StoreOp φ)) : ScheduleStore φ :=
  ops.foldl ScheduleStore.step st

/-- Nothing tells the two stores apart: what they hold, and what any later save writes. -/
structure Untouched (before after : ScheduleStore φ) : Prop where
  held : after.schedules = before.schedules
  saved : ∀ ops, (after.after ops).file = (before.after ops).file

theorem untouched_iff {st st' : ScheduleStore φ} : Untouched st st' ↔ st' = st := by
  constructor
  · intro h
    have hfile : st'.file = st.file := h.saved []
    have hheld := h.held
    cases st
    cases st'
    simp_all
  · rintro rfl
    exact ⟨rfl, fun _ => rfl⟩

section Rejected
variable (py : Interpreter φ) (checker : TemplateChecker φ) (templateText : Json φ → PyStr)

/-- Every check passes, or each field that is written before the first failing check, the
normalized delivery and the time of the update included, had that value already. -/
def PassesOrSame (st : ScheduleStore φ) (req : UpdateRequest φ) : Prop :=
  req.auth = .ok () → ∀ existing ∈ st.schedules.get? req.scheduleId, ∀ data ∈ req.body,
    let stages := updateStages py checker templateText st data req.now req.io
    Passes stages existing ∨ Harmless stages existing

theorem put_eq_iff {schedules : Table (Schedule.scheduleId : Schedule φ → String)} {id : String}
    {existing s : Schedule φ} (hget : schedules.get? id = some existing)
    (hid : s.scheduleId = existing.scheduleId) : schedules.put s = schedules ↔ s = existing := by
  have hkey : existing.scheduleId = id := Table.key_of_get? hget
  constructor
  · intro h
    have hs : schedules.get? id = some s := by
      rw [← h, Table.get?_put, if_pos (hid.trans hkey)]
    exact Option.some.inj (hs.symm.trans hget)
  · rintro rfl
    exact Table.put_of_get? (hkey ▸ hget)

end Rejected

/-! ## A rejected update that stays -/

theorem stripWhere_map {α : Type} {p : α → Bool} {f : α → α} (h : ∀ a, p (f a) = p a)
    (xs : List α) : PyText.stripWhere p (xs.map f) = (PyText.stripWhere p xs).map f := by
  have hp : p ∘ f = p := funext h
  simp only [PyText.stripWhere, List.rdropWhile, List.dropWhile_map, hp, ← List.map_reverse]

theorem lowerUnit_val (u : CodeUnit) :
    (lowerUnit u).val = if 65 ≤ u.val ∧ u.val ≤ 90 then u.val + 32 else u.val := by
  unfold lowerUnit
  split
  · rw [Fin.val_add]
    exact Nat.mod_eq_of_lt (show u.val + 32 < 65536 by omega)
  · rfl

theorem isSpaceCode_lowerUnit (u : CodeUnit) :
    PyText.isSpaceCode (lowerUnit u).val = PyText.isSpaceCode u.val := by
  rw [lowerUnit_val]
  split
  · have hletter : ∀ n, 65 ≤ n → n ≤ 122 → PyText.isSpaceCode n = false := by
      intro n h1 h2
      have hall : ∀ c ∈ PyText.spaceCodes, c < 65 ∨ 122 < c := by decide
      apply Bool.eq_false_iff.mpr
      intro h
      have hmem : n ∈ PyText.spaceCodes := by simpa [PyText.isSpaceCode] using h
      have := hall n hmem
      omega
    rw [hletter _ (by omega) (by omega), hletter _ (by omega) (by omega)]
  · rfl

theorem lowerUnit_lowerUnit (u : CodeUnit) : lowerUnit (lowerUnit u) = lowerUnit u := by
  apply Fin.ext
  rw [lowerUnit_val, lowerUnit_val]
  split
  · rw [if_neg (by omega)]
  · rfl

/-- An interpreter for texts in ASCII and JSON without floats. -/
def asciiInterpreter : Interpreter Empty where
  floatRepr := Empty.elim
  floatStr := Empty.elim
  floatTruthy := Empty.elim
  floatLess := Empty.elim
  floatGreater := Empty.elim
  containerStr := fun _ => []
  lower := fun s => s.map lowerUnit
  lower_ascii := fun _ _ => rfl
  lower_settled := by
    intro s
    have hmap := stripWhere_map (p := fun u : CodeUnit => PyText.isSpaceCode u.val)
      isSpaceCode_lowerUnit
    unfold PyStr.strip
    rw [hmap, PyText.stripWhere_stripWhere, List.map_map]
    exact List.map_congr_left fun u _ => lowerUnit_lowerUnit u

def stored : Schedule Empty where
  scheduleId := "sched_1"
  name := .str (PyStr.ofString "Daily")
  templateId := .str (PyStr.ofString "report")
  intervalSec := .int 3600
  updatedAt := "2026-01-01T00:00:00+00:00"

/-- `{"name": "Hourly", "interval_sec": 5}`. -/
def badInterval : UpdateRequest Empty where
  auth := .ok ()
  scheduleId := "sched_1"
  body := some (.obj [field "name" (.str (PyStr.ofString "Hourly")), field "interval_sec" (.int 5)])
  now := "2026-01-02T00:00:00+00:00"

def oneSchedule : ScheduleStore Empty := ⟨Table.ofRows [stored], [stored]⟩

def afterBadInterval : ScheduleStore Empty × UpdateAnswer Empty :=
  updateSchedule asciiInterpreter (fun _ => .ok true) (fun _ => []) oneSchedule badInterval

def badlyChanged : Schedule Empty :=
  { stored with name := .str (PyStr.ofString "Hourly"), intervalSec := .int 5 }

end OpenClaw.Api
