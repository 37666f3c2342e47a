import OpenClaw.Foundation.PyText

/-!
# Tenants

`services/tenant_context.py`: which tenant ids there are, and which tenant a call is for. The
settings are read from the environment and from the context variable of the running task.
-/

namespace OpenClaw.Tenants

open Foundation
set_option autoImplicit false

def defaultTenantId : PyStr := PyStr.ofString "default"

structure TenantBoundaryError where
  code : String
  message : String
  deriving DecidableEq

/-- `str.lower()` as far as the result is ASCII: the capital letters and the Kelvin sign. -/
def lowerUnit (u : CodeUnit) : CodeUnit :=
  if u.val = 0x212a then 107 else if 65 ≤ u.val ∧ u.val ≤ 90 then u + 32 else u

def isLowerOrDigit (u : CodeUnit) : Bool :=
  decide (97 ≤ u.val ∧ u.val ≤ 122) || decide (48 ≤ u.val ∧ u.val ≤ 57)

/-- A letter, a digit, a dot, an underscore or a dash. -/
def isTenantUnit (u : CodeUnit) : Bool := isLowerOrDigit u || decide (u.val ∈ [45, 46, 95])

/-- `TENANT_ID_RE`. -/
def tenantIdRe : PyStr → Bool
  | [] => false
  | u :: us => isLowerOrDigit u && decide (us.length ≤ 63) && us.all isTenantUnit

def tenantText (tenantId : PyStr) : PyStr := tenantId.strip.map lowerUnit

def normalizeTenantId (tenantId : PyStr) (fieldName : String := "tenant_id") :
    Except TenantBoundaryError PyStr :=
  if tenantText tenantId = [] then
    .error ⟨"tenant_invalid", fieldName ++ " must be non-empty"⟩
  else if tenantIdRe (tenantText tenantId) then .ok (tenantText tenantId)
  else .error ⟨"tenant_invalid", fieldName ++ " must match ^[a-z0-9][a-z0-9._-]\x7b0,63\x7d$"⟩

structure Settings where
  multiTenant : Bool
  /-- the context variable -/
  current : PyStr
  allowLegacyFallback : Bool := false

def Settings.getCurrentTenantId (env : Settings) : PyStr :=
  if env.multiTenant = false then defaultTenantId
  else if env.current = [] then defaultTenantId
  else env.current

/-! ## Normalized ids -/

theorem tenantIdRe_default : tenantIdRe defaultTenantId = true := by decide

section Units
variable {t : PyStr} {u : CodeUnit}

theorem tenantIdRe_units (h : tenantIdRe t = true) (hu : u ∈ t) : isTenantUnit u = true := by
  cases t with
  | nil => cases hu
  | cons v vs =>
    simp only [tenantIdRe, Bool.and_eq_true, List.all_eq_true] at h
    rcases List.mem_cons.mp hu with rfl | hu
    · simp [isTenantUnit, h.1.1]
    · exact h.2 u hu

theorem isTenantUnit_val (h : isTenantUnit u = true) :
    (97 ≤ u.val ∧ u.val ≤ 122) ∨ (48 ≤ u.val ∧ u.val ≤ 57) ∨ u.val = 45 ∨ u.val = 46 ∨
      u.val = 95 := by
  simpa [isTenantUnit, isLowerOrDigit, or_assoc] using h

theorem lowerUnit_of_tenantUnit (h : isTenantUnit u = true) : lowerUnit u = u := by
  have hval := isTenantUnit_val h
  rw [lowerUnit, if_neg (by omega), if_neg (by omega)]

theorem not_space_of_tenantUnit (h : isTenantUnit u = true) : PyText.isSpaceCode u.val = false := by
  have hall : ∀ n ∈ PyText.spaceCodes, ¬ ((97 ≤ n ∧ n ≤ 122) ∨ (48 ≤ n ∧ n ≤ 57) ∨ n = 45 ∨
      n = 46 ∨ n = 95) := by decide
  rw [PyText.isSpaceCode, List.contains_eq_mem, decide_eq_false_iff_not]
  exact fun hmem => hall _ hmem (isTenantUnit_val h)

theorem stripWhere_of_none {α : Type*} {p : α → Bool} {xs : List α} (h : ∀ x ∈ xs, p x = false) :
    PyText.stripWhere p xs = xs := by
  have hdrop : ∀ ys : List α, (∀ y ∈ ys, p y = false) → ys.dropWhile p = ys := by
    intro ys hys
    cases ys with
    | nil => rfl
    | cons y ys => exact List.dropWhile_cons_of_neg (by simp [hys y List.mem_cons_self])
  rw [PyText.stripWhere, hdrop xs h, List.rdropWhile, hdrop, List.reverse_reverse]
  exact fun x hx => h x (List.mem_reverse.mp hx)

theorem tenantText_of_valid (h : tenantIdRe t = true) : tenantText t = t := by
  have hstrip : t.strip = t :=
    stripWhere_of_none fun u hu => not_space_of_tenantUnit (tenantIdRe_units h hu)
  have hlower : t.map lowerUnit = t.map id :=
    List.map_congr_left fun u hu => lowerUnit_of_tenantUnit (tenantIdRe_units h hu)
  rw [tenantText, hstrip, hlower, List.map_id]

theorem ne_nil_of_valid (h : tenantIdRe t = true) : t ≠ [] := by
  rintro rfl
  cases h

theorem normalizeTenantId_of_valid (h : tenantIdRe t = true) (fieldName : String) :
    normalizeTenantId t fieldName = .ok t := by
  rw [normalizeTenantId, tenantText_of_valid h, if_neg (ne_nil_of_valid h), if_pos h]

theorem valid_of_normalizeTenantId {raw : PyStr} {fieldName : String}
    (h : normalizeTenantId raw fieldName = .ok t) : tenantIdRe t = true := by
  unfold normalizeTenantId at h
  split at h
  · cases h
  · split at h
    · rename_i hre
      cases h
      exact hre
    · cases h

end Units

end OpenClaw.Tenants
