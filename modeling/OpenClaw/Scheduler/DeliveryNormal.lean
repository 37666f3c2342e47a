import OpenClaw.Scheduler.DeliveryContract

/-!
# Normalized deliveries are settled

What `normalize_schedule_delivery` returns, it accepts and returns again, so validating a stored
schedule once more does not change its delivery.
-/

namespace OpenClaw.DeliveryContract

open Foundation
set_option autoImplicit false

/-! ## Keys -/

section Lookup
variable {φ : Type}

theorem get?_append (a b : Fields φ) (key : String) :
    get? (a ++ b) key = (get? a key).or (get? b key) := by
  unfold get?
  rw [List.find?_append]
  cases a.find? fun f => decide (f.1 = PyStr.ofString key) <;> rfl

@[simp] theorem get?_nil (key : String) : get? ([] : Fields φ) key = none := rfl

@[simp] theorem get?_field (k : String) (v : Json φ) (raw : Fields φ) (key : String) :
    get? (field k v :: raw) key = if k = key then some v else get? raw key := by
  unfold get? field
  by_cases h : k = key <;> simp [h]

@[simp] theorem get?_optionalField (k : String) (v : Option PyStr) (key : String) :
    get? (optionalField k v : Fields φ) key = if k = key then v.map .str else none := by
  cases v <;> simp [optionalField]

/-- What a lookup finds in the canonical form. -/
theorem get?_fields (c : Contract) (key : String) : get? (c.fields : Fields φ) key =
    if "enabled" = key then some (.bool true)
    else if "platform" = key then some (.str c.platform)
    else if "target_id" = key then some (.str c.targetId)
    else if "thread_id" = key then c.threadId.map .str
    else if "workspace_id" = key then c.workspaceId.map .str
    else if "account_id" = key then c.accountId.map .str
    else if "mode" = key then some (.str c.mode)
    else if "failure_alert" = key then some (.bool c.failureAlert)
    else none := by
  simp only [Contract.fields, get?_append, get?_field, get?_optionalField, get?_nil]
  by_cases h1 : "enabled" = key
  · simp [h1]
  by_cases h2 : "platform" = key
  · simp [h1, h2]
  by_cases h3 : "target_id" = key
  · simp [h1, h2, h3]
  by_cases h4 : "thread_id" = key
  · subst h4
    simp
  by_cases h5 : "workspace_id" = key
  · subst h5
    simp
  by_cases h6 : "account_id" = key
  · subst h6
    simp
  simp [h1, h2, h3, h4, h5, h6]

end Lookup

/-! ## What the readers return -/

section Readers
variable {φ : Type} {py : Interpreter φ} {raw : Fields φ}

/-- A stripped text that is not empty. -/
def Solid (t : PyStr) : Prop := t.strip = t ∧ t ≠ []

theorem aliasValues_solid {keys : List String} : ∀ {vs : List (String × PyStr)},
    aliasValues py raw keys = .ok vs → ∀ v ∈ vs, Solid v.2 := by
  induction keys with
  | nil =>
    intro vs h
    cases h
    exact fun v hv => by cases hv
  | cons key keys ih =>
    intro vs h
    unfold aliasValues at h
    split at h
    · exact ih h
    · exact ih h
    · cases h
    · rename_i value _ _
      simp only at h
      split at h
      · exact ih h
      · rename_i hne
        cases hrest : aliasValues py raw keys with
        | error e =>
          rw [hrest] at h
          cases h
        | ok rest =>
          rw [hrest] at h
          cases h
          intro v hv
          rcases List.mem_cons.mp hv with rfl | hv
          · exact ⟨PyStr.strip_strip _, hne⟩
          · exact ih hrest v hv

theorem resolveAlias_solid {keys : List String} {found : Option PyStr}
    (h : resolveAlias py raw keys = .ok found) : ∀ t ∈ found, Solid t := by
  intro t ht
  unfold resolveAlias at h
  split at h
  · cases h
  · cases h
    cases ht
  · rename_i key text rest hvs
    split at h
    · cases h
      cases ht
      exact aliasValues_solid hvs _ List.mem_cons_self
    · cases h

/-- What every platform that was resolved satisfies. -/
structure SettledPlatform (py : Interpreter φ) (p : PyStr) : Prop where
  solid : Solid p
  lower : py.lower p = p
  supported : p ∈ supportedPlatforms
  known : p ≠ PyStr.ofString "lark"

theorem supported_solid {p : PyStr} (h : p ∈ supportedPlatforms) : Solid p := by
  have hall : ∀ p ∈ supportedPlatforms, p.strip = p ∧ p ≠ [] := by decide
  exact hall p h

theorem lower_of_ascii {s : PyStr} (h : (s.all fun u => u.val < 128) = true)
    (hl : s.map lowerUnit = s) : py.lower s = s := by
  rw [py.lower_ascii s fun u hu => of_decide_eq_true (List.all_eq_true.mp h u hu), hl]

theorem supported_lower {p : PyStr} (h : p ∈ supportedPlatforms) : py.lower p = p := by
  have hall : ∀ p ∈ supportedPlatforms,
      (p.all fun u => u.val < 128) = true ∧ p.map lowerUnit = p := by decide
  exact lower_of_ascii (hall p h).1 (hall p h).2

theorem settledPlatform {p : PyStr} (h : p ∈ supportedPlatforms)
    (hl : p ≠ PyStr.ofString "lark") : SettledPlatform py p :=
  ⟨supported_solid h, supported_lower h, h, hl⟩

theorem resolvePlatform_settled {p : PyStr} (h : resolvePlatform py raw = .ok p) :
    SettledPlatform py p := by
  unfold resolvePlatform at h
  split at h
  · cases h
  simp only at h
  split at h
  · cases h
  split at h
  · cases h
  rename_i hsup
  split at h
  · cases h
    exact settledPlatform (by decide) (by decide)
  · rename_i hlark
    cases h
    exact settledPlatform (not_not.mp hsup) hlark

/-- What every mode that was normalized satisfies. -/
structure SettledMode (py : Interpreter φ) (mode : PyStr) : Prop where
  lower : py.lower mode.strip = mode
  some : mode ≠ PyStr.ofString "none"
  solid : mode ≠ []

theorem settledMode_reply : SettledMode py (PyStr.ofString "reply") := by
  have hstrip : (PyStr.ofString "reply").strip = PyStr.ofString "reply" := by decide
  refine ⟨?_, by decide, by decide⟩
  rw [hstrip]
  exact lower_of_ascii (by decide) (by decide)

theorem normalizeMode_settled {v : Json φ} {mode : PyStr} (h : normalizeMode py v = .ok mode) :
    SettledMode py mode := by
  unfold normalizeMode at h
  split at h
  · cases h
    exact settledMode_reply
  · simp only at h
    split at h
    · cases h
    rename_i hnone
    split at h
    · cases h
      exact settledMode_reply
    · rename_i hempty
      cases h
      exact ⟨py.lower_settled _, hnone, hempty⟩
  · cases h

/-- Everything a contract that was read satisfies. -/
structure Normal (py : Interpreter φ) (c : Contract) : Prop where
  platform : SettledPlatform py c.platform
  targetId : Solid c.targetId
  threadId : ∀ t ∈ c.threadId, Solid t
  workspaceId : ∀ t ∈ c.workspaceId, Solid t
  accountId : ∀ t ∈ c.accountId, Solid t
  mode : SettledMode py c.mode
  target : validatePlatformTarget c.platform c.targetId c.threadId c.mode = .ok ()
  workspace : validateOptionalSafeId c.workspaceId "workspace_id" = .ok ()
  account : validateOptionalSafeId c.accountId "account_id" = .ok ()

theorem bind_ok {α β : Type} {x : Except DeliveryContractError α}
    {f : α → Except DeliveryContractError β} {b : β} (h : (x >>= f) = .ok b) :
    ∃ a, x = .ok a ∧ f a = .ok b := by
  cases x with
  | error e => cases h
  | ok a => exact ⟨a, rfl, h⟩

theorem normal_of_read {c : Contract} (h : readContract py raw = .ok c) : Normal py c := by
  unfold readContract at h
  obtain ⟨platform, hplatform, h⟩ := bind_ok h
  obtain ⟨targetId, htarget, h⟩ := bind_ok h
  obtain ⟨threadId, hthread, h⟩ := bind_ok h
  obtain ⟨workspaceId, hworkspace, h⟩ := bind_ok h
  obtain ⟨accountId, haccount, h⟩ := bind_ok h
  obtain ⟨mode, hmode, h⟩ := bind_ok h
  obtain ⟨failureAlert, halert, h⟩ := bind_ok h
  cases targetId with
  | none => cases h
  | some targetId =>
    obtain ⟨_, hvt, h⟩ := bind_ok h
    obtain ⟨_, hvw, h⟩ := bind_ok h
    obtain ⟨_, hva, h⟩ := bind_ok h
    cases h
    exact {
      platform := resolvePlatform_settled hplatform
      targetId := resolveAlias_solid htarget targetId rfl
      threadId := resolveAlias_solid hthread
      workspaceId := resolveAlias_solid hworkspace
      accountId := resolveAlias_solid haccount
      mode := normalizeMode_settled hmode
      target := hvt
      workspace := hvw
      account := hva }

/-! ## Reading the canonical form -/

theorem aliasValues_absent {keys : List String} (h : ∀ k ∈ keys, get? raw k = none) :
    aliasValues py raw keys = .ok [] := by
  induction keys with
  | nil => rfl
  | cons key keys ih =>
    rw [aliasValues, h key List.mem_cons_self]
    exact ih fun k hk => h k (List.mem_cons_of_mem key hk)

/-- Of several aliases only the first is in use. -/
theorem resolveAlias_first {key : String} {keys : List String} {v : Option PyStr}
    (hfirst : get? raw key = v.map .str) (hv : ∀ t ∈ v, Solid t)
    (hrest : ∀ k ∈ keys, get? raw k = none) : resolveAlias py raw (key :: keys) = .ok v := by
  have habsent : aliasValues py raw keys = .ok [] := aliasValues_absent hrest
  cases v with
  | none =>
    have hnone : ∀ k ∈ key :: keys, get? raw k = none := by
      intro k hk
      rcases List.mem_cons.mp hk with rfl | hk
      · exact hfirst
      · exact hrest k hk
    rw [resolveAlias, aliasValues_absent hnone]
  | some t =>
    obtain ⟨hs, hne⟩ := hv t rfl
    have hvals : aliasValues py raw (key :: keys) = .ok [(key, t)] := by
      rw [aliasValues, hfirst]
      simp [strOf, hs, hne, habsent, Except.map]
    rw [resolveAlias, hvals]
    simp

theorem read_of_normal {c : Contract} (h : Normal py c) :
    readContract py (c.fields : Fields φ) = .ok c := by
  have hplatform : resolvePlatform py (c.fields : Fields φ) = .ok c.platform := by
    have hres : resolveAlias py (c.fields : Fields φ) ["platform", "transport"] =
        .ok (some c.platform) := by
      apply resolveAlias_first
      · simp [get?_fields]
      · intro t ht
        cases ht
        exact h.platform.solid
      · simp [get?_fields]
    simp only [resolvePlatform, hres, h.platform.lower]
    rw [if_neg (not_not.mpr h.platform.supported), if_neg h.platform.known]
  have htarget : resolveAlias py (c.fields : Fields φ) targetAliases = .ok (some c.targetId) := by
    apply resolveAlias_first
    · simp [get?_fields]
    · intro t ht
      cases ht
      exact h.targetId
    · simp [get?_fields]
  have hthread : resolveAlias py (c.fields : Fields φ) threadAliases = .ok c.threadId := by
    apply resolveAlias_first
    · simp [get?_fields]
    · exact h.threadId
    · simp [get?_fields]
  have hworkspace : resolveAlias py (c.fields : Fields φ) ["workspace_id", "team_id"] =
      .ok c.workspaceId := by
    apply resolveAlias_first
    · simp [get?_fields]
    · exact h.workspaceId
    · simp [get?_fields]
  have haccount : resolveAlias py (c.fields : Fields φ) ["account_id"] = .ok c.accountId := by
    apply resolveAlias_first
    · simp [get?_fields]
    · exact h.accountId
    · simp
  have hmode : normalizeMode py ((get? (c.fields : Fields φ) "mode").getD
      (.str (PyStr.ofString "reply"))) = .ok c.mode := by
    simp only [get?_fields, Option.getD, normalizeMode]
    simp [h.mode.lower, h.mode.some, h.mode.solid]
  have halert : normalizeBool py ((get? (c.fields : Fields φ) "failure_alert").getD (.bool true))
      "failure_alert" = .ok c.failureAlert := by
    simp [get?_fields, normalizeBool]
  unfold readContract
  rw [hplatform, htarget, hthread, hworkspace, haccount, hmode, halert]
  simp only [bind, Except.bind, h.target, h.workspace, h.account]
  rfl

/-- Normalizing a normalized delivery changes nothing. -/
theorem normalize_normalized {v d : Json φ} (h : normalizeScheduleDelivery py v = .ok d) :
    normalizeScheduleDelivery py d = .ok d := by
  unfold normalizeScheduleDelivery at h
  split at h
  · cases h
    rfl
  · rename_i raw
    split at h
    · cases h
      have : isExplicitNoDelivery py (noDelivery : Fields φ) = true := by
        simp [isExplicitNoDelivery, noDelivery]
      simp [normalizeScheduleDelivery, this]
    · cases hread : readContract py raw with
      | error e =>
        rw [hread] at h
        cases h
      | ok c =>
        rw [hread] at h
        cases h
        have hn := normal_of_read hread
        have hsome : isExplicitNoDelivery py (c.fields : Fields φ) = false := by
          simp [isExplicitNoDelivery, get?_fields, hn.mode.lower, hn.mode.some]
        simp [normalizeScheduleDelivery, hsome, read_of_normal hn, Except.map]
  · cases h

end Readers

end OpenClaw.DeliveryContract
