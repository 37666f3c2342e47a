import OpenClaw.Foundation.Run
import OpenClaw.Installations.InstallationRegistry

/-!
# Installations that are closed

After an installation is revoked, deactivated or uninstalled, the record has a status that
`resolve_installation` does not accept. A rotation gives it a status that is accepted, whatever it
was, so that only the health in its metadata can keep it from being resolved.
-/

namespace OpenClaw.Installations

open Foundation Tenants Secrets
set_option autoImplicit false

variable {φ : Type} (py : PyInterpreter φ)

/-- The recorded health keeps the installation from being resolved. -/
def blocked (metadata : Metadata φ) : Bool :=
  (healthRecord py metadata).all fun code => decide (code ∈ unresolvableHealthCodes)

/-- The record that `resolve_installation` may return. -/
def usable (inst : ConnectorInstallation φ) : Bool :=
  decide (inst.status ∈ resolvableStatuses) && !blocked py inst.metadata

/-- What `resolve_installation` reads after a health update. -/
def recordedHealth (healthCode : PyStr) : PyStr :=
  py.lower (ConnectorInstallationRegistry.healthState py healthCode).strip

/-- Neither in memory nor in the file is there a usable record. -/
structure Dormant (s : ConnectorInstallationRegistry φ) (i : PyStr) : Prop where
  memory : ∀ inst, s.installations.get? i = some inst → usable py inst = false
  file : ∀ saved, s.file = some saved → ∀ inst, saved.1.get? i = some inst → usable py inst = false

/-- The call revokes, deactivates or uninstalls the installation. -/
def Call.closes (i : PyStr) : Call φ → Bool
  | .revoke raw _ => decide (raw.strip = i)
  | .deactivate raw _ => decide (raw.strip = i)
  | .uninstall raw _ => decide (raw.strip = i)
  | _ => false

/-- The call activates or upserts the installation. -/
def Call.reopens (i : PyStr) : Call φ → Bool
  | .upsert args => decide (args.installationId.strip = i)
  | .activate raw _ => decide (raw.strip = i)
  | _ => false

def Answer.returned : Answer φ → Bool
  | .installation (.ok _) => true
  | _ => false

/-- A rotation finds the health of the installation revoked or invalid, and a health update of a
record with a resolvable status leaves it so. -/
def Careful (s : ConnectorInstallationRegistry φ) (i : PyStr) : Call φ → Prop
  | .rotate raw _ _ =>
    raw.strip = i → ∀ inst, s.installations.get? i = some inst → blocked py inst.metadata = true
  | .updateHealth raw healthCode _ _ =>
    raw.strip = i → ∀ inst, s.installations.get? i = some inst →
      inst.status ∈ resolvableStatuses → recordedHealth py healthCode ∈ unresolvableHealthCodes
  | _ => True

section Records
variable {py} {i : PyStr} {inst : ConnectorInstallation φ}

theorem usable_of_status (h : inst.status ∉ resolvableStatuses) : usable py inst = false := by
  rw [usable, decide_eq_false h, Bool.false_and]

theorem usable_of_blocked (h : blocked py inst.metadata = true) : usable py inst = false := by
  rw [usable, h, Bool.not_true, Bool.and_false]

theorem closed_not_resolvable : InstallationStatus.revoked ∉ resolvableStatuses ∧
    InstallationStatus.deactivated ∉ resolvableStatuses ∧
    InstallationStatus.uninstalled ∉ resolvableStatuses := by decide

/-- A health update is what is read afterwards. -/
theorem healthRecord_updated (metadata : Metadata φ) (healthCode reason : PyStr) (x : φ)
    (details : List (PyStr × Json φ)) :
    healthRecord py (metadata.put (PyStr.ofString "health",
      .obj [(PyStr.ofString "state", .str (ConnectorInstallationRegistry.healthState py healthCode)),
        (PyStr.ofString "reason", .str reason), (PyStr.ofString "updated_at", .float x),
        (PyStr.ofString "details", .obj details)])) = some (recordedHealth py healthCode) := by
  have hreason : PyStr.ofString "reason" ≠ PyStr.ofString "state" := by decide
  have htime : PyStr.ofString "updated_at" ≠ PyStr.ofString "state" := by decide
  have hdetails : PyStr.ofString "details" ≠ PyStr.ofString "state" := by decide
  simp [healthRecord, Json.dictItems?, Json.truthy, Json.itemUnder?, Json.toStr, recordedHealth,
    hreason, htime, hdetails]

end Records

section Commit
variable {py} {s : ConnectorInstallationRegistry φ} {i : PyStr} {inst : ConnectorInstallation φ}

open ConnectorInstallationRegistry

/-- Storing a record that is not usable, or one of another installation. -/
theorem Dormant.commit (h : Dormant py s i) (io : Io φ) (now : ℚ) (action : String)
    (details : List (String × Json φ)) (hinst : inst.installationId = i → usable py inst = false) :
    Dormant py (s.commit io now action details inst).1 i := by
  have hput : ∀ inst', (s.installations.put inst).get? i = some inst' → usable py inst' = false := by
    intro inst' hget
    rw [Table.get?_put] at hget
    split at hget
    · rename_i hid
      rw [← Option.some.inj hget]
      exact hinst hid
    · exact h.memory inst' hget
  constructor
  · intro inst' hget
    rw [commit_installations] at hget
    exact hput inst' hget
  · unfold ConnectorInstallationRegistry.commit
    dsimp only
    split
    · rintro saved ⟨⟩ inst' hget
      exact hput inst' hget
    · exact h.file

theorem dormant_of_commit {io : Io φ} {now : ℚ} {action : String} {details : List (String × Json φ)}
    {r : ConnectorInstallation φ} (hinst : usable py inst = false) (hid : inst.installationId = i)
    (hok : (s.commit io now action details inst).2 = .ok r) :
    Dormant py (s.commit io now action details inst).1 i := by
  have hput : ∀ inst', (s.installations.put inst).get? i = some inst' → usable py inst' = false := by
    intro inst' hget
    rw [Table.get?_put, if_pos hid] at hget
    rw [← Option.some.inj hget]
    exact hinst
  unfold ConnectorInstallationRegistry.commit at hok ⊢
  dsimp only at hok ⊢
  split at hok
  · rename_i hsaved
    rw [if_pos hsaved]
    constructor
    · exact hput
    · rintro saved ⟨⟩ inst' hget
      exact hput inst' hget
  · cases hok

theorem Dormant.secrets (h : Dormant py s i) (secretStore : SecretStore) :
    Dormant py { s with secretStore } i := ⟨h.memory, h.file⟩

end Commit

/-! ## One call -/

section Step
variable {py} {s : ConnectorInstallationRegistry φ} {i : PyStr} {env : Settings} {io : Io φ}

open ConnectorInstallationRegistry

theorem updateHealth_dormant (h : Dormant py s i) (n : ℕ) {raw healthCode reason : PyStr}
    {details : List (PyStr × Json φ)}
    (hcareful : raw.strip = i → ∀ inst, s.installations.get? i = some inst →
      inst.status ∈ resolvableStatuses → recordedHealth py healthCode ∈ unresolvableHealthCodes) :
    Dormant py (s.updateInstallationHealth py io n raw healthCode reason details).1 i := by
  unfold updateInstallationHealth
  split
  · exact h
  · rename_i inst hget
    apply h.commit
    intro hid
    have hkey : raw.strip = i := (Table.key_of_get? hget).symm.trans hid
    by_cases hstatus : inst.status ∈ resolvableStatuses
    · apply usable_of_blocked
      rw [blocked, healthRecord_updated, Option.all_some]
      exact decide_eq_true (hcareful hkey inst (hkey ▸ hget) hstatus)
    · exact usable_of_status hstatus

theorem transition_dormant (h : Dormant py s i) (n : ℕ) {raw status reason : PyStr} {action : String}
    (hstatus : raw.strip = i → status ∉ resolvableStatuses) :
    Dormant py (s.transition io n raw status reason action).1 i := by
  unfold transition
  split
  · exact h
  · rename_i inst hget
    apply h.commit
    intro hid
    have hkey : raw.strip = i := (Table.key_of_get? hget).symm.trans hid
    exact usable_of_status (hstatus hkey)

theorem get?_transition {n : ℕ} {raw status reason : PyStr} {action : String}
    {inst' : ConnectorInstallation φ}
    (hget : (s.transition io n raw status reason action).1.installations.get? raw.strip =
      some inst') : inst'.status = status := by
  unfold transition at hget
  split at hget
  · rename_i hnone
    rw [hnone] at hget
    cases hget
  · rename_i inst hold
    have hid : inst.installationId = raw.strip := Table.key_of_get? hold
    rw [commit_installations, Table.get?_put, if_pos hid] at hget
    rw [← Option.some.inj hget]

theorem transitionWithHealth_dormant (h : Dormant py s i)
    {raw status reason healthCode healthReason : PyStr} {action : String}
    (hstatus : raw.strip = i → status ∉ resolvableStatuses) :
    Dormant py (s.transitionWithHealth py io raw status reason action healthCode healthReason).1
      i := by
  have hfirst : Dormant py (s.transition io 0 raw status reason action).1 i :=
    transition_dormant h 0 hstatus
  unfold transitionWithHealth
  split
  · rename_i heq
    rwa [heq] at hfirst
  · rename_i s' inst heq
    rw [heq] at hfirst
    apply updateHealth_dormant hfirst
    rintro rfl inst' hget hres
    have hget' : (s.transition io 0 raw status reason action).1.installations.get? raw.strip =
        some inst' := by
      rw [heq]
      exact hget
    rw [get?_transition hget'] at hres
    exact absurd hres (hstatus rfl)

theorem get?_of_restrict {t : InstallationTable φ} {p : PyStr → Bool} {inst}
    (h : (t.restrict p).get? i = some inst) : t.get? i = some inst := by
  have hmem := List.mem_filter.mp (Table.mem_of_get? h)
  rw [← Table.key_of_get? h]
  exact Table.get?_key hmem.1

theorem load_dormant (h : Dormant py s i) (startup : SecretStore.Startup) (readable : Bool) :
    Dormant py (s.load startup readable) i := by
  have hnone : ∀ inst : ConnectorInstallation φ,
      (Table.empty : InstallationTable φ).get? i = some inst → usable py inst = false :=
    fun _ hget => nomatch hget
  unfold load
  cases hfile : s.file with
  | none => exact ⟨hnone, fun _ hsaved => (nomatch hsaved)⟩
  | some saved =>
    have hkept := h.file saved hfile
    dsimp only
    split
    · constructor
      · exact fun inst hget => hkept inst (get?_of_restrict hget)
      · rintro _ ⟨⟩
        exact hkept
    · constructor
      · exact hnone
      · rintro _ ⟨⟩
        exact hkept

/-- A call that neither reopens the installation nor is careless with it. -/
theorem step_dormant (h : Dormant py s i) {input : Input φ}
    (hreopens : input.call.reopens i = false) (hcareful : Careful py s i input.call) :
    Dormant py (step py s input).1 i := by
  unfold step
  cases hcall : input.call with
  | resolve p w t => exact h
  | get raw t => exact h
  | list filters => exact h
  | auditTrail raw t limit => exact h
  | reload startup readable => exact load_dormant h startup readable
  | deactivate raw reason =>
    exact transition_dormant h 0 fun _ => closed_not_resolvable.2.1
  | revoke raw reason => exact transitionWithHealth_dormant h fun _ => closed_not_resolvable.1
  | activate raw reason =>
    rw [hcall, Call.reopens, decide_eq_false_iff_not] at hreopens
    exact transitionWithHealth_dormant h fun hraw => absurd hraw hreopens
  | updateHealth raw healthCode reason details =>
    rw [hcall] at hcareful
    exact updateHealth_dormant h 0 hcareful
  | uninstall raw reason =>
    dsimp only [uninstallInstallation, Prod.map]
    split
    · exact h
    · split
      · exact h.secrets _
      · apply (h.secrets _).commit
        intro _
        exact usable_of_status closed_not_resolvable.2.2
  | rotate raw values reason =>
    rw [hcall] at hcareful
    dsimp only [rotateInstallationTokens, Prod.map]
    split
    · exact h
    · rename_i inst hget
      split
      · exact h.secrets _
      · apply (h.secrets _).commit
        intro hid
        have hkey : raw.strip = i := (Table.key_of_get? hget).symm.trans hid
        exact usable_of_blocked (hcareful hkey inst (hkey ▸ hget))
  | upsert args =>
    rw [hcall, Call.reopens, decide_eq_false_iff_not] at hreopens
    dsimp only [Prod.map]
    rcases upsert_cases py input.env input.io args s with
      ⟨secretStore, e, hrun⟩ | ⟨secretStore, p, t, w, refs, status, details, _, _, hrun⟩
    · rw [hrun]
      exact h.secrets secretStore
    · rw [hrun]
      exact (h.secrets secretStore).commit _ _ _ _ fun hid => absurd hid hreopens

theorem closes_cases {call : Call φ} (h : call.closes i = true) :
    (∃ raw reason, call = .revoke raw reason ∧ raw.strip = i) ∨
      (∃ raw reason, call = .deactivate raw reason ∧ raw.strip = i) ∨
      ∃ raw reason, call = .uninstall raw reason ∧ raw.strip = i := by
  unfold Call.closes at h
  split at h
  · exact .inl ⟨_, _, rfl, of_decide_eq_true h⟩
  · exact .inr (.inl ⟨_, _, rfl, of_decide_eq_true h⟩)
  · exact .inr (.inr ⟨_, _, rfl, of_decide_eq_true h⟩)
  · cases h

theorem transition_closes {raw status reason : PyStr} {action : String} {r : ConnectorInstallation φ}
    {io : Io φ} (hraw : raw.strip = i) (hstatus : status ∉ resolvableStatuses)
    (hok : (s.transition io 0 raw status reason action).2 = .ok r) :
    Dormant py (s.transition io 0 raw status reason action).1 i := by
  unfold transition at hok ⊢
  split at hok
  · cases hok
  · rename_i inst hget
    exact dormant_of_commit (usable_of_status hstatus) ((Table.key_of_get? hget).trans hraw) hok

/-- A call that closes the installation and returns leaves it dormant. -/
theorem close_dormant {input : Input φ} (hcloses : input.call.closes i = true)
    (hreturned : (step py s input).2.returned = true) : Dormant py (step py s input).1 i := by
  unfold step at hreturned ⊢
  rcases closes_cases hcloses with ⟨raw, reason, hcall, hraw⟩ | ⟨raw, reason, hcall, hraw⟩ |
    ⟨raw, reason, hcall, hraw⟩
  · rw [hcall] at hreturned ⊢
    dsimp only [Prod.map, revokeInstallation, transitionWithHealth] at hreturned ⊢
    split at hreturned
    · cases hreturned
    · rename_i s' inst heq
      have hfirst : Dormant py (s.transition input.io 0 raw InstallationStatus.revoked reason
          "revoke").1 i :=
        transition_closes hraw closed_not_resolvable.1 (congrArg Prod.snd heq)
      rw [heq] at hfirst
      apply updateHealth_dormant hfirst
      rintro _ inst' hget hres
      have hget' : (s.transition input.io 0 raw InstallationStatus.revoked reason
          "revoke").1.installations.get? raw.strip = some inst' := by
        rw [heq, hraw]
        exact hget
      rw [get?_transition hget'] at hres
      exact absurd hres closed_not_resolvable.1
  · rw [hcall] at hreturned ⊢
    dsimp only [Prod.map, deactivateInstallation] at hreturned ⊢
    cases hok : (s.transition input.io 0 raw InstallationStatus.deactivated reason "deactivate").2 with
    | error e =>
      rw [hok] at hreturned
      cases hreturned
    | ok r => exact transition_closes hraw closed_not_resolvable.2.1 hok
  · rw [hcall] at hreturned ⊢
    dsimp only [Prod.map, uninstallInstallation] at hreturned ⊢
    split at hreturned
    · cases hreturned
    · rename_i inst hget
      split at hreturned
      · cases hreturned
      · rename_i secretStore _ hclear
        have hid : inst.installationId = i := (Table.key_of_get? hget).trans hraw
        revert hreturned
        cases hok : (commit input.io (input.io.now 1) "uninstall" [("reason", Json.str reason)]
            { inst with
              status := InstallationStatus.uninstalled
              statusReason := reason
              updatedAt := input.io.now 0 } { s with secretStore }).2 with
        | error e => exact fun h => nomatch h
        | ok r => exact fun _ => dormant_of_commit (usable_of_status closed_not_resolvable.2.2) hid hok

theorem usable_of_resolved {t : Option PyStr} {inst : ConnectorInstallation φ}
    (h : Resolved py env s t inst) : usable py inst = true := by
  obtain ⟨code, hcode, hgood⟩ := h.health
  have hrevoked : inst.status ≠ InstallationStatus.revoked :=
    fun heq => closed_not_resolvable.1 (heq ▸ h.status)
  have hfree : blocked py inst.metadata = false := by
    unfold healthCodeForInstallation at hcode
    unfold blocked
    split at hcode
    · cases hcode
    · rename_i record hrecord
      rw [hrecord, Option.all_some]
      split at hcode
      · rw [← Except.ok.inj hcode] at hgood
        exact decide_eq_false hgood
      · rename_i hempty
        rw [not_not.mp hempty]
        decide
  rw [usable, decide_eq_true h.status, hfree]
  rfl

end Step

/-! ## Runs -/

section Runs
variable (s₀ : ConnectorInstallationRegistry φ) (inp : ℕ → Input φ)

abbrev registryAt (k : ℕ) : ConnectorInstallationRegistry φ := run (step py) s₀ inp k

/-- The `c`-th call closed the installation and returned, and no call after it and before the
`k`-th reopened it. -/
structure ClosedSince (i : PyStr) (c k : ℕ) : Prop where
  before : c < k
  closes : (inp c).call.closes i = true
  returned : (answer (step py) s₀ inp c).returned = true
  closed : ∀ j, c < j → j < k → (inp j).call.reopens i = false

/-- An installation that is closed is not resolved. -/
def NeverResolves : Prop :=
  ∀ i c k, ClosedSince py s₀ inp i c k → ∀ p w t, (inp k).call = .resolve p w t →
    ∀ r, answer (step py) s₀ inp k = .resolution (.ok r) → r.ok = true →
      ∀ inst, r.installation = some inst → inst.installationId ≠ i

/-- As long as an installation is closed, no call is careless with it. -/
def CarefulRun : Prop :=
  ∀ i c k, ClosedSince py s₀ inp i c k → Careful py (registryAt py s₀ inp k) i (inp k).call

variable {py s₀ inp}

theorem ClosedSince.dormant {i : PyStr} {c k : ℕ} (hrun : CarefulRun py s₀ inp)
    (h : ClosedSince py s₀ inp i c k) : Dormant py (registryAt py s₀ inp k) i := by
  induction k with
  | zero => exact absurd h.before (Nat.not_lt_zero c)
  | succ k ih =>
    rcases Nat.lt_or_eq_of_le (Nat.le_of_lt_succ h.before) with hck | rfl
    · have hprev : ClosedSince py s₀ inp i c k :=
        ⟨hck, h.closes, h.returned, fun j hcj hjk => h.closed j hcj (hjk.trans (Nat.lt_succ_self k))⟩
      exact step_dormant (ih hprev) (h.closed k hck (Nat.lt_succ_self k)) (hrun i c k hprev)
    · exact close_dormant h.closes h.returned

/-- In a run in which no call is careless with a closed installation, it is not resolved. -/
theorem never_resolves (hrun : CarefulRun py s₀ inp) : NeverResolves py s₀ inp := by
  intro i c k hclosed p w t hcall r hanswer hok inst hinst hid
  have hresolve : (registryAt py s₀ inp k).resolveInstallation py (inp k).env p w t = .ok r := by
    unfold answer step at hanswer
    rw [hcall] at hanswer
    injection hanswer
  obtain ⟨inst', hinst', hresolved⟩ := ConnectorInstallationRegistry.resolve_ok hresolve hok
  rw [hinst] at hinst'
  obtain rfl := Option.some.inj hinst'
  have hget : (registryAt py s₀ inp k).installations.get? i = some inst := by
    rw [← hid]
    exact Table.get?_key hresolved.stored
  have hunusable := (hclosed.dormant hrun).memory inst hget
  rw [usable_of_resolved hresolved] at hunusable
  cases hunusable

end Runs

/-! ## A rotation of a deactivated installation -/

def demoInterpreter : PyInterpreter Unit where
  floatTruthy := fun _ => true
  floatStr := fun _ => []
  containerStr := fun _ => []
  lower := fun s => s.map lowerUnit

def demoInput (call : Call Unit) : Input Unit where
  env := ⟨false, [], false⟩
  io := { now := fun n => n, float := fun _ => () }
  call := call

def demoId : PyStr := PyStr.ofString "inst-1"

def demoTokens (value : String) : List (PyStr × PyStr) :=
  [(PyStr.ofString "bot_token", PyStr.ofString value)]

def demoUpsert : Call Unit :=
  .upsert {
    platform := PyStr.ofString "slack"
    workspaceId := PyStr.ofString "T1"
    installationId := demoId
    tokenValues := demoTokens "xoxb-1"
    status := InstallationStatus.active }

def demoResolve : Call Unit := .resolve (PyStr.ofString "slack") (PyStr.ofString "T1") none

def deactivatedRun : ℕ → Input Unit
  | 0 => demoInput demoUpsert
  | 1 => demoInput (.deactivate demoId [])
  | _ => demoInput demoResolve

theorem never_resolves_deactivated : NeverResolves demoInterpreter {} deactivatedRun := by
  apply never_resolves
  intro i c k _
  rcases k with _ | _ | k <;> exact trivial

/-- The installation is deactivated, its tokens are rotated, and it is resolved again. -/
def rotatedRun : ℕ → Input Unit
  | 0 => demoInput demoUpsert
  | 1 => demoInput (.deactivate demoId [])
  | 2 => demoInput (.rotate demoId (demoTokens "xoxb-2") [])
  | _ => demoInput demoResolve

def Answer.resolvedId? : Answer φ → Option PyStr
  | .resolution (.ok r) => if r.ok then r.installation.map (·.installationId) else none
  | _ => none

theorem rotated_resolves :
    (answer (step demoInterpreter) {} rotatedRun 1).returned = true ∧
      (answer (step demoInterpreter) {} rotatedRun 3).resolvedId? = some demoId ∧
      ¬ NeverResolves demoInterpreter {} rotatedRun := by
  have hreturned : (answer (step demoInterpreter) {} rotatedRun 1).returned = true := by
    decide +kernel
  have hresolved : (answer (step demoInterpreter) {} rotatedRun 3).resolvedId? = some demoId := by
    decide +kernel
  refine ⟨hreturned, hresolved, fun h => ?_⟩
  have hclosed : ClosedSince demoInterpreter {} rotatedRun demoId 1 3 := by
    refine ⟨by decide, by decide, hreturned, fun j hj hk => ?_⟩
    obtain rfl : j = 2 := by omega
    rfl
  unfold Answer.resolvedId? at hresolved
  split at hresolved
  · rename_i r hanswer
    split at hresolved
    · rename_i hok
      obtain ⟨inst, hinst, hid⟩ := Option.map_eq_some_iff.mp hresolved
      exact h demoId 1 3 hclosed _ _ _ rfl r hanswer hok inst hinst hid
    · cases hresolved
  · cases hresolved

end OpenClaw.Installations
