import OpenClaw.Foundation.Run
import OpenClaw.Secrets.SecretStore

/-!
# Which secrets survive failing saves and failing loads

A call changes the dictionary first and saves it then, and a load that fails leaves an empty
dictionary, which the next save writes over the file.
-/

namespace OpenClaw.Secrets

open Foundation Tenants
set_option autoImplicit false

inductive Op where
  | setSecret (env : Settings) (providerId secret : PyStr) (tenantId : Option PyStr) (saved : Bool)
  | clearSecret (env : Settings) (providerId : PyStr) (tenantId : Option PyStr) (saved : Bool)
  | clearAll (saved : Bool)
  | restart (io : SecretStore.Startup)

namespace SecretStore

/-- What a call leaves, and what it raised. -/
def outcome {α : Type} (r : SecretStore × Except Raised α) : SecretStore × Option Raised :=
  match r.2 with
  | .ok _ => (r.1, none)
  | .error e => (r.1, some e)

def perform (s : SecretStore) : Op → SecretStore × Option Raised
  | .setSecret env p secret t saved => outcome (s.setSecret env saved p secret t)
  | .clearSecret env p t saved => outcome (s.clearSecret env saved p t)
  | .clearAll saved => outcome (s.clearAll saved)
  | .restart io => (s.load io, none)

/-- The secret under a key in the file. -/
def onDisk (s : SecretStore) (key : PyStr) : Option PyStr :=
  (s.file.bind fun data => data.get? key).map Prod.snd

end SecretStore

/-- A call that raises leaves the dictionary, and a secret that is set leaves the other secrets in
the file. -/
structure Keeps (s : SecretStore) (op : Op) : Prop where
  raised : (s.perform op).2.isSome →
    ∀ key, (s.perform op).1.secrets.get? key = s.secrets.get? key
  others : ∀ env p secret t saved k, op = .setSecret env p secret t saved → keyFor env p t = .ok k →
    ∀ key v, key ≠ k → s.onDisk key = some v → (s.perform op).1.onDisk key = some v

/-- A save fails only in a call that changes nothing, and when a secret that is set is saved, all
other secrets in the file are in memory. -/
def Sound (s : SecretStore) : Op → Prop
  | .setSecret env p secret t saved =>
    ∀ k, secret.strip ≠ [] → keyFor env p t = .ok k →
      if saved then
        ∀ data, s.file = some data → ∀ row ∈ data.rows, row.1 ≠ k → s.secrets.get? row.1 = some row
      else s.secrets.get? k = some (k, secret.strip)
  | .clearSecret env p t saved =>
    ∀ k, keyFor env p t = .ok k → saved = false → s.secrets.get? k = none
  | .clearAll saved => saved = false → s.secrets.rows = []
  | .restart _ => True

section Step
variable {s : SecretStore}

theorem get?_value {data : Secrets} {key v : PyStr} :
    (data.get? key).map Prod.snd = some v ↔ data.get? key = some (key, v) := by
  constructor
  · intro h
    obtain ⟨row, hrow, rfl⟩ := Option.map_eq_some_iff.mp h
    have hkey : row.1 = key := Table.key_of_get? hrow
    rw [hrow, ← hkey]
  · intro h
    rw [h]
    rfl

section SetSecret
variable {env : Settings} {p secret k : PyStr} {t : Option PyStr} {saved : Bool}

/-- A set that gets to the save, or one that changes nothing. -/
theorem perform_setSecret (s : SecretStore) (env : Settings) (p secret : PyStr) (t : Option PyStr)
    (saved : Bool) :
    (∃ k, secret.strip ≠ [] ∧ keyFor env p t = .ok k ∧
      s.perform (.setSecret env p secret t saved) =
        if saved then ({ s with secrets := s.secrets.put (k, secret.strip) }.save, none)
        else ({ s with secrets := s.secrets.put (k, secret.strip) }, some .saveFailed)) ∨
      ((s.perform (.setSecret env p secret t saved)).1 = s ∧
        ∀ k, secret.strip ≠ [] → keyFor env p t ≠ .ok k) := by
  by_cases hs : secret.strip = []
  · refine .inr ⟨?_, fun k h => absurd hs h⟩
    simp only [SecretStore.perform, SecretStore.setSecret, if_pos hs, SecretStore.outcome]
  · cases hk : keyFor env p t with
    | error e =>
      refine .inr ⟨?_, fun k _ h => nomatch h⟩
      simp only [SecretStore.perform, SecretStore.setSecret, if_neg hs, hk, SecretStore.outcome]
    | ok k =>
      refine .inl ⟨k, hs, rfl, ?_⟩
      simp only [SecretStore.perform, SecretStore.setSecret, if_neg hs, hk]
      cases saved <;> rfl

theorem setSecret_keeps_iff_of_failed {k : PyStr} (hs : secret.strip ≠ []) (hk : keyFor env p t = .ok k)
    (hrun : s.perform (.setSecret env p secret t false) =
      ({ s with secrets := s.secrets.put (k, secret.strip) }, some .saveFailed)) :
    Keeps s (.setSecret env p secret t false) ↔ Sound s (.setSecret env p secret t false) := by
  constructor
  · intro h k' _ hk'
    rw [hk] at hk'
    cases hk'
    have hsame := h.raised (by rw [hrun]; rfl) k
    rw [hrun, Table.get?_put, if_pos rfl] at hsame
    exact hsame.symm
  · intro h
    have hput : s.secrets.put (k, secret.strip) = s.secrets := Table.put_of_get? (h k hs hk)
    constructor
    · intro _ key
      rw [hrun, hput]
    · intro _ _ _ _ _ _ _ _ key v _ hv
      rw [hrun]
      exact hv

theorem setSecret_keeps_iff_of_saved {k : PyStr} (hs : secret.strip ≠ []) (hk : keyFor env p t = .ok k)
    (hrun : s.perform (.setSecret env p secret t true) =
      ({ s with secrets := s.secrets.put (k, secret.strip) }.save, none)) :
    Keeps s (.setSecret env p secret t true) ↔ Sound s (.setSecret env p secret t true) := by
  have hdisk : ∀ key, (s.perform (.setSecret env p secret t true)).1.onDisk key =
      ((s.secrets.put (k, secret.strip)).get? key).map Prod.snd := by
    intro key
    rw [hrun]
    simp [SecretStore.onDisk, SecretStore.save]
  constructor
  · intro h k' _ hk' data hdata row hrow hne
    rw [hk] at hk'
    cases hk'
    have hold : s.onDisk row.1 = some row.2 := by
      rw [SecretStore.onDisk, hdata, Option.bind_some, Table.get?_key hrow]
      rfl
    have hnew := h.others _ _ _ _ _ _ rfl hk _ _ hne hold
    rw [hdisk, Table.get?_put, if_neg (Ne.symm hne)] at hnew
    exact get?_value.mp hnew
  · intro h
    constructor
    · intro hraised
      rw [hrun] at hraised
      cases hraised
    · rintro _ _ _ _ _ k' ⟨⟩ hk' key v hne hv
      rw [hk] at hk'
      cases hk'
      obtain ⟨row, hbind, hrow⟩ := Option.map_eq_some_iff.mp hv
      obtain ⟨data, hdata, hget⟩ := Option.bind_eq_some_iff.mp hbind
      have hvalue : (data.get? key).map Prod.snd = some v := by rw [hget, Option.map_some, hrow]
      have hmem := h k hs hk data hdata (key, v) (Table.mem_of_get? (get?_value.mp hvalue)) hne
      rw [hdisk, Table.get?_put, if_neg (Ne.symm hne)]
      exact get?_value.mpr hmem

theorem setSecret_keeps_iff :
    Keeps s (.setSecret env p secret t saved) ↔ Sound s (.setSecret env p secret t saved) := by
  rcases perform_setSecret s env p secret t saved with ⟨k, hs, hk, hrun⟩ | ⟨hrun, hno⟩
  · cases saved with
    | false => exact setSecret_keeps_iff_of_failed hs hk hrun
    | true => exact setSecret_keeps_iff_of_saved hs hk hrun
  · constructor
    · intro _ k hs hk
      exact absurd hk (hno k hs)
    · intro _
      constructor
      · intro _ key
        rw [hrun]
      · intro _ _ _ _ _ _ _ _ key v _ hv
        rw [hrun]
        exact hv

end SetSecret

/-- For a call that is no set, only what a raising call leaves is in question. -/
theorem keeps_iff_raised {op : Op} (h : ∀ env p secret t saved, op ≠ .setSecret env p secret t saved) :
    Keeps s op ↔ ((s.perform op).2.isSome →
      ∀ key, (s.perform op).1.secrets.get? key = s.secrets.get? key) :=
  ⟨Keeps.raised, fun hraised => ⟨hraised, fun _ _ _ _ _ _ hop => absurd hop (h _ _ _ _ _)⟩⟩

/-- A clear that gets to the save, or one that changes nothing. -/
theorem perform_clearSecret (s : SecretStore) (env : Settings) (p : PyStr) (t : Option PyStr)
    (saved : Bool) :
    (∃ k, (s.secrets.get? k).isSome ∧ keyFor env p t = .ok k ∧
      s.perform (.clearSecret env p t saved) =
        if saved then ({ s with secrets := s.secrets.drop k }.save, none)
        else ({ s with secrets := s.secrets.drop k }, some .saveFailed)) ∨
      ((s.perform (.clearSecret env p t saved)).1 = s ∧
        ∀ k, keyFor env p t = .ok k → s.secrets.get? k = none) := by
  cases hk : keyFor env p t with
  | error e =>
    refine .inr ⟨?_, fun k h => nomatch h⟩
    simp only [SecretStore.perform, SecretStore.clearSecret, hk, SecretStore.outcome]
  | ok k =>
    by_cases hget : (s.secrets.get? k).isSome
    · refine .inl ⟨k, hget, rfl, ?_⟩
      simp only [SecretStore.perform, SecretStore.clearSecret, hk, if_pos hget]
      cases saved <;> rfl
    · refine .inr ⟨?_, fun k' hk' => ?_⟩
      · simp only [SecretStore.perform, SecretStore.clearSecret, hk, if_neg hget,
          SecretStore.outcome]
      · rw [← Except.ok.inj hk']
        exact Option.not_isSome_iff_eq_none.mp hget

theorem clearSecret_keeps_iff {env : Settings} {p : PyStr} {t : Option PyStr} {saved : Bool} :
    Keeps s (.clearSecret env p t saved) ↔ Sound s (.clearSecret env p t saved) := by
  rw [keeps_iff_raised (by rintro _ _ _ _ _ ⟨⟩)]
  rcases perform_clearSecret s env p t saved with ⟨k, hsome, hk, hrun⟩ | ⟨hrun, hno⟩
  · cases saved with
    | true =>
      refine ⟨fun _ _ _ h => (nomatch h), fun _ h => ?_⟩
      rw [hrun] at h
      cases h
    | false =>
      rw [if_neg Bool.false_ne_true] at hrun
      constructor
      · intro h
        have hsame := h (by rw [hrun]; rfl) k
        rw [hrun, Table.get?_drop, if_pos rfl] at hsame
        rw [← hsame] at hsome
        cases hsome
      · intro h
        rw [h k hk rfl] at hsome
        cases hsome
  · refine ⟨fun _ k hk _ => hno k hk, fun _ _ key => ?_⟩
    rw [hrun]

theorem clearAll_keeps_iff {saved : Bool} : Keeps s (.clearAll saved) ↔ Sound s (.clearAll saved) := by
  rw [keeps_iff_raised (by rintro _ _ _ _ _ ⟨⟩)]
  cases saved with
  | true => exact ⟨fun _ h => (nomatch h), fun _ h => (nomatch h)⟩
  | false =>
    constructor
    · intro h _
      have hsame : ∀ key, none = s.secrets.get? key := h rfl
      rw [List.eq_nil_iff_forall_not_mem]
      intro row hrow
      have hget := hsame row.1
      rw [Table.get?_key hrow] at hget
      cases hget
    · intro h _ key
      have hnone : s.secrets.get? key = none := by
        rw [Table.get?_eq_none_iff, h rfl]
        exact fun v hv => (nomatch hv)
      exact hnone.symm

theorem keeps_iff (op : Op) : Keeps s op ↔ Sound s op := by
  cases op with
  | setSecret => exact setSecret_keeps_iff
  | clearSecret => exact clearSecret_keeps_iff
  | clearAll => exact clearAll_keeps_iff
  | restart io =>
    rw [keeps_iff_raised (by rintro _ _ _ _ _ ⟨⟩)]
    exact ⟨fun _ => trivial, fun _ h => (nomatch h)⟩

end Step

/-! ## Runs -/

section Runs
variable (s₀ : SecretStore) (ops : ℕ → Op)

abbrev storeAt (k : ℕ) : SecretStore := run SecretStore.perform s₀ ops k

/-- No secret is lost in a run exactly if every call meets the condition where it is made. -/
theorem keeps_run_iff :
    (∀ k, Keeps (storeAt s₀ ops k) (ops k)) ↔ ∀ k, Sound (storeAt s₀ ops k) (ops k) :=
  forall_congr' fun k => keeps_iff (ops k)

end Runs

/-! ## Runs without failures -/

/-- Every secret in the file is in memory. -/
def Covered (s : SecretStore) : Prop :=
  ∀ data, s.file = some data → ∀ key, s.secrets.get? key = data.get? key

/-- The save of the call goes through, and so does the load of the restart. -/
def Op.quiet : Op → Bool
  | .setSecret _ _ _ _ saved => saved
  | .clearSecret _ _ _ saved => saved
  | .clearAll saved => saved
  | .restart io => io.readable

section Quiet
variable {s : SecretStore} {op : Op}

theorem covered_save (s : SecretStore) : Covered s.save := by
  rintro data ⟨⟩ key
  simp [SecretStore.save]

theorem covered_perform (h : Covered s) (hquiet : op.quiet = true) : Covered (s.perform op).1 := by
  cases op with
  | setSecret env p secret t saved =>
    obtain rfl : saved = true := hquiet
    rcases perform_setSecret s env p secret t true with ⟨k, _, _, hrun⟩ | ⟨hrun, _⟩
    · rw [hrun]
      exact covered_save _
    · rwa [hrun]
  | clearSecret env p t saved =>
    obtain rfl : saved = true := hquiet
    rcases perform_clearSecret s env p t true with ⟨k, _, _, hrun⟩ | ⟨hrun, _⟩
    · rw [hrun]
      exact covered_save _
    · rwa [hrun]
  | clearAll saved =>
    obtain rfl : saved = true := hquiet
    exact covered_save _
  | restart io =>
    have hread : io.readable = true := hquiet
    unfold SecretStore.perform SecretStore.load
    cases hfile : s.file with
    | some data =>
      simp only [hread, if_true]
      rintro data' ⟨⟩ key
      rfl
    | none =>
      simp only [SecretStore.migrateLegacy]
      split
      · rintro data ⟨⟩
      · rw [if_neg (by simp [hread])]
        split
        · rintro data ⟨⟩
        · split <;> exact covered_save _

theorem sound_of_covered (h : Covered s) (hquiet : op.quiet = true) : Sound s op := by
  cases op with
  | setSecret env p secret t saved =>
    obtain rfl : saved = true := hquiet
    intro k _ _ data hdata row hrow _
    rw [h data hdata, Table.get?_key hrow]
  | clearSecret env p t saved =>
    intro k _ hsaved
    rw [Op.quiet, hsaved] at hquiet
    cases hquiet
  | clearAll saved =>
    intro hsaved
    rw [Op.quiet, hsaved] at hquiet
    cases hquiet
  | restart io => trivial

/-- Where no save and no load fails, no secret is lost. -/
theorem keeps_of_quiet {s₀ : SecretStore} {ops : ℕ → Op} (hstart : Covered s₀)
    (hquiet : ∀ k, (ops k).quiet = true) (k : ℕ) : Keeps (storeAt s₀ ops k) (ops k) := by
  have hcovered : ∀ k, 0 ≤ k → Covered (storeAt s₀ ops k) :=
    run_invariant hstart fun k _ h => covered_perform h (hquiet k)
  exact (keeps_iff (ops k)).mpr (sound_of_covered (hcovered k (Nat.zero_le k)) (hquiet k))

end Quiet

/-! ## A load that fails -/

def demoEnv : Settings := ⟨false, [], false⟩

def setOp (provider secret : String) (saved : Bool) : Op :=
  .setSecret demoEnv (PyStr.ofString provider) (PyStr.ofString secret) none saved

/-- One secret is stored, the file is unreadable at a restart, and another secret is stored. -/
def forgetful : ℕ → Op
  | 0 => setOp "openai" "sk-1" true
  | 1 => .restart { readable := false }
  | 2 => setOp "anthropic" "sk-2" true
  | _ => .restart {}

/-- A save that fails leaves the secret in memory, and the failed load ends in a lost secret. -/
theorem forgetful_loses :
    (storeAt {} forgetful 2).onDisk (PyStr.ofString "openai") = some (PyStr.ofString "sk-1") ∧
      (storeAt {} forgetful 4).secrets.get? (PyStr.ofString "openai") = none ∧
      ¬ (∀ k, Keeps (storeAt {} forgetful k) (forgetful k)) ∧
      ¬ Keeps {} (setOp "openai" "sk-1" false) := by
  have hdisk : (storeAt {} forgetful 2).onDisk (PyStr.ofString "openai") =
      some (PyStr.ofString "sk-1") := by decide +kernel
  refine ⟨hdisk, by decide +kernel, fun h => ?_, fun h => ?_⟩
  · have hkept := (h 2).others demoEnv (PyStr.ofString "anthropic") (PyStr.ofString "sk-2") none
      true (PyStr.ofString "anthropic") rfl (by decide +kernel) (PyStr.ofString "openai")
      (PyStr.ofString "sk-1") (by decide +kernel) hdisk
    revert hkept
    decide +kernel
  · have hsame := h.raised (by decide +kernel) (PyStr.ofString "openai")
    revert hsame
    decide +kernel

end OpenClaw.Secrets
