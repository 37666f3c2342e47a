import OpenClaw.Bridge.TokenStore
import OpenClaw.Foundation.Run

/-!
# Rejected bridge tokens

A token that is rejected is revoked, expired or past its overlap window. Only a rotation can take it
back into a window, and only one of a token that is spent already: `rotate_token` looks at the
status alone, and validation marks a token as expired in memory, not in the file.
-/

namespace OpenClaw.Bridge

open Foundation BridgeTokenStore
set_option autoImplicit false

/-! ## What is in the store after a call -/

/-- A token in memory or in the file. -/
def Held (s : BridgeTokenStore) (token : DeviceToken) : Prop :=
  token ∈ s.tokens.rows ∨ ∃ data, s.file = some data ∧ token ∈ data.rows

/-- Where a token in the store comes from. -/
inductive Derived (s : BridgeTokenStore) (input : Input) : DeviceToken → Prop where
  | kept {token : DeviceToken} : Held s token → Derived s input token
  | issued {token : DeviceToken} :
      token.deviceToken = input.draw.tokenValue → Derived s input token
  | overlapped {old : DeviceToken} {overlapSec ttlSec : ℤ} {scopes : List BridgeScope} :
      old ∈ s.tokens.rows → old.status = .active →
      input.call = .rotate old.tokenId overlapSec ttlSec scopes →
      Derived s input (withOverlap input.now overlapSec old)
  | revoked {old : DeviceToken} : old ∈ s.tokens.rows →
      Derived s input { old with status := .revoked }
  | expired {old : DeviceToken} : old ∈ s.tokens.rows → old.status ≠ .revoked →
      (past input.now old.expiresAt = true ∨ past input.now old.overlapUntil = true) →
      Derived s input { old with status := .expired }

section Rows
variable {s : BridgeTokenStore} {token : DeviceToken}

@[simp] theorem save_tokens (saved : Bool) (s : BridgeTokenStore) :
    (s.save saved).tokens = s.tokens := by
  unfold save
  split <;> rfl

theorem held_save {saved : Bool} (h : Held (s.save saved) token) : Held s token := by
  unfold save at h
  split at h
  · rcases h with h | ⟨data, hdata, h⟩
    · exact .inl h
    · cases hdata
      exact .inl h
  · exact h

theorem held_tokens {tokens : Tokens} (h : Held { s with tokens } token) :
    token ∈ tokens.rows ∨ Held s token := by
  rcases h with h | h
  · exact .inl h
  · exact .inr (.inr h)

theorem held_put {tokens : Tokens} {row : DeviceToken}
    (h : Held { s with tokens := tokens.put row } token) :
    token = row ∨ token ∈ tokens.rows ∨ Held s token := by
  rcases held_tokens h with h | h
  · rcases Table.mem_put h with h | h
    · exact .inl h
    · exact .inr (.inl h)
  · exact .inr (.inr h)

theorem mem_foldl_drop {ids : List PyStr} {tokens : Tokens}
    (h : token ∈ (ids.foldl Table.drop tokens).rows) : token ∈ tokens.rows := by
  have hget := Table.get?_key h
  rw [Table.get?_foldl_drop] at hget
  split at hget
  · cases hget
  · exact Table.mem_of_get? hget

theorem resolve_mem {value : PyStr} {rows : List DeviceToken}
    (h : resolveTokenForValue value rows = .ok (some token)) :
    token ∈ rows ∧ token.deviceToken = value := by
  induction rows with
  | nil => cases h
  | cons first rows ih =>
    unfold resolveTokenForValue at h
    split at h
    · cases h
    · split at h
      · rename_i hvalue
        cases h
        exact ⟨List.mem_cons_self, hvalue⟩
      · exact ⟨List.mem_cons_of_mem _ (ih h).1, (ih h).2⟩

end Rows

section Step
variable {s : BridgeTokenStore} {input : Input} {token : DeviceToken}

theorem rotate_derived {i : PyStr} {overlapSec ttlSec : ℤ} {scopes : List BridgeScope}
    (hcall : input.call = .rotate i overlapSec ttlSec scopes)
    (h : Held (s.rotateToken input.draw input.now input.later input.saved i overlapSec ttlSec
      scopes).1 token) : Derived s input token := by
  unfold rotateToken at h
  split at h
  · exact .kept h
  · rename_i old hget
    split at h
    · exact .kept h
    · rename_i hactive
      have hmem := Table.mem_of_get? hget
      have hrotated : Derived s input (withOverlap input.now overlapSec old) := by
        apply Derived.overlapped hmem (not_not.mp hactive)
        rw [hcall, Table.key_of_get? hget]
      rcases held_put (held_save h) with rfl | h | h
      · exact .issued rfl
      · rcases Table.mem_put h with rfl | h
        · exact hrotated
        · unfold issueToken at h
          rw [save_tokens] at h
          rcases Table.mem_put h with rfl | h
          · exact .issued rfl
          · rcases Table.mem_put h with rfl | h
            · exact hrotated
            · exact .kept (.inl h)
      · rcases held_put (held_save h) with rfl | h | h
        · exact .issued rfl
        · rcases Table.mem_put h with rfl | h
          · exact hrotated
          · exact .kept (.inl h)
        · rcases held_put h with rfl | h | h
          · exact hrotated
          · exact .kept (.inl h)
          · exact .kept h

theorem validate_derived {value : PyStr} {scope : Option PyStr}
    (h : Held (s.validateToken input.now value scope).1 token) : Derived s input token := by
  unfold validateToken at h
  split at h
  · exact .kept h
  · exact .kept h
  · rename_i found hfound
    have hmem := (resolve_mem hfound).1
    dsimp only [Prod.map, id] at h
    unfold validateFound expire at h
    split at h
    · exact .kept h
    · rename_i hrevoked
      split at h
      · rename_i hpast
        rcases held_put h with rfl | h | h
        · exact .expired hmem hrevoked (.inl hpast)
        · exact .kept (.inl h)
        · exact .kept h
      · split at h
        · rename_i hpast
          rcases held_put h with rfl | h | h
          · exact .expired hmem hrevoked (.inr hpast)
          · exact .kept (.inl h)
          · exact .kept h
        · split at h
          · exact .kept h
          · exact .kept h

/-- Every token after a call is one from before, a new one, or one that the call changed. -/
theorem step_derived (h : Held (step s input).1 token) : Derived s input token := by
  unfold step at h
  cases hcall : input.call with
  | issue d scopes ttl =>
    rw [hcall] at h
    rcases held_put (held_save h) with rfl | h | h
    · exact .issued rfl
    · exact .kept (.inl h)
    · exact .kept h
  | rotate i overlap ttl scopes =>
    rw [hcall] at h
    exact rotate_derived hcall h
  | revoke i =>
    rw [hcall] at h
    dsimp only [Prod.map, id, revokeToken] at h
    split at h
    · exact .kept h
    · rename_i old hget
      rcases held_put (held_save h) with rfl | h | h
      · exact .revoked (Table.mem_of_get? hget)
      · exact .kept (.inl h)
      · exact .kept h
  | validate value scope =>
    rw [hcall] at h
    exact validate_derived h
  | cleanup =>
    rw [hcall] at h
    dsimp only [Prod.map, id, cleanupExpired] at h
    split at h
    · exact .kept h
    · rcases held_tokens (held_save h) with h | h
      · exact .kept (.inl (mem_foldl_drop h))
      · exact .kept h
  | restart =>
    rw [hcall] at h
    rcases held_tokens h with h | h
    · split at h
      · cases hfile : s.file with
        | none =>
          rw [hfile] at h
          cases h
        | some data =>
          rw [hfile] at h
          exact .kept (.inr ⟨data, hfile, h⟩)
      · cases h
    · exact .kept h

end Step

/-! ## Memory and file -/

/-- The file holds what memory holds, but for tokens that were marked as expired since. -/
structure Sound (s : BridgeTokenStore) : Prop where
  transient : s.persistent = false → s.file = none
  mirrored : ∀ data, s.file = some data → ∀ b ∈ data.rows,
    ∃ a ∈ s.tokens.rows, a = b ∨ a = { b with status := .expired }
  unique : ∀ a ∈ s.tokens.rows, ∀ b ∈ s.tokens.rows, a.deviceToken = b.deviceToken →
    a.tokenId = b.tokenId

section Sound
variable {s : BridgeTokenStore} {input : Input} {tokens : Tokens}

theorem eq_of_tokenId {a b : DeviceToken} (ha : a ∈ tokens.rows) (hb : b ∈ tokens.rows)
    (h : a.tokenId = b.tokenId) : a = b := by
  have hget : tokens.get? a.tokenId = some b := by
    rw [h]
    exact Table.get?_key hb
  rw [Table.get?_key ha] at hget
  exact Option.some.inj hget

/-- A token with a new value, or one that takes the place of a token with its value. -/
theorem unique_put {row : DeviceToken}
    (h : ∀ a ∈ tokens.rows, ∀ b ∈ tokens.rows, a.deviceToken = b.deviceToken →
      a.tokenId = b.tokenId)
    (hrow : ∀ a ∈ tokens.rows, a.deviceToken = row.deviceToken → a.tokenId = row.tokenId) :
    ∀ a ∈ (tokens.put row).rows, ∀ b ∈ (tokens.put row).rows,
      a.deviceToken = b.deviceToken → a.tokenId = b.tokenId := by
  intro a ha b hb hab
  rcases Table.mem_put ha with heqa | ha
  · rcases Table.mem_put hb with heqb | hb
    · rw [heqa, heqb]
    · rw [heqa, hrow b hb (hab.symm.trans (congrArg _ heqa))]
  · rcases Table.mem_put hb with heqb | hb
    · rw [heqb, hrow a ha (hab.trans (congrArg _ heqb))]
    · exact h a ha b hb hab

theorem Sound.held (h : Sound s) {a b : DeviceToken} (ha : a ∈ s.tokens.rows) (hb : Held s b)
    (hab : a.deviceToken = b.deviceToken) : a = b ∨ a = { b with status := .expired } := by
  rcases hb with hb | ⟨data, hdata, hb⟩
  · exact .inl (eq_of_tokenId ha hb (h.unique a ha b hb hab))
  · obtain ⟨a', ha', heq⟩ := h.mirrored data hdata b hb
    have hvalue : a'.deviceToken = b.deviceToken := by
      rcases heq with rfl | rfl <;> rfl
    have haa : a = a' := eq_of_tokenId ha ha' (h.unique a ha a' ha' (hab.trans hvalue.symm))
    rwa [haa]

/-- A save that goes through writes what is in memory. -/
theorem sound_save (htransient : s.persistent = false → s.file = none)
    (hunique : ∀ a ∈ s.tokens.rows, ∀ b ∈ s.tokens.rows, a.deviceToken = b.deviceToken →
      a.tokenId = b.tokenId) : Sound (s.save true) := by
  obtain ⟨tokens, file, persistent⟩ := s
  cases persistent with
  | false =>
    obtain rfl : file = none := htransient rfl
    exact ⟨fun _ => rfl, fun data hdata => (nomatch hdata), hunique⟩
  | true =>
    refine ⟨fun h => (nomatch h), fun data hdata b hb => ?_, hunique⟩
    cases hdata
    exact ⟨b, hb, .inl rfl⟩

theorem Sound.load (h : Sound s) : Sound s.load := by
  obtain ⟨tokens, file, persistent⟩ := s
  cases persistent with
  | false =>
    obtain rfl : file = none := h.transient rfl
    exact ⟨fun _ => rfl, fun data hdata => (nomatch hdata), fun a ha => (nomatch ha)⟩
  | true =>
    cases file with
    | none => exact ⟨fun _ => rfl, fun data hdata => (nomatch hdata), fun a ha => (nomatch ha)⟩
    | some data =>
      refine ⟨fun hp => (nomatch hp), fun data' hdata b hb => ?_, fun a ha b hb hab => ?_⟩
      · cases hdata
        exact ⟨b, hb, .inl rfl⟩
      · obtain ⟨a', ha', heqa⟩ := h.mirrored data rfl a ha
        obtain ⟨b', hb', heqb⟩ := h.mirrored data rfl b hb
        have hids := h.unique a' ha' b' hb'
        rcases heqa with rfl | rfl <;> rcases heqb with rfl | rfl <;> exact hids hab

theorem Sound.expire (h : Sound s) {token : DeviceToken} (htoken : token ∈ s.tokens.rows)
    (reason : String) : Sound (s.expire token reason).1 := by
  have hput : ∀ a ∈ s.tokens.rows, a.tokenId ≠ token.tokenId →
      a ∈ (s.tokens.put { token with status := .expired }).rows := by
    intro a ha hne
    apply Table.mem_of_get? (k := a.tokenId)
    rw [Table.get?_put, if_neg (Ne.symm hne)]
    exact Table.get?_key ha
  have hnew : { token with status := .expired } ∈
      (s.tokens.put { token with status := .expired }).rows := by
    apply Table.mem_of_get? (k := token.tokenId)
    rw [Table.get?_put, if_pos rfl]
  refine ⟨h.transient, fun data hdata b hb => ?_, unique_put h.unique fun a ha => ?_⟩
  · obtain ⟨a, ha, heq⟩ := h.mirrored data hdata b hb
    by_cases hid : a.tokenId = token.tokenId
    · obtain rfl := eq_of_tokenId ha htoken hid
      refine ⟨_, hnew, .inr ?_⟩
      rcases heq with rfl | rfl <;> rfl
    · exact ⟨a, hput a ha hid, heq⟩
  · exact h.unique a ha token htoken

end Sound

/-! ## One call in a run -/

/-- A rotation of a token that is still active finds it neither expired nor past its window. -/
def Timely (s : BridgeTokenStore) (input : Input) : Prop :=
  ∀ i overlapSec ttlSec scopes, input.call = .rotate i overlapSec ttlSec scopes →
    ∀ token, s.tokens.get? i = some token → token.status = .active → spent input.now token = false

/-- Every token with this value is spent. -/
def Dead (value : PyStr) (t : ℚ) (s : BridgeTokenStore) : Prop :=
  ∀ token, Held s token → token.deviceToken = value → spent t token = true

/-- The value of every token was drawn by a call before the `k`-th. -/
def DrawnBefore (inp : ℕ → Input) (k : ℕ) (s : BridgeTokenStore) : Prop :=
  ∀ token, Held s token → ∃ j, j < k ∧ token.deviceToken = (inp j).draw.tokenValue

section OneCall
variable {s : BridgeTokenStore} {input : Input} {token : DeviceToken} {tokens : Tokens}

theorem past_mono {now later : ℚ} {limit : Option ℚ} (hle : now ≤ later)
    (h : past now limit = true) : past later limit = true := by
  cases limit with
  | none => cases h
  | some t =>
    have ⟨hne, hlt⟩ : t ≠ 0 ∧ t < now := of_decide_eq_true h
    exact decide_eq_true ⟨hne, hlt.trans_le hle⟩

theorem spent_iff {now : ℚ} : spent now token = true ↔ token.status = .revoked ∨
    past now token.expiresAt = true ∨ past now token.overlapUntil = true := by
  simp [spent, or_assoc]

theorem spent_mono {now later : ℚ} (hle : now ≤ later) (h : spent now token = true) :
    spent later token = true := by
  rw [spent_iff] at h ⊢
  exact h.imp_right (Or.imp (past_mono hle) (past_mono hle))

/-- A token that is spent stays so, unless it is rotated. -/
theorem Dead.step {value : PyStr} {t : ℚ} (h : Dead value t s) (ht : t ≤ input.now)
    (htimely : Timely s input) (hnew : value ≠ input.draw.tokenValue) :
    Dead value t (step s input).1 := by
  intro token hheld hvalue
  cases step_derived hheld with
  | kept hheld => exact h token hheld hvalue
  | issued hdraw => exact absurd (hvalue.symm.trans hdraw) hnew
  | overlapped hmem hactive hcall =>
    have hspent := spent_mono ht (h _ (.inl hmem) hvalue)
    rw [htimely _ _ _ _ hcall _ (Table.get?_key hmem) hactive] at hspent
    cases hspent
  | revoked hmem => exact spent_iff.mpr (.inl rfl)
  | expired hmem hstatus _ =>
    have hspent := spent_iff.mp (h _ (.inl hmem) hvalue)
    exact spent_iff.mpr (.inr (hspent.resolve_left hstatus))

theorem DrawnBefore.step {inp : ℕ → Input} {k : ℕ} (h : DrawnBefore inp k s) :
    DrawnBefore inp (k + 1) (step s (inp k)).1 := by
  intro token hheld
  have hold : ∀ old, Held s old → ∃ j, j < k + 1 ∧ old.deviceToken = (inp j).draw.tokenValue := by
    intro old hmem
    obtain ⟨j, hj, hvalue⟩ := h old hmem
    exact ⟨j, by omega, hvalue⟩
  cases step_derived hheld with
  | kept hheld => exact hold token hheld
  | issued hdraw => exact ⟨k, by omega, hdraw⟩
  | overlapped hmem _ _ => exact (hold _ (.inl hmem) :)
  | revoked hmem => exact (hold _ (.inl hmem) :)
  | expired hmem _ _ => exact (hold _ (.inl hmem) :)

theorem issue_sound {draw : Draw} {now : ℚ} {d : PyStr} {scopes : List BridgeScope} {ttl : ℤ}
    (h : Sound s) (hnew : ∀ a ∈ s.tokens.rows, a.deviceToken ≠ draw.tokenValue) :
    Sound (s.issueToken draw now true d scopes ttl).1 :=
  sound_save h.transient (unique_put h.unique fun a ha hvalue => absurd hvalue (hnew a ha))

theorem save_transient (htransient : s.persistent = false → s.file = none) {saved : Bool} :
    ({ s with tokens }.save saved).persistent = false →
      ({ s with tokens }.save saved).file = none := by
  obtain ⟨tokens', file, persistent⟩ := s
  cases persistent with
  | false => exact htransient
  | true => cases saved <;> exact fun hp => nomatch hp

theorem rotate_sound {draw : Draw} {now later : ℚ} {i : PyStr} {overlapSec ttlSec : ℤ}
    {scopes : List BridgeScope} (h : Sound s)
    (hnew : ∀ a ∈ s.tokens.rows, a.deviceToken ≠ draw.tokenValue) :
    Sound (s.rotateToken draw now later true i overlapSec ttlSec scopes).1 := by
  unfold rotateToken
  split
  · exact h
  · rename_i old hget
    split
    · exact h
    · have hmem := Table.mem_of_get? hget
      have hold : ∀ a ∈ s.tokens.rows, a.deviceToken = old.deviceToken →
          a.tokenId = old.tokenId := fun a ha => h.unique a ha old hmem
      -- the window of the old token, the new token, and both once more
      dsimp only [issueToken]
      apply sound_save
      · exact save_transient h.transient
      rw [save_tokens]
      refine unique_put (unique_put (unique_put (unique_put h.unique hold) ?_) ?_) ?_
      · intro a ha hvalue
        rcases Table.mem_put ha with rfl | ha
        · exact absurd hvalue (hnew old hmem)
        · exact absurd hvalue (hnew a ha)
      · intro a ha hvalue
        rcases Table.mem_put ha with rfl | ha
        · exact absurd hvalue.symm (hnew old hmem)
        · rcases Table.mem_put ha with rfl | ha
          · rfl
          · exact hold a ha hvalue
      · intro a ha hvalue
        rcases Table.mem_put ha with rfl | ha
        · exact absurd hvalue (hnew old hmem)
        · rcases Table.mem_put ha with rfl | ha
          · rfl
          · rcases Table.mem_put ha with rfl | ha
            · exact absurd hvalue (hnew old hmem)
            · exact absurd hvalue (hnew a ha)

theorem step_sound {k : ℕ} {inp : ℕ → Input} (h : Sound s) (hsaved : (inp k).saved = true)
    (hnew : ∀ a ∈ s.tokens.rows, a.deviceToken ≠ (inp k).draw.tokenValue) :
    Sound (step s (inp k)).1 := by
  unfold Bridge.step
  rw [hsaved]
  cases hcall : (inp k).call with
  | issue d scopes ttl => exact issue_sound h hnew
  | rotate i overlap ttl scopes => exact rotate_sound h hnew
  | revoke i =>
    dsimp only [Prod.map, id, revokeToken]
    split
    · exact h
    · rename_i old hget
      exact sound_save h.transient (unique_put h.unique fun a ha hvalue =>
        h.unique a ha old (Table.mem_of_get? hget) hvalue)
  | validate value scope =>
    dsimp only [Prod.map, id, validateToken]
    split
    · exact h
    · exact h
    · rename_i token hfound
      have hmem := (resolve_mem hfound).1
      dsimp only [Prod.map, validateFound]
      split
      · exact h
      · split
        · exact h.expire hmem _
        · split
          · exact h.expire hmem _
          · split <;> exact h
  | cleanup =>
    dsimp only [Prod.map, id, cleanupExpired]
    split
    · exact h
    · exact sound_save h.transient fun a ha b hb =>
        h.unique a (mem_foldl_drop ha) b (mem_foldl_drop hb)
  | restart => exact h.load

end OneCall

/-! ## What validation says -/

/-- A rejection as revoked, expired or past the overlap window. -/
def Answer.rejects : Answer → Bool
  | .validated (.ok r) =>
    decide (r.rejectReason ∈ ["token_revoked", "token_expired", "overlap_window_expired"])
  | _ => false

def Answer.accepts : Answer → Bool
  | .validated (.ok r) => r.ok
  | _ => false

section Validation
variable {s : BridgeTokenStore} {now : ℚ} {value : PyStr} {scope : Option PyStr}
  {token : DeviceToken}

theorem validateFound_rejects : (Answer.validated (.ok
    (s.validateFound now scope token).2)).rejects = spent now token := by
  unfold validateFound expire spent
  by_cases hrevoked : token.status = .revoked
  · rw [if_pos hrevoked, decide_eq_true hrevoked]
    simp [Answer.rejects]
  rw [if_neg hrevoked, decide_eq_false hrevoked]
  cases hexpired : past now token.expiresAt with
  | true => simp [Answer.rejects]
  | false =>
    cases hwindow : past now token.overlapUntil with
    | true => simp [Answer.rejects]
    | false =>
      rw [if_neg Bool.false_ne_true, if_neg Bool.false_ne_true]
      split <;> simp [Answer.rejects]

theorem validateFound_accepts (h : spent now token = true) : (Answer.validated (.ok
    (s.validateFound now scope token).2)).accepts = false := by
  unfold validateFound expire
  rw [spent_iff] at h
  split
  · rfl
  · rename_i hrevoked
    split
    · rfl
    · rename_i hexpired
      rw [if_pos ((h.resolve_left hrevoked).resolve_left hexpired)]
      rfl

theorem validateFound_accepts_of_fresh (h : spent now token = false) : (Answer.validated (.ok
    (s.validateFound now none token).2)).accepts = true := by
  unfold validateFound
  have hfresh : ¬ (token.status = .revoked ∨ past now token.expiresAt = true ∨
      past now token.overlapUntil = true) := by
    rw [← spent_iff, h]
    exact Bool.false_ne_true
  obtain ⟨hrevoked, hexpired, hwindow⟩ := not_or.mp hfresh |>.imp_right not_or.mp
  rw [if_neg hrevoked, if_neg hexpired, if_neg hwindow]
  rfl

theorem rejects_found (h : (Answer.validated (s.validateToken now value scope).2).rejects = true) :
    ∃ token ∈ s.tokens.rows, token.deviceToken = value ∧ spent now token = true := by
  unfold validateToken at h
  split at h
  · cases h
  · cases h
  · rename_i token hfound
    exact ⟨token, (resolve_mem hfound).1, (resolve_mem hfound).2, validateFound_rejects.symm.trans h⟩

theorem accepts_found (h : (Answer.validated (s.validateToken now value scope).2).accepts = true) :
    ∃ token ∈ s.tokens.rows, token.deviceToken = value ∧ spent now token = false := by
  unfold validateToken at h
  split at h
  · cases h
  · cases h
  · rename_i token hfound
    refine ⟨token, (resolve_mem hfound).1, (resolve_mem hfound).2, ?_⟩
    by_contra hspent
    rw [Bool.not_eq_false] at hspent
    have hrefused : (Answer.validated (.ok (s.validateFound now scope token).2)).accepts = false :=
      validateFound_accepts hspent
    exact absurd (hrefused.symm.trans h) Bool.false_ne_true

/-- A stored token is found, when all values are ASCII and no other token has its value. -/
theorem resolve_found {rows : List DeviceToken} (hascii : ∀ a ∈ rows, a.deviceToken.isAscii = true)
    (hmem : token ∈ rows) (hunique : ∀ a ∈ rows, a.deviceToken = token.deviceToken → a = token) :
    resolveTokenForValue token.deviceToken rows = .ok (some token) := by
  induction rows with
  | nil => cases hmem
  | cons first rows ih =>
    have hchars : ¬ (first.deviceToken.isAscii = false ∨ token.deviceToken.isAscii = false) := by
      rw [hascii first List.mem_cons_self, hascii token hmem]
      decide
    rw [resolveTokenForValue, if_neg hchars]
    by_cases hfirst : first.deviceToken = token.deviceToken
    · rw [if_pos hfirst, hunique first List.mem_cons_self hfirst]
    · rw [if_neg hfirst]
      apply ih
      · exact fun a ha => hascii a (List.mem_cons_of_mem first ha)
      · exact (List.mem_cons.mp hmem).resolve_left fun heq => hfirst (congrArg _ heq.symm)
      · exact fun a ha => hunique a (List.mem_cons_of_mem first ha)

/-- A rotation that returns found a token that is active. -/
theorem rotated_active {draw : Draw} {later : ℚ} {saved : Bool} {i : PyStr}
    {overlapSec ttlSec : ℤ} {scopes : List BridgeScope} {p : DeviceToken × DeviceToken}
    (h : (s.rotateToken draw now later saved i overlapSec ttlSec scopes).2 = .ok p) :
    ∃ old, s.tokens.get? i = some old ∧ old.status = .active := by
  unfold rotateToken at h
  split at h
  · cases h
  · rename_i old hget
    split at h
    · cases h
    · rename_i hactive
      exact ⟨old, hget, not_not.mp hactive⟩

end Validation

/-! ## Runs -/

section Runs
variable (s₀ : BridgeTokenStore) (inp : ℕ → Input)

abbrev storeAt (k : ℕ) : BridgeTokenStore := run step s₀ inp k

abbrev answerAt (k : ℕ) : Answer := answer step s₀ inp k

/-- What validation rejected it never accepts, and a rotation that returns is of a token that
validation would accept. -/
structure KeepsRejecting : Prop where
  rejected : ∀ j k value scope scope', j < k → (inp j).call = .validate value scope →
    (answerAt s₀ inp j).rejects = true → (inp k).call = .validate value scope' →
    (answerAt s₀ inp k).accepts = false
  rotated : ∀ k i overlapSec ttlSec scopes p, (inp k).call = .rotate i overlapSec ttlSec scopes →
    answerAt s₀ inp k = .rotated (.ok p) → ∃ old, (storeAt s₀ inp k).tokens.get? i = some old ∧
      (Answer.validated ((storeAt s₀ inp k).validateToken (inp k).now old.deviceToken none).2).accepts
        = true

/-- Every save goes through, the clock does not go back and no random value is drawn twice. -/
structure Regular : Prop where
  saved : ∀ k, (inp k).saved = true
  clock : Monotone fun k => (inp k).now
  fresh : Function.Injective fun k => (inp k).draw.tokenValue

variable {s₀ inp}

theorem sound_at (persistent : Bool) (h : Regular inp) (k : ℕ) :
    Sound (storeAt { persistent } inp k) ∧ DrawnBefore inp k (storeAt { persistent } inp k) := by
  induction k with
  | zero =>
    refine ⟨⟨fun _ => rfl, fun data hdata => (nomatch hdata), fun a ha => (nomatch ha)⟩, ?_⟩
    rintro token (hmem | ⟨data, hdata, _⟩)
    · cases hmem
    · cases hdata
  | succ k ih =>
    refine ⟨step_sound ih.1 (h.saved k) fun a ha hvalue => ?_, ih.2.step⟩
    obtain ⟨j, hj, hdrawn⟩ := ih.2 a (.inl ha)
    have hjk : j = k := h.fresh (hdrawn.symm.trans hvalue)
    omega

/-- A value that was rejected is dead from then on. -/
theorem dead_of_rejects {persistent : Bool} (h : Regular inp)
    (htimely : ∀ k, Timely (storeAt { persistent } inp k) (inp k)) {j : ℕ} {value : PyStr}
    {scope : Option PyStr} (hcall : (inp j).call = .validate value scope)
    (hrejects : (answerAt { persistent } inp j).rejects = true) :
    ∀ k, j ≤ k → Dead value (inp j).now (storeAt { persistent } inp k) := by
  obtain ⟨hsound, hdrawn⟩ := sound_at persistent h j
  have hanswer : answerAt { persistent } inp j = .validated
      ((storeAt { persistent } inp j).validateToken (inp j).now value scope).2 := by
    unfold answerAt answer step
    rw [hcall]
    rfl
  rw [hanswer] at hrejects
  obtain ⟨a, ha, hvalue, hspent⟩ := rejects_found hrejects
  obtain ⟨d, hd, hdraw⟩ := hdrawn a (.inl ha)
  apply run_invariant
  · intro b hb hb'
    rcases hsound.held ha hb (hvalue.trans hb'.symm) with rfl | rfl
    · exact hspent
    · rw [spent_iff] at hspent ⊢
      exact .inr (hspent.resolve_left (fun hstatus => nomatch hstatus))
  · intro k hk hdead
    apply hdead.step (h.clock hk) (htimely k)
    intro hdrawn'
    have hdk : d = k := h.fresh (hdraw.symm.trans (hvalue.trans hdrawn'))
    omega

theorem keeps_rejecting (persistent : Bool) (h : Regular inp)
    (htimely : ∀ k, Timely (storeAt { persistent } inp k) (inp k)) :
    KeepsRejecting { persistent } inp := by
  constructor
  · intro j k value scope scope' hjk hcall hrejects hcall'
    have hdead := dead_of_rejects h htimely hcall hrejects k hjk.le
    have hanswer : answerAt { persistent } inp k = .validated
        ((storeAt { persistent } inp k).validateToken (inp k).now value scope').2 := by
      unfold answerAt answer step
      rw [hcall']
      rfl
    by_contra haccepts
    rw [Bool.not_eq_false, hanswer] at haccepts
    obtain ⟨a, ha, hvalue, hfresh⟩ := accepts_found haccepts
    rw [spent_mono (h.clock hjk.le) (hdead a (.inl ha) hvalue)] at hfresh
    cases hfresh
  · intro k i overlapSec ttlSec scopes p hcall hanswer
    obtain ⟨hsound, hdrawn⟩ := sound_at persistent h k
    have hrotated : ((storeAt { persistent } inp k).rotateToken (inp k).draw (inp k).now
        (inp k).later (inp k).saved i overlapSec ttlSec scopes).2 = .ok p := by
      unfold answerAt answer step at hanswer
      rw [hcall] at hanswer
      exact Answer.rotated.inj hanswer
    obtain ⟨old, hget, hactive⟩ := rotated_active hrotated
    have hmem := Table.mem_of_get? hget
    refine ⟨old, hget, ?_⟩
    unfold validateToken
    rw [resolve_found _ hmem fun a ha hvalue =>
      eq_of_tokenId ha hmem (hsound.unique a ha old hmem hvalue)]
    · exact validateFound_accepts_of_fresh (htimely k _ _ _ _ hcall old hget hactive)
    · intro a ha
      obtain ⟨j, _, hdraw⟩ := hdrawn a (.inl ha)
      rw [hdraw]
      exact (inp j).draw.ascii

/-! ## Two runs -/

def drawAt (k : ℕ) : Draw where
  tokenId := PyStr.ofString "bt_" ++ List.replicate k 48
  tokenValue := List.replicate (k + 1) 65
  ascii := by
    rw [PyStr.isAscii, List.all_eq_true]
    intro u hu
    rw [List.eq_of_mem_replicate hu]
    decide

/-- A call every minute; after the listed ones only cleanups. -/
def everyMinute (calls : List Call) (k : ℕ) : Input where
  now := 1000000 + 60 * k
  later := 1000000 + 60 * k
  draw := drawAt k
  call := calls.getD k .cleanup

theorem everyMinute_regular (calls : List Call) : Regular (everyMinute calls) where
  saved _ := rfl
  clock j k hjk := by
    have hcast : (j : ℚ) ≤ k := by exact_mod_cast hjk
    exact add_le_add_right (mul_le_mul_of_nonneg_left hcast (by decide)) 1000000
  fresh j k hjk := by
    have hlength := congrArg List.length hjk
    simpa [everyMinute, drawAt] using hlength

/-- The token that the first call issues is rotated and rejected. -/
def rotatedOnce : List Call :=
  [.issue [100] [] 3600, .rotate (PyStr.ofString "bt_") 30 3600 [], .validate [65] none, .restart,
    .validate [65] none]

/-- The same token is rotated again after the restart. -/
def rotatedAgain : List Call :=
  [.issue [100] [] 3600, .rotate (PyStr.ofString "bt_") 30 3600 [], .validate [65] none, .restart,
    .rotate (PyStr.ofString "bt_") 1800 3600 [], .validate [65] none]

theorem keeps_rejecting_rotatedOnce :
    KeepsRejecting { persistent := true } (everyMinute rotatedOnce) ∧
      (answerAt { persistent := true } (everyMinute rotatedOnce) 2).rejects = true := by
  refine ⟨keeps_rejecting true (everyMinute_regular _) fun k => ?_, by decide +kernel⟩
  intro i overlapSec ttlSec scopes hcall token hget _
  match k with
  | 0 => cases hcall
  | 1 =>
    have hrows : ∀ a ∈ (storeAt { persistent := true } (everyMinute rotatedOnce) 1).tokens.rows,
        spent (everyMinute rotatedOnce 1).now a = false := by decide +kernel
    exact hrows token (Table.mem_of_get? hget)
  | 2 => cases hcall
  | 3 => cases hcall
  | 4 => cases hcall
  | k + 5 => cases hcall

/-- In a new process a token that was rejected is active again, is rotated and accepted. -/
theorem rotatedAgain_accepts : Regular (everyMinute rotatedAgain) ∧
    ¬ KeepsRejecting { persistent := true } (everyMinute rotatedAgain) := by
  refine ⟨everyMinute_regular _, fun h => ?_⟩
  have hrefused := h.rejected 2 5 [65] none none (by decide) rfl (by decide +kernel) rfl
  have haccepts : (answerAt { persistent := true } (everyMinute rotatedAgain) 5).accepts = true := by
    decide +kernel
  rw [hrefused] at haccepts
  cases haccepts

end Runs

end OpenClaw.Bridge
