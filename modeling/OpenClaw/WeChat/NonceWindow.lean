import Mathlib.Data.List.Infix
import Mathlib.Data.Rat.Floor
import OpenClaw.Connector.SecurityProfile
import OpenClaw.Webhook.WebhookAuth

/-!
# How long a nonce is remembered

The guard counts from the moment it saw the nonce, the freshness check from the timestamp the request
claims. A request that is dated before the second it arrived in is stale by the time its nonce is
forgotten; every other one is fresh once more.
-/

namespace OpenClaw.WeChat

open Foundation Connector
open Webhook (truncate)
set_option autoImplicit false

/-!
## The gate of the WeChat webhook

`verify_wechat_signature` and the first half of `handle_webhook` in
`connector/platforms/wechat_webhook.py`: signature, nonce and freshness, in this order, up to the
first `await`. The readings of the clock are inputs, and so is SHA-1.
-/

section Gate

/-- SHA-1 of a message, as a hex digest. -/
abbrev Sha1Hex := List UInt8 → CodePoints

/-- `verify_wechat_signature`; `sorted` goes by code points. -/
def verifyWechatSignature (sha1Hex : Sha1Hex) (token timestamp nonce signature : CodePoints) :
    Except TextError Bool :=
  let checkList := sortedBy id [token, timestamp, nonce]
  match CodePoints.encode checkList.flatten with
  | .error e => .error e
  | .ok checkStr => CodePoints.compareDigest (sha1Hex checkStr) signature.lower

def replayWindowSec : ℕ := 300
def nonceCacheSize : ℕ := 1000

/-- The guard of a new server. -/
def newGuard : ReplayGuard := { windowSec := replayWindowSec, maxEntries := nonceCacheSize }

/-- The query of a POST; a field that is not given is empty. -/
structure Post where
  signature : CodePoints
  timestamp : CodePoints
  nonce : CodePoints

def Post.tsVal (post : Post) : ℤ := (CodePoints.int? post.timestamp).getD 0

/-- The guard reads the clock to evict and to compare, the freshness check reads it once more. -/
structure GateClock where
  evict : ℚ
  check : ℚ
  fresh : ℚ

inductive GateAnswer where
  | raised (e : TextError)
  | refused (status : ℕ) (text : String)
  | passed
  deriving DecidableEq

/-- `if nonce and not check_and_record(nonce)`. -/
def checkNonce (guard : ReplayGuard) (post : Post) (clock : GateClock) : ReplayGuard × Bool :=
  if post.nonce = [] then (guard, true)
  else guard.checkAndRecord post.nonce clock.evict clock.check

def Post.ageSec (post : Post) (clock : GateClock) : ℤ := truncate clock.fresh - post.tsVal

def gate (sha1Hex : Sha1Hex) (token : CodePoints) (guard : ReplayGuard) (post : Post)
    (clock : GateClock) : ReplayGuard × GateAnswer :=
  match verifyWechatSignature sha1Hex token post.timestamp post.nonce post.signature with
  | .error e => (guard, .raised e)
  | .ok false => (guard, .refused 401 "Invalid Signature")
  | .ok true =>
    let r := checkNonce guard post clock
    if r.2 = false then (r.1, .refused 403 "Replay Rejected")
    else if replayWindowSec < post.ageSec clock ∨ post.ageSec clock < -60 then
      (r.1, .refused 403 "Stale Request")
    else (r.1, .passed)

/-! ## Runs -/

/-- What the handler does with its guard between two `await`s: the gate of a request, or the check
of the dedup value of a request that passed. -/
inductive Block where
  | post (post : Post) (clock : GateClock)
  | dedup (value : CodePoints) (evict check : ℚ)

def Block.readings : Block → List ℚ
  | .post _ clock => [clock.evict, clock.check, clock.fresh]
  | .dedup _ evict check => [evict, check]

section Runs
variable (sha1Hex : Sha1Hex) (token : CodePoints)

def receive (guard : ReplayGuard) : Block → ReplayGuard
  | .post post clock => (gate sha1Hex token guard post clock).1
  | .dedup value evict check => (guard.checkAndRecord value evict check).1

def guardAfter (blocks : List Block) : ReplayGuard := blocks.foldl (receive sha1Hex token) newGuard

/-- The post passes signature, nonce and freshness after the blocks. -/
def PassesAfter (blocks : List Block) (post : Post) (clock : GateClock) : Prop :=
  (gate sha1Hex token (guardAfter sha1Hex token blocks) post clock).2 = .passed

/-- The clock starts no earlier than its epoch and does not go back. -/
def Chronological (blocks : List Block) : Prop :=
  (0 :: blocks.flatMap Block.readings).Pairwise (· ≤ ·)

instance (blocks : List Block) (post : Post) (clock : GateClock) :
    Decidable (PassesAfter sha1Hex token blocks post clock) :=
  inferInstanceAs (Decidable (_ = _))

instance (blocks : List Block) : Decidable (Chronological blocks) :=
  inferInstanceAs (Decidable (List.Pairwise _ _))

/-- The guard never holds as many keys as its cap. -/
def Roomy (blocks : List Block) : Prop :=
  ∀ before, before <+: blocks → (guardAfter sha1Hex token before).size < nonceCacheSize

def Admissible (blocks : List Block) : Prop := Chronological blocks ∧ Roomy sha1Hex token blocks

end Runs

end Gate

/-! ## The clock -/

theorem truncate_of_nonneg {t : ℚ} (h : 0 ≤ t) : truncate t = ⌊t⌋ := by
  rw [truncate, if_pos h]
  rfl

theorem truncate_mono {s t : ℚ} (hs : 0 ≤ s) (h : s ≤ t) : truncate s ≤ truncate t := by
  rw [truncate_of_nonneg hs, truncate_of_nonneg (hs.trans h)]
  exact Int.floor_mono h

theorem truncate_add_window {t : ℚ} (h : 0 ≤ t) : truncate (t + 300) = truncate t + 300 := by
  have hsum : (0 : ℚ) ≤ t + 300 := by linarith
  rw [truncate_of_nonneg h, truncate_of_nonneg hsum]
  exact_mod_cast Int.floor_add_intCast t 300

/-- A moment later that still has the same second. -/
theorem exists_later {t : ℚ} (h : 0 ≤ t) : ∃ s, t < s ∧ truncate s = truncate t := by
  have hlt : t < ⌊t⌋ + 1 := Int.lt_floor_add_one t
  obtain ⟨s, hts, hs⟩ := exists_between hlt
  refine ⟨s, hts, ?_⟩
  rw [truncate_of_nonneg h, truncate_of_nonneg (h.trans hts.le), Int.floor_eq_iff]
  exact ⟨(Int.floor_le t).trans hts.le, hs⟩

/-! ## One block -/

section Block
variable {sha1Hex : Sha1Hex} {token : CodePoints} {guard : ReplayGuard}

theorem gate_passed_iff {post : Post} {clock : GateClock} :
    (gate sha1Hex token guard post clock).2 = .passed ↔
      verifyWechatSignature sha1Hex token post.timestamp post.nonce post.signature = .ok true ∧
        (checkNonce guard post clock).2 = true ∧ post.ageSec clock ≤ 300 ∧
          -60 ≤ post.ageSec clock := by
  unfold gate
  split
  · rename_i e hsig
    simp [hsig]
  · rename_i hsig
    simp [hsig]
  · rename_i hsig
    cases hnonce : (checkNonce guard post clock).2 with
    | false => simp [hnonce]
    | true =>
      by_cases hage : (replayWindowSec : ℤ) < post.ageSec clock ∨ post.ageSec clock < -60
      · have hstale : ¬ (post.ageSec clock ≤ 300 ∧ -60 ≤ post.ageSec clock) := by
          rw [replayWindowSec] at hage
          omega
        simp [hsig, hnonce, hage, hstale]
      · have hfresh : post.ageSec clock ≤ 300 ∧ -60 ≤ post.ageSec clock := by
          rw [replayWindowSec] at hage
          omega
        simp [hsig, hnonce, hage, hfresh]

variable (sha1Hex token guard) in
/-- Only a request that gets past the signature is noted, and then by the nonce check. -/
theorem gate_guard (post : Post) (clock : GateClock) :
    (gate sha1Hex token guard post clock).1 = guard ∨
      (gate sha1Hex token guard post clock).1 = (checkNonce guard post clock).1 := by
  unfold gate
  split
  · exact .inl rfl
  · exact .inl rfl
  · right
    dsimp only
    split
    · rfl
    · split <;> rfl

theorem gate_guard_of_passed {post : Post} {clock : GateClock}
    (h : (gate sha1Hex token guard post clock).2 = .passed) :
    (gate sha1Hex token guard post clock).1 = (checkNonce guard post clock).1 := by
  have hsig := (gate_passed_iff.mp h).1
  unfold gate
  rw [hsig]
  dsimp only
  split
  · rfl
  · split <;> rfl

variable (sha1Hex token guard) in
/-- A block checks one key at two of its readings, or leaves the guard alone. -/
theorem receive_cases (b : Block) : receive sha1Hex token guard b = guard ∨
    ∃ key evict check, evict ∈ b.readings ∧ check ∈ b.readings ∧
      (b.readings.Pairwise (· ≤ ·) → evict ≤ check) ∧
      receive sha1Hex token guard b = (guard.checkAndRecord key evict check).1 := by
  cases b with
  | dedup value evict check =>
    exact .inr ⟨value, evict, check, by simp [Block.readings], by simp [Block.readings],
      by simp [Block.readings], rfl⟩
  | post post clock =>
    change (gate sha1Hex token guard post clock).1 = guard ∨ _
    rcases gate_guard sha1Hex token guard post clock with h | h
    · exact .inl h
    · by_cases hempty : post.nonce = []
      · rw [checkNonce, if_pos hempty] at h
        exact .inl h
      · rw [checkNonce, if_neg hempty] at h
        refine .inr ⟨post.nonce, clock.evict, clock.check, by simp [Block.readings],
          by simp [Block.readings], ?_, h⟩
        intro hsorted
        exact (List.pairwise_cons.mp hsorted).1 clock.check (by simp)

variable (sha1Hex token guard) in
theorem receive_limits (b : Block) :
    (receive sha1Hex token guard b).windowSec = guard.windowSec ∧
      (receive sha1Hex token guard b).maxEntries = guard.maxEntries := by
  obtain h | ⟨key, evict, check, _, _, _, h⟩ :=
    receive_cases sha1Hex token guard b
  · rw [h]
    exact ⟨rfl, rfl⟩
  · rw [h]
    exact guard.checkAndRecord_windowSec key evict check

end Block

/-! ## The memory of a key -/

/-- The key is held since the time or later, or its window is over. -/
def Held (guard : ReplayGuard) (key : CodePoints) (since now : ℚ) : Prop :=
  (∃ t, since ≤ t ∧ guard.seen.get? key = some (key, t)) ∨ since + 300 < now

theorem Held.mono {guard : ReplayGuard} {key : CodePoints} {since now now' : ℚ}
    (h : Held guard key since now) (hle : now ≤ now') : Held guard key since now' := by
  rcases h with h | h
  · exact .inl h
  · exact .inr (h.trans_le hle)

theorem Held.check {guard : ReplayGuard} {key : CodePoints} {since evict check : ℚ}
    (hroom : guard.size < guard.maxEntries) (hwindow : guard.windowSec = 300)
    (hsince : since ≤ evict) (hle : evict ≤ check) (h : Held guard key since evict)
    (k : CodePoints) : Held (guard.checkAndRecord k evict check).1 key since check := by
  rcases h with ⟨t, ht, hget⟩ | h
  · by_cases hk : key = k
    · subst hk
      left
      have hself := ReplayGuard.get?_checkAndRecord_self hroom key evict check
      cases hnew : (guard.checkAndRecord key evict check).2 with
      | true =>
        rw [hnew, if_pos rfl] at hself
        exact ⟨check, hsince.trans hle, hself⟩
      | false =>
        rw [hnew, if_neg Bool.false_ne_true] at hself
        exact ⟨t, ht, hself.trans hget⟩
    · have hother := ReplayGuard.get?_checkAndRecord_other hroom hk evict check
      by_cases hin : evict - guard.windowSec ≤ t
      · left
        exact ⟨t, ht, hother.trans (ReplayGuard.get?_dropExpired_eq_some.mpr ⟨hget, hin⟩)⟩
      · right
        rw [hwindow] at hin
        push_cast at hin
        linarith
  · exact .inr (h.trans_le hle)

section Runs
variable {sha1Hex : Sha1Hex} {token : CodePoints}

variable (sha1Hex token) in
theorem guardAfter_append (blocks : List Block) (b : Block) :
    guardAfter sha1Hex token (blocks ++ [b]) =
      receive sha1Hex token (guardAfter sha1Hex token blocks) b := by
  simp [guardAfter]

variable (sha1Hex token) in
theorem guardAfter_limits (blocks : List Block) :
    (guardAfter sha1Hex token blocks).windowSec = 300 ∧
      (guardAfter sha1Hex token blocks).maxEntries = nonceCacheSize := by
  induction blocks using List.reverseRecOn with
  | nil => exact ⟨rfl, rfl⟩
  | append_singleton blocks b ih =>
    rw [guardAfter_append]
    obtain ⟨hw, hm⟩ := receive_limits sha1Hex token (guardAfter sha1Hex token blocks) b
    exact ⟨hw.trans ih.1, hm.trans ih.2⟩

theorem Chronological.le {front back : List Block} (h : Chronological (front ++ back)) :
    ∀ s ∈ front.flatMap Block.readings, ∀ t ∈ back.flatMap Block.readings, s ≤ t := by
  unfold Chronological at h
  rw [List.flatMap_append, List.pairwise_cons, List.pairwise_append] at h
  exact h.2.2.2

theorem Chronological.nonneg {blocks : List Block} (h : Chronological blocks) :
    ∀ t ∈ blocks.flatMap Block.readings, 0 ≤ t := (List.pairwise_cons.mp h).1

theorem Chronological.block {front back : List Block} {b : Block}
    (h : Chronological (front ++ b :: back)) : b.readings.Pairwise (· ≤ ·) := by
  unfold Chronological at h
  rw [List.flatMap_append, List.pairwise_cons, List.pairwise_append, List.flatMap_cons,
    List.pairwise_append] at h
  exact h.2.2.1.1

theorem Chronological.front {front back : List Block} (h : Chronological (front ++ back)) :
    Chronological front := by
  unfold Chronological at h ⊢
  rw [List.flatMap_append, ← List.cons_append] at h
  exact (List.pairwise_append.mp h).1

/-- From the block on that recorded it, a key is held or its window is over. -/
theorem held_after {front : List Block} {key : CodePoints} {since : ℚ}
    (hsince : since ∈ front.flatMap Block.readings)
    (hstart : (guardAfter sha1Hex token front).seen.get? key = some (key, since)) (back : List Block)
    (hadm : Admissible sha1Hex token (front ++ back)) (now : ℚ)
    (hnow : ∀ t ∈ (front ++ back).flatMap Block.readings, t ≤ now) :
    Held (guardAfter sha1Hex token (front ++ back)) key since now := by
  induction back using List.reverseRecOn generalizing now with
  | nil =>
    left
    exact ⟨since, le_refl _, by rwa [List.append_nil]⟩
  | append_singleton back b ih =>
    rw [← List.append_assoc] at hadm hnow ⊢
    obtain ⟨hclock, hroom⟩ := hadm
    have hbefore : Admissible sha1Hex token (front ++ back) :=
      ⟨hclock.front, fun pre hpre => hroom pre (hpre.trans (List.prefix_append _ _))⟩
    rw [guardAfter_append]
    obtain h | ⟨k, evict, check, hevict, hcheck, hle, h⟩ := receive_cases sha1Hex token
      (guardAfter sha1Hex token (front ++ back)) b
    · rw [h]
      apply ih hbefore
      intro t ht
      exact hnow t (by rw [List.flatMap_append]; exact List.mem_append_left _ ht)
    · rw [h]
      have hmem : ∀ t ∈ b.readings, t ∈ [b].flatMap Block.readings := by simp
      have hpast : ∀ t ∈ (front ++ back).flatMap Block.readings, t ≤ evict :=
        fun t ht => hclock.le t ht evict (hmem evict hevict)
      obtain ⟨hwindow, hmax⟩ :=
        guardAfter_limits sha1Hex token (front ++ back)
      have hspace := hroom (front ++ back) (List.prefix_append _ _)
      rw [← hmax] at hspace
      have hheld := Held.check hspace hwindow
        (hpast since (by rw [List.flatMap_append]; exact List.mem_append_left _ hsince))
        (hle hclock.block) (ih hbefore evict hpast) k
      apply hheld.mono
      exact hnow check (by rw [List.flatMap_append]; exact List.mem_append_right _ (hmem check hcheck))

theorem flatMap_front {front back : List Block} {t : ℚ} (h : t ∈ front.flatMap Block.readings) :
    t ∈ (front ++ back).flatMap Block.readings := by
  rw [List.flatMap_append]
  exact List.mem_append_left _ h

/-- However the run goes on, the triple of the post does not pass the gate again. -/
def NeverAgain (sha1Hex : Sha1Hex) (token : CodePoints) (before : List Block) (post : Post)
    (clock : GateClock) : Prop :=
  ∀ between clock', Admissible sha1Hex token
      (before ++ [.post post clock] ++ between ++ [.post post clock']) →
    ¬ PassesAfter sha1Hex token (before ++ [.post post clock] ++ between) post clock'

theorem Roomy.front {front back : List Block} (h : Roomy sha1Hex token (front ++ back)) :
    Roomy sha1Hex token front := fun before hbefore => h before (hbefore.trans (List.prefix_append _ _))

theorem Roomy.concat {blocks : List Block} {b : Block} (h : Roomy sha1Hex token blocks)
    (hb : (guardAfter sha1Hex token (blocks ++ [b])).size < nonceCacheSize) :
    Roomy sha1Hex token (blocks ++ [b]) := by
  intro before hbefore
  rcases List.prefix_concat_iff.mp hbefore with rfl | hbefore
  · exact hb
  · exact h before hbefore

section Post
variable {before : List Block} {post : Post} {clock : GateClock}

/-- A nonce that passed is held from the moment the guard compared it. -/
theorem held_of_passes (hroom : Roomy sha1Hex token before) (hnonce : post.nonce ≠ [])
    (hpass : PassesAfter sha1Hex token before post clock) :
    (guardAfter sha1Hex token (before ++ [.post post clock])).seen.get? post.nonce =
      some (post.nonce, clock.check) := by
  have hnew := (gate_passed_iff.mp hpass).2.1
  rw [checkNonce, if_neg hnonce] at hnew
  rw [guardAfter_append]
  change (gate sha1Hex token (guardAfter sha1Hex token before) post clock).1.seen.get? _ = _
  rw [gate_guard_of_passed hpass, checkNonce, if_neg hnonce]
  have hspace := hroom before (List.prefix_refl _)
  rw [← (guardAfter_limits sha1Hex token before).2] at hspace
  rw [ReplayGuard.get?_checkAndRecord_self hspace, hnew, if_pos rfl]

/-- A second pass needs the window of the nonce to be over by then. -/
theorem window_over {between : List Block} {clock' : GateClock} (hnonce : post.nonce ≠ [])
    (hadm : Admissible sha1Hex token
      (before ++ [.post post clock] ++ between ++ [.post post clock']))
    (hpass : PassesAfter sha1Hex token before post clock)
    (hagain : PassesAfter sha1Hex token (before ++ [.post post clock] ++ between) post clock') :
    clock.check + 300 < clock'.check := by
  obtain ⟨hclock, hroom⟩ := hadm
  have hmem : clock.check ∈ (before ++ [Block.post post clock]).flatMap Block.readings := by
    rw [List.flatMap_append]
    exact List.mem_append_right _ (by simp [Block.readings])
  have hevict : clock'.evict ∈ [Block.post post clock'].flatMap Block.readings := by
    simp [Block.readings]
  have hle : clock'.evict ≤ clock'.check :=
    (List.pairwise_cons.mp hclock.block).1 _ (by simp)
  have hheld := held_after hmem
    (held_of_passes hroom.front.front.front hnonce hpass) between
    ⟨hclock.front, hroom.front⟩ clock'.evict (fun t ht => hclock.le t ht _ hevict)
  have hspace := hroom _ (List.prefix_append _ [Block.post post clock'])
  obtain ⟨hwindow, hmax⟩ :=
    guardAfter_limits sha1Hex token (before ++ [.post post clock] ++ between)
  rw [← hmax] at hspace
  have hnew := (gate_passed_iff.mp hagain).2.1
  rw [checkNonce, if_neg hnonce, ReplayGuard.checkAndRecord_new_iff hspace hle] at hnew
  rcases hheld with ⟨t, ht, hget⟩ | hover
  · have hlater := hnew _ hget
    rw [hwindow] at hlater
    push_cast at hlater
    linarith
  · linarith

/-- The readings of a block end the run so far. -/
theorem Chronological.concat (h : Chronological (before ++ [.post post clock])) {now : ℚ}
    (hnow : clock.fresh ≤ now) :
    Chronological (before ++ [.post post clock] ++ [.post post ⟨now, now, now⟩]) := by
  have hlast : ∀ t ∈ (before ++ [Block.post post clock]).flatMap Block.readings,
      t ≤ clock.fresh := by
    intro t ht
    rw [List.flatMap_append, List.mem_append] at ht
    rcases ht with ht | ht
    · exact h.le t ht _ (by simp [Block.readings])
    · have hsorted := h.block
      simp only [Block.readings, List.pairwise_cons, List.mem_cons, List.not_mem_nil] at hsorted
      simp only [Block.readings, List.flatMap_cons, List.flatMap_nil, List.append_nil,
        List.mem_cons, List.not_mem_nil, or_false] at ht
      rcases ht with rfl | rfl | rfl
      · exact hsorted.1 _ (by simp)
      · exact hsorted.2.1 _ (by simp)
      · exact le_refl _
  have hfresh : clock.fresh ∈ (before ++ [Block.post post clock]).flatMap Block.readings := by
    rw [List.flatMap_append]
    exact List.mem_append_right _ (by simp [Block.readings])
  have hzero : 0 ≤ now := (h.nonneg _ hfresh).trans hnow
  unfold Chronological at h ⊢
  rw [List.flatMap_append, ← List.cons_append, List.pairwise_append]
  refine ⟨h, by simp [Block.readings], ?_⟩
  intro t ht u hu
  obtain rfl : u = now := by simpa [Block.readings] using hu
  rcases List.mem_cons.mp ht with rfl | ht
  · exact hzero
  · exact (hlast t ht).trans hnow

/-- Sending a post again takes no further room. -/
theorem size_again_le (hroom : Roomy sha1Hex token (before ++ [.post post clock]))
    (hpass : PassesAfter sha1Hex token before post clock) (clock' : GateClock) :
    (guardAfter sha1Hex token (before ++ [.post post clock] ++ [.post post clock'])).size ≤
      (guardAfter sha1Hex token (before ++ [.post post clock])).size := by
  have hspace := hroom _ (List.prefix_refl _)
  rw [← (guardAfter_limits sha1Hex token (before ++ [Block.post post clock])).2] at hspace
  rw [guardAfter_append]
  rcases gate_guard sha1Hex token (guardAfter sha1Hex token (before ++ [Block.post post clock])) post
    clock' with h | h
  · change (gate sha1Hex token _ post clock').1.size ≤ _
    rw [h]
  · change (gate sha1Hex token _ post clock').1.size ≤ _
    rw [h, checkNonce]
    split
    · exact le_refl _
    · rename_i hnonce
      apply ReplayGuard.size_checkAndRecord_le hspace
      rw [held_of_passes hroom.front hnonce hpass]
      rfl

/-- A request without a nonce passes again at once; one that is not dated before its second passes as
soon as the window of its nonce is over. -/
theorem exists_second_pass (hadm : Admissible sha1Hex token (before ++ [.post post clock]))
    (hpass : PassesAfter sha1Hex token before post clock)
    (hnot : ¬ (post.nonce ≠ [] ∧ post.tsVal < truncate clock.check)) :
    ∃ clock', Admissible sha1Hex token
        (before ++ [.post post clock] ++ [] ++ [.post post clock']) ∧
      PassesAfter sha1Hex token (before ++ [.post post clock] ++ []) post clock' := by
  obtain ⟨hclock, hroom⟩ := hadm
  obtain ⟨hsig, _, hold, hnew⟩ := gate_passed_iff.mp hpass
  have hcheck : 0 ≤ clock.check := hclock.nonneg _ (by
    rw [List.flatMap_append]
    exact List.mem_append_right _ (by simp [Block.readings]))
  have hfresh : 0 ≤ clock.fresh := hclock.nonneg _ (by
    rw [List.flatMap_append]
    exact List.mem_append_right _ (by simp [Block.readings]))
  rw [Post.ageSec] at hold hnew
  rw [List.append_nil]
  have hadm' : ∀ now, clock.fresh ≤ now → Admissible sha1Hex token
      (before ++ [.post post clock] ++ [.post post ⟨now, now, now⟩]) := fun now hnow =>
    ⟨hclock.concat hnow, hroom.concat ((size_again_le hroom hpass _).trans_lt
      (hroom _ (List.prefix_refl _)))⟩
  by_cases hnonce : post.nonce = []
  · refine ⟨_, hadm' clock.fresh (le_refl _), gate_passed_iff.mpr ⟨hsig, ?_, hold, hnew⟩⟩
    rw [checkNonce, if_pos hnonce]
  have hdated : truncate clock.check ≤ post.tsVal := by
    by_contra hlt
    exact hnot ⟨hnonce, not_le.mp hlt⟩
  obtain ⟨s, hlt, hsecond⟩ := exists_later hcheck
  have hspace := hroom _ (List.prefix_refl _)
  rw [← (guardAfter_limits sha1Hex token (before ++ [Block.post post clock])).2] at hspace
  have hmax : clock.fresh ≤ max (s + 300) clock.fresh := le_max_right _ _
  refine ⟨_, hadm' _ hmax, gate_passed_iff.mpr ⟨hsig, ?_, ?_, ?_⟩⟩
  · rw [checkNonce, if_neg hnonce, ReplayGuard.checkAndRecord_new_iff hspace (le_refl _)]
    intro e he
    rw [held_of_passes hroom.front hnonce hpass] at he
    cases he
    rw [(guardAfter_limits sha1Hex token (before ++ [Block.post post clock])).1]
    have hs : s + 300 ≤ max (s + 300) clock.fresh := le_max_left _ _
    push_cast
    linarith
  · rw [Post.ageSec]
    rcases max_choice (s + 300) clock.fresh with h | h
    · dsimp only
      rw [h, truncate_add_window (hcheck.trans hlt.le), hsecond]
      omega
    · dsimp only
      rw [h]
      exact hold
  · have hfloor := truncate_mono hfresh hmax
    rw [Post.ageSec]
    dsimp only
    omega

/-- A request that passed is never let through again exactly when it has a nonce and is dated before
the second in which the guard saw it. -/
theorem never_again_iff (sha1Hex : Sha1Hex) (token : CodePoints) (before : List Block) (post : Post)
    (clock : GateClock) (hadm : Admissible sha1Hex token (before ++ [.post post clock]))
    (hpass : PassesAfter sha1Hex token before post clock) :
    NeverAgain sha1Hex token before post clock ↔
      post.nonce ≠ [] ∧ post.tsVal < truncate clock.check := by
  constructor
  · intro hnever
    by_contra hnot
    obtain ⟨clock', hclock, hagain⟩ := exists_second_pass hadm hpass hnot
    exact hnever [] clock' (by simpa using hclock) (by simpa using hagain)
  · rintro ⟨hnonce, hdated⟩ between clock' hadm' hagain
    have hover := window_over hnonce hadm' hpass hagain
    have hcheck : 0 ≤ clock.check := hadm.1.nonneg _ (by
      rw [List.flatMap_append]
      exact List.mem_append_right _ (by simp [Block.readings]))
    have hsorted := hadm'.1.block
    have hfresh : clock'.check ≤ clock'.fresh :=
      (List.pairwise_cons.mp (List.pairwise_cons.mp hsorted).2).1 _ (by simp)
    have hage := (gate_passed_iff.mp hagain).2.2.1
    have hfloor : truncate (clock.check + 300) ≤ truncate clock'.fresh :=
      truncate_mono (by linarith) (by linarith)
    rw [truncate_add_window hcheck] at hfloor
    rw [Post.ageSec] at hage
    omega

end Post

end Runs

section FutureDated

/-- SHA-1 of the sorted texts that two of the requests below are signed over. -/
def tokSha1 : Sha1Hex := fun message =>
  if message = "1000060n1tok".toUTF8.toList then
    CodePoints.ofString "c50ec1f2236f396400bf9b0c7a1c18540c882229"
  else if message = "999999n1tok".toUTF8.toList then
    CodePoints.ofString "28ac6aa7d852054ebb755cb45efa747484795594"
  else []

def tok : CodePoints := CodePoints.ofString "tok"

def ahead : Post where
  signature := CodePoints.ofString "c50ec1f2236f396400bf9b0c7a1c18540c882229"
  timestamp := CodePoints.ofString "1000060"
  nonce := CodePoints.ofString "n1"

def behind : Post where
  signature := CodePoints.ofString "28ac6aa7d852054ebb755cb45efa747484795594"
  timestamp := CodePoints.ofString "999999"
  nonce := CodePoints.ofString "n1"

theorem roomy_of_all {sha1Hex : Sha1Hex} {token : CodePoints} {blocks : List Block}
    (h : ∀ before ∈ blocks.inits, (guardAfter sha1Hex token before).size < nonceCacheSize) :
    Roomy sha1Hex token blocks := fun before hbefore => h before ((List.mem_inits _ _).mpr hbefore)

theorem never_again_behind : NeverAgain tokSha1 tok [] behind ⟨1000000, 1000000, 1000000⟩ :=
  (never_again_iff tokSha1 tok [] behind ⟨1000000, 1000000, 1000000⟩
    ⟨by decide +kernel, roomy_of_all (by decide +kernel)⟩ (by decide +kernel)).mpr
      ⟨by decide, by decide +kernel⟩

/-- Dated a minute ahead, a request passes at 1000000 and once more at 1000301. -/
theorem never_again_ahead : ¬ ∀ (sha1Hex : Sha1Hex) (token : CodePoints) (before : List Block)
    (post : Post) (clock : GateClock), Admissible sha1Hex token (before ++ [.post post clock]) →
      PassesAfter sha1Hex token before post clock →
        NeverAgain sha1Hex token before post clock := by
  intro h
  apply h tokSha1 tok [] ahead ⟨1000000, 1000000, 1000000⟩
    ⟨by decide +kernel, roomy_of_all (by decide +kernel)⟩ (by decide +kernel) []
    ⟨1000301, 1000301, 1000301⟩
  · exact ⟨by decide +kernel, roomy_of_all (by decide +kernel)⟩
  · decide +kernel

end FutureDated

end OpenClaw.WeChat
