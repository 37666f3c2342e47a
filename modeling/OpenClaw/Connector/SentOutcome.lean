import OpenClaw.Connector.ResultsPoller

/-!
# What the outcome "sent" says

The poller logs its failures and goes on, so the worker hears of them only when they raise. The
outcome "sent" is right exactly when one of the calls that the poller gets to completes.
-/

namespace OpenClaw.Connector

open Foundation
set_option autoImplicit false

section Sends
variable {φ : Type} (py : PyInterpreter φ) (cfg : PollerConfig) (calls : PlatformCalls)
variable (loaded : Bool) (context : Fields φ)

/-- Text `n` is suppressed, or there is a platform that it can be sent to. -/
def TextDone (n : ℕ) : Prop :=
  (decideReplyVisibility py context).1 = true ∨ loaded = true ∧ calls.text n = true

/-- Image `n` is there and sent, or the text in its place is. -/
def ImageDone (n : ℕ) : Prop :=
  ∃ bytes, calls.fetch n = .content bytes ∧ bytes ≠ 0 ∧
    ((bytes : ℤ) ≤ cfg.deliveryMaxBytes ∧ calls.image n = true ∨ TextDone py calls loaded context n)

/-- The turn for image `n` raises. -/
def Broken (n : ℕ) (image : Json φ) : Prop :=
  (∀ info, image ≠ .obj info) ∨ calls.fetch n = .raised

/-- One of the calls about the results completes, or reading the results raises. -/
def ResultsDone (job : Fields φ) : Prop :=
  let outputs := (entry "outputs" job).getD (.obj [])
  if outputs.truthy py then
    match imagesOf outputs with
    | none => True
    | some [] => TextDone py calls loaded context 0
    | some images => loaded = true ∧ ∃ n image,
        (sliceTo cfg.deliveryMaxImages images)[n]? = some image ∧
          (Broken calls n image ∨ ImageDone py cfg calls loaded context n)
  else
    TextDone py calls loaded context 0

variable {py cfg calls loaded context}

variable (py calls loaded context) in
theorem sendText_done_iff (text : PyStr) (n : ℕ) :
    (∃ s ∈ sendText py calls loaded context text n, s.done = true) ↔
      TextDone py calls loaded context n := by
  unfold sendText TextDone
  cases hd : decideReplyVisibility py context with
  | mk suppressed reason =>
    cases suppressed with
    | true => simp [PlatformSend.done]
    | false => cases loaded <;> simp [PlatformSend.done]

variable (py cfg calls loaded context) in
theorem deliverImage_none_iff (n : ℕ) (image : Json φ) :
    deliverImage py cfg calls loaded context n image = none ↔ Broken calls n image := by
  unfold deliverImage Broken
  cases image with
  | obj info =>
    cases hf : calls.fetch n with
    | raised => simp
    | nothing => simp
    | content bytes =>
      simp only
      repeat' split
      all_goals simp
  | _ => simp

theorem deliverImage_done_iff {n : ℕ} {image : Json φ} {sends : List (PlatformSend φ)}
    (h : deliverImage py cfg calls loaded context n image = some sends) :
    (∃ s ∈ sends, s.done = true) ↔ ImageDone py cfg calls loaded context n := by
  unfold deliverImage at h
  split at h
  · rename_i info
    cases hf : calls.fetch n with
    | raised =>
      rw [hf] at h
      cases h
    | nothing =>
      rw [hf] at h
      cases h
      simp [ImageDone, hf]
    | content bytes =>
      rw [hf] at h
      simp only at h
      have hdone : ImageDone py cfg calls loaded context n ↔ bytes ≠ 0 ∧
          ((bytes : ℤ) ≤ cfg.deliveryMaxBytes ∧ calls.image n = true ∨
            TextDone py calls loaded context n) := by
        simp [ImageDone, hf]
      rw [hdone]
      split at h
      · rename_i hzero
        cases h
        simp [hzero]
      · rename_i hzero
        split at h
        · rename_i hlarge
          cases h
          rw [sendText_done_iff]
          have : ¬(bytes : ℤ) ≤ cfg.deliveryMaxBytes := not_le.mpr hlarge
          simp [hzero, this]
        · rename_i hlarge
          have hfits : (bytes : ℤ) ≤ cfg.deliveryMaxBytes := not_lt.mp hlarge
          split at h
          · rename_i himage
            cases h
            simp [PlatformSend.done, hzero, hfits, himage]
          · rename_i himage
            cases h
            have hrest := sendText_done_iff py calls loaded context
              (PyStr.ofString "⚠️ Failed to send image: " ++
                ((entry "filename" info).getD .null).toStr py) n
            simp only [List.mem_cons, exists_eq_or_imp, hrest]
            simp [PlatformSend.done, hzero, himage]
  · cases h

variable (py cfg calls loaded context) in
/-- The loop raises or gets something done exactly when the turn for one of the images does. -/
theorem deliverImages_done_iff (n : ℕ) (images : List (Json φ)) :
    ((deliverImages py cfg calls loaded context n images).2 = true ∨
        ∃ s ∈ (deliverImages py cfg calls loaded context n images).1, s.done = true) ↔
      ∃ i image, images[i]? = some image ∧
        (Broken calls (n + i) image ∨ ImageDone py cfg calls loaded context (n + i)) := by
  induction images generalizing n with
  | nil => simp [deliverImages]
  | cons image rest ih =>
    have hsplit : (∃ i image', (image :: rest)[i]? = some image' ∧
        (Broken calls (n + i) image' ∨ ImageDone py cfg calls loaded context (n + i))) ↔
          (Broken calls n image ∨ ImageDone py cfg calls loaded context n) ∨
            ∃ i image', rest[i]? = some image' ∧ (Broken calls (n + 1 + i) image' ∨
              ImageDone py cfg calls loaded context (n + 1 + i)) := by
      constructor
      · rintro ⟨i, image', himage, h⟩
        cases i with
        | zero =>
          cases himage
          exact .inl h
        | succ i =>
          rw [Nat.add_comm i 1, ← Nat.add_assoc] at h
          exact .inr ⟨i, image', himage, h⟩
      · rintro (h | ⟨i, image', himage, h⟩)
        · exact ⟨0, image, rfl, h⟩
        · refine ⟨i + 1, image', himage, ?_⟩
          rwa [Nat.add_comm i 1, ← Nat.add_assoc]
    rw [hsplit, ← ih (n + 1), deliverImages]
    cases himage : deliverImage py cfg calls loaded context n image with
    | none =>
      have hbroken := (deliverImage_none_iff py cfg calls loaded context n image).mp himage
      simp [hbroken]
    | some sends =>
      have hnot : ¬Broken calls n image := by
        rw [← deliverImage_none_iff py cfg calls loaded context, himage]
        nofun
      simp only [List.mem_append, or_and_right, exists_or, deliverImage_done_iff himage, hnot,
        false_or]
      tauto

theorem deliverResults_done_iff (promptId : PyStr) (job : Fields φ) :
    ((deliverResults py cfg calls loaded context promptId job).2 = true ∨
        ∃ s ∈ (deliverResults py cfg calls loaded context promptId job).1, s.done = true) ↔
      ResultsDone py cfg calls loaded context job := by
  unfold deliverResults ResultsDone
  simp only
  split
  · cases himages : imagesOf ((entry "outputs" job).getD (.obj [])) with
    | none => simp
    | some images =>
      cases images with
      | nil => simp only [sendText_done_iff, Bool.false_eq_true, false_or]
      | cons image rest =>
        cases loaded with
        | false => simp
        | true =>
          have hloop := deliverImages_done_iff py cfg calls true context 0
            (sliceTo cfg.deliveryMaxImages (image :: rest))
          simp only [Nat.zero_add] at hloop
          simpa using hloop
  · simp only [sendText_done_iff, Bool.false_eq_true, false_or]

end Sends

section Outcome
variable {φ : Type} (py : PyInterpreter φ) (cfg : WorkerConfig) (calls : PlatformCalls)

/-- If the worker acknowledges the item as sent, a call for it has completed. -/
def SentMeansSent (item : Fields φ) (job : Option (Fields φ)) : Prop :=
  (runItem py cfg calls item job).2.1 = outcomeSent →
    ∃ s ∈ (runItem py cfg calls item job).1, s.done = true

/-- The item names a target that the worker may send to, and a job. -/
def Reachable (item : Fields φ) : Prop :=
  let t := targetOf py item
  t.platformName ∈ cfg.platforms ∧ t.targetId ≠ [] ∧ t.promptId ≠ [] ∧
    cfg.targetAllowed t.platformName t.targetId = true

variable {py cfg calls} {item : Fields φ}

theorem undeliverable_ne_sent : outcomeUndeliverable ≠ outcomeSent := by decide

/-- The outcome is "sent" only for a finished job of a reachable target. -/
theorem finished_of_sent {job : Option (Fields φ)}
    (h : (runItem py cfg calls item job).2.1 = outcomeSent) :
    Reachable py cfg item ∧ ∃ j, job = some j ∧ jobHasFailed j = false := by
  unfold runItem deliverItem at h
  simp only at h
  split at h
  · exact absurd h undeliverable_ne_sent
  · rename_i hknown
    split at h
    · exact absurd h undeliverable_ne_sent
    · rename_i hallowed
      simp only [not_or, not_not] at hknown
      refine ⟨⟨hknown.1, hknown.2.1, hknown.2.2, by simpa using hallowed⟩, ?_⟩
      cases job with
      | none => exact absurd h (by simp only [Option.getD_some]; decide)
      | some j =>
        refine ⟨j, rfl, ?_⟩
        cases hfailed : jobHasFailed j with
        | false => rfl
        | true =>
          simp only [hfailed, if_true, Option.getD_some] at h
          exact absurd h (by decide)

variable (calls) in
theorem runItem_finished {j : Fields φ} (hreach : Reachable py cfg item)
    (hjob : jobHasFailed j = false) :
    ∃ r, deliverResults py cfg.toPollerConfig calls
        (decide ((targetOf py item).platformName ∈ cfg.pollerPlatforms))
        (contextOf (targetOf py item).delivery) (targetOf py item).promptId j = r ∧
      runItem py cfg calls item (some j) = (r.1,
        if r.2 then (outcomeUndeliverable, some reasonConnectorError) else (outcomeSent, none)) := by
  obtain ⟨hplatform, htarget, hprompt, hallowed⟩ := hreach
  refine ⟨_, rfl, ?_⟩
  have hknown : ¬((targetOf py item).platformName ∉ cfg.platforms ∨
      (targetOf py item).targetId = [] ∨ (targetOf py item).promptId = []) := by
    simp [hplatform, htarget, hprompt]
  simp only [runItem, deliverItem, if_neg hknown, hallowed, hjob, Bool.true_eq_false,
    Bool.false_eq_true, if_false]
  split <;> rfl

variable (py cfg calls item) in
/-- The outcome "sent" means that something was sent exactly when, for a finished job of a
reachable target, one of the calls about its results completes. -/
theorem sent_means_sent_iff (job : Option (Fields φ)) :
    SentMeansSent py cfg calls item job ↔
      ∀ j, job = some j → Reachable py cfg item → jobHasFailed j = false →
        ResultsDone py cfg.toPollerConfig calls
          (decide ((targetOf py item).platformName ∈ cfg.pollerPlatforms))
          (contextOf (targetOf py item).delivery) j := by
  constructor
  · intro h j hj hreach hok
    obtain ⟨r, hr, hrun⟩ := runItem_finished calls hreach hok
    rw [SentMeansSent, hj, hrun] at h
    rw [← deliverResults_done_iff (targetOf py item).promptId, hr]
    cases hraised : r.2 with
    | true => exact .inl rfl
    | false =>
      rw [hraised] at h
      exact .inr (h rfl)
  · intro h hsent
    obtain ⟨hreach, j, hj, hok⟩ := finished_of_sent hsent
    have hdone := h j hj hreach hok
    obtain ⟨r, hr, hrun⟩ := runItem_finished calls hreach hok
    rw [← deliverResults_done_iff (targetOf py item).promptId, hr] at hdone
    rw [hj, hrun] at hsent ⊢
    rcases hdone with hraised | hdone
    · rw [hraised] at hsent
      exact absurd hsent undeliverable_ne_sent
    · exact hdone

end Outcome

/-! ## A job whose image cannot be downloaded -/

def readyItem : Fields Unit :=
  [(PyStr.ofString "run_id", .str (PyStr.ofString "run_1")),
    (PyStr.ofString "prompt_id", .str (PyStr.ofString "prompt_1")),
    (PyStr.ofString "delivery", .obj [
      (PyStr.ofString "platform", .str (PyStr.ofString "telegram")),
      (PyStr.ofString "target_id", .str (PyStr.ofString "-1001234567890"))])]

def imageJob : Fields Unit :=
  [(PyStr.ofString "outputs", .obj [(PyStr.ofString "9", .obj [
    (PyStr.ofString "images", .arr [.obj [
      (PyStr.ofString "filename", .str (PyStr.ofString "probe.png"))]])])])]

def telegramWorker : WorkerConfig where
  deliveryMaxImages := 4
  deliveryMaxBytes := 10000000
  platforms := [PyStr.ofString "telegram"]
  pollerPlatforms := [PyStr.ofString "telegram"]

/-- The download fails, everything else would work. -/
def lostImage : PlatformCalls := ⟨fun _ => .nothing, fun _ => true, fun _ => true⟩

def stdInterpreter : PyInterpreter Unit := ⟨fun _ => true, fun _ => [], fun _ => [], id⟩

/-- The worker acknowledges as sent what was never handed to the platform. -/
theorem nothing_sent : ¬SentMeansSent stdInterpreter telegramWorker lostImage readyItem
    (some imageJob) := by
  intro h
  have hrun : (runItem stdInterpreter telegramWorker lostImage readyItem (some imageJob)).1 = [] ∧
      (runItem stdInterpreter telegramWorker lostImage readyItem (some imageJob)).2.1 =
        outcomeSent := by decide +kernel
  obtain ⟨s, hs, -⟩ := h hrun.2
  rw [hrun.1] at hs
  cases hs

end OpenClaw.Connector
