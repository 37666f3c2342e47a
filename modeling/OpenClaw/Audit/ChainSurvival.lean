import OpenClaw.Audit.ChainRuns

/-!
# The log is verified after every run

The invariant of a run is what `verify_audit_chain` checks. A run in which a write does not find the
last hash can leave a log that is refused, or one that hides what was lost.
-/

namespace OpenClaw.Audit

open Foundation
set_option autoImplicit false

section Survival
variable {φ : Type} {rt : Runtime φ} {cfg : SinkConfig}

/-! ## Runs -/

theorem inv_empty (b : ℕ) : ChainInv rt b AuditLog.empty [] [] fun _ => none where
  stored := ⟨fun _ => rfl, fun _ _ => rfl⟩
  split := by
    induction b with
    | zero => rfl
    | succ b ih => exact ih
  linked := trivial
  newest w hw := by cases hw
  start _ _ := rfl
  last h hh := by cases hh

theorem inv_restart {b : ℕ} {log : AuditLog} {written lost : List (Written φ)}
    {groups : ℕ → Option (List (Written φ))} (h : ChainInv rt b log written lost groups) :
    ChainInv rt b { log with lastHash := none } written lost groups where
  stored := h.stored
  split := h.split
  linked := h.linked
  newest := h.newest
  start := h.start
  last h hh := by cases hh

/-- Every state of a run whose writes find the last hash satisfies the invariant. -/
theorem inv_run {log : AuditLog} {written lost : List (Written φ)}
    {groups : ℕ → Option (List (Written φ))}
    (h : ChainInv rt cfg.backups.toNat log written lost groups) {steps : List (ChainStep φ)}
    (hmeets : RunMeets rt cfg log steps) : ∃ written' lost' groups',
      written'.map Written.entry = written.map Written.entry ++ entriesOf steps ∧
        ChainInv rt cfg.backups.toNat (runFrom rt cfg log steps) written' lost' groups' := by
  induction steps generalizing log written lost groups with
  | nil => exact ⟨written, lost, groups, (List.append_nil _).symm, h⟩
  | cons s steps ih =>
    obtain ⟨hs, hrest⟩ := hmeets
    cases s with
    | write entry =>
      obtain ⟨w, lost', groups', rfl, h'⟩ := inv_write h hs entry
      obtain ⟨written', lost'', groups'', hentries, h''⟩ := ih h' hrest
      refine ⟨written', lost'', groups'', ?_, h''⟩
      rw [hentries, List.map_append, List.append_assoc]
      rfl
    | restart => exact ih (inv_restart h) hrest

/-! ## What the verifier reads -/

theorem chainLines_raw (files : List (String × List Char)) :
    (chainLines files).map (fun l => l.2.2) = files.flatMap fun f => linesOf isNewline f.2 := by
  unfold chainLines
  rw [List.map_flatMap]
  congr 1
  funext f
  rw [List.map_map]
  exact List.zipIdx_map_fst 1 _

/-- The lines of the files are the lines that are kept. -/
theorem raw_of_stored {b : ℕ} {fs : ChainFiles} {groups : ℕ → Option (List (Written φ))}
    (h : Stored rt b fs groups) (basePath : String) :
    (chainLines (fs.named basePath)).map (fun l => l.2.2) =
      (keptOf groups (b + 1)).map (·.body rt) := by
  have hlines := fun ws => linesOf_textOf rt (fun c => isNewline_printable) (by decide) (by decide) ws
  have hcollect : ∀ n, (ChainFiles.collect fs.text n).flatMap (fun f => linesOf isNewline f.2) =
      (keptOf groups n).map (·.body rt) := by
    intro n
    induction n with
    | zero => rfl
    | succ n ih =>
      rw [ChainFiles.collect, List.flatMap_append, ih, keptOf_succ, List.map_append, h.text n]
      cases groups n with
      | none => rfl
      | some g => simp [hlines]
  have hchain : fs.chain = ChainFiles.collect fs.text (b + 1) := ChainFiles.chain_eq fun i hi => by
    rw [h.text, h.above i hi]
    rfl
  rw [chainLines_raw, ← hcollect, ← hchain, ChainFiles.named, List.flatMap_map]

section Verify
variable {b : ℕ} {log : AuditLog} {written lost : List (Written φ)}
  {groups : ℕ → Option (List (Written φ))} (h : ChainInv rt b log written lost groups)
include h

theorem kept_ne_nil (hne : written ≠ []) : keptOf groups (b + 1) ≠ [] := by
  obtain ⟨front, w, rfl⟩ := (List.eq_nil_or_concat written).resolve_left hne
  obtain ⟨before, hgroup⟩ := (h.newest w (by simp)).group
  have hzero : ∀ n, keptOf groups (n + 1) ≠ [] := by
    intro n
    induction n with
    | zero => simp [keptOf, hgroup]
    | succ n ih =>
      rw [keptOf_succ]
      simp [ih]
  exact hzero b

/-- The entries in the files are the ones that are kept, in the order of their writing. -/
theorem entries_kept (basePath : String) : List.Forall₂
    (fun wrapped (w : Written φ) => SameEntry (dropHashes wrapped) w.entry.fields)
    (chainEntries rt (log.files.named basePath)) (keptOf groups (b + 1)) := by
  have hraw := raw_of_stored h.stored basePath
  have hentries : chainEntries rt (log.files.named basePath) =
      (keptOf groups (b + 1)).map Written.fields := by
    have hmap : chainEntries rt (log.files.named basePath) =
        ((chainLines (log.files.named basePath)).map fun l => l.2.2).filterMap (entryOf? rt) := by
      rw [List.filterMap_map]
      rfl
    rw [hmap, hraw, List.filterMap_map]
    have hbody : entryOf? rt ∘ (fun w : Written φ => w.body rt) = some ∘ Written.fields :=
      funext fun w => entryOf?_body rt w
    rw [hbody, List.filterMap_eq_map]
  rw [hentries, List.forall₂_map_left_iff, List.forall₂_same]
  exact fun w _ => sameEntry_written w

/-- The verifier accepts the files, and its answer is that of the lines that are kept. -/
theorem verify_kept (hne : written ≠ []) (basePath : String) : ∃ paths,
    verifyAuditChain rt basePath (log.files.named basePath) =
      .ok ((((keptOf groups (b + 1)).map Written.link).foldl VerifyState.advance {}).result true
        paths []) := by
  have hraw := raw_of_stored h.stored basePath
  have hnonempty : log.files.named basePath ≠ [] := by
    intro hnil
    rw [hnil] at hraw
    exact kept_ne_nil h hne (List.map_eq_nil_iff.mp hraw.symm)
  refine ⟨(log.files.named basePath).map Prod.fst, ?_⟩
  rw [verifyAuditChain, if_neg hnonempty]
  apply verifyLines_holds
  · rw [List.forall₂_map_right_iff]
    have hsame : List.Forall₂ (fun raw (w : Written φ) => raw = w.body rt)
        ((chainLines (log.files.named basePath)).map fun l => l.2.2) (keptOf groups (b + 1)) := by
      rw [hraw, List.forall₂_map_left_iff, List.forall₂_same]
      exact fun _ _ => rfl
    rw [List.forall₂_map_left_iff] at hsame
    refine hsame.imp fun l w hl => ⟨w.fields, ?_, written_holds w⟩
    rw [hl]
    exact entryOf?_body rt w
  · have hlinked := h.linked
    rw [h.split, List.map_append, linked_append] at hlinked
    exact ⟨_, by simp, hlinked.2⟩

/-- The window is truncated if and only if something was lost. -/
theorem truncated_kept (hne : written ≠ []) (paths : List String) :
    ((((keptOf groups (b + 1)).map Written.link).foldl VerifyState.advance {}).result true paths
      []).windowTruncated = true ↔ lost ≠ [] := by
  have hlinked := h.linked
  rw [h.split, List.map_append, linked_append] at hlinked
  cases hkept : keptOf groups (b + 1) with
  | nil => exact absurd hkept (kept_ne_nil h hne)
  | cons w kept =>
    have hprev : w.link.prev = terminal genesis (lost.map Written.link) := by
      have hcons := hlinked.2
      rw [hkept] at hcons
      exact hcons.1
    simp only [VerifyState.result, decide_eq_true_eq]
    rw [List.map_cons, windowStart_advance rfl, hprev, ne_eq, terminal_eq_genesis_iff hlinked.1,
      List.map_eq_nil_iff]

end Verify

/-- After every run in which each write finds the last hash and at least one entry was written, the
verifier accepts the files. They hold an end of what was written, all of which is counted, and a
truncated window is reported if and only if an entry is missing. -/
theorem chain_survives {steps : List (ChainStep φ)}
    (hmeets : RunMeets rt cfg AuditLog.empty steps) (hwritten : entriesOf steps ≠ [])
    (basePath : String) : ∃ lost kept r, entriesOf steps = lost ++ kept ∧
      List.Forall₂ (fun wrapped (entry : AuditEntry φ) => SameEntry (dropHashes wrapped) entry.fields)
        (chainEntries rt ((runFrom rt cfg AuditLog.empty steps).files.named basePath)) kept ∧
      verifyAuditChain rt basePath ((runFrom rt cfg AuditLog.empty steps).files.named basePath) =
        .ok r ∧
      r.ok = true ∧ r.issues = [] ∧ r.entriesChecked = kept.length ∧
      (r.windowTruncated = true ↔ lost ≠ []) := by
  obtain ⟨written, lost, groups, hentries, h⟩ := inv_run (inv_empty cfg.backups.toNat) hmeets
  rw [List.map_nil, List.nil_append] at hentries
  have hne : written ≠ [] := by
    rintro rfl
    exact hwritten hentries.symm
  obtain ⟨paths, hverify⟩ := verify_kept h hne basePath
  refine ⟨lost.map Written.entry, (keptOf groups (cfg.backups.toNat + 1)).map Written.entry, _, ?_, ?_,
    hverify, rfl, rfl, ?_, ?_⟩
  · rw [← hentries, h.split, List.map_append]
  · rw [List.forall₂_map_right_iff]
    exact entries_kept h basePath
  · rw [VerifyState.result, entriesChecked_advance, List.length_map, List.length_map, Nat.zero_add]
  · rw [truncated_kept h hne paths, ne_eq, ne_eq, List.map_eq_nil_iff]

end Survival

/-! ## A restart behind an active file that is removed -/

/-- `hmac.digest` under a key of 32 zeros on the second message of the demo run. -/
def demoSecondDigest : List UInt8 :=
  [60, 48, 101, 237, 209, 67, 25, 203, 137, 199, 217, 185, 242, 92, 135, 112, 111, 153, 229, 28, 215,
    240, 22, 179, 240, 206, 218, 130, 30, 152, 147, 110]

def demoSecondMessage : List UInt8 :=
  utf8 (demoHash ++ "|\x7b\"action\":\"config.update\"\x7d").toList

def demoRunRuntime : Runtime Unit where
  floats := demoRuntime.floats
  decodeError := demoRuntime.decodeError
  digest message :=
    if message = demoSecondMessage then demoSecondDigest else demoRuntime.digest message
  digest_ne_nil message := by
    split
    · decide
    · exact demoRuntime.digest_ne_nil message

def demoEntry : AuditEntry Unit where
  fields := [(PyStr.ofString "action", .str (PyStr.ofString "config.update"))]
  valid := .obj (by simp) (by
    intro f hf
    rw [List.mem_singleton.mp hf]
    exact .str _)
  plain := by simp

def demoSteps : List (ChainStep Unit) := [.write demoEntry, .restart, .write demoEntry]

/-- With one backup the second write rotates the first line away and continues from it. -/
theorem demoSteps_meets : RunMeets demoRunRuntime ⟨64, 1⟩ AuditLog.empty demoSteps := by
  refine ⟨?_, trivial, ?_, trivial⟩
  · intro _ text h
    cases h
  · intro _ text h
    have hfits : ((chainStep demoRunRuntime ⟨64, 1⟩ AuditLog.empty
        (.write demoEntry)).files.text 0).all (fun text => decide (TailFits text)) = true := by
      decide +kernel
    rw [show (chainStep demoRunRuntime ⟨64, 1⟩ AuditLog.empty (.write demoEntry)).files.text 0 =
      some text from h] at hfits
    exact ⟨of_decide_eq_true hfits, fun hzero => absurd hzero.1 (by decide)⟩

theorem chain_survives_rotated : ∃ lost kept r, entriesOf demoSteps = lost ++ kept ∧
    List.Forall₂
      (fun wrapped (entry : AuditEntry Unit) => SameEntry (dropHashes wrapped) entry.fields)
      (chainEntries demoRunRuntime
        ((runFrom demoRunRuntime ⟨64, 1⟩ AuditLog.empty demoSteps).files.named "audit.log")) kept ∧
    verifyAuditChain demoRunRuntime "audit.log"
      ((runFrom demoRunRuntime ⟨64, 1⟩ AuditLog.empty demoSteps).files.named "audit.log") = .ok r ∧
    r.ok = true ∧ r.issues = [] ∧ r.entriesChecked = kept.length ∧
    (r.windowTruncated = true ↔ lost ≠ []) :=
  chain_survives demoSteps_meets (by simp [entriesOf, demoSteps]) "audit.log"

/-- Without backups the active file is removed before its tail is read: the second line starts a new
chain, and the log is accepted as complete. -/
theorem removed_line_hidden : ∃ r, (entriesOf demoSteps).length = 2 ∧
    verifyAuditChain demoRuntime "audit.log"
      ((runFrom demoRuntime ⟨64, 0⟩ AuditLog.empty demoSteps).files.named "audit.log") = .ok r ∧
    r.ok = true ∧ r.entriesChecked = 1 ∧ r.windowTruncated = false :=
  ⟨demoAnswer ["audit.log"], rfl, by decide +kernel, rfl, rfl, rfl⟩

end OpenClaw.Audit
