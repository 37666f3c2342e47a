import OpenClaw.Audit.RotatedFiles
import OpenClaw.Audit.WrittenLines

/-!
# The log over appends, rotations and restarts

Behind a restart the last hash is read from the end of the newest file. While that end holds the
last line, every write continues the chain, and the files hold an end of what was written.
-/

namespace OpenClaw.Audit

open Foundation
set_option autoImplicit false

/-- A step in the life of the log. -/
inductive ChainStep (φ : Type) where
  | write (entry : AuditEntry φ)
  | restart

section Runs
variable {φ : Type} (rt : Runtime φ) (cfg : SinkConfig)

/-- A restart forgets the last hash. -/
def chainStep (log : AuditLog) : ChainStep φ → AuditLog
  | .write entry => writeAuditEntry rt cfg log entry
  | .restart => { log with lastHash := none }

def runFrom (log : AuditLog) (steps : List (ChainStep φ)) : AuditLog :=
  steps.foldl (chainStep rt cfg) log

def AuditLog.empty : AuditLog := ⟨ChainFiles.empty, none⟩

/-- The entries that the steps write. -/
def entriesOf (steps : List (ChainStep φ)) : List (AuditEntry φ) :=
  steps.filterMap fun
    | .write entry => some entry
    | .restart => none

/-- The last line with its end fits into the window. -/
def TailFits (text : List Char) : Prop :=
  ∀ line ∈ (linesOf isNewline text).getLast?, byteSize line + 1 ≤ tailWindow

instance (text : List Char) : Decidable (TailFits text) :=
  inferInstanceAs (Decidable (∀ line ∈ (linesOf isNewline text).getLast?, _))

/-- The next write will find the last hash: it is at hand, or nothing was written, or the last line
fits into the window and the write does not delete it. -/
def FindsHash (log : AuditLog) : Prop :=
  log.lastHash = none → ∀ text, log.files.text 0 = some text →
    TailFits text ∧ ¬ (cfg.backups = 0 ∧ log.files.rotationDue cfg.maxBytes cfg.backups = true)

def StepMeets (log : AuditLog) : ChainStep φ → Prop
  | .write _ => FindsHash cfg log
  | .restart => True

/-- Every write of the run finds the last hash. -/
def RunMeets : AuditLog → List (ChainStep φ) → Prop
  | _, [] => True
  | log, s :: steps => StepMeets cfg log s ∧ RunMeets (chainStep rt cfg log s) steps

/-! ## What the files hold -/

/-- The lines in the files below number `n`, oldest first. -/
def keptOf (groups : ℕ → Option (List (Written φ))) : ℕ → List (Written φ)
  | 0 => []
  | n + 1 => (groups n).getD [] ++ keptOf groups n

/-- The files hold the groups of lines, and none has a number above `b`. -/
structure Stored (b : ℕ) (fs : ChainFiles) (groups : ℕ → Option (List (Written φ))) : Prop where
  text : ∀ i, fs.text i = (groups i).map (textOf rt)
  above : ∀ i, b < i → groups i = none

/-- The newest file has number `i` and ends with the line. -/
structure Newest (groups : ℕ → Option (List (Written φ))) (w : Written φ) (i : ℕ) : Prop where
  group : ∃ front, groups i = some (front ++ [w])
  below : ∀ j < i, groups j = none

structure ChainInv (b : ℕ) (log : AuditLog) (written lost : List (Written φ))
    (groups : ℕ → Option (List (Written φ))) : Prop where
  stored : Stored rt b log.files groups
  split : written = lost ++ keptOf groups (b + 1)
  linked : Linked (chainHash rt) genesis (written.map Written.link)
  newest : ∀ w ∈ written.getLast?, Newest groups w 0
  start : written = [] → ∀ i, groups i = none
  last : ∀ h ∈ log.lastHash, written ≠ [] ∧ h = terminal genesis (written.map Written.link)

variable {rt cfg}

/-! ## Groups -/

theorem keptOf_succ (groups : ℕ → Option (List (Written φ))) (n : ℕ) :
    keptOf groups (n + 1) = (groups n).getD [] ++ keptOf groups n := rfl

theorem keptOf_append (groups : ℕ → Option (List (Written φ))) (w : Written φ) (n : ℕ) :
    keptOf (Function.update groups 0 (some ((groups 0).getD [] ++ [w]))) (n + 1) =
      keptOf groups (n + 1) ++ [w] := by
  induction n with
  | zero => simp [keptOf]
  | succ n ih =>
    rw [keptOf_succ, ih, keptOf_succ groups (n + 1), Function.update_of_ne (by omega),
      List.append_assoc]

/-- The groups after every file moved up by one, but for the one of number `b`. -/
def movedUp (b : ℕ) (groups : ℕ → Option (List (Written φ))) : ℕ → Option (List (Written φ))
  | 0 => none
  | i + 1 => if i < b then groups i else none

theorem keptOf_movedUp {b n : ℕ} (groups : ℕ → Option (List (Written φ))) (hn : n ≤ b) :
    keptOf (movedUp b groups) (n + 1) = keptOf groups n := by
  induction n with
  | zero => rfl
  | succ n ih =>
    rw [keptOf_succ, ih (by omega), keptOf_succ groups, movedUp, if_pos (by omega)]

theorem stored_movedUp {b : ℕ} {fs fs' : ChainFiles} {groups : ℕ → Option (List (Written φ))}
    (h : Stored rt b fs groups) (hb : 0 < b)
    (hmoved : ChainFiles.MovedUp 0 (b - 1) fs.text fs'.text) :
    Stored rt b fs' (movedUp b groups) := by
  constructor
  · intro i
    cases i with
    | zero => exact hmoved.free
    | succ i =>
      rw [movedUp]
      split
      · rw [hmoved.moved i (by omega) (by omega), h.text]
      · rw [hmoved.above (i + 1) (by omega), h.text, h.above (i + 1) (by omega)]
  · intro i hi
    obtain ⟨j, rfl⟩ : ∃ j, i = j + 1 := ⟨i - 1, by omega⟩
    exact if_neg (by omega)

/-! ## Hashes -/

theorem chainHash_hex {p h : PyStr} {entry : Fields φ} (hh : chainHash rt p entry = some h) :
    ∃ bs, h = PyStr.ofList (hex bs) := by
  obtain ⟨cs, _, rfl⟩ := Option.map_eq_some_iff.mp hh
  exact ⟨_, rfl⟩

/-- No hash is the word that a chain starts from. -/
theorem chainHash_ne_genesis {p h : PyStr} {entry : Fields φ}
    (hh : chainHash rt p entry = some h) : h ≠ genesis := by
  obtain ⟨bs, rfl⟩ := chainHash_hex hh
  intro heq
  have hchars : hex bs = "GENESIS".toList := PyStr.ofList_injective heq
  have hall : ∀ n < 16, 'G' ≠ Json.hexDigit n := by decide
  obtain ⟨n, hn, hG⟩ := hex_digits bs 'G' (by rw [hchars]; decide)
  exact hall n hn hG

/-- The last hash of a chain. -/
theorem terminal_cases {p : PyStr} {links : List (AuditLink φ)}
    (h : Linked (chainHash rt) p links) : (links = [] ∧ terminal p links = p) ∨
      (links ≠ [] ∧ ∃ q entry, chainHash rt q entry = some (terminal p links)) := by
  rcases List.eq_nil_or_concat links with rfl | ⟨front, l, rfl⟩
  · exact Or.inl ⟨rfl, rfl⟩
  · rw [List.concat_eq_append] at h ⊢
    have hl := (linked_singleton.mp (linked_append.mp h).2).2
    rw [terminal_concat]
    exact Or.inr ⟨by simp, _, _, hl⟩

theorem terminal_eq_genesis_iff {links : List (AuditLink φ)}
    (h : Linked (chainHash rt) genesis links) : terminal genesis links = genesis ↔ links = [] := by
  rcases terminal_cases h with ⟨hnil, hterm⟩ | ⟨hne, q, entry, hh⟩
  · exact ⟨fun _ => hnil, fun _ => hterm⟩
  · exact ⟨fun heq => absurd heq (chainHash_ne_genesis hh), fun hnil => absurd hnil hne⟩

/-- The next hash can be computed. -/
theorem chainHash_terminal {links : List (AuditLink φ)} (h : Linked (chainHash rt) genesis links)
    (entry : Fields φ) : ∃ hash, chainHash rt (terminal genesis links) entry = some hash := by
  have hchars : ∃ cs, (terminal genesis links).chars? = some cs := by
    rcases terminal_cases h with ⟨_, hterm⟩ | ⟨_, q, e, hh⟩
    · rw [hterm]
      exact ⟨_, PyStr.chars?_ofList _⟩
    · obtain ⟨bs, hbs⟩ := chainHash_hex hh
      rw [hbs]
      exact ⟨_, PyStr.chars?_ofList _⟩
  obtain ⟨cs, hcs⟩ := hchars
  exact ⟨_, by rw [chainHash, hcs]; rfl⟩

/-! ## Reading the last hash -/

theorem readLast_newest {b i : ℕ} {fs : ChainFiles} {groups : ℕ → Option (List (Written φ))}
    {w : Written φ} (hstored : Stored rt b fs groups) (hnewest : Newest groups w i)
    (hhash : w.hash ≠ []) (hfits : byteSize (w.line rt) ≤ tailWindow) :
    readLastEntryHashFromChain rt fs = .ok w.hash := by
  obtain ⟨front, hgroup⟩ := hnewest.group
  have htext : fs.text i = some (textOf rt (front ++ [w])) := by
    rw [hstored.text, hgroup]
    rfl
  obtain ⟨before, hchain⟩ := ChainFiles.chain_newest htext fun j hj => by
    rw [hstored.text, hnewest.below j hj]
    rfl
  rw [readLastEntryHashFromChain, hchain, List.map_append, List.reverse_append]
  simp only [List.map_cons, List.map_nil, List.reverse_cons, List.reverse_nil, List.nil_append,
    List.cons_append, firstTailHash, tailHash_textOf rt hhash hfits]

theorem readLast_start {fs : ChainFiles} (h : ∀ i, fs.text i = none) :
    readLastEntryHashFromChain rt fs = .ok genesis := by
  have hchain : fs.chain = [] := ChainFiles.collect_of_none (m := 0) (fun i _ => h i) (by omega)
  rw [readLastEntryHashFromChain, hchain]
  rfl

/-- The window holds the last line of a text if the condition on the text says so. -/
theorem fits_of_tailFits {front : List (Written φ)} {w : Written φ}
    (h : TailFits (textOf rt (front ++ [w]))) : byteSize (w.line rt) ≤ tailWindow := by
  have hlines := linesOf_textOf rt (fun c => isNewline_printable) (by decide) (by decide)
    (front ++ [w])
  have hlast := h (w.body rt) (by rw [hlines]; simp)
  rw [line_eq, byteSize_append]
  exact hlast

/-! ## One write -/

/-- The files behind the rotation of a write: what they hold, and that the last hash is found. -/
structure Rotated (rt : Runtime φ) (b : ℕ) (log : AuditLog) (written : List (Written φ))
    (fs : ChainFiles) (lost : List (Written φ)) (groups : ℕ → Option (List (Written φ))) : Prop where
  stored : Stored rt b fs groups
  split : written = lost ++ keptOf groups (b + 1)
  start : written = [] → ∀ i, groups i = none
  found : log.lastHash = none → ∀ w ∈ written.getLast?,
    (∃ i, Newest groups w i) ∧ byteSize (w.line rt) ≤ tailWindow

section Write
variable {log : AuditLog} {written lost : List (Written φ)}
  {groups : ℕ → Option (List (Written φ))}

theorem rotated_write (h : ChainInv rt cfg.backups.toNat log written lost groups)
    (hfinds : FindsHash cfg log) : ∃ lost' groups', Rotated rt cfg.backups.toNat log written
      (log.files.rotateIfNeeded cfg.maxBytes cfg.backups) lost' groups' := by
  have hactive : ∀ w ∈ written.getLast?, ∃ front, groups 0 = some (front ++ [w]) ∧
      log.files.text 0 = some (textOf rt (front ++ [w])) := by
    intro w hw
    obtain ⟨front, hfront⟩ := (h.newest w hw).group
    refine ⟨front, hfront, ?_⟩
    rw [h.stored.text, hfront]
    rfl
  have hfits : log.lastHash = none → ∀ w ∈ written.getLast?, byteSize (w.line rt) ≤ tailWindow := by
    intro hnone w hw
    obtain ⟨front, _, htext⟩ := hactive w hw
    exact fits_of_tailFits (hfinds hnone _ htext).1
  by_cases hdue : log.files.rotationDue cfg.maxBytes cfg.backups = true
  · obtain ⟨t, ht⟩ := ChainFiles.active_of_due hdue
    have hne : written ≠ [] := by
      intro hnil
      rw [h.stored.text, h.start hnil 0] at ht
      cases ht
    rcases Int.lt_trichotomy cfg.backups 0 with hneg | hzero | hpos
    · simp only [ChainFiles.rotationDue, Bool.and_eq_true, decide_eq_true_eq] at hdue
      omega
    · -- without backups the active file is removed
      have hb : cfg.backups.toNat = 0 := by omega
      refine ⟨written, fun _ => none, ⟨⟨fun i => ?_, fun _ _ => rfl⟩, ?_, fun _ _ => rfl, ?_⟩⟩
      · rw [ChainFiles.rotateIfNeeded, if_pos hdue, if_pos hzero, ChainFiles.text_remove]
        rcases Nat.eq_zero_or_pos i with rfl | hi
        · exact Function.update_self ..
        · rw [Function.update_of_ne (by omega), h.stored.text, h.stored.above i (by omega)]
      · rw [hb]
        simp [keptOf]
      · intro hnone w hw
        obtain ⟨front, _, htext⟩ := hactive w hw
        exact absurd ⟨hzero, hdue⟩ (hfinds hnone _ htext).2
    · have hb : 0 < cfg.backups.toNat := by omega
      refine ⟨lost ++ (groups cfg.backups.toNat).getD [], movedUp cfg.backups.toNat groups,
        ⟨stored_movedUp h.stored hb (ChainFiles.rotate_text hdue hpos), ?_,
          fun hnil => absurd hnil hne, ?_⟩⟩
      · rw [keptOf_movedUp groups le_rfl, List.append_assoc, ← keptOf_succ]
        exact h.split
      · intro hnone w hw
        obtain ⟨front, hfront, _⟩ := hactive w hw
        refine ⟨⟨1, ⟨front, ?_⟩, fun j hj => ?_⟩, hfits hnone w hw⟩
        · rw [movedUp, if_pos hb, hfront]
        · obtain rfl : j = 0 := by omega
          rfl
  · refine ⟨lost, groups, ⟨?_, h.split, h.start, fun hnone w hw =>
      ⟨⟨0, h.newest w hw⟩, hfits hnone w hw⟩⟩⟩
    rw [ChainFiles.rotateIfNeeded, if_neg hdue]
    exact h.stored

/-- Behind the rotation the last hash is at hand, or it is read from the newest file. -/
theorem prev_rotated {b : ℕ} {fs : ChainFiles} {lost' : List (Written φ)}
    {groups' : ℕ → Option (List (Written φ))} (h : ChainInv rt b log written lost groups)
    (hrot : Rotated rt b log written fs lost' groups') :
    (terminal genesis (written.map Written.link) ≠ [] ∧
      log.lastHash = some (terminal genesis (written.map Written.link))) ∨
      (log.lastHash = none ∧
        readLastEntryHashFromChain rt fs = .ok (terminal genesis (written.map Written.link))) := by
  cases hlast : log.lastHash with
  | some hash =>
    obtain ⟨hne, rfl⟩ := h.last hash hlast
    rcases terminal_cases h.linked with ⟨hnil, _⟩ | ⟨_, q, entry, hh⟩
    · exact absurd (List.map_eq_nil_iff.mp hnil) hne
    · exact Or.inl ⟨chainHash_ne_nil hh, rfl⟩
  | none =>
    refine Or.inr ⟨rfl, ?_⟩
    rcases List.eq_nil_or_concat written with hnil | ⟨front, w, hwritten⟩
    · have hstart : ∀ i, fs.text i = none := by
        intro i
        rw [hrot.stored.text, hrot.start hnil i]
        rfl
      rw [readLast_start hstart, hnil]
      rfl
    · rw [List.concat_eq_append] at hwritten
      obtain ⟨⟨i, hnewest⟩, hfits⟩ := hrot.found hlast w (by rw [hwritten]; simp)
      have hterm : terminal genesis (written.map Written.link) = w.hash := by
        rw [hwritten, List.map_append]
        exact terminal_concat _ _ _
      have hhash : w.hash ≠ [] := by
        rcases terminal_cases h.linked with ⟨hnil, _⟩ | ⟨_, q, entry, hh⟩
        · rw [hwritten] at hnil
          simp at hnil
        · rw [hterm] at hh
          exact chainHash_ne_nil hh
      rw [readLast_newest hrot.stored hnewest hhash hfits, hterm]

/-- A write that finds the last hash continues the chain. -/
theorem inv_write (h : ChainInv rt cfg.backups.toNat log written lost groups)
    (hfinds : FindsHash cfg log) (entry : AuditEntry φ) : ∃ w lost' groups', w.entry = entry ∧
      ChainInv rt cfg.backups.toNat (writeAuditEntry rt cfg log entry) (written ++ [w]) lost'
        groups' := by
  obtain ⟨lost', groups', hrot⟩ := rotated_write h hfinds
  obtain ⟨hash, hhash⟩ := chainHash_terminal h.linked entry.fields
  have happend : appendEntry rt cfg log.files entry log.lastHash =
      ((log.files.rotateIfNeeded cfg.maxBytes cfg.backups).append (lineOf rt entry.fields
        (terminal genesis (written.map Written.link)) hash), .ok hash) := by
    rcases prev_rotated h hrot with ⟨hne, hlast⟩ | ⟨hlast, hread⟩
    · simp only [appendEntry, hlast, if_neg hne, hhash]
    · simp only [appendEntry, hlast, hread, hhash]
  refine ⟨⟨entry, terminal genesis (written.map Written.link), hash⟩, lost',
    Function.update groups' 0 (some ((groups' 0).getD [] ++
      [⟨entry, terminal genesis (written.map Written.link), hash⟩])), rfl, ?_⟩
  rw [writeAuditEntry, happend]
  refine ⟨⟨fun i => ?_, fun i hi => ?_⟩, ?_, ?_, fun w hw => ?_, by simp, fun h' hh' => ?_⟩
  · rcases Nat.eq_zero_or_pos i with rfl | hi
    · rw [Function.update_self]
      show some _ = some _
      rw [hrot.stored.text]
      cases groups' 0 <;> simp [textOf, Written.line]
    · show Function.update _ _ _ i = _
      rw [Function.update_of_ne (by omega), Function.update_of_ne (by omega), hrot.stored.text]
  · rw [Function.update_of_ne (by omega)]
    exact hrot.stored.above i hi
  · rw [keptOf_append, ← List.append_assoc, ← hrot.split]
  · rw [List.map_append, linked_append]
    refine ⟨h.linked, linked_singleton.mpr ⟨rfl, ?_⟩⟩
    rw [chainHash_written]
    exact hhash
  · rw [List.getLast?_concat] at hw
    cases hw
    exact ⟨⟨_, Function.update_self ..⟩, fun j hj => by omega⟩
  · cases hh'
    refine ⟨by simp, ?_⟩
    rw [List.map_append, List.map_singleton, terminal_concat]
    rfl

end Write

end Runs

end OpenClaw.Audit
