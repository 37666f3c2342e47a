import OpenClaw.Audit.AuditPipeline

/-!
# Rotation

What `rotate_if_needed` makes of the numbered files: every file moves up by one, the one with the
highest number is dropped, and there is no active file any more.
-/

namespace OpenClaw.Audit.ChainFiles

open Foundation
set_option autoImplicit false

/-! ## The chain of files -/

section Collect
variable {text : ℕ → Option (List Char)}

theorem collect_of_none {m n : ℕ} (h : ∀ i, m ≤ i → text i = none) (hmn : m ≤ n) :
    collect text n = collect text m := by
  induction n with
  | zero =>
    obtain rfl : m = 0 := by omega
    rfl
  | succ n ih =>
    rcases Nat.lt_or_ge n m with hn | hn
    · obtain rfl : m = n + 1 := by omega
      rfl
    · rw [collect, h n hn, ih hn]
      rfl

/-- The newest file comes last. -/
theorem collect_newest {i n : ℕ} {t : List Char} (h : text i = some t)
    (hbelow : ∀ j < i, text j = none) (hin : i < n) : ∃ front, collect text n = front ++ [(i, t)] := by
  induction n with
  | zero => omega
  | succ n ih =>
    rcases Nat.lt_or_ge i n with hn | hn
    · obtain ⟨front, hfront⟩ := ih hn
      exact ⟨_, by rw [collect, hfront, ← List.append_assoc]⟩
    · obtain rfl : n = i := by omega
      have hempty : ∀ m ≤ n, collect text m = [] := by
        intro m hm
        induction m with
        | zero => rfl
        | succ m ihm =>
          rw [collect, hbelow m (by omega), ihm (by omega)]
          rfl
      exact ⟨[], by rw [collect, h, hempty n le_rfl]; rfl⟩

end Collect

theorem le_bound {fs : ChainFiles} {i : ℕ} {t : List Char} (h : fs.text i = some t) :
    i ≤ fs.bound := by
  by_contra hi
  rw [fs.outside i (by omega)] at h
  cases h

theorem chain_newest {fs : ChainFiles} {i : ℕ} {t : List Char} (h : fs.text i = some t)
    (hbelow : ∀ j < i, fs.text j = none) : ∃ front, fs.chain = front ++ [(i, t)] :=
  collect_newest h hbelow (Nat.lt_succ_of_le (le_bound h))

/-- Files above number `b` do not exist. -/
theorem chain_eq {fs : ChainFiles} {b : ℕ} (h : ∀ i, b < i → fs.text i = none) :
    fs.chain = collect fs.text (b + 1) := by
  rcases Nat.le_total fs.bound b with hb | hb
  · exact (collect_of_none (fun i hi => fs.outside i (by omega)) (by omega)).symm
  · exact collect_of_none (fun i hi => h i (by omega)) (by omega)

/-! ## Moving files -/

section Replace
variable {fs : ChainFiles} {src dst j : ℕ}

@[simp] theorem text_write (i : ℕ) (t : List Char) :
    (fs.write i t).text = Function.update fs.text i (some t) := rfl

@[simp] theorem text_remove (i : ℕ) : (fs.remove i).text = Function.update fs.text i none := rfl

theorem replace_src : (fs.replace src dst).text src = none := by
  unfold replace
  split
  · assumption
  · exact Function.update_self ..

theorem replace_dst (hne : dst ≠ src) (hs : (fs.text src).isSome) :
    (fs.replace src dst).text dst = fs.text src := by
  unfold replace
  split
  · rename_i h
    rw [h] at hs
    cases hs
  · rename_i t h
    rw [text_remove, Function.update_of_ne hne, text_write, Function.update_self, h]

theorem replace_other (hs : j ≠ src) (hd : j ≠ dst) :
    (fs.replace src dst).text j = fs.text j := by
  unfold replace
  split
  · rfl
  · rw [text_remove, Function.update_of_ne hs, text_write, Function.update_of_ne hd]

end Replace

/-- The files from `lo` to `hi` moved up by one, the others stayed. -/
structure MovedUp (lo hi : ℕ) (text text' : ℕ → Option (List Char)) : Prop where
  moved : ∀ j, lo ≤ j → j ≤ hi → text' (j + 1) = text j
  free : text' lo = none
  below : ∀ j < lo, text' j = text j
  above : ∀ j, hi + 1 < j → text' j = text j

/-- The loop over the rotated files, from the highest number that is kept down. -/
theorem shiftFrom_movedUp {b n : ℕ} {fs : ChainFiles} (hn : n < b) (hfree : fs.text (n + 1) = none) :
    MovedUp 1 n fs.text (shiftFrom b n fs).text := by
  induction n generalizing fs with
  | zero =>
    exact ⟨fun j h h' => by omega, hfree, fun _ _ => rfl, fun _ _ => rfl⟩
  | succ n ih =>
    rw [shiftFrom, if_neg (show ¬ n + 1 = b by omega)]
    have hstep : ∃ fs₁ : ChainFiles, (if (fs.text (n + 1)).isSome then fs.replace (n + 1) (n + 2)
        else fs) = fs₁ ∧ fs₁.text (n + 1) = none ∧ fs₁.text (n + 2) = fs.text (n + 1) ∧
          ∀ j, j ≠ n + 1 → j ≠ n + 2 → fs₁.text j = fs.text j := by
      split
      · rename_i hs
        exact ⟨_, rfl, replace_src, replace_dst (by omega) hs, fun j => replace_other⟩
      · rename_i hs
        have hnone := Option.not_isSome_iff_eq_none.mp hs
        exact ⟨_, rfl, hnone, hfree.trans hnone.symm, fun _ _ _ => rfl⟩
    obtain ⟨fs₁, heq, hfree₁, hmoved₁, hsame₁⟩ := hstep
    rw [heq]
    have h : MovedUp 1 n fs₁.text (shiftFrom b n fs₁).text := ih (by omega) hfree₁
    refine ⟨fun j hlo hhi => ?_, h.free, fun j hj => ?_, fun j hj => ?_⟩
    · rcases Nat.lt_or_ge j (n + 1) with hj | hj
      · rw [h.moved j hlo (by omega), hsame₁ j (by omega) (by omega)]
      · obtain rfl : j = n + 1 := by omega
        rw [h.above (n + 1 + 1) (by omega), hmoved₁]
    · rw [h.below j hj, hsame₁ j (by omega) (by omega)]
    · rw [h.above j (by omega), hsame₁ j (by omega) (by omega)]

/-- The loop from the top, which drops the file with the highest number first. -/
theorem shiftFrom_all {b : ℕ} (hb : 0 < b) (fs : ChainFiles) :
    MovedUp 1 (b - 1) fs.text (shiftFrom b b fs).text := by
  obtain ⟨n, rfl⟩ : ∃ n, b = n + 1 := ⟨b - 1, by omega⟩
  rw [shiftFrom, if_pos rfl, Nat.add_sub_cancel]
  have hstep : ∃ fs₁ : ChainFiles, (if (fs.text (n + 1)).isSome then fs.remove (n + 1) else fs) =
      fs₁ ∧ fs₁.text (n + 1) = none ∧ ∀ j, j ≠ n + 1 → fs₁.text j = fs.text j := by
    split
    · refine ⟨_, rfl, ?_, fun j hj => ?_⟩
      · rw [text_remove, Function.update_self]
      · rw [text_remove, Function.update_of_ne hj]
    · rename_i hs
      exact ⟨_, rfl, Option.not_isSome_iff_eq_none.mp hs, fun _ _ => rfl⟩
  obtain ⟨fs₁, heq, hfree, hsame⟩ := hstep
  rw [heq]
  have h := shiftFrom_movedUp (Nat.lt_succ_self n) hfree
  refine ⟨fun j hlo hhi => ?_, h.free, fun j hj => ?_, fun j hj => ?_⟩
  · rw [h.moved j hlo hhi, hsame j (by omega)]
  · rw [h.below j hj, hsame j (by omega)]
  · rw [h.above j hj, hsame j (by omega)]

theorem active_of_due {fs : ChainFiles} {maxBytes backups : ℤ}
    (h : fs.rotationDue maxBytes backups = true) : ∃ t, fs.text 0 = some t := by
  simp only [rotationDue, Bool.and_eq_true, Option.any_eq_true] at h
  obtain ⟨_, t, ht, _⟩ := h
  exact ⟨t, ht⟩

/-- What a rotation with backups leaves. -/
theorem rotate_text {fs : ChainFiles} {maxBytes backups : ℤ}
    (hdue : fs.rotationDue maxBytes backups = true) (hb : 0 < backups) :
    MovedUp 0 (backups.toNat - 1) fs.text (fs.rotateIfNeeded maxBytes backups).text := by
  obtain ⟨t, hactive⟩ := active_of_due hdue
  have h := shiftFrom_all (show 0 < backups.toNat by omega) fs
  have hzero := h.below 0 (by omega)
  rw [rotateIfNeeded, if_pos hdue, if_neg (by omega)]
  refine ⟨fun j _ hj => ?_, replace_src, fun j hj => by omega, fun j hj => ?_⟩
  · rcases Nat.eq_zero_or_pos j with rfl | hpos
    · rw [replace_dst (by omega) (by rw [hzero, hactive]; rfl), hzero]
    · rw [replace_other (by omega) (by omega), h.moved j hpos hj]
  · rw [replace_other (by omega) (by omega), h.above j hj]

end OpenClaw.Audit.ChainFiles
