import OpenClaw.Foundation.JsonScan

/-!
# The characters of a text

A number literal consists of digits, signs, points and exponent letters, and the text of any value
of printable ASCII.
-/

namespace Foundation

set_option autoImplicit false

namespace Json

/-! ## Numbers -/

/-- What holds of the characters of numbers. -/
structure NumberChars (P : Char → Prop) : Prop where
  digit : ∀ c : Char, c.isDigit = true → P c
  other : ∀ c ∈ ['-', '+', '.', 'e', 'E'], P c

section Numbers
variable {P : Char → Prop} (hP : NumberChars P)
include hP

theorem digits_chars {x : List Char} : ∀ c ∈ digits x, P c := fun c hc =>
  hP.digit c (List.mem_takeWhile_imp hc)

theorem scanSign_chars (x : List Char) : ∀ c ∈ (scanSign x).1, P c := by
  intro c hc
  unfold scanSign at hc
  split at hc
  · rw [List.mem_singleton.mp hc]
    exact hP.other '-' (by decide)
  · cases hc

theorem scanNat_chars {x : List Char} {r : List Char × List Char} (h : scanNat x = some r) :
    ∀ c ∈ r.1, P c := by
  intro c hc
  cases x with
  | nil => cases h
  | cons d x =>
    simp only [scanNat] at h
    split at h
    · cases h
      rw [List.mem_singleton.mp hc]
      exact hP.digit '0' (by decide)
    split at h
    · rename_i hd
      cases h
      rcases List.mem_cons.mp hc with rfl | hc
      · exact hP.digit _ hd
      · exact digits_chars hP c hc
    · cases h

theorem scanFrac_chars (x : List Char) : ∀ c ∈ (scanFrac x).1, P c := by
  intro c hc
  cases x with
  | nil => cases hc
  | cons d x =>
    simp only [scanFrac] at hc
    split at hc
    · rename_i hd
      rcases List.mem_cons.mp hc with rfl | hc
      · rw [hd.1]
        exact hP.other '.' (by decide)
      · exact digits_chars hP c hc
    · cases hc

theorem scanExp_chars (x : List Char) : ∀ c ∈ (scanExp x).1, P c := by
  have hsign : ∀ x, ∀ c ∈ (scanExpSign x).1, P c := by
    intro x c hc
    cases x with
    | nil => cases hc
    | cons d x =>
      simp only [scanExpSign] at hc
      split at hc
      · rename_i hd
        rw [List.mem_singleton.mp hc]
        rcases hd with rfl | rfl <;> exact hP.other _ (by decide)
      · cases hc
  intro c hc
  cases x with
  | nil => cases hc
  | cons d x =>
    simp only [scanExp] at hc
    split at hc
    · rename_i hd
      rcases List.mem_cons.mp hc with rfl | hc
      · rcases hd.1 with rfl | rfl <;> exact hP.other _ (by decide)
      rcases List.mem_append.mp hc with hc | hc
      · exact hsign x c hc
      · exact digits_chars hP c hc
    · cases hc

theorem scanNumber_chars {x int frac left : List Char}
    (h : scanNumber x = some (int, frac, left)) : ∀ c ∈ int ++ frac, P c := by
  obtain ⟨r, hnat, hr⟩ := Option.map_eq_some_iff.mp h
  cases hr
  intro c hc
  rcases List.mem_append.mp hc with hc | hc
  · rcases List.mem_append.mp hc with hc | hc
    · exact scanSign_chars hP x c hc
    · exact scanNat_chars hP hnat c hc
  · rcases List.mem_append.mp hc with hc | hc
    · exact scanFrac_chars hP _ c hc
    · exact scanExp_chars hP _ c hc

/-- A text that is a number literal as a whole. -/
theorem number_chars {x int frac : List Char} (h : scanNumber x = some (int, frac, [])) :
    ∀ c ∈ x, P c := by
  have hsplit := scanNumber_split h
  rw [List.append_nil] at hsplit
  rw [← hsplit]
  exact scanNumber_chars hP h

end Numbers

/-! ## Printable text -/

def Printable (c : Char) : Prop := 32 ≤ c.toNat ∧ c.toNat ≤ 126

instance (c : Char) : Decidable (Printable c) := inferInstanceAs (Decidable (_ ∧ _))

def AllPrintable (x : List Char) : Prop := ∀ c ∈ x, Printable c

theorem allPrintable_nil : AllPrintable [] := by
  intro c hc
  cases hc

theorem AllPrintable.cons {c : Char} {x : List Char} (hc : Printable c) (hx : AllPrintable x) :
    AllPrintable (c :: x) :=
  List.forall_mem_cons.mpr ⟨hc, hx⟩

theorem AllPrintable.append {x y : List Char} (hx : AllPrintable x) (hy : AllPrintable y) :
    AllPrintable (x ++ y) :=
  List.forall_mem_append.mpr ⟨hx, hy⟩

theorem allPrintable_of_all {x : List Char} (h : x.all (fun c => decide (Printable c)) = true) :
    AllPrintable x :=
  fun c hc => of_decide_eq_true (List.all_eq_true.mp h c hc)

theorem printable_number : NumberChars Printable where
  digit c hc := by
    simp only [Char.isDigit, Bool.and_eq_true, decide_eq_true_eq] at hc
    obtain ⟨hlow, hhigh⟩ := hc
    have hlow' : 48 ≤ c.toNat := hlow
    have hhigh' : c.toNat ≤ 57 := hhigh
    exact ⟨by omega, by omega⟩
  other c hc := by
    simp only [List.mem_cons, List.not_mem_nil, or_false] at hc
    rcases hc with rfl | rfl | rfl | rfl | rfl <;> decide

theorem escapeUnit_printable (u : CodeUnit) : AllPrintable (escapeUnit u) := by
  unfold escapeUnit
  split
  · exact allPrintable_of_all (by decide)
  split
  · exact allPrintable_of_all (by decide)
  split
  · rename_i h
    have hn : (Char.ofNat u.val).toNat = u.val := by
      rw [Char.ofNat, dif_pos (Or.inl (by omega))]
      rfl
    refine AllPrintable.cons ?_ allPrintable_nil
    unfold Printable
    rw [hn]
    exact h
  split
  · exact allPrintable_of_all (by decide)
  split
  · exact allPrintable_of_all (by decide)
  split
  · exact allPrintable_of_all (by decide)
  split
  · exact allPrintable_of_all (by decide)
  split
  · exact allPrintable_of_all (by decide)
  · have hhex : ∀ n, n < 16 → Printable (hexDigit n) := by decide
    intro c hc
    simp only [hex4, List.mem_cons, List.not_mem_nil, or_false] at hc
    rcases hc with rfl | rfl | rfl | rfl | rfl | rfl
    · decide
    · decide
    all_goals exact hhex _ (Nat.mod_lt _ (by decide))

theorem quote_printable (s : PyStr) : AllPrintable (quote s) := by
  have hbody : AllPrintable (s.flatMap escapeUnit) := by
    intro c hc
    obtain ⟨u, _, hu⟩ := List.mem_flatMap.mp hc
    exact escapeUnit_printable u c hu
  exact (AllPrintable.cons (by decide) hbody).append (AllPrintable.cons (by decide) allPrintable_nil)

section Render
variable {φ : Type} (F : FloatFormat φ) {sep : Separators}
  (hitem : AllPrintable sep.afterItem) (hkey : AllPrintable sep.afterKey)
include hitem hkey

/-- `json.dumps` with `ensure_ascii`, by induction on the value. -/
theorem render_printable (j : Json φ) : AllPrintable (render F.repr sep j) := by
  have hsep : AllPrintable sep.item := AllPrintable.cons (by decide) hitem
  have hcolon : AllPrintable sep.key := AllPrintable.cons (by decide) hkey
  have hbracket : AllPrintable [']'] := allPrintable_of_all (by decide)
  have hbrace : AllPrintable ['}'] := allPrintable_of_all (by decide)
  induction j using Json.induction with
  | null =>
    rw [render]
    exact allPrintable_of_all (by decide)
  | bool b =>
    cases b <;> rw [render] <;> exact allPrintable_of_all (by decide)
  | int i =>
    rw [render]
    exact number_chars printable_number (scanNumber_showInt i)
  | float x =>
    rw [render]
    rcases F.literal x with hw | ⟨int, frac, hs, _⟩
    · simp only [List.mem_cons, List.not_mem_nil, or_false] at hw
      rcases hw with hw | hw | hw <;> rw [hw] <;> exact allPrintable_of_all (by decide)
    · exact number_chars printable_number hs
  | str s =>
    rw [render]
    exact quote_printable s
  | arr items ih =>
    have hitems : ∀ items : List (Json φ), (∀ j ∈ items, AllPrintable (render F.repr sep j)) →
        AllPrintable (renderItems F.repr sep items) := by
      intro items ih
      induction items with
      | nil => exact allPrintable_nil
      | cons j items ih' =>
        rw [renderItems]
        apply hsep.append
        apply (ih j List.mem_cons_self).append
        exact ih' fun i hi => ih i (List.mem_cons_of_mem j hi)
    cases items with
    | nil =>
      rw [render]
      exact AllPrintable.cons (by decide) hbracket
    | cons j items =>
      rw [render]
      apply AllPrintable.cons (by decide)
      apply (ih j List.mem_cons_self).append
      exact (hitems items fun i hi => ih i (List.mem_cons_of_mem j hi)).append
        hbracket
  | obj fields ih =>
    have hfields : ∀ fields : List (PyStr × Json φ),
        (∀ f ∈ fields, AllPrintable (render F.repr sep f.2)) →
          AllPrintable (renderFields F.repr sep fields) := by
      intro fields ih
      induction fields with
      | nil => exact allPrintable_nil
      | cons f fields ih' =>
        obtain ⟨k, j⟩ := f
        rw [renderFields]
        apply hsep.append
        apply (quote_printable k).append
        apply hcolon.append
        apply (ih (k, j) List.mem_cons_self).append
        exact ih' fun g hg => ih g (List.mem_cons_of_mem _ hg)
    cases fields with
    | nil =>
      rw [render]
      exact AllPrintable.cons (by decide) hbrace
    | cons f fields =>
      obtain ⟨k, j⟩ := f
      rw [render]
      apply AllPrintable.cons (by decide)
      apply (quote_printable k).append
      apply hcolon.append
      apply (ih (k, j) List.mem_cons_self).append
      exact (hfields fields fun g hg => ih g (List.mem_cons_of_mem _ hg)).append
        hbrace

end Render

end Json

end Foundation
