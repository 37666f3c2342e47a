import OpenClaw.Foundation.JsonChars
import OpenClaw.Foundation.JsonRoundTrip

/-!
# Where strings begin and end

In the text of a value a bar and a backslash stand inside strings only. So a text that is put
behind a bar can be told from what stands before it: a proper tail of one value is not a value,
since a reader that starts inside a string and one that starts outside disagree ever after.
-/

namespace Foundation.Json

set_option autoImplicit false

/-- Where a reader of JSON text is. -/
inductive Mode where
  | outside | inside | escaped
  deriving DecidableEq

namespace Mode

/-- The mode after one character; outside strings there is no backslash and no bar. -/
def step : Mode → Char → Option Mode
  | outside, c => if c = '"' then some inside else if c = '\\' ∨ c = '|' then none else some outside
  | inside, c => if c = '"' then some outside else if c = '\\' then some escaped else some inside
  | escaped, c => if c = '|' then none else some inside

def scan : Mode → List Char → Option Mode
  | m, [] => some m
  | m, c :: cs => (m.step c).bind fun m' => m'.scan cs

theorem scan_append (x y : List Char) : ∀ m : Mode, m.scan (x ++ y) = (m.scan x).bind (·.scan y) := by
  induction x with
  | nil => exact fun _ => rfl
  | cons c x ih =>
    intro m
    rw [List.cons_append, scan, scan]
    cases m.step c with
    | none => rfl
    | some m' => exact ih m'

/-- Two readers that start in different modes never come together. -/
theorem scan_opposite (x : List Char) : ∀ {m m' : Mode}, outside.scan x = some m →
    inside.scan x = some m' → m = outside ∧ m' = inside ∨ m = inside ∧ m' = outside := by
  induction x with
  | nil =>
    intro m m' h h'
    cases h
    cases h'
    exact .inl ⟨rfl, rfl⟩
  | cons c x ih =>
    intro m m' h h'
    rw [scan] at h h'
    by_cases hq : c = '"'
    · simp only [step, hq, if_true, Option.bind_some] at h h'
      rcases ih h' h with ⟨rfl, rfl⟩ | ⟨rfl, rfl⟩
      · exact .inr ⟨rfl, rfl⟩
      · exact .inl ⟨rfl, rfl⟩
    by_cases hb : c = '\\' ∨ c = '|'
    · simp only [step, hq, hb, if_true, if_false, Option.bind_none] at h
      cases h
    · obtain ⟨hslash, hbar⟩ := not_or.mp hb
      simp only [step, hq, hslash, hbar, or_self, if_false, Option.bind_some] at h h'
      exact ih h h'

/-- A text that begins and ends outside strings. -/
def Closed (x : List Char) : Prop := outside.scan x = some outside

theorem Closed.append {x y : List Char} (hx : Closed x) (hy : Closed y) : Closed (x ++ y) := by
  unfold Closed at hx hy ⊢
  rw [scan_append, hx]
  exact hy

/-- The text behind a bar is known from the whole. -/
theorem bar_unique {x y s t : List Char} (hs : Closed s) (ht : Closed t)
    (h : x ++ '|' :: s = y ++ '|' :: t) : x = y ∧ s = t := by
  have hshort : ∀ {z s t : List Char}, Closed s → Closed t → '|' :: s = z ++ '|' :: t → z = [] := by
    intro z s t hs ht h
    cases z with
    | nil => rfl
    | cons c z =>
      rw [List.cons_append, List.cons.injEq] at h
      obtain ⟨_, rfl⟩ := h
      unfold Closed at hs ht
      rw [scan_append] at hs
      obtain ⟨m, _, hm⟩ := Option.bind_eq_some_iff.mp hs
      rw [scan] at hm
      obtain ⟨m', hstep, hm'⟩ := Option.bind_eq_some_iff.mp hm
      cases m with
      | outside => cases hstep
      | escaped => cases hstep
      | inside =>
        cases hstep
        rcases scan_opposite t ht hm' with ⟨_, he⟩ | ⟨he, _⟩ <;> cases he
  rcases List.append_eq_append_iff.mp h with ⟨z, rfl, hz⟩ | ⟨z, rfl, hz⟩
  · obtain rfl := hshort hs ht hz
    exact ⟨(List.append_nil x).symm, (List.cons.inj hz).2⟩
  · obtain rfl := hshort ht hs hz
    exact ⟨List.append_nil y, ((List.cons.inj hz).2).symm⟩

end Mode

/-! ## The text of a value -/

open Mode

def Plain (c : Char) : Prop := c ≠ '"' ∧ c ≠ '\\' ∧ c ≠ '|'

instance (c : Char) : Decidable (Plain c) := inferInstanceAs (Decidable (_ ∧ _ ∧ _))

theorem closed_plain {x : List Char} (h : ∀ c ∈ x, Plain c) : Closed x := by
  induction x with
  | nil => rfl
  | cons c x ih =>
    obtain ⟨h1, h2, h3⟩ := h c List.mem_cons_self
    unfold Closed
    rw [scan]
    simp only [step, h1, h2, h3, or_self, if_false, Option.bind_some]
    exact ih fun d hd => h d (List.mem_cons_of_mem c hd)

theorem scan_inside_plain {x : List Char} (h : ∀ c ∈ x, Plain c) :
    inside.scan x = some inside := by
  induction x with
  | nil => rfl
  | cons c x ih =>
    obtain ⟨h1, h2, _⟩ := h c List.mem_cons_self
    rw [scan]
    simp only [step, h1, h2, if_false, Option.bind_some]
    exact ih fun d hd => h d (List.mem_cons_of_mem c hd)

theorem plain_digit {c : Char} (h : c.isDigit = true) : Plain c := by
  refine ⟨?_, ?_, ?_⟩ <;>
  · rintro rfl
    cases h

theorem plain_number : NumberChars Plain where
  digit _ h := plain_digit h
  other c hc := by
    simp only [List.mem_cons, List.not_mem_nil, or_false] at hc
    rcases hc with rfl | rfl | rfl | rfl | rfl <;> decide

theorem plain_space {c : Char} (h : isSpace c = true) : Plain c := by
  refine ⟨?_, ?_, ?_⟩ <;>
  · rintro rfl
    cases h

theorem closed_number {x : List Char} {r : List Char × List Char × List Char}
    (h : scanNumber x = some r) (hleft : r.2.2 = []) : Closed x := by
  obtain ⟨int, frac, left⟩ := r
  obtain rfl : left = [] := hleft
  exact closed_plain (number_chars plain_number h)

theorem scan_escapeUnit (u : CodeUnit) : inside.scan (escapeUnit u) = some inside := by
  unfold escapeUnit
  split
  · rfl
  split
  · rfl
  split
  · rename_i hq hb h
    have hn : (Char.ofNat u.val).toNat = u.val := by
      rw [Char.ofNat, dif_pos (Or.inl (by omega))]
      rfl
    have hquote : Char.ofNat u.val ≠ '"' := fun he => hq (by rw [← hn, he]; rfl)
    have hslash : Char.ofNat u.val ≠ '\\' := fun he => hb (by rw [← hn, he]; rfl)
    simp [scan, step, hquote, hslash]
  split
  · rfl
  split
  · rfl
  split
  · rfl
  split
  · rfl
  split
  · rfl
  · have hhex : ∀ n, n < 16 → Plain (hexDigit n) := by decide
    change inside.scan (hex4 u.val) = some inside
    apply scan_inside_plain
    intro c hc
    simp only [hex4, List.mem_cons, List.not_mem_nil, or_false] at hc
    rcases hc with rfl | rfl | rfl | rfl <;> exact hhex _ (Nat.mod_lt _ (by decide))

theorem closed_quote (s : PyStr) : Closed (quote s) := by
  have hbody : inside.scan (s.flatMap escapeUnit) = some inside := by
    induction s with
    | nil => rfl
    | cons u s ih =>
      rw [List.flatMap_cons, scan_append, scan_escapeUnit]
      exact ih
  unfold Closed quote
  rw [List.cons_append, scan]
  simp only [step, if_true, Option.bind_some]
  rw [scan_append, hbody]
  rfl

section Render
variable {φ : Type} (F : FloatFormat φ) (sep : Separators)

theorem closed_item : Closed sep.item := by
  apply closed_plain
  intro c hc
  rcases List.mem_cons.mp hc with rfl | hc
  · decide
  · exact plain_space (sep.item_space c hc)

theorem closed_key : Closed sep.key := by
  apply closed_plain
  intro c hc
  rcases List.mem_cons.mp hc with rfl | hc
  · decide
  · exact plain_space (sep.key_space c hc)

theorem closed_items {items : List (Json φ)} (h : ∀ j ∈ items, Closed (render F.repr sep j)) :
    Closed (renderItems F.repr sep items) := by
  induction items with
  | nil => rfl
  | cons j items ih =>
    rw [renderItems]
    apply (closed_item sep).append
    apply (h j List.mem_cons_self).append
    exact ih fun i hi => h i (List.mem_cons_of_mem j hi)

theorem closed_fields {fields : List (PyStr × Json φ)}
    (h : ∀ f ∈ fields, Closed (render F.repr sep f.2)) :
    Closed (renderFields F.repr sep fields) := by
  induction fields with
  | nil => rfl
  | cons f fields ih =>
    obtain ⟨k, j⟩ := f
    rw [renderFields]
    apply (closed_item sep).append
    apply (closed_quote k).append
    apply (closed_key sep).append
    apply (h (k, j) List.mem_cons_self).append
    exact ih fun g hg => h g (List.mem_cons_of_mem _ hg)

/-- The text of a value begins and ends outside strings. -/
theorem closed_render (j : Json φ) : Closed (render F.repr sep j) := by
  induction j using Json.induction with
  | null =>
    rw [render]
    rfl
  | bool b =>
    cases b <;> rw [render] <;> rfl
  | int i =>
    rw [render]
    exact closed_number (scanNumber_showInt i) rfl
  | float x =>
    rw [render]
    rcases F.literal x with hw | ⟨int, frac, hs, _⟩
    · simp only [List.mem_cons, List.not_mem_nil, or_false] at hw
      rcases hw with hw | hw | hw <;> rw [hw] <;> rfl
    · exact closed_number hs rfl
  | str s =>
    rw [render]
    exact closed_quote s
  | arr items ih =>
    cases items with
    | nil =>
      rw [render]
      rfl
    | cons j items =>
      have hstart : Closed ['['] := rfl
      have hend : Closed [']'] := rfl
      rw [render, ← List.singleton_append]
      apply hstart.append
      apply (ih j List.mem_cons_self).append
      exact (closed_items F sep fun i hi => ih i (List.mem_cons_of_mem j hi)).append hend
  | obj fields ih =>
    cases fields with
    | nil =>
      rw [render]
      rfl
    | cons f fields =>
      obtain ⟨k, j⟩ := f
      have hstart : Closed ['{'] := rfl
      have hend : Closed ['}'] := rfl
      rw [render, ← List.singleton_append]
      apply hstart.append
      apply (closed_quote k).append
      apply (closed_key sep).append
      apply (ih (k, j) List.mem_cons_self).append
      exact (closed_fields F sep fun g hg => ih g (List.mem_cons_of_mem _ hg)).append hend

end Render

/-! ## Counting quotes -/

/-- The quotes that no backslash escapes; the flag says that the last character is an escaping one. -/
def countQuotes : Bool → List Char → Bool × ℕ
  | odd, [] => (odd, 0)
  | odd, c :: cs =>
    if c = '\\' then countQuotes (!odd) cs
    else if c = '"' ∧ odd = false then
      ((countQuotes false cs).1, (countQuotes false cs).2 + 1)
    else countQuotes false cs

theorem countQuotes_append (x y : List Char) : ∀ odd : Bool,
    countQuotes odd (x ++ y) = ((countQuotes (countQuotes odd x).1 y).1,
      (countQuotes odd x).2 + (countQuotes (countQuotes odd x).1 y).2) := by
  induction x with
  | nil =>
    intro odd
    simp [countQuotes]
  | cons c x ih =>
    intro odd
    rw [List.cons_append, countQuotes, countQuotes]
    split
    · exact ih _
    split
    · rw [ih]
      simp only [Prod.mk.injEq, true_and]
      omega
    · exact ih _

/-- The text has so many quotes, and none of its backslashes is left to escape what follows. -/
def Tally (x : List Char) (k : ℕ) : Prop := countQuotes false x = (false, k)

theorem Tally.append {x y : List Char} {k l : ℕ} (hx : Tally x k) (hy : Tally y l) :
    Tally (x ++ y) (k + l) := by
  unfold Tally at hx hy ⊢
  rw [countQuotes_append, hx]
  dsimp only
  rw [hy]

theorem tally_plain {x : List Char} (h : ∀ c ∈ x, c ≠ '"' ∧ c ≠ '\\') : Tally x 0 := by
  induction x with
  | nil => rfl
  | cons c x ih =>
    obtain ⟨hquote, hslash⟩ := h c List.mem_cons_self
    unfold Tally
    rw [countQuotes, if_neg hslash, if_neg fun h => hquote h.1]
    exact ih fun d hd => h d (List.mem_cons_of_mem c hd)

theorem tally_escapeUnit (u : CodeUnit) : Tally (escapeUnit u) 0 := by
  unfold escapeUnit
  split
  · rfl
  split
  · rfl
  split
  · rename_i hq hb h
    have hn : (Char.ofNat u.val).toNat = u.val := by
      rw [Char.ofNat, dif_pos (Or.inl (by omega))]
      rfl
    apply tally_plain
    intro c hc
    rw [List.mem_singleton.mp hc]
    exact ⟨fun he => hq (by rw [← hn, he]; rfl), fun he => hb (by rw [← hn, he]; rfl)⟩
  split
  · rfl
  split
  · rfl
  split
  · rfl
  split
  · rfl
  split
  · rfl
  · have hhex : ∀ n, n < 16 → hexDigit n ≠ '"' ∧ hexDigit n ≠ '\\' := by decide
    have hslash : Tally ['\\', 'u'] 0 := rfl
    apply hslash.append (l := 0)
    apply tally_plain
    intro c hc
    simp only [List.mem_cons, List.not_mem_nil, or_false] at hc
    rcases hc with rfl | rfl | rfl | rfl <;> exact hhex _ (Nat.mod_lt _ (by decide))

theorem tally_quote (s : PyStr) : Tally (quote s) 2 := by
  have hbody : Tally (s.flatMap escapeUnit) 0 := by
    induction s with
    | nil => rfl
    | cons u s ih => exact (tally_escapeUnit u).append ih
  have hmark : Tally ['"'] 1 := rfl
  exact (hmark.append hbody).append hmark

section Strings
variable {φ : Type}

mutual

/-- How many string literals the text of the value has. -/
def strings : Json φ → ℕ
  | .str _ => 1
  | .arr items => stringsItems items
  | .obj fields => stringsFields fields
  | _ => 0

def stringsItems : List (Json φ) → ℕ
  | [] => 0
  | j :: items => strings j + stringsItems items

def stringsFields : List (PyStr × Json φ) → ℕ
  | [] => 0
  | (_, j) :: fields => 1 + strings j + stringsFields fields

end

theorem stringsFields_eq (fields : List (PyStr × Json φ)) :
    stringsFields fields = (fields.map fun f => 1 + strings f.2).sum := by
  induction fields with
  | nil => rfl
  | cons f fields ih => rw [stringsFields, ih, List.map_cons, List.sum_cons]

variable (F : FloatFormat φ) (sep : Separators)

theorem tally_item : Tally sep.item 0 := by
  apply tally_plain
  intro c hc
  rcases List.mem_cons.mp hc with rfl | hc
  · decide
  · exact ⟨(plain_space (sep.item_space c hc)).1, (plain_space (sep.item_space c hc)).2.1⟩

theorem tally_key : Tally sep.key 0 := by
  apply tally_plain
  intro c hc
  rcases List.mem_cons.mp hc with rfl | hc
  · decide
  · exact ⟨(plain_space (sep.key_space c hc)).1, (plain_space (sep.key_space c hc)).2.1⟩

theorem tally_number {x : List Char} {r : List Char × List Char × List Char}
    (h : scanNumber x = some r) (hleft : r.2.2 = []) : Tally x 0 := by
  obtain ⟨int, frac, left⟩ := r
  obtain rfl : left = [] := hleft
  exact tally_plain fun c hc =>
    have hplain := number_chars plain_number h c hc
    ⟨hplain.1, hplain.2.1⟩

theorem tally_items {items : List (Json φ)}
    (h : ∀ j ∈ items, Tally (render F.repr sep j) (2 * strings j)) :
    Tally (renderItems F.repr sep items) (2 * stringsItems items) := by
  induction items with
  | nil => rfl
  | cons j items ih =>
    have hrest := ih fun i hi => h i (List.mem_cons_of_mem j hi)
    have hall := (tally_item sep).append ((h j List.mem_cons_self).append hrest)
    rw [renderItems, stringsItems]
    rwa [Nat.zero_add, ← Nat.mul_add] at hall

theorem tally_fields {fields : List (PyStr × Json φ)}
    (h : ∀ f ∈ fields, Tally (render F.repr sep f.2) (2 * strings f.2)) :
    Tally (renderFields F.repr sep fields) (2 * stringsFields fields) := by
  induction fields with
  | nil => rfl
  | cons f fields ih =>
    obtain ⟨k, j⟩ := f
    have hrest := ih fun g hg => h g (List.mem_cons_of_mem _ hg)
    have hall := (tally_item sep).append ((tally_quote k).append ((tally_key sep).append
      ((h (k, j) List.mem_cons_self).append hrest)))
    have hsum : 0 + (2 + (0 + (2 * strings j + 2 * stringsFields fields))) =
        2 * (1 + strings j + stringsFields fields) := by omega
    rw [renderFields, stringsFields, ← hsum]
    exact hall

/-- Each string literal of the text has its two quotes, and there are no others. -/
theorem tally_render (j : Json φ) : Tally (render F.repr sep j) (2 * strings j) := by
  induction j using Json.induction with
  | null =>
    rw [render, strings]
    · rfl
    all_goals simp
  | bool b => cases b <;> rw [render] <;> rfl
  | int i =>
    rw [render]
    exact tally_number (scanNumber_showInt i) rfl
  | float x =>
    rw [render]
    rcases F.literal x with hw | ⟨int, frac, hs, _⟩
    · simp only [List.mem_cons, List.not_mem_nil, or_false] at hw
      rcases hw with hw | hw | hw <;> rw [hw] <;> rfl
    · exact tally_number hs rfl
  | str s =>
    rw [render, strings]
    exact tally_quote s
  | arr items ih =>
    rw [strings]
    cases items with
    | nil =>
      rw [render]
      rfl
    | cons j items =>
      have hstart : Tally ['['] 0 := rfl
      have hend : Tally [']'] 0 := rfl
      have hall := hstart.append ((ih j List.mem_cons_self).append
        ((tally_items F sep fun i hi => ih i (List.mem_cons_of_mem j hi)).append hend))
      have hsum : 0 + (2 * strings j + (2 * stringsItems items + 0)) =
          2 * (strings j + stringsItems items) := by omega
      rw [render, ← List.singleton_append, stringsItems, ← hsum]
      exact hall
  | obj fields ih =>
    rw [strings]
    cases fields with
    | nil =>
      rw [render]
      rfl
    | cons f fields =>
      obtain ⟨k, j⟩ := f
      have hstart : Tally ['{'] 0 := rfl
      have hend : Tally ['}'] 0 := rfl
      have hall := hstart.append ((tally_quote k).append ((tally_key sep).append
        ((ih (k, j) List.mem_cons_self).append
          ((tally_fields F sep fun g hg => ih g (List.mem_cons_of_mem _ hg)).append hend))))
      have hsum : 0 + (2 + (0 + (2 * strings j + (2 * stringsFields fields + 0)))) =
          2 * (1 + strings j + stringsFields fields) := by omega
      rw [render, ← List.singleton_append, stringsFields, ← hsum]
      exact hall

end Strings

end Foundation.Json
