import Mathlib.Data.List.Basic
import Mathlib.Order.Monotone.Basic

/-!
# Following a log by cursor

A reader asks for the entries above its cursor and goes on from the cursor of the answer. If each
answer is exact for the entries that are held, the reader gets every entry that stays held until
the cursor passes it, once and in order.
-/

namespace Foundation

set_option autoImplicit false

universe u
variable {α : Type u}

structure Page (α : Type u) where
  items : List α
  next : ℕ

section Feed
variable (key : α → ℕ)

/-- An answer from position `pos`: ordered, and of what is held it skips nothing. -/
structure Page.Exact (held : α → Prop) (pos : ℕ) (p : Page α) : Prop where
  ordered : p.items.Pairwise fun x y => key x < key y
  above : ∀ x ∈ p.items, pos < key x ∧ key x ≤ p.next
  forward : pos ≤ p.next
  complete : ∀ x, held x → pos < key x → key x ≤ p.next → x ∈ p.items

/-- What a reader that began at `start` has when its cursor is `cursor`. -/
structure CaughtUp (standing : α → Prop) (start cursor : ℕ) (delivered : List α) : Prop where
  ordered : delivered.Pairwise fun x y => key x < key y
  below : ∀ x ∈ delivered, key x ≤ cursor
  complete : ∀ x, standing x → start < key x → key x ≤ cursor → x ∈ delivered

variable {key} {standing standing' held : α → Prop} {start cursor pos : ℕ} {delivered : List α}
  {p : Page α}

theorem mem_of_front {ps xs : List α} (hxs : xs.Pairwise fun x y => key x < key y)
    (hps : ps <+: xs) {x y : α} (hx : x ∈ xs) (hy : y ∈ ps) (hle : key x ≤ key y) : x ∈ ps := by
  obtain ⟨rest, rfl⟩ := hps
  rcases List.mem_append.mp hx with hx | hx
  · exact hx
  · have hlt := (List.pairwise_append.mp hxs).2.2 y hy x hx
    omega

/-- The first entry of a kind has the least number of its kind. -/
theorem find?_least {xs : List α} (hxs : xs.Pairwise fun x y => key x < key y) {q : α → Bool}
    {x y : α} (hy : xs.find? q = some y) (hx : x ∈ xs) (hq : q x = true) : key y ≤ key x := by
  induction xs with
  | nil => cases hx
  | cons z zs ih =>
    obtain ⟨hz, hzs⟩ := List.pairwise_cons.mp hxs
    by_cases hqz : q z = true
    · rw [List.find?_cons_of_pos hqz] at hy
      cases hy
      rcases List.mem_cons.mp hx with rfl | hx
      · exact le_refl _
      · exact (hz x hx).le
    · rw [List.find?_cons_of_neg hqz] at hy
      rcases List.mem_cons.mp hx with rfl | hx
      · exact absurd hq hqz
      · exact ih hzs hy hx

/-- The answer that takes the first few of the ordered entries `xs` and goes on from the last. -/
theorem exact_of_front {ps xs : List α} (hxs : xs.Pairwise fun x y => key x < key y)
    (hps : ps <+: xs) (hpos : ∀ x ∈ xs, pos < key x)
    (hheld : ∀ x, held x → pos < key x → key x ≤ (ps.getLast?.map key).getD pos → x ∈ xs) :
    Page.Exact key held pos ⟨ps, (ps.getLast?.map key).getD pos⟩ := by
  have hordered := hxs.sublist hps.sublist
  rcases List.eq_nil_or_concat ps with rfl | ⟨front, last, rfl⟩
  · refine ⟨.nil, by simp, le_refl pos, fun x _ h h' => ?_⟩
    simp only [List.getLast?_nil, Option.map_none, Option.getD_none] at h'
    omega
  · have hnext : ((front.concat last).getLast?.map key).getD pos = key last := by simp
    have hlast : last ∈ front.concat last := by simp
    rw [hnext] at hheld ⊢
    refine ⟨hordered, fun x hx => ⟨hpos x (hps.subset hx), ?_⟩, (hpos last (hps.subset hlast)).le,
      fun x hx h h' => mem_of_front hxs hps (hheld x hx h h') hlast h'⟩
    rw [List.concat_eq_append] at hordered hx
    rcases List.mem_append.mp hx with hx | hx
    · exact ((List.pairwise_append.mp hordered).2.2 x hx last (by simp)).le
    · exact (congrArg key (List.mem_singleton.mp hx)).le

/-- Nothing that is held lies between the two positions. -/
theorem Page.Exact.back {pos' : ℕ} (hp : p.Exact key held pos') (hle : pos ≤ pos')
    (hgap : ∀ x, held x → pos < key x → pos' < key x) : p.Exact key held pos where
  ordered := hp.ordered
  above x hx := ⟨hle.trans_lt (hp.above x hx).1, (hp.above x hx).2⟩
  forward := hle.trans hp.forward
  complete x hx h h' := hp.complete x hx (hgap x hx h) h'

theorem caughtUp_nil : CaughtUp key standing start start [] where
  ordered := .nil
  below := by simp
  complete x _ h h' := by omega

theorem CaughtUp.mono (h : CaughtUp key standing start cursor delivered)
    (hst : ∀ x, standing' x → standing x) : CaughtUp key standing' start cursor delivered :=
  ⟨h.ordered, h.below, fun x hx => h.complete x (hst x hx)⟩

/-- The answer is taken from the cursor. Only to the first question of a reader, whose cursor may
lie ahead of the log, may it be taken from further back. -/
theorem CaughtUp.page (h : CaughtUp key standing start cursor delivered)
    (hp : p.Exact key held pos)
    (hpos : pos = cursor ∨ pos ≤ cursor ∧ cursor = start ∧ delivered = [])
    (hst : ∀ x, standing' x → standing x ∧ (cursor < key x → held x)) :
    CaughtUp key standing' start p.next (delivered ++ p.items) where
  ordered := by
    rw [List.pairwise_append]
    refine ⟨h.ordered, hp.ordered, fun x hx y hy => ?_⟩
    rcases hpos with rfl | ⟨_, _, rfl⟩
    · exact (h.below x hx).trans_lt (hp.above y hy).1
    · cases hx
  below := by
    intro x hx
    rcases List.mem_append.mp hx with hx | hx
    · rcases hpos with rfl | ⟨_, _, rfl⟩
      · exact (h.below x hx).trans hp.forward
      · cases hx
    · exact (hp.above x hx).2
  complete := by
    intro x hx hstart hnext
    obtain ⟨hold, hheld⟩ := hst x hx
    rw [List.mem_append]
    by_cases hc : key x ≤ cursor
    · exact .inl (h.complete x hold hstart hc)
    · have hpos' : pos ≤ cursor := by
        rcases hpos with rfl | ⟨hle, _⟩
        · exact le_refl pos
        · exact hle
      exact .inr (hp.complete x (hheld (by omega)) (by omega) hnext)

/-- An answer moves the reader on, past `x` or by one at least, unless it is empty too early. -/
theorem Page.Exact.progress {x : α} (hp : p.Exact key held pos)
    (hdrained : p.items = [] → key x ≤ p.next) : key x ≤ p.next ∨ pos < p.next := by
  cases hitems : p.items with
  | nil => exact .inl (hdrained hitems)
  | cons y ys =>
    have hy := hp.above y (hitems ▸ List.mem_cons_self)
    exact .inr (hy.1.trans_le hy.2)

end Feed

end Foundation
