import Mathlib.Data.Finset.Card
import Mathlib.Data.List.TakeWhile
import OpenClaw.Foundation.Table

/-!
# Recency

A log holds the keys that were touched, the newest first. What was touched after the last touch of a
key decides whether a structure that drops the least recently touched key still has it.
-/

namespace Foundation

set_option autoImplicit false

universe u v
variable {κ : Type u} {ν : Type v} [DecidableEq κ]

/-- The touches after the key's last one. -/
def since (k : κ) (log : List κ) : List κ := log.takeWhile fun k' => k' ≠ k

@[simp] theorem since_cons_self (k : κ) (log : List κ) : since k (k :: log) = [] := by
  simp [since]

theorem since_cons_ne {k k' : κ} (h : k' ≠ k) (log : List κ) :
    since k (k' :: log) = k' :: since k log := by
  simp [since, h]

theorem not_mem_since (k : κ) (log : List κ) : k ∉ since k log := by
  intro h
  have hne := List.mem_takeWhile_imp h
  simp at hne

/-- How many keys were touched since. -/
def staleness (k : κ) (log : List κ) : ℕ := (since k log).toFinset.card

theorem staleness_le_cons {k k' : κ} (h : k' ≠ k) (log : List κ) :
    staleness k log ≤ staleness k (k' :: log) := by
  unfold staleness
  rw [since_cons_ne h, List.toFinset_cons]
  exact Finset.card_le_card (Finset.subset_insert _ _)

/-- The keys stand in the order of their last touch, the least recent one in front. -/
def InOrder (log ks : List κ) : Prop := ks.Pairwise fun k k' => k' ∈ since k log

namespace InOrder
variable {log ks ks' : List κ} {k : κ}

theorem sublist (h : InOrder log ks) (hs : ks'.Sublist ks) : InOrder log ks' :=
  List.Pairwise.sublist hs h

/-- The touched key moves behind the others. -/
theorem touch (h : InOrder log ks) (k : κ) :
    InOrder (k :: log) (ks.filter (fun k' => k' ≠ k) ++ [k]) := by
  have hothers : InOrder (k :: log) (ks.filter fun k' => k' ≠ k) := by
    refine List.Pairwise.imp_of_mem (fun {a b} ha _ hab => ?_) (h.sublist List.filter_sublist)
    have hne : a ≠ k := by simpa using (List.mem_filter.mp ha).2
    rw [since_cons_ne (Ne.symm hne)]
    exact List.mem_cons_of_mem k hab
  refine List.pairwise_append.mpr ⟨hothers, List.pairwise_singleton _ _, fun a ha b hb => ?_⟩
  have hne : a ≠ k := by simpa using (List.mem_filter.mp ha).2
  rw [List.mem_singleton.mp hb, since_cons_ne (Ne.symm hne)]
  exact List.mem_cons_self

/-- The keys behind the first one have all been touched since. -/
theorem length_le_staleness (h : InOrder log (k :: ks)) (hn : ks.Nodup) :
    ks.length ≤ staleness k log := by
  have hsince : ks.toFinset ⊆ (since k log).toFinset := by
    intro k' hk'
    rw [List.mem_toFinset] at hk' ⊢
    exact (List.pairwise_cons.mp h).1 k' hk'
  rw [← List.toFinset_card_of_nodup hn]
  exact Finset.card_le_card hsince

end InOrder

/-! ## Tables in the order of recency -/

namespace Table
variable {key : ν → κ}

/-- `move_to_end`. -/
def moveToEnd (t : Table key) (k : κ) : Table key :=
  match t.get? k with
  | some v => (t.drop k).put v
  | none => t

/-- `popitem(last=False)`. -/
def popFirst (t : Table key) : Table key :=
  ⟨t.rows.tail, ((List.tail_sublist t.rows).map key).nodup t.nodup⟩

theorem rows_drop_put (t : Table key) (v : ν) :
    ((t.drop (key v)).put v).rows = t.rows.filter (fun w => key w ≠ key v) ++ [v] := by
  refine replaceRow_append fun w hw => ?_
  have hne := (List.mem_filter.mp hw).2
  simpa using hne

theorem rows_moveToEnd {t : Table key} {k : κ} {v : ν} (h : t.get? k = some v) :
    (t.moveToEnd k).rows = t.rows.filter (fun w => key w ≠ k) ++ [v] := by
  obtain rfl := key_of_get? h
  rw [moveToEnd, h]
  exact rows_drop_put t v

/-- A key that is moved to the end, if it is there, is then overwritten there. -/
theorem rows_moveToEnd_put (t : Table key) (v : ν) :
    ((t.moveToEnd (key v)).put v).rows = t.rows.filter (fun w => key w ≠ key v) ++ [v] := by
  have hput : ∀ (ws : List ν) (w : ν), (∀ x ∈ ws, key x ≠ key v) → key w = key v →
      replaceRow key v (ws ++ [w]) = ws ++ [v] := by
    intro ws w hws hw
    induction ws with
    | nil => simp [replaceRow, hw]
    | cons x ws ih =>
      have hx := hws x List.mem_cons_self
      rw [List.cons_append, replaceRow, if_neg hx, ih fun y hy => hws y (List.mem_cons_of_mem x hy)]
      rfl
  cases hget : t.get? (key v) with
  | some w =>
    show replaceRow key v (t.moveToEnd (key v)).rows = _
    rw [rows_moveToEnd hget]
    refine hput _ _ (fun x hx => ?_) (key_of_get? hget)
    simpa using (List.mem_filter.mp hx).2
  | none =>
    have habsent := get?_eq_none_iff.mp hget
    rw [moveToEnd, hget]
    have hall : t.rows.filter (fun w => key w ≠ key v) = t.rows :=
      List.filter_eq_self.mpr fun w hw => by simpa using habsent w hw
    rw [hall]
    exact replaceRow_append habsent

@[simp] theorem get?_moveToEnd (t : Table key) (k k' : κ) : (t.moveToEnd k).get? k' = t.get? k' := by
  unfold moveToEnd
  split
  · rename_i v hv
    obtain rfl := key_of_get? hv
    rw [get?_put, get?_drop]
    by_cases h : key v = k'
    · rw [if_pos h, ← h, hv]
    · rw [if_neg h, if_neg h]
  · rfl

theorem mem_moveToEnd {t : Table key} {k : κ} {v : ν} (h : v ∈ (t.moveToEnd k).rows) :
    v ∈ t.rows := by
  have hget := get?_key h
  rw [get?_moveToEnd] at hget
  exact mem_of_get? hget

theorem size_moveToEnd (t : Table key) (k : κ) : (t.moveToEnd k).size = t.size := by
  unfold moveToEnd
  split
  · rename_i v hv
    obtain rfl := key_of_get? hv
    show ((t.drop (key v)).put v).rows.length = t.rows.length
    rw [rows_drop_put, (perm_cons_filter t.nodup (mem_of_get? hv)).length_eq]
    exact List.length_append
  · rfl

/-- Only the first row is lost. -/
theorem get?_popFirst_eq_none {t : Table key} {k : κ} (h : t.popFirst.get? k = none) :
    t.get? k = none ∨ ∃ v vs, t.rows = v :: vs ∧ key v = k := by
  rw [get?_eq_none_iff] at h
  rw [get?_eq_none_iff]
  cases hrows : t.rows with
  | nil => exact .inl fun v hv => absurd hv List.not_mem_nil
  | cons v vs =>
    by_cases hk : key v = k
    · exact .inr ⟨v, vs, rfl, hk⟩
    · refine .inl fun w hw => ?_
      rcases List.mem_cons.mp hw with rfl | hw
      · exact hk
      · have hmem : w ∈ t.rows.tail := by
          rw [hrows]
          exact hw
        exact h w hmem

theorem filterMap_sublist {f : ν → Option ν} (hf : ∀ v w, f v = some w → w = v) (rows : List ν) :
    (rows.filterMap f).Sublist rows := by
  induction rows with
  | nil => exact List.Sublist.refl _
  | cons v rows ih =>
    cases hv : f v with
    | none =>
      rw [List.filterMap_cons_none hv]
      exact ih.cons v
    | some w =>
      rw [List.filterMap_cons_some hv, hf v w hv]
      exact ih.cons_cons v

theorem keys_filter (rows : List ν) (k : κ) :
    (rows.filter fun w => key w ≠ k).map key = (rows.map key).filter fun k' => k' ≠ k := by
  rw [List.filter_map]
  rfl

end Table

end Foundation
