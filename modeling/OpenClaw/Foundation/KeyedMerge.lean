import OpenClaw.Foundation.Table

/-!
# Merging rows by their keys

The rows of a patch go one after the other into the rows of a base: a row whose key is there is
combined with the one that is there, where that one stands, and a new key goes to the end.
-/

namespace Foundation

set_option autoImplicit false

section KeyedMerge
variable {κ ν : Type*} [DecidableEq κ] {combine : ν → ν → ν} {base patch : List (κ × ν)}

/-- The value of the first row with the key. -/
def valueAt (k : κ) (rows : List (κ × ν)) : Option ν := (rows.find? fun r => r.1 = k).map Prod.snd

def mergeRow (combine : ν → ν → ν) (rows : List (κ × ν)) (r : κ × ν) : List (κ × ν) :=
  replaceRow Prod.fst (r.1, (valueAt r.1 rows).elim r.2 fun v => combine v r.2) rows

def mergeRows (combine : ν → ν → ν) (base patch : List (κ × ν)) : List (κ × ν) :=
  patch.foldl (mergeRow combine) base

/-- What a merge keeps: the keys of the base come first and in their order, the rows that the patch
does not name are the same, and what it names is there once. -/
structure MergesInto (base patch result : List (κ × ν)) : Prop where
  order : base.map Prod.fst <+: result.map Prod.fst
  kept : (result.filter fun r => r.1 ∉ patch.map Prod.fst) =
    base.filter fun r => r.1 ∉ patch.map Prod.fst
  once : ∀ k ∈ patch.map Prod.fst, (result.map Prod.fst).count k = 1

theorem mem_of_valueAt {k : κ} {rows : List (κ × ν)} {v : ν} (h : valueAt k rows = some v) :
    (k, v) ∈ rows := by
  obtain ⟨r, hr, rfl⟩ := Option.map_eq_some_iff.mp h
  have hk : r.1 = k := by simpa using List.find?_some hr
  exact hk ▸ List.mem_of_find?_eq_some hr

theorem valueAt_of_mem {rows : List (κ × ν)} (hn : (rows.map Prod.fst).Nodup) {r : κ × ν}
    (hr : r ∈ rows) : valueAt r.1 rows = some r.2 := by
  rw [valueAt, Table.find?_of_nodup hn hr]
  rfl

theorem valueAt_eq_none_iff {k : κ} {rows : List (κ × ν)} :
    valueAt k rows = none ↔ k ∉ rows.map Prod.fst := by
  rw [valueAt, Option.map_eq_none_iff, List.find?_eq_none, List.mem_map, not_exists]
  refine forall_congr' fun r => ?_
  rw [decide_eq_true_eq, not_and]

theorem valueAt_isSome_iff {k : κ} {rows : List (κ × ν)} :
    (∃ v, valueAt k rows = some v) ↔ k ∈ rows.map Prod.fst := by
  rw [← Option.isSome_iff_exists, ← not_iff_not, Option.not_isSome_iff_eq_none]
  exact valueAt_eq_none_iff

theorem valueAt_mergeRow (rows : List (κ × ν)) (r : κ × ν) (k : κ) :
    valueAt k (mergeRow combine rows r) =
      if r.1 = k then some ((valueAt r.1 rows).elim r.2 fun v => combine v r.2)
      else valueAt k rows := by
  rw [valueAt, mergeRow, Table.find?_replaceRow]
  split <;> rfl

theorem keys_mergeRow (rows : List (κ × ν)) (r : κ × ν) :
    (mergeRow combine rows r).map Prod.fst =
      if r.1 ∈ rows.map Prod.fst then rows.map Prod.fst else rows.map Prod.fst ++ [r.1] := by
  rw [mergeRow]
  generalize (valueAt r.1 rows).elim r.2 (fun v => combine v r.2) = v
  induction rows with
  | nil => rfl
  | cons q rows ih =>
    by_cases hq : q.1 = r.1
    · simp [replaceRow, hq]
    · rw [replaceRow, if_neg hq, List.map_cons, ih]
      have hmem : r.1 ∈ (q :: rows).map Prod.fst ↔ r.1 ∈ rows.map Prod.fst := by
        rw [List.map_cons, List.mem_cons]
        exact or_iff_right fun h => hq h.symm
      rw [if_congr hmem rfl rfl]
      split <;> rfl

theorem prefix_keys_mergeRow (rows : List (κ × ν)) (r : κ × ν) :
    rows.map Prod.fst <+: (mergeRow combine rows r).map Prod.fst := by
  rw [keys_mergeRow]
  split
  · exact List.prefix_refl _
  · exact List.prefix_append _ _

theorem nodup_mergeRow {rows : List (κ × ν)} (hn : (rows.map Prod.fst).Nodup) (r : κ × ν) :
    ((mergeRow combine rows r).map Prod.fst).Nodup := replaceRow_nodup _ hn

theorem mem_mergeRow {rows : List (κ × ν)} {r q : κ × ν} (hq : q ∈ mergeRow combine rows r) :
    q = (r.1, (valueAt r.1 rows).elim r.2 fun v => combine v r.2) ∨ q ∈ rows := by
  rw [mergeRow] at hq
  generalize (valueAt r.1 rows).elim r.2 (fun v => combine v r.2) = v at hq ⊢
  induction rows with
  | nil => exact .inl (List.mem_singleton.mp hq)
  | cons w rows ih =>
    rw [replaceRow] at hq
    split at hq
    · exact (List.mem_cons.mp hq).imp_right (List.mem_cons_of_mem w)
    · rcases List.mem_cons.mp hq with rfl | hq
      · exact .inr List.mem_cons_self
      · exact (ih hq).imp_right (List.mem_cons_of_mem w)

theorem filter_mergeRow (rows : List (κ × ν)) (r : κ × ν) {p : κ → Bool} (hp : p r.1 = false) :
    (mergeRow combine rows r).filter (fun q => p q.1) = rows.filter fun q => p q.1 := by
  rw [mergeRow, Table.filter_replaceRow, hp]
  rfl

/-- A combination that is there already changes nothing. -/
theorem mergeRow_fixed {rows : List (κ × ν)} {r : κ × ν} {v : ν} (hv : valueAt r.1 rows = some v)
    (hc : combine v r.2 = v) : mergeRow combine rows r = rows := by
  rw [mergeRow, hv, Option.elim_some, hc]
  induction rows with
  | nil => cases hv
  | cons q rows ih =>
    by_cases hq : q.1 = r.1
    · have hval : q.2 = v := by simpa [valueAt, hq] using hv
      rw [replaceRow, if_pos hq, ← hq, ← hval]
    · have hrest : valueAt r.1 rows = some v := by simpa [valueAt, hq] using hv
      rw [replaceRow, if_neg hq, ih hrest]

/-! ## A whole patch -/

theorem mergeRows_cons (r : κ × ν) :
    mergeRows combine base (r :: patch) = mergeRows combine (mergeRow combine base r) patch := rfl

theorem nodup_mergeRows (hn : (base.map Prod.fst).Nodup) :
    ((mergeRows combine base patch).map Prod.fst).Nodup := by
  induction patch generalizing base with
  | nil => exact hn
  | cons r patch ih => exact ih (nodup_mergeRow hn r)

theorem prefix_keys_mergeRows :
    base.map Prod.fst <+: (mergeRows combine base patch).map Prod.fst := by
  induction patch generalizing base with
  | nil => exact List.prefix_refl _
  | cons r patch ih => exact (prefix_keys_mergeRow base r).trans ih

theorem valueAt_mergeRows_unnamed {k : κ} (hk : k ∉ patch.map Prod.fst) :
    valueAt k (mergeRows combine base patch) = valueAt k base := by
  induction patch generalizing base with
  | nil => rfl
  | cons r patch ih =>
    rw [List.map_cons, List.mem_cons, not_or] at hk
    rw [mergeRows_cons, ih hk.2, valueAt_mergeRow, if_neg (Ne.symm hk.1)]

theorem valueAt_mergeRows (hp : (patch.map Prod.fst).Nodup) {r : κ × ν} (hr : r ∈ patch) :
    valueAt r.1 (mergeRows combine base patch) =
      some ((valueAt r.1 base).elim r.2 fun v => combine v r.2) := by
  induction patch generalizing base with
  | nil => cases hr
  | cons q patch ih =>
    obtain ⟨hq, hp⟩ := List.nodup_cons.mp hp
    rcases List.mem_cons.mp hr with rfl | hr
    · rw [mergeRows_cons, valueAt_mergeRows_unnamed hq, valueAt_mergeRow, if_pos rfl]
    · have hne : q.1 ≠ r.1 := fun h => hq (h ▸ List.mem_map_of_mem hr)
      rw [mergeRows_cons, ih hp hr, valueAt_mergeRow, if_neg hne]

theorem mem_mergeRows {p : κ × ν → Prop} (hbase : ∀ r ∈ base, p r) (hpatch : ∀ r ∈ patch, p r)
    (hcombine : ∀ r ∈ patch, ∀ v, p (r.1, v) → p (r.1, combine v r.2)) :
    ∀ r ∈ mergeRows combine base patch, p r := by
  induction patch generalizing base with
  | nil => exact hbase
  | cons q patch ih =>
    refine ih (fun r hr => ?_) (fun r hr => hpatch r (List.mem_cons_of_mem q hr))
      fun r hr => hcombine r (List.mem_cons_of_mem q hr)
    rcases mem_mergeRow hr with rfl | hr
    · cases hv : valueAt q.1 base with
      | none => exact hpatch q List.mem_cons_self
      | some v => exact hcombine q List.mem_cons_self v (hbase _ (mem_of_valueAt hv))
    · exact hbase r hr

theorem mergeRows_ne_nil (h : base ≠ []) : mergeRows combine base patch ≠ [] := by
  intro hnil
  have hpre : base.map Prod.fst <+: (mergeRows combine base patch).map Prod.fst :=
    prefix_keys_mergeRows
  rw [hnil, List.map_nil, List.prefix_nil, List.map_eq_nil_iff] at hpre
  exact h hpre

theorem filter_mergeRows {p : κ → Bool} (hp : ∀ r ∈ patch, p r.1 = false) :
    (mergeRows combine base patch).filter (fun q => p q.1) = base.filter fun q => p q.1 := by
  induction patch generalizing base with
  | nil => rfl
  | cons r patch ih =>
    rw [mergeRows_cons, ih fun q hq => hp q (List.mem_cons_of_mem r hq),
      filter_mergeRow base r (hp r List.mem_cons_self)]

theorem mergesInto_mergeRows (hb : (base.map Prod.fst).Nodup) (hp : (patch.map Prod.fst).Nodup) :
    MergesInto base patch (mergeRows combine base patch) := by
  refine ⟨prefix_keys_mergeRows, ?_, ?_⟩
  · apply filter_mergeRows (p := fun k => decide (k ∉ patch.map Prod.fst))
    intro r hr
    exact decide_eq_false fun h => h (List.mem_map_of_mem hr)
  · intro k hk
    obtain ⟨r, hr, rfl⟩ := List.mem_map.mp hk
    have hmem : r.1 ∈ (mergeRows combine base patch).map Prod.fst :=
      valueAt_isSome_iff.mp ⟨_, valueAt_mergeRows hp hr⟩
    exact List.count_eq_one_of_mem (nodup_mergeRows hb) hmem

theorem mergeRows_fixed (h : ∀ r ∈ patch, ∃ v, valueAt r.1 base = some v ∧ combine v r.2 = v) :
    mergeRows combine base patch = base := by
  induction patch with
  | nil => rfl
  | cons r patch ih =>
    obtain ⟨v, hv, hc⟩ := h r List.mem_cons_self
    rw [mergeRows_cons, mergeRow_fixed hv hc]
    exact ih fun q hq => h q (List.mem_cons_of_mem r hq)

/-- A patch has its whole effect the first time. -/
theorem mergeRows_twice (hp : (patch.map Prod.fst).Nodup)
    (hself : ∀ r ∈ patch, combine r.2 r.2 = r.2)
    (htwice : ∀ r ∈ patch, ∀ v, valueAt r.1 base = some v →
      combine (combine v r.2) r.2 = combine v r.2) :
    mergeRows combine (mergeRows combine base patch) patch = mergeRows combine base patch := by
  apply mergeRows_fixed
  intro r hr
  refine ⟨_, valueAt_mergeRows hp hr, ?_⟩
  cases hv : valueAt r.1 base with
  | none => exact hself r hr
  | some v => exact htwice r hr v hv

theorem mergeRows_self (hp : (patch.map Prod.fst).Nodup)
    (hself : ∀ r ∈ patch, combine r.2 r.2 = r.2) : mergeRows combine patch patch = patch :=
  mergeRows_fixed fun r hr => ⟨r.2, valueAt_of_mem hp hr, hself r hr⟩

theorem mergeRows_nil (hp : (patch.map Prod.fst).Nodup) : mergeRows combine [] patch = patch := by
  induction patch using List.reverseRecOn with
  | nil => rfl
  | append_singleton patch r ih =>
    rw [List.map_append, List.map_singleton, ← List.concat_eq_append, List.nodup_concat] at hp
    obtain ⟨hr, hpatch⟩ := hp
    have hrest := ih hpatch
    have hlast : mergeRows combine [] (patch ++ [r]) =
        mergeRow combine (mergeRows combine [] patch) r := List.foldl_append
    rw [hlast, hrest, mergeRow, valueAt_eq_none_iff.mpr hr]
    exact Table.replaceRow_append fun q hq h => hr (h ▸ List.mem_map_of_mem hq)

/-! ## Rows that stand for others -/

section Related
variable {α β : Type*} {k : κ} {es : List (κ × α)} {fs : List (κ × β)}

/-- Rows with the same keys, one by one. -/
theorem valueAt_forall₂ {R : κ → α → β → Prop}
    (h : List.Forall₂ (fun e f => e.1 = f.1 ∧ R e.1 e.2 f.2) es fs) (k : κ) :
    (valueAt k es = none ∧ valueAt k fs = none) ∨
      ∃ v w, valueAt k es = some v ∧ valueAt k fs = some w ∧ R k v w := by
  induction h with
  | nil => exact .inl ⟨rfl, rfl⟩
  | @cons e f es fs hef _ ih =>
    by_cases hk : e.1 = k
    · exact .inr ⟨e.2, f.2, by simp [valueAt, hk], by simp [valueAt, ← hef.1, hk], hk ▸ hef.2⟩
    · simpa [valueAt, hk, ← hef.1] using ih

theorem forall₂_replaceRow {R : α → β → Prop}
    (hfs : List.Forall₂ (fun e f => e.1 = f.1 ∧ R e.2 f.2) es fs) (k : κ) {x : α} {y : β}
    (hxy : R x y) :
    List.Forall₂ (fun e f => e.1 = f.1 ∧ R e.2 f.2) (replaceRow Prod.fst (k, x) es)
      (replaceRow Prod.fst (k, y) fs) := by
  induction hfs with
  | nil => exact .cons ⟨rfl, hxy⟩ .nil
  | @cons e f es fs hef hrest ih =>
    by_cases hk : e.1 = k
    · rw [replaceRow, replaceRow, if_pos hk, if_pos (hef.1 ▸ hk)]
      exact .cons ⟨rfl, hxy⟩ hrest
    · rw [replaceRow, replaceRow, if_neg hk, if_neg (hef.1 ▸ hk)]
      exact .cons hef ih

/-- A row stands for another value at its key, and the rows that stand for others are no other than
before. -/
theorem forall₂_replace {R S : α → β → Prop} {d : α} {y : β}
    (h : List.Forall₂ (fun e f => e.1 = f.1 ∧ R e.2 f.2) es fs) (hk : valueAt k es = some d)
    (hn : (es.map Prod.snd).Nodup) (hnew : S d y) (hrest : ∀ c x, c ≠ d → R c x → S c x) :
    List.Forall₂ (fun e f => e.1 = f.1 ∧ S e.2 f.2) es (replaceRow Prod.fst (k, y) fs) := by
  induction h with
  | nil => cases hk
  | @cons e f es fs hef htail ih =>
    obtain ⟨he, htailn⟩ := List.nodup_cons.mp hn
    by_cases hkey : e.1 = k
    · have hd : e.2 = d := by simpa [valueAt, hkey] using hk
      rw [replaceRow, if_pos (hef.1 ▸ hkey)]
      refine .cons ⟨hkey, hd ▸ hnew⟩ ?_
      clear ih hk hn htailn
      induction htail with
      | nil => exact .nil
      | @cons e' f' es fs hef' _ ih =>
        rw [List.map_cons, List.mem_cons, not_or] at he
        exact .cons ⟨hef'.1, hrest _ _ (fun h => he.1 (hd.trans h.symm)) hef'.2⟩ (ih he.2)
    · have hmem : valueAt k es = some d := by simpa [valueAt, hkey] using hk
      rw [replaceRow, if_neg (hef.1 ▸ hkey)]
      refine .cons ⟨hef.1, hrest _ _ (fun h => ?_) hef.2⟩ (ih hmem htailn)
      exact he (h ▸ List.mem_map_of_mem (mem_of_valueAt hmem))

end Related

end KeyedMerge

end Foundation
