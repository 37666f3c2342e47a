import Mathlib.Data.List.Induction
import Mathlib.Data.List.Nodup
import Mathlib.Data.List.Perm.Subperm
import Mathlib.Data.List.Sort

/-!
# Rows stored under their own key

`Table key` is an insertion-ordered mapping whose values carry their key: a row is
replaced where it stands, a new row goes to the end, and no two rows share a key.
A plain dictionary is the case `key = Prod.fst`.
-/

namespace Foundation

set_option autoImplicit false

universe u v
variable {κ : Type u} {ν : Type v}

structure Table (key : ν → κ) where
  rows : List ν
  nodup : (rows.map key).Nodup

/-- Overwrite the row with the same key in place, or append. -/
def replaceRow [DecidableEq κ] (key : ν → κ) (v : ν) : List ν → List ν
  | [] => [v]
  | w :: ws => if key w = key v then v :: ws else w :: replaceRow key v ws

theorem mem_map_replaceRow [DecidableEq κ] (key : ν → κ) (v : ν) (ws : List ν) (k : κ) :
    k ∈ (replaceRow key v ws).map key ↔ k = key v ∨ k ∈ ws.map key := by
  induction ws with
  | nil => simp [replaceRow]
  | cons w ws ih =>
    by_cases hk : key w = key v
    · simp [replaceRow, hk]
    · simp only [replaceRow, if_neg hk, List.map_cons, List.mem_cons, ih]
      exact or_left_comm

theorem replaceRow_nodup [DecidableEq κ] {key : ν → κ} (v : ν) {ws : List ν}
    (h : (ws.map key).Nodup) : ((replaceRow key v ws).map key).Nodup := by
  induction ws with
  | nil => simp [replaceRow]
  | cons w ws ih =>
    obtain ⟨hw, hws⟩ := List.nodup_cons.mp h
    by_cases hk : key w = key v
    · simp only [replaceRow, if_pos hk, List.map_cons, List.nodup_cons]
      exact ⟨hk ▸ hw, hws⟩
    · simp only [replaceRow, if_neg hk, List.map_cons, List.nodup_cons]
      refine ⟨fun hm => ?_, ih hws⟩
      rcases (mem_map_replaceRow key v ws _).mp hm with he | hm
      · exact hk he
      · exact hw hm

theorem filterMap_keys_sublist {key : ν → κ} {f : ν → Option ν}
    (hf : ∀ v w, f v = some w → key w = key v) (ws : List ν) :
    ((ws.filterMap f).map key).Sublist (ws.map key) := by
  induction ws with
  | nil => simp
  | cons w ws ih =>
    cases hw : f w with
    | none => simpa [List.filterMap_cons, hw] using ih.cons (key w)
    | some x =>
      have hx : key x = key w := hf w x hw
      simpa [List.filterMap_cons, hw, hx] using ih.cons_cons (key w)

namespace Table
variable {key : ν → κ}

@[ext] theorem ext {s t : Table key} (h : s.rows = t.rows) : s = t := by
  cases s; cases t; cases h; rfl

def empty : Table key := ⟨[], by simp⟩

def size (t : Table key) : Nat := t.rows.length

/-- Keep, rewrite or delete every row; a rewritten row keeps its key. -/
def filterMap (t : Table key) (f : ν → Option ν)
    (hf : ∀ v w, f v = some w → key w = key v) : Table key :=
  ⟨t.rows.filterMap f, (filterMap_keys_sublist hf t.rows).nodup t.nodup⟩

variable [DecidableEq κ]

def get? (t : Table key) (k : κ) : Option ν := t.rows.find? fun v => key v = k

def put (t : Table key) (v : ν) : Table key := ⟨replaceRow key v t.rows, replaceRow_nodup v t.nodup⟩

def drop (t : Table key) (k : κ) : Table key :=
  ⟨t.rows.filter fun v => key v ≠ k, (List.filter_sublist.map key).nodup t.nodup⟩

/-- Store the rows one after the other, as a loader does. -/
def ofRows (rows : List ν) : Table key := rows.foldl put empty

@[simp] theorem get?_empty (k : κ) : (empty : Table key).get? k = none := rfl

theorem key_of_get? {t : Table key} {k : κ} {v : ν} (h : t.get? k = some v) : key v = k := by
  simpa using List.find?_some h

theorem mem_of_get? {t : Table key} {k : κ} {v : ν} (h : t.get? k = some v) : v ∈ t.rows :=
  List.mem_of_find?_eq_some h

theorem find?_of_nodup {ws : List ν} (h : (ws.map key).Nodup) {v : ν} (hv : v ∈ ws) :
    (ws.find? fun w => key w = key v) = some v := by
  induction ws with
  | nil => cases hv
  | cons w ws ih =>
    obtain ⟨hw, hws⟩ := List.nodup_cons.mp h
    rcases List.mem_cons.mp hv with rfl | hv
    · simp
    · have hne : key w ≠ key v := fun he => hw (he ▸ List.mem_map_of_mem hv)
      simpa [List.find?_cons, hne] using ih hws hv

/-- A row with the others, whose keys are not its own. -/
theorem perm_cons_filter {ws : List ν} (h : (ws.map key).Nodup) {v : ν} (hv : v ∈ ws) :
    ws.Perm (v :: ws.filter fun w => key w ≠ key v) := by
  induction ws with
  | nil => cases hv
  | cons w ws ih =>
    obtain ⟨hw, hws⟩ := List.nodup_cons.mp h
    rcases List.mem_cons.mp hv with rfl | hv
    · have hrest : ws.filter (fun w => key w ≠ key v) = ws := by
        rw [List.filter_eq_self]
        intro w hmem
        exact decide_eq_true fun he => hw (he ▸ List.mem_map_of_mem hmem)
      rw [List.filter_cons_of_neg (by simp), hrest]
    · have hne : key w ≠ key v := fun he => hw (he ▸ List.mem_map_of_mem hv)
      rw [List.filter_cons_of_pos (by simpa using hne)]
      exact ((ih hws hv).cons w).trans (List.Perm.swap v w _)

theorem get?_key {t : Table key} {v : ν} (hv : v ∈ t.rows) : t.get? (key v) = some v :=
  find?_of_nodup t.nodup hv

theorem get?_eq_none_iff {t : Table key} {k : κ} :
    t.get? k = none ↔ ∀ v ∈ t.rows, key v ≠ k := by
  simp [get?]

theorem find?_replaceRow (v : ν) (ws : List ν) (k : κ) :
    ((replaceRow key v ws).find? fun w => key w = k) =
      if key v = k then some v else ws.find? fun w => key w = k := by
  induction ws with
  | nil => by_cases hk : key v = k <;> simp [replaceRow, hk]
  | cons w ws ih =>
    by_cases hw : key w = key v
    · by_cases hk : key v = k <;> simp [replaceRow, hw, hk]
    · by_cases hk : key w = k
      · have hv : ¬ key v = k := fun he => hw (hk.trans he.symm)
        rw [replaceRow, if_neg hw, if_neg hv]
        simp [hk]
      · simp [replaceRow, hw, hk, ih]

@[simp] theorem get?_put (t : Table key) (v : ν) (k : κ) :
    (t.put v).get? k = if key v = k then some v else t.get? k :=
  find?_replaceRow v t.rows k

theorem mem_put {t : Table key} {v w : ν} (h : w ∈ (t.put v).rows) : w = v ∨ w ∈ t.rows := by
  have hget := get?_key h
  rw [get?_put] at hget
  split at hget
  · exact Or.inl (Option.some.inj hget).symm
  · exact Or.inr (mem_of_get? hget)

/-- Storing a stored row again changes nothing. -/
theorem put_of_get? {t : Table key} {v : ν} (h : t.get? (key v) = some v) : t.put v = t := by
  have go (ws : List ν) (hn : (ws.map key).Nodup) (hv : v ∈ ws) : replaceRow key v ws = ws := by
    induction ws with
    | nil => cases hv
    | cons w ws ih =>
      obtain ⟨hw, hws⟩ := List.nodup_cons.mp hn
      rcases List.mem_cons.mp hv with rfl | hv
      · simp [replaceRow]
      · have hne : key w ≠ key v := fun he => hw (he ▸ List.mem_map_of_mem hv)
        rw [replaceRow, if_neg hne, ih hws hv]
  exact ext (go t.rows t.nodup (mem_of_get? h))

theorem ofRows_concat (ws : List ν) (v : ν) : (ofRows (ws ++ [v]) : Table key) = (ofRows ws).put v :=
  List.foldl_append

/-- A loader keeps the last row of every key. -/
theorem get?_ofRows (ws : List ν) (k : κ) :
    (ofRows ws : Table key).get? k = ws.reverse.find? fun v => key v = k := by
  induction ws using List.reverseRecOn with
  | nil => rfl
  | append_singleton ws v ih =>
    rw [ofRows_concat, get?_put, ih, List.reverse_append, List.reverse_singleton,
      List.singleton_append, List.find?_cons]
    by_cases hv : key v = k <;> simp [hv]

section Map
variable {κ' : Type*} {ν' : Type*} [DecidableEq κ'] {key' : ν' → κ'} {f : ν → ν'}

theorem replaceRow_map (h : ∀ v w, key' (f v) = key' (f w) ↔ key v = key w) (v : ν) (ws : List ν) :
    replaceRow key' (f v) (ws.map f) = (replaceRow key v ws).map f := by
  induction ws with
  | nil => rfl
  | cons w ws ih =>
    by_cases hw : key w = key v
    · rw [List.map_cons, replaceRow, if_pos ((h w v).mpr hw), replaceRow, if_pos hw, List.map_cons]
    · rw [List.map_cons, replaceRow, if_neg fun he => hw ((h w v).mp he), replaceRow, if_neg hw,
        List.map_cons, ih]

/-- Loading renamed rows is renaming what was loaded. -/
theorem ofRows_map (h : ∀ v w, key' (f v) = key' (f w) ↔ key v = key w) (ws : List ν) :
    (ofRows (ws.map f) : Table key').rows = (ofRows ws : Table key).rows.map f := by
  induction ws using List.reverseRecOn with
  | nil => rfl
  | append_singleton ws v ih =>
    rw [List.map_append, List.map_singleton, ofRows_concat, ofRows_concat]
    change replaceRow key' (f v) (ofRows (ws.map f) : Table key').rows = _
    rw [ih, replaceRow_map h]
    rfl

end Map

theorem mem_ofRows {rows : List ν} {w : ν} (h : w ∈ (ofRows rows : Table key).rows) : w ∈ rows := by
  have go (vs : List ν) : ∀ t : Table key, w ∈ (vs.foldl put t).rows → w ∈ t.rows ∨ w ∈ vs := by
    induction vs with
    | nil => exact fun t h => Or.inl h
    | cons v vs ih =>
      intro t h
      rcases ih (t.put v) h with h | h
      · rcases mem_put h with rfl | h
        · exact Or.inr List.mem_cons_self
        · exact Or.inl h
      · exact Or.inr (List.mem_cons_of_mem v h)
  exact (go rows empty h).resolve_left (by simp [empty])

@[simp] theorem get?_drop (t : Table key) (k k' : κ) :
    (t.drop k).get? k' = if k = k' then none else t.get? k' := by
  by_cases hk : k = k'
  · subst hk
    rw [if_pos rfl, get?_eq_none_iff]
    intro v hv
    simpa using (List.mem_filter.mp hv).2
  · rw [if_neg hk]
    have go (ws : List ν) : ((ws.filter fun v => decide (key v ≠ k)).find? fun v => key v = k') =
        ws.find? fun v => key v = k' := by
      rw [List.find?_filter]
      congr 1
      funext v
      by_cases hv : key v = k'
      · simp [hv, Ne.symm hk]
      · simp [hv]
    exact go t.rows

theorem get?_foldl_drop (ks : List κ) (t : Table key) (k : κ) :
    (ks.foldl drop t).get? k = if k ∈ ks then none else t.get? k := by
  induction ks generalizing t with
  | nil => simp
  | cons k' ks ih =>
    rw [List.foldl_cons, ih, get?_drop]
    by_cases hk : k' = k
    · simp [hk]
    · simp [hk, Ne.symm hk]

theorem size_drop_le (t : Table key) (k : κ) : (t.drop k).size ≤ t.size := List.length_filter_le _ _

theorem size_foldl_drop_le (ks : List κ) (t : Table key) : (ks.foldl drop t).size ≤ t.size := by
  induction ks generalizing t with
  | nil => exact Nat.le_refl _
  | cons k ks ih => exact (ih _).trans (size_drop_le t k)

theorem size_drop {t : Table key} {k : κ} {v : ν} (h : t.get? k = some v) :
    (t.drop k).size + 1 = t.size := by
  obtain rfl := key_of_get? h
  exact (perm_cons_filter t.nodup (mem_of_get? h)).length_eq.symm

theorem size_foldl_drop {ks : List κ} (hn : ks.Nodup) {t : Table key}
    (h : ∀ k ∈ ks, ∃ v, t.get? k = some v) : (ks.foldl drop t).size + ks.length = t.size := by
  induction ks generalizing t with
  | nil => rfl
  | cons k ks ih =>
    obtain ⟨hk, hks⟩ := List.nodup_cons.mp hn
    obtain ⟨v, hv⟩ := h k List.mem_cons_self
    have hrest : ∀ k' ∈ ks, ∃ v, (t.drop k).get? k' = some v := by
      intro k' hk'
      have hne : k ≠ k' := fun heq => hk (heq ▸ hk')
      rw [get?_drop, if_neg hne]
      exact h k' (List.mem_cons_of_mem k hk')
    have hsize := ih hks hrest
    have hdrop := size_drop hv
    rw [List.foldl_cons, List.length_cons]
    omega

theorem size_put (t : Table key) (v : ν) :
    (t.put v).size = if (t.get? (key v)).isSome then t.size else t.size + 1 := by
  have go (ws : List ν) : (replaceRow key v ws).length =
      if (ws.find? fun w => key w = key v).isSome then ws.length else ws.length + 1 := by
    induction ws with
    | nil => rfl
    | cons w ws ih =>
      by_cases hw : key w = key v
      · simp [replaceRow, hw]
      · rw [replaceRow, if_neg hw, List.length_cons, ih, List.find?_cons_of_neg (by simpa using hw)]
        split <;> rfl
  exact go t.rows

theorem size_filterMap_le (t : Table key) (f : ν → Option ν)
    (hf : ∀ v w, f v = some w → key w = key v) : (t.filterMap f hf).size ≤ t.size :=
  List.length_filterMap_le f t.rows

@[simp] theorem get?_filterMap (t : Table key) (f : ν → Option ν)
    (hf : ∀ v w, f v = some w → key w = key v) (k : κ) :
    (t.filterMap f hf).get? k = (t.get? k).bind f := by
  have go (ws : List ν) (hn : (ws.map key).Nodup) :
      ((ws.filterMap f).find? fun v => key v = k) = (ws.find? fun v => key v = k).bind f := by
    induction ws with
    | nil => rfl
    | cons w ws ih =>
      obtain ⟨hw, hws⟩ := List.nodup_cons.mp hn
      have ih := ih hws
      by_cases hk : key w = k
      · have hnone : ((ws.filterMap f).find? fun v => key v = k) = none := by
          rw [ih]
          have : (ws.find? fun v => key v = k) = none := by
            simp only [List.find?_eq_none, decide_eq_true_eq]
            exact fun v hv he => hw (hk ▸ he ▸ List.mem_map_of_mem hv)
          simp [this]
        cases hfw : f w with
        | none => simpa [List.filterMap_cons, hfw, List.find?_cons, hk] using hnone
        | some x => simp [hfw, hf w x hfw, hk]
      · cases hfw : f w with
        | none => simpa [List.filterMap_cons, hfw, List.find?_cons, hk] using ih
        | some x => simpa [List.filterMap_cons, hfw, hf w x hfw, hk] using ih
  exact go t.rows t.nodup

theorem own_of_find? {α : Type*} (own : α → κ) {xs : List α} {k : κ} {x : α}
    (h : (xs.find? fun x => own x = k) = some x) : own x = k := by
  simpa using List.find?_some h

/-- A loop that rewrites or deletes, for each of the listed rows, only that row's own key. -/
theorem get?_foldl {α : Type*} (own : α → κ) {f : Table key → α → Table key} {g : α → Option ν}
    (hf : ∀ t x k, (f t x).get? k = if own x = k then g x else t.get? k)
    {xs : List α} (hn : (xs.map own).Nodup) (t : Table key) (k : κ) :
    (xs.foldl f t).get? k = (xs.find? fun x => own x = k).elim (t.get? k) g := by
  induction xs generalizing t with
  | nil => rfl
  | cons x xs ih =>
    obtain ⟨hx, hxs⟩ := List.nodup_cons.mp hn
    rw [List.foldl_cons, ih hxs]
    by_cases hk : own x = k
    · have hnone : (xs.find? fun y => own y = k) = none := by
        simp only [List.find?_eq_none, decide_eq_true_eq]
        exact fun y hy he => hx (hk ▸ he ▸ List.mem_map_of_mem hy)
      simp [hnone, hk, hf]
    · simp only [List.find?_cons, hk, decide_false]
      cases xs.find? fun y => own y = k with
      | none => simp [hf, hk]
      | some y => rfl

theorem replaceRow_append {v : ν} {ws : List ν} (h : ∀ w ∈ ws, key w ≠ key v) :
    replaceRow key v ws = ws ++ [v] := by
  induction ws with
  | nil => rfl
  | cons w ws ih =>
    have hw : key w ≠ key v := h w List.mem_cons_self
    simp [replaceRow, hw, ih fun x hx => h x (List.mem_cons_of_mem w hx)]

/-- Rows with distinct keys are loaded as they stand. -/
theorem rows_ofRows {ws : List ν} (h : (ws.map key).Nodup) : (ofRows ws : Table key).rows = ws := by
  have go (vs : List ν) : ∀ t : Table key, ((t.rows ++ vs).map key).Nodup →
      (vs.foldl put t).rows = t.rows ++ vs := by
    induction vs with
    | nil => intro t _; simp
    | cons v vs ih =>
      intro t hn
      have hv : ∀ w ∈ t.rows, key w ≠ key v := by
        intro w hw he
        rw [List.map_append, List.nodup_append] at hn
        exact hn.2.2 (key w) (List.mem_map_of_mem hw) (key v) (by simp) he
      have hput : (t.put v).rows = t.rows ++ [v] := replaceRow_append hv
      rw [List.foldl_cons, ih (t.put v) (by simpa [hput] using hn), hput]
      simp
  simpa [ofRows, empty] using go ws empty (by simpa [empty] using h)

theorem replaceRow_subperm (v : ν) (ws : List ν) : (replaceRow key v ws).Subperm (ws ++ [v]) := by
  induction ws with
  | nil => exact List.Subperm.refl _
  | cons w ws ih =>
    by_cases hw : key w = key v
    · rw [replaceRow, if_pos hw]
      have hperm : (v :: ws).Perm (ws ++ [v]) := List.perm_append_singleton v ws |>.symm
      exact hperm.subperm.trans (List.sublist_cons_self w _).subperm
    · rw [replaceRow, if_neg hw]
      exact (List.subperm_cons w).mpr ih

/-- The rows that are kept are among the rows that were stored, each as often as there. -/
theorem ofRows_subperm (ws : List ν) : (ofRows ws : Table key).rows.Subperm ws := by
  have go (vs : List ν) : ∀ t : Table key, (vs.foldl put t).rows.Subperm (t.rows ++ vs) := by
    induction vs with
    | nil =>
      intro t
      rw [List.append_nil]
      exact List.Subperm.refl _
    | cons v vs ih =>
      intro t
      have hrow : (t.put v).rows.Subperm (t.rows ++ [v]) := replaceRow_subperm v t.rows
      have hput := (List.subperm_append_right vs).mpr hrow
      rw [List.append_assoc] at hput
      exact (ih (t.put v)).trans hput
  exact go ws empty

theorem ofRows_ne_nil {ws : List ν} (h : ws ≠ []) : (ofRows ws : Table key).rows ≠ [] := by
  obtain ⟨front, v, rfl⟩ := (List.eq_nil_or_concat ws).resolve_left h
  intro hnil
  have hmem := (mem_map_replaceRow key v (ofRows front : Table key).rows (key v)).mpr (Or.inl rfl)
  rw [List.concat_eq_append, ofRows, List.foldl_append] at hnil
  rw [show replaceRow key v (ofRows front : Table key).rows = [] from hnil] at hmem
  cases hmem

/-! ## The rows of some keys -/

theorem filter_replaceRow (p : κ → Bool) (v : ν) (ws : List ν) :
    (replaceRow key v ws).filter (fun w => p (key w)) =
      if p (key v) then replaceRow key v (ws.filter fun w => p (key w))
      else ws.filter fun w => p (key w) := by
  induction ws with
  | nil => cases hv : p (key v) <;> simp [replaceRow, hv]
  | cons w ws ih =>
    by_cases hk : key w = key v
    · cases hv : p (key v) <;> simp [replaceRow, hk, hv]
    · cases hv : p (key v) <;> cases hw : p (key w) <;> simp_all [replaceRow]

def restrict (t : Table key) (p : κ → Bool) : Table key :=
  ⟨t.rows.filter fun v => p (key v), (List.filter_sublist.map key).nodup t.nodup⟩

theorem restrict_put (t : Table key) (p : κ → Bool) (v : ν) :
    (t.put v).restrict p = if p (key v) then (t.restrict p).put v else t.restrict p := by
  apply ext
  refine (filter_replaceRow p v t.rows).trans ?_
  split <;> rfl

theorem restrict_drop (t : Table key) (p : κ → Bool) (k : κ) :
    (t.drop k).restrict p = (t.restrict p).drop k := by
  apply ext
  simp only [restrict, drop, List.filter_filter]
  congr 1
  funext v
  exact Bool.and_comm _ _

theorem restrict_drop_other {t : Table key} {p : κ → Bool} {k : κ} (h : p k = false) :
    (t.drop k).restrict p = t.restrict p := by
  rw [restrict_drop]
  apply ext
  rw [drop, List.filter_eq_self]
  intro v hv
  have hp := (List.mem_filter.mp hv).2
  apply decide_eq_true
  rintro rfl
  rw [h] at hp
  cases hp

theorem get?_restrict {t : Table key} {p : κ → Bool} {k : κ} (h : p k = true) :
    (t.restrict p).get? k = t.get? k := by
  rw [get?, restrict, List.find?_filter, get?]
  congr 1
  funext v
  by_cases hv : key v = k
  · simp [hv, h]
  · simp [hv]

end Table

section Sorting
variable {α : Type u} {β : Type v} [LinearOrder β]

/-- A stable sort by a key: rows with equal keys stay in their order. -/
def sortedBy (key : α → β) (xs : List α) : List α := xs.insertionSort fun a b => key a ≤ key b

theorem sortedBy_perm (key : α → β) (xs : List α) : (sortedBy key xs).Perm xs :=
  List.perm_insertionSort _ xs

@[simp] theorem mem_sortedBy (key : α → β) (xs : List α) (a : α) : a ∈ sortedBy key xs ↔ a ∈ xs :=
  (sortedBy_perm key xs).mem_iff

theorem sortedBy_pairwise (key : α → β) (xs : List α) :
    (sortedBy key xs).Pairwise fun a b => key a ≤ key b := by
  have : Std.Total fun a b : α => key a ≤ key b := ⟨fun a b => le_total (key a) (key b)⟩
  have : IsTrans α fun a b => key a ≤ key b := ⟨fun _ _ _ => le_trans⟩
  exact List.pairwise_insertionSort _ xs

@[simp] theorem sortedBy_sortedBy (key : α → β) (xs : List α) :
    sortedBy key (sortedBy key xs) = sortedBy key xs :=
  (sortedBy_pairwise key xs).insertionSort_eq

/-- Rows with distinct keys have one sorted order. -/
theorem sortedBy_eq_of_perm {key : α → β} {xs ys : List α} (hp : ys.Perm xs)
    (hxs : (xs.map key).Nodup) (hys : ys.Pairwise fun a b => key a ≤ key b) :
    ys = sortedBy key xs := by
  have hperm := hp.trans (sortedBy_perm key xs).symm
  apply List.Perm.eq_of_pairwise _ hys (sortedBy_pairwise key xs) hperm
  intro a b ha hb hab hba
  exact List.inj_on_of_nodup_map hxs (hp.mem_iff.mp ha) ((mem_sortedBy key xs b).mp hb)
    (le_antisymm hab hba)

theorem filter_sortedBy {key : α → β} {xs : List α} (hxs : (xs.map key).Nodup) (p : α → Bool) :
    (sortedBy key xs).filter p = sortedBy key (xs.filter p) := by
  apply sortedBy_eq_of_perm ((sortedBy_perm key xs).filter p)
  · exact (List.filter_sublist.map key).nodup hxs
  · exact (sortedBy_pairwise key xs).sublist List.filter_sublist

/-- `x` is the first row of `p` in the order of the key: the rows of `p` before it have larger keys,
those after it have no smaller ones. -/
def FirstBy (key : α → β) (p : α → Bool) (xs : List α) (x : α) : Prop :=
  ∃ before after, xs = before ++ x :: after ∧ p x = true ∧
    (∀ y ∈ before, p y = true → key x < key y) ∧ ∀ y ∈ after, p y = true → key x ≤ key y

theorem FirstBy.mem {key : α → β} {p : α → Bool} {xs : List α} {x : α} (h : FirstBy key p xs x) :
    x ∈ xs ∧ p x = true := by
  obtain ⟨before, after, rfl, hp, -, -⟩ := h
  exact ⟨List.mem_append_right before List.mem_cons_self, hp⟩

theorem FirstBy.le {key : α → β} {p : α → Bool} {xs : List α} {x y : α} (h : FirstBy key p xs x)
    (hy : y ∈ xs) (hp : p y = true) : key x ≤ key y := by
  obtain ⟨before, after, rfl, -, hbefore, hafter⟩ := h
  rcases List.mem_append.mp hy with hy | hy
  · exact (hbefore y hy hp).le
  · rcases List.mem_cons.mp hy with rfl | hy
    · exact le_rfl
    · exact hafter y hy hp

theorem find?_orderedInsert (key : α → β) (p : α → Bool) (a : α) {xs : List α}
    (h : xs.Pairwise fun a b => key a ≤ key b) :
    (xs.orderedInsert (fun a b => key a ≤ key b) a).find? p =
      if p a then
        match xs.find? p with
        | none => some a
        | some x => if key a ≤ key x then some a else some x
      else xs.find? p := by
  induction xs with
  | nil => by_cases hp : p a <;> simp [hp]
  | cons b xs ih =>
    obtain ⟨hb, hxs⟩ := List.pairwise_cons.mp h
    rw [List.orderedInsert_cons]
    by_cases hab : key a ≤ key b
    · rw [if_pos hab, List.find?_cons]
      by_cases hp : p a
      · have hle : ∀ x, (b :: xs).find? p = some x → key a ≤ key x := by
          intro x hx
          rcases List.mem_cons.mp (List.mem_of_find?_eq_some hx) with rfl | hmem
          · exact hab
          · exact hab.trans (hb x hmem)
        simp only [hp, if_true]
        cases hx : (b :: xs).find? p with
        | none => rfl
        | some x => simp [hle x hx]
      · simp [hp]
    · rw [if_neg hab, List.find?_cons]
      by_cases hpb : p b
      · simp [hpb, hab]
      · simp [hpb, ih hxs]

theorem firstBy_cons (key : α → β) (p : α → Bool) (a : α) (xs : List α) (x : α) :
    FirstBy key p (a :: xs) x ↔ (x = a ∧ p a = true ∧ ∀ y ∈ xs, p y = true → key a ≤ key y) ∨
      (FirstBy key p xs x ∧ (p a = true → key x < key a)) := by
  constructor
  · rintro ⟨before, after, heq, hp, hbefore, hafter⟩
    cases before with
    | nil =>
      obtain ⟨rfl, rfl⟩ := List.cons.inj heq
      exact .inl ⟨rfl, hp, hafter⟩
    | cons b before =>
      obtain ⟨rfl, rfl⟩ := List.cons.inj heq
      refine .inr ⟨⟨before, after, rfl, hp, fun y hy => ?_, hafter⟩, ?_⟩
      · exact hbefore y (List.mem_cons_of_mem a hy)
      · exact hbefore a List.mem_cons_self
  · rintro (⟨rfl, hp, hxs⟩ | ⟨⟨before, after, rfl, hp, hbefore, hafter⟩, ha⟩)
    · exact ⟨[], xs, rfl, hp, nofun, hxs⟩
    · refine ⟨a :: before, after, rfl, hp, fun y hy => ?_, hafter⟩
      rcases List.mem_cons.mp hy with rfl | hy
      · exact ha
      · exact hbefore y hy

/-- The stable sort brings the first row of `p` to the front of the rows of `p`. -/
theorem find?_sortedBy (key : α → β) (p : α → Bool) (xs : List α) (x : α) :
    (sortedBy key xs).find? p = some x ↔ FirstBy key p xs x := by
  induction xs generalizing x with
  | nil =>
    constructor
    · intro h
      cases h
    · intro h
      cases h.mem.1
  | cons a xs ih =>
    have hcons : sortedBy key (a :: xs) =
        (sortedBy key xs).orderedInsert (fun a b => key a ≤ key b) a := rfl
    rw [hcons, find?_orderedInsert key p a (sortedBy_pairwise key xs), firstBy_cons, ← ih]
    by_cases hp : p a = true
    · rw [if_pos hp]
      cases hx : (sortedBy key xs).find? p with
      | none =>
        have hnone : ∀ y ∈ xs, ¬p y = true := by simpa using hx
        have hall : ∀ y ∈ xs, p y = true → key a ≤ key y := fun y hy hpy => absurd hpy (hnone y hy)
        simp only [hp, reduceCtorEq, false_and, or_false, Option.some.injEq]
        exact ⟨fun h => ⟨h.symm, trivial, hall⟩, fun h => h.1.symm⟩
      | some z =>
        have hz := (ih z).mp hx
        by_cases haz : key a ≤ key z
        · have hall : ∀ y ∈ xs, p y = true → key a ≤ key y := fun y hy hpy => haz.trans (hz.le hy hpy)
          have hno : ∀ w, some z = some w → ¬key w < key a := by
            intro w hw
            cases hw
            exact not_lt.mpr haz
          simp only [haz, if_true, hp, forall_const]
          constructor
          · intro h
            cases h
            exact .inl ⟨rfl, trivial, hall⟩
          · rintro (⟨rfl, -⟩ | ⟨hw, hlt⟩)
            · rfl
            · exact absurd hlt (hno x hw)
        · simp only [haz, if_false, hp, forall_const]
          constructor
          · intro h
            cases h
            exact .inr ⟨rfl, not_le.mp haz⟩
          · rintro (⟨rfl, -, hall⟩ | ⟨hw, -⟩)
            · exact absurd (hall z hz.mem.1 hz.mem.2) haz
            · exact hw
    · simp [hp]

/-- The same rows in the order of a sort key, as a dump with `sort_keys` leaves them. -/
def Table.sortRows {κ : Type*} {key : α → κ} (t : Table key) (ord : α → β) : Table key :=
  ⟨sortedBy ord t.rows, ((sortedBy_perm ord t.rows).map key).nodup_iff.mpr t.nodup⟩

@[simp] theorem Table.get?_sortRows {κ : Type*} [DecidableEq κ] {key : α → κ} (t : Table key)
    (ord : α → β) (k : κ) : (t.sortRows ord).get? k = t.get? k := by
  cases ht : t.get? k with
  | none =>
    rw [get?_eq_none_iff] at ht ⊢
    exact fun v hv => ht v ((mem_sortedBy ord t.rows v).mp hv)
  | some v =>
    have hv : v ∈ (t.sortRows ord).rows := (mem_sortedBy ord t.rows v).mpr (mem_of_get? ht)
    rw [← key_of_get? ht]
    exact get?_key hv

end Sorting

end Foundation
