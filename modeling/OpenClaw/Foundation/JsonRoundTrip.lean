import OpenClaw.Foundation.JsonLayout

/-!
# Reading back what was written

`loads` inverts `dumps` on every value whose objects have distinct keys. On any other value it
drops the fields whose key comes again, and then the value read has a shorter text.
-/

namespace Foundation

set_option autoImplicit false

namespace Json
variable {φ : Type}

/-! ## One line -/

section Flat
variable (repr : φ → List Char) (sep : Separators)

mutual

/-- Without line breaks the depth does not matter. -/
theorem renderAt_flat (d : ℕ) : ∀ j : Json φ, renderAt repr (Layout.flat sep) d j = render repr sep j
  | .null => by rw [renderAt, render]
  | .bool true => by rw [renderAt, render]
  | .bool false => by rw [renderAt, render]
  | .int i => by rw [renderAt, render]
  | .float x => by rw [renderAt, render]
  | .str s => by rw [renderAt, render]
  | .arr [] => by rw [renderAt, render]
  | .arr (j :: items) => by
    rw [renderAt, render, renderAt_flat (d + 1) j, renderItemsAt_flat d items]
    rfl
  | .obj [] => by rw [renderAt, render]
  | .obj ((k, j) :: fields) => by
    rw [renderAt, render, renderAt_flat (d + 1) j, renderFieldsAt_flat d fields]
    rfl

theorem renderItemsAt_flat (d : ℕ) :
    ∀ items : List (Json φ), renderItemsAt repr (Layout.flat sep) d items = renderItems repr sep items
  | [] => by rw [renderItemsAt, renderItems]
  | j :: items => by
    rw [renderItemsAt, renderItems, renderAt_flat (d + 1) j, renderItemsAt_flat d items]
    rfl

theorem renderFieldsAt_flat (d : ℕ) : ∀ fields : List (PyStr × Json φ),
    renderFieldsAt repr (Layout.flat sep) d fields = renderFields repr sep fields
  | [] => by rw [renderFieldsAt, renderFields]
  | (k, j) :: fields => by
    rw [renderFieldsAt, renderFields, renderAt_flat (d + 1) j, renderFieldsAt_flat d fields]
    rfl

end

end Flat

/-! ## Distinct keys -/

/-- Every object in the value has distinct keys, as every Python dictionary does. -/
inductive Valid : Json φ → Prop where
  | null : Valid .null
  | bool (b : Bool) : Valid (.bool b)
  | int (i : ℤ) : Valid (.int i)
  | float (x : φ) : Valid (.float x)
  | str (s : PyStr) : Valid (.str s)
  | arr {items : List (Json φ)} : (∀ j ∈ items, Valid j) → Valid (.arr items)
  | obj {fields : List (PyStr × Json φ)} : (fields.map Prod.fst).Nodup →
      (∀ f ∈ fields, Valid f.2) → Valid (.obj fields)

theorem keys_collapseField (fields : List (PyStr × Json φ)) :
    (fields.map collapseField).map Prod.fst = fields.map Prod.fst := by
  rw [List.map_map]
  rfl

/-- A value with distinct keys has nothing to collapse. -/
theorem collapse_of_valid {j : Json φ} (hv : Valid j) : j.collapse = j := by
  induction hv with
  | null => rw [collapse]
  | bool b => rw [collapse]
  | int i => rw [collapse]
  | float x => rw [collapse]
  | str s => rw [collapse]
  | @arr items _ ih =>
    rw [collapse, collapseItems_eq, List.map_congr_left ih, List.map_id']
  | @obj fields hk _ ih =>
    have hfields : fields.map collapseField = fields := by
      conv_rhs => rw [← List.map_id fields]
      exact List.map_congr_left fun f hf => Prod.ext rfl (ih f hf)
    rw [collapse, collapseFields_eq, hfields]
    exact congrArg obj (Table.rows_ofRows hk)

theorem valid_collapse (j : Json φ) : Valid j.collapse := by
  induction j using Json.induction with
  | null => rw [collapse]; exact .null
  | bool b => rw [collapse]; exact .bool b
  | int i => rw [collapse]; exact .int i
  | float x => rw [collapse]; exact .float x
  | str s => rw [collapse]; exact .str s
  | arr items ih =>
    rw [collapse, collapseItems_eq]
    refine .arr fun j hj => ?_
    obtain ⟨i, hi, rfl⟩ := List.mem_map.mp hj
    exact ih i hi
  | obj fields ih =>
    rw [collapse, collapseFields_eq]
    refine .obj (Table.nodup _) fun f hf => ?_
    obtain ⟨g, hg, rfl⟩ := List.mem_map.mp (Table.mem_ofRows hf)
    exact ih g hg

section Values
variable (F : FloatFormat φ) (sep : Separators)

/-- `json.loads(json.dumps(j))` for any value. -/
theorem loads_dumps_collapse (j : Json φ) : loads F.read (dumps F.repr sep j) = some j.collapse := by
  have h := loads_renderAt F (Layout.flat sep) j
  rwa [renderAt_flat] at h

/-- `json.loads(json.dumps(j)) == j`. -/
theorem loads_dumps {j : Json φ} (hv : Valid j) : loads F.read (dumps F.repr sep j) = some j := by
  rw [loads_dumps_collapse, collapse_of_valid hv]

/-- Two values with the same text are equal. -/
theorem dumps_injective {j j' : Json φ} (hv : Valid j) (hv' : Valid j')
    (h : dumps F.repr sep j = dumps F.repr sep j') : j = j' := by
  have hj := loads_dumps F sep hv
  rw [h, loads_dumps F sep hv'] at hj
  exact (Option.some.inj hj).symm

end Values

/-! ## Lost fields -/

section Width
variable (repr : φ → List Char) (sep : Separators)

theorem length_render_arr {items : List (Json φ)} (h : items ≠ []) :
    (render repr sep (.arr items)).length + sep.item.length =
      (renderItems repr sep items).length + 2 := by
  cases items with
  | nil => exact absurd rfl h
  | cons j items =>
    simp only [render, renderItems, List.length_cons, List.length_append, List.length_nil]
    omega

theorem length_render_obj {fields : List (PyStr × Json φ)} (h : fields ≠ []) :
    (render repr sep (.obj fields)).length + sep.item.length =
      (renderFields repr sep fields).length + 2 := by
  cases fields with
  | nil => exact absurd rfl h
  | cons f fields =>
    simp only [render, renderFields, List.length_cons, List.length_append, List.length_nil]
    omega

/-- What one field takes. -/
def fieldWidth (f : PyStr × Json φ) : ℕ :=
  sep.item.length + (quote f.1).length + sep.key.length + (render repr sep f.2).length

theorem length_renderFields (fields : List (PyStr × Json φ)) :
    (renderFields repr sep fields).length = (fields.map (fieldWidth repr sep)).sum := by
  induction fields with
  | nil => simp [renderFields]
  | cons f fields ih =>
    simp only [renderFields, List.length_append, ih, List.map_cons, List.sum_cons, fieldWidth]
    omega

theorem fieldWidth_pos (f : PyStr × Json φ) : 0 < fieldWidth repr sep f := by
  simp only [fieldWidth, Separators.item, List.length_cons]
  omega

/-- A dictionary takes less room than its pairs, unless their keys are distinct. -/
theorem length_dict (fields : List (PyStr × Json φ)) :
    (renderFields repr sep (dict fields)).length ≤ (renderFields repr sep fields).length ∧
      ((renderFields repr sep (dict fields)).length = (renderFields repr sep fields).length →
        (fields.map Prod.fst).Nodup) := by
  have hdict : (dict fields).Subperm fields := Table.ofRows_subperm fields
  obtain ⟨kept, hkept, hsub⟩ := hdict
  obtain ⟨lost, hlost⟩ := hsub.exists_perm_append
  have hperm := hlost.trans (hkept.append_right lost)
  have hsum := (hperm.map (fieldWidth repr sep)).sum_nat
  rw [List.map_append, List.sum_append] at hsum
  rw [length_renderFields, length_renderFields]
  refine ⟨by omega, fun heq => ?_⟩
  have hnone : lost = [] := by
    cases lost with
    | nil => rfl
    | cons f lost =>
      have := fieldWidth_pos repr sep f
      rw [List.map_cons, List.sum_cons] at hsum
      omega
  rw [hnone, List.append_nil] at hperm
  exact (hperm.map Prod.fst).nodup_iff.mpr (Table.nodup _)

/-- The text of the value that was collapsed is shorter, unless nothing was lost. -/
def Shrinks (j : Json φ) : Prop :=
  (render repr sep j.collapse).length ≤ (render repr sep j).length ∧
    ((render repr sep j.collapse).length = (render repr sep j).length → Valid j)

variable {repr sep}

theorem shrinks_items {items : List (Json φ)} (h : ∀ j ∈ items, Shrinks repr sep j) :
    (renderItems repr sep (items.map collapse)).length ≤ (renderItems repr sep items).length ∧
      ((renderItems repr sep (items.map collapse)).length = (renderItems repr sep items).length →
        ∀ j ∈ items, Valid j) := by
  induction items with
  | nil => simp [renderItems]
  | cons j items ih =>
    obtain ⟨hle, hvalid⟩ := h j List.mem_cons_self
    obtain ⟨hrest, hrests⟩ := ih fun i hi => h i (List.mem_cons_of_mem j hi)
    simp only [List.map_cons, renderItems, List.length_append]
    refine ⟨by omega, fun heq i hi => ?_⟩
    rcases List.mem_cons.mp hi with rfl | hi
    · exact hvalid (by omega)
    · exact hrests (by omega) i hi

theorem shrinks_fields {fields : List (PyStr × Json φ)}
    (h : ∀ f ∈ fields, Shrinks repr sep f.2) :
    (renderFields repr sep (fields.map collapseField)).length ≤
        (renderFields repr sep fields).length ∧
      ((renderFields repr sep (fields.map collapseField)).length =
        (renderFields repr sep fields).length → ∀ f ∈ fields, Valid f.2) := by
  induction fields with
  | nil => simp [renderFields]
  | cons f fields ih =>
    obtain ⟨hle, hvalid⟩ := h f List.mem_cons_self
    obtain ⟨hrest, hrests⟩ := ih fun g hg => h g (List.mem_cons_of_mem f hg)
    simp only [List.map_cons, renderFields, List.length_append, collapseField] at hrest hrests ⊢
    refine ⟨by omega, fun heq g hg => ?_⟩
    rcases List.mem_cons.mp hg with rfl | hg
    · exact hvalid (by omega)
    · exact hrests (by omega) g hg

variable (repr sep)

/-- By induction on the value. -/
theorem shrinks (j : Json φ) : Shrinks repr sep j := by
  unfold Shrinks
  induction j using Json.induction with
  | null => rw [collapse]; exact ⟨le_rfl, fun _ => .null⟩
  | bool b => rw [collapse]; exact ⟨le_rfl, fun _ => .bool b⟩
  | int i => rw [collapse]; exact ⟨le_rfl, fun _ => .int i⟩
  | float x => rw [collapse]; exact ⟨le_rfl, fun _ => .float x⟩
  | str s => rw [collapse]; exact ⟨le_rfl, fun _ => .str s⟩
  | arr items ih =>
    by_cases hne : items = []
    · subst hne
      rw [collapse, collapseItems]
      exact ⟨le_rfl, fun _ => .arr (by simp)⟩
    have hne' : items.map collapse ≠ [] := by simpa using hne
    obtain ⟨hle, hvalid⟩ := shrinks_items ih
    have h := length_render_arr repr sep hne
    have h' := length_render_arr repr sep hne'
    rw [collapse, collapseItems_eq]
    exact ⟨by omega, fun heq => .arr (hvalid (by omega))⟩
  | obj fields ih =>
    by_cases hne : fields = []
    · subst hne
      rw [collapse, collapseFields]
      exact ⟨le_rfl, fun _ => .obj (by simp) (by simp)⟩
    have hne' : dict (fields.map collapseField) ≠ [] := Table.ofRows_ne_nil (by simpa using hne)
    obtain ⟨hle, hvalid⟩ := shrinks_fields ih
    obtain ⟨hdict, hnodup⟩ := length_dict repr sep (fields.map collapseField)
    have h := length_render_obj repr sep hne
    have h' := length_render_obj repr sep hne'
    rw [collapse, collapseFields_eq]
    refine ⟨by omega, fun heq => .obj ?_ (hvalid (by omega))⟩
    rw [← keys_collapseField]
    exact hnodup (by omega)

end Width

/-- A value whose text is the text of what is read from it has distinct keys. -/
theorem valid_of_dumps_collapse {repr : φ → List Char} {sep : Separators} {j : Json φ}
    (h : dumps repr sep j.collapse = dumps repr sep j) : Valid j :=
  (shrinks repr sep j).2 (congrArg List.length h)

end Json

end Foundation
