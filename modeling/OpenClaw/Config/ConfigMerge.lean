import OpenClaw.Foundation.HeapReads
import OpenClaw.Foundation.KeyedMerge

/-!
# Merging a patch into the configuration

A base and a patch are merged down their dictionaries. Two lists of dictionaries that have an `id`
are merged item by item, anything else is replaced by what the patch has. The merge works in memory:
it copies the dictionaries that it changes, one level at a time.
-/

namespace OpenClaw.Config

open Foundation

set_option autoImplicit false

variable {φ : Type}

/-- A `TypeError` of a dictionary or a list as a key, and a `RecursionError`. -/
inductive MergeError where
  | unhashable
  | recursion
deriving DecidableEq

/-- An id as a key: numbers are keys by their value, so `True`, `1` and `1.0` are one. -/
inductive IdKey (φ : Type) where
  | none
  | number (i : ℤ)
  | float (x : φ)
  | str (s : PyStr)
deriving DecidableEq

def idField : PyStr := PyStr.ofString "id"

section Model
variable (whole? : φ → Option ℤ)

def floatKey (x : φ) : IdKey φ :=
  match whole? x with
  | some i => .number i
  | none => .float x

/-- The value as a key; `none` when it cannot be hashed. -/
def valKey? : Val φ → Option (IdKey φ)
  | .null => some .none
  | .bool b => some (.number (if b then 1 else 0))
  | .int i => some (.number i)
  | .float x => some (floatKey whole? x)
  | .str s => some (.str s)
  | .ref _ => none

def entries (h : Heap φ) (v : Val φ) : List (PyStr × Val φ) := (h.dict? v).getD []

/-- `isinstance(item, dict) and "id" in item`. -/
def hasIdAt (h : Heap φ) (item : Val φ) : Bool := (under? idField (entries h item)).isSome

def itemKey? (h : Heap φ) (item : Val φ) : Option (IdKey φ) :=
  (under? idField (entries h item)).bind (valKey? whole?)

/-- The memory and the dictionary `merged_map` from ids to dictionaries. -/
abbrev MergeState (φ : Type) := Heap φ × List (IdKey φ × ℕ)

section Items
variable [DecidableEq φ]

/-- `merged_map[item["id"]] = dict(item)`. -/
def copyItem (s : MergeState φ) (item : Val φ) : Except MergeError (MergeState φ) :=
  match itemKey? whole? s.1 item with
  | some k => .ok ((s.1.alloc (.dict (entries s.1 item))).1,
      replaceRow Prod.fst (k, s.1.size) s.2)
  | none => .error .unhashable

/-- `d.update(es)`. -/
def updateDict (h : Heap φ) (d : ℕ) (es : List (PyStr × Val φ)) : Heap φ :=
  es.foldl (fun h e => h.setItem d e.1 e.2) h

def patchItem (s : MergeState φ) (item : Val φ) : Except MergeError (MergeState φ) :=
  match itemKey? whole? s.1 item with
  | some k =>
    match valueAt k s.2 with
    | some d => .ok (updateDict s.1 d (entries s.1 item), s.2)
    | none => copyItem whole? s item
  | none => .error .unhashable

def mergeItems (h : Heap φ) (xs ys : List (Val φ)) : Except MergeError (Heap φ × Val φ) := do
  let copied ← xs.foldlM (copyItem whole?) (h, [])
  let patched ← ys.foldlM (patchItem whole?) copied
  .ok (patched.1.alloc (.list (patched.2.map fun r => .ref r.2)))

end Items

/-- `merged[key] = merge_config_value(merged.get(key), value)`. -/
def mergeEntry (merge : Heap φ → Val φ → Val φ → Except MergeError (Heap φ × Val φ)) (d : ℕ)
    (h : Heap φ) (e : PyStr × Val φ) : Except MergeError (Heap φ) := do
  let r ← merge h ((under? e.1 (entries h (.ref d))).getD .null) e.2
  .ok (r.1.setItem d e.1 r.2)

def mergeAt [DecidableEq φ] : ℕ → Heap φ → Val φ → Val φ → Except MergeError (Heap φ × Val φ)
  | 0, _, _, _ => .error .recursion
  | n + 1, h, base, patch =>
    match h.cell? base, h.cell? patch with
    | some (.dict es), some (.dict ps) => do
      let h' ← ps.foldlM (mergeEntry (mergeAt n) h.size) (h.alloc (.dict es)).1
      .ok (h', .ref h.size)
    | some (.list xs), some (.list ys) =>
      if !xs.isEmpty && xs.all (hasIdAt h) then
        -- a list without ids does not replace one with ids
        if ys.all (hasIdAt h) then mergeItems whole? h xs ys else .ok (h, base)
      else .ok (h, patch)
    | _, _ => .ok (h, patch)

def mergeConfigValue [DecidableEq φ] (h : Heap φ) (base patch : Val φ) :
    Except MergeError (Heap φ × Val φ) :=
  mergeAt whole? (h.size + 1) h base patch

end Model

/-! ## What a merge is for -/

abbrev Fields (φ : Type) := List (PyStr × Json φ)

section Merged
variable (whole? : φ → Option ℤ)

def idKey? : Json φ → Option (IdKey φ)
  | .null => some .none
  | .bool b => some (.number (if b then 1 else 0))
  | .int i => some (.number i)
  | .float x => some (floatKey whole? x)
  | .str s => some (.str s)
  | .arr _ => none
  | .obj _ => none

def hasId : Json φ → Bool
  | .obj fs => (under? idField fs).isSome
  | _ => false

/-- An item behind its id. -/
def keyed? : Json φ → Option (IdKey φ × Fields φ)
  | .obj fs => ((under? idField fs).bind (idKey? whole?)).map fun k => (k, fs)
  | _ => none

/-- `{**fs, **gs}`. -/
def updated (fs gs : Fields φ) : Fields φ := mergeRows (fun _ v => v) fs gs

def item (r : IdKey φ × Fields φ) : Json φ := .obj r.2

variable [DecidableEq φ]

/-- The merge of two lists of items with ids. -/
def mergedItems (xs ys : List (Json φ)) : List (Json φ) :=
  match xs.mapM (keyed? whole?), ys.mapM (keyed? whole?) with
  | some as, some bs => (mergeRows updated as bs).map item
  | _, _ => xs

mutual

/-- The value of a merge, where the ids allow one. -/
def merged : Json φ → Json φ → Json φ
  | .obj fs, .obj gs => .obj (mergedFields fs gs)
  | .arr xs, .arr ys =>
    if !xs.isEmpty && xs.all hasId then
      if ys.all hasId then .arr (mergedItems whole? xs ys) else .arr xs
    else .arr ys
  | _, p => p

def mergedFields (fs : Fields φ) : Fields φ → Fields φ
  | [] => fs
  | (k, v) :: gs =>
    mergedFields (replaceRow Prod.fst (k, merged ((under? k fs).getD .null) v) fs) gs

end

/-- The items behind their ids, which are distinct keys. -/
structure Identified (xs : List (Json φ)) (rows : List (IdKey φ × Fields φ)) : Prop where
  items : xs.mapM (keyed? whole?) = some rows
  ids : (rows.map Prod.fst).Nodup
  keys : ∀ r ∈ rows, (r.2.map Prod.fst).Nodup

/-- Along the dictionaries of a value keys are distinct, and a list of items with ids has ids that
can be hashed and are distinct, too. -/
inductive WellIdentified : Json φ → Prop where
  | null : WellIdentified .null
  | bool (b : Bool) : WellIdentified (.bool b)
  | int (i : ℤ) : WellIdentified (.int i)
  | float (x : φ) : WellIdentified (.float x)
  | str (s : PyStr) : WellIdentified (.str s)
  | items {xs : List (Json φ)} {rows : List (IdKey φ × Fields φ)}
      (hxs : Identified whole? xs rows) : WellIdentified (.arr xs)
  | list {xs : List (Json φ)} (hxs : xs.all hasId = false) : WellIdentified (.arr xs)
  | dict {fs : Fields φ} (hkeys : (fs.map Prod.fst).Nodup)
      (hfs : ∀ f ∈ fs, WellIdentified f.2) : WellIdentified (.obj fs)

/-- The result of a merge beside the base and the patch. -/
inductive Keeps : Json φ → Json φ → Json φ → Prop where
  /-- Keys that the patch does not name are kept, the others merged. -/
  | dict {fs gs rs : Fields φ} (hrows : MergesInto fs gs rs)
      (hnamed : ∀ g ∈ gs, ∀ r ∈ rs, r.1 = g.1 → Keeps ((under? g.1 fs).getD .null) g.2 r.2) :
      Keeps (.obj fs) (.obj gs) (.obj rs)
  /-- Items that the patch does not name are kept, the others updated. -/
  | items {xs ys : List (Json φ)} {as bs cs : List (IdKey φ × Fields φ)} (hxs : xs ≠ [])
      (has : xs.mapM (keyed? whole?) = some as) (hbs : ys.mapM (keyed? whole?) = some bs)
      (hrows : MergesInto as bs cs)
      (hnamed : ∀ b ∈ bs, ∀ c ∈ cs, c.1 = b.1 → MergesInto ((valueAt b.1 as).getD []) b.2 c.2 ∧
        ∀ g ∈ b.2, valueAt g.1 c.2 = some g.2) :
      Keeps (.arr xs) (.arr ys) (.arr (cs.map item))
  /-- Items with ids are not given up for a list without. -/
  | base {xs ys : List (Json φ)} (hxs : xs ≠ []) (hids : xs.all hasId = true)
      (hys : ys.all hasId = false) : Keeps (.arr xs) (.arr ys) (.arr xs)
  | list {xs ys : List (Json φ)} (hxs : xs = [] ∨ xs.all hasId = false) :
      Keeps (.arr xs) (.arr ys) (.arr ys)
  | replaced {b p : Json φ} (hdict : ∀ fs gs, b = .obj fs → p ≠ .obj gs)
      (hlist : ∀ xs ys, b = .arr xs → p ≠ .arr ys) : Keeps b p p

end Merged

/-! ## The laws of the value -/

section Laws
variable {whole? : φ → Option ℤ} {b p : Json φ} {fs gs : Fields φ} {xs ys : List (Json φ)}

theorem hasId_of_keyed? {j : Json φ} {r : IdKey φ × Fields φ} (h : keyed? whole? j = some r) :
    j = item r ∧ hasId j = true := by
  cases j with
  | obj fs =>
    obtain ⟨k, hk, rfl⟩ := Option.map_eq_some_iff.mp h
    obtain ⟨i, hi, -⟩ := Option.bind_eq_some_iff.mp hk
    exact ⟨rfl, by rw [hasId, hi]; rfl⟩
  | _ => cases h

theorem all_hasId {rows : List (IdKey φ × Fields φ)} (h : xs.mapM (keyed? whole?) = some rows) :
    xs = rows.map item ∧ xs.all hasId = true := by
  have hrows := mapM_some_iff.mp h
  clear h
  induction hrows with
  | nil => exact ⟨rfl, rfl⟩
  | cons hr _ ih =>
    obtain ⟨hitem, hid⟩ := hasId_of_keyed? hr
    rw [List.map_cons, ← hitem, ← ih.1, List.all_cons, hid, ih.2]
    exact ⟨rfl, rfl⟩

theorem id_of_keyed? {j : Json φ} {r : IdKey φ × Fields φ} (h : keyed? whole? j = some r) :
    ∃ v, under? idField r.2 = some v ∧ idKey? whole? v = some r.1 := by
  cases j with
  | obj fs =>
    obtain ⟨k, hk, rfl⟩ := Option.map_eq_some_iff.mp h
    exact Option.bind_eq_some_iff.mp hk
  | _ => cases h

theorem keyed?_item {r : IdKey φ × Fields φ} {v : Json φ} (hv : under? idField r.2 = some v)
    (hk : idKey? whole? v = some r.1) : keyed? whole? (item r) = some r := by
  rw [item, keyed?, hv, Option.bind_some, hk]
  rfl

theorem under?_updated (hn : (gs.map Prod.fst).Nodup) {k : PyStr} {v : Json φ}
    (hv : under? k gs = some v) (fs : Fields φ) : under? k (updated fs gs) = some v := by
  refine (valueAt_mergeRows hn (mem_of_under? hv)).trans ?_
  cases valueAt k fs <;> rfl

variable {as bs : List (IdKey φ × Fields φ)}

theorem Identified.eq_map (h : Identified whole? xs as) : xs = as.map item :=
  (all_hasId h.items).1

theorem Identified.keyed (h : Identified whole? xs as) :
    ∀ r ∈ as, keyed? whole? (item r) = some r := by
  intro r hr
  obtain ⟨j, -, hj⟩ := forall₂_exists_left (mapM_some_iff.mp h.items) hr
  rw [← (hasId_of_keyed? hj).1]
  exact hj

/-- Lists that meet in a merge. -/
theorem list_cases (hb : WellIdentified whole? (.arr xs)) (hp : WellIdentified whole? (.arr ys)) :
    (xs = [] ∨ xs.all hasId = false) ∨
      (xs ≠ [] ∧ xs.all hasId = true ∧ ys.all hasId = false) ∨
      ∃ as bs, xs ≠ [] ∧ Identified whole? xs as ∧ Identified whole? ys bs := by
  by_cases hnil : xs = []
  · exact .inl (.inl hnil)
  cases hb with
  | list hxs => exact .inl (.inr hxs)
  | items has =>
    cases hp with
    | list hys => exact .inr (.inl ⟨hnil, (all_hasId has.items).2, hys⟩)
    | items hbs => exact .inr (.inr ⟨_, _, hnil, has, hbs⟩)

variable [DecidableEq φ]

theorem merged_of_other (hdict : ∀ fs gs, b = .obj fs → p ≠ .obj gs)
    (hlist : ∀ xs ys, b = .arr xs → p ≠ .arr ys) : merged whole? b p = p := by
  cases b with
  | obj fs =>
    cases p with
    | obj gs => exact absurd rfl (hdict fs gs rfl)
    | _ => rfl
  | arr xs =>
    cases p with
    | arr ys => exact absurd rfl (hlist xs ys rfl)
    | _ => rfl
  | _ => cases p <;> rfl

theorem merged_lists (xs ys : List (Json φ)) :
    merged whole? (.arr xs) (.arr ys) =
      if !xs.isEmpty && xs.all hasId then
        if ys.all hasId then .arr (mergedItems whole? xs ys) else .arr xs
      else .arr ys := rfl

theorem merged_null (p : Json φ) : merged whole? .null p = p :=
  merged_of_other (by nofun) (by nofun)

/-- An absent key counts as one with `None`. -/
theorem merged_under? (k : PyStr) (fs : Fields φ) (v : Json φ) :
    merged whole? ((under? k fs).getD .null) v =
      (valueAt k fs).elim v fun u => merged whole? u v := by
  show merged whole? ((valueAt k fs).getD .null) v = _
  cases valueAt k fs with
  | none => exact merged_null v
  | some u => rfl

theorem mergedFields_eq (fs gs : Fields φ) :
    mergedFields whole? fs gs = mergeRows (merged whole?) fs gs := by
  induction gs generalizing fs with
  | nil => rfl
  | cons g gs ih =>
    refine (ih _).trans ?_
    rw [mergeRows_cons, mergeRow, merged_under?]

@[simp] theorem merged_dict (fs gs : Fields φ) :
    merged whole? (.obj fs) (.obj gs) = .obj (mergeRows (merged whole?) fs gs) :=
  congrArg Json.obj (mergedFields_eq fs gs)

theorem Identified.merge (has : Identified whole? xs as) (hbs : Identified whole? ys bs) :
    Identified whole? ((mergeRows updated as bs).map item) (mergeRows updated as bs) where
  items := by
    refine mapM_some_iff.mpr (List.forall₂_map_left_iff.mpr (List.forall₂_same.mpr ?_))
    apply mem_mergeRows (p := fun r => keyed? whole? (item r) = some r) has.keyed hbs.keyed
    intro r hr fs _
    obtain ⟨v, hv, hk⟩ := id_of_keyed? (hbs.keyed r hr)
    exact keyed?_item (under?_updated (hbs.keys r hr) hv fs) hk
  ids := nodup_mergeRows has.ids
  keys :=
    mem_mergeRows (p := fun r : IdKey φ × Fields φ => (r.2.map Prod.fst).Nodup) has.keys hbs.keys
      fun _ _ _ hv => nodup_mergeRows hv

theorem merged_list (hxs : xs = [] ∨ xs.all hasId = false) :
    merged whole? (.arr xs) (.arr ys) = .arr ys := by
  rw [merged_lists, if_neg]
  rcases hxs with rfl | hxs
  · exact Bool.false_ne_true
  · rw [hxs, Bool.and_false]
    exact Bool.false_ne_true

theorem merged_base (hnil : xs ≠ []) (hxs : xs.all hasId = true) (hys : ys.all hasId = false) :
    merged whole? (.arr xs) (.arr ys) = .arr xs := by
  rw [merged_lists, if_pos (by simp [hnil, hxs]), if_neg (by simp [hys])]

theorem merged_items (hnil : xs ≠ []) (has : xs.mapM (keyed? whole?) = some as)
    (hbs : ys.mapM (keyed? whole?) = some bs) :
    merged whole? (.arr xs) (.arr ys) = .arr ((mergeRows updated as bs).map item) := by
  rw [merged_lists, if_pos (by simp [hnil, (all_hasId has).2]), if_pos (all_hasId hbs).2,
    mergedItems, has, hbs]

/-- What is merged is well identified again. -/
theorem WellIdentified.merged (hb : WellIdentified whole? b) (hp : WellIdentified whole? p) :
    WellIdentified whole? (merged whole? b p) := by
  induction p using Json.induction generalizing b with
  | null | bool | int | float | str => rwa [merged_of_other (by nofun) (by nofun)]
  | arr ys ih =>
    cases b with
    | arr xs =>
      rcases list_cases hb hp with hxs | ⟨hnil, hxs, hys⟩ | ⟨as, bs, hnil, has, hbs⟩
      · rwa [merged_list hxs]
      · rwa [merged_base hnil hxs hys]
      · rw [merged_items hnil has.items hbs.items]
        exact .items (has.merge hbs)
    | _ => rwa [merged_of_other (by nofun) (by nofun)]
  | obj gs ih =>
    cases b with
    | obj fs =>
      cases hb with
      | dict hfkeys hfs =>
        cases hp with
        | dict hgkeys hgs =>
          rw [merged_dict]
          refine .dict (nodup_mergeRows hfkeys) ?_
          apply mem_mergeRows (p := fun f => WellIdentified whole? f.2) hfs hgs
          intro g hg v hv
          exact ih g hg hv (hgs g hg)
    | _ => rwa [merged_of_other (by nofun) (by nofun)]

theorem merged_self (hp : WellIdentified whole? p) : merged whole? p p = p := by
  induction p using Json.induction with
  | null | bool | int | float | str => exact merged_of_other (by nofun) (by nofun)
  | arr ys ih =>
    rcases list_cases hp hp with hys | ⟨hnil, hys, hnot⟩ | ⟨as, bs, hnil, has, -⟩
    · exact merged_list hys
    · exact absurd (hys.symm.trans hnot) nofun
    · have hsame : mergeRows updated as as = as :=
        mergeRows_self has.ids fun r hr => mergeRows_self (has.keys r hr) fun _ _ => rfl
      rw [merged_items hnil has.items has.items, hsame, ← has.eq_map]
  | obj gs ih =>
    cases hp with
    | dict hkeys hgs =>
      rw [merged_dict, mergeRows_self hkeys fun g hg => ih g hg (hgs g hg)]

theorem merged_again (h : merged whole? b p = p) (hp : WellIdentified whole? p) :
    merged whole? (merged whole? b p) p = merged whole? b p := by
  rw [h, merged_self hp]

theorem merged_twice (hb : WellIdentified whole? b) (hp : WellIdentified whole? p) :
    merged whole? (merged whole? b p) p = merged whole? b p := by
  induction p using Json.induction generalizing b with
  | null | bool | int | float | str => exact merged_again (merged_of_other nofun nofun) hp
  | arr ys ih =>
    cases b with
    | arr xs =>
      rcases list_cases hb hp with hxs | ⟨hnil, hxs, hys⟩ | ⟨as, bs, hnil, has, hbs⟩
      · exact merged_again (merged_list hxs) hp
      · rw [merged_base hnil hxs hys, merged_base hnil hxs hys]
      · have hrows : as ≠ [] := by
          rintro rfl
          exact hnil has.eq_map
        have hresult : (mergeRows updated as bs).map item ≠ [] := by
          rw [ne_eq, List.map_eq_nil_iff]
          exact mergeRows_ne_nil hrows
        have htwice : mergeRows updated (mergeRows updated as bs) bs = mergeRows updated as bs := by
          refine mergeRows_twice hbs.ids ?_ ?_
          · exact fun r hr => mergeRows_self (hbs.keys r hr) fun _ _ => rfl
          · intro r hr v _
            exact mergeRows_twice (hbs.keys r hr) (fun _ _ => rfl) fun _ _ _ _ => rfl
        rw [merged_items hnil has.items hbs.items,
          merged_items hresult (has.merge hbs).items hbs.items, htwice]
    | _ => exact merged_again (merged_of_other nofun nofun) hp
  | obj gs ih =>
    cases b with
    | obj fs =>
      cases hb with
      | dict hfkeys hfs =>
        cases hp with
        | dict hgkeys hgs =>
          rw [merged_dict, merged_dict, mergeRows_twice hgkeys]
          · exact fun g hg => merged_self (hgs g hg)
          · exact fun g hg v hv => ih g hg (hfs _ (mem_of_valueAt hv)) (hgs g hg)
    | _ => exact merged_again (merged_of_other nofun nofun) hp

theorem keeps_merged (hb : WellIdentified whole? b) (hp : WellIdentified whole? p) :
    Keeps whole? b p (merged whole? b p) := by
  induction p using Json.induction generalizing b with
  | null | bool | int | float | str =>
    rw [merged_of_other (by nofun) (by nofun)]
    exact .replaced nofun nofun
  | arr ys ih =>
    cases b with
    | arr xs =>
      rcases list_cases hb hp with hxs | ⟨hnil, hxs, hys⟩ | ⟨as, bs, hnil, has, hbs⟩
      · rw [merged_list hxs]
        exact .list hxs
      · rw [merged_base hnil hxs hys]
        exact .base hnil hxs hys
      · rw [merged_items hnil has.items hbs.items]
        refine .items hnil has.items hbs.items (mergesInto_mergeRows has.ids hbs.ids) ?_
        intro r hr c hc hkey
        have hvalue : valueAt r.1 (mergeRows updated as bs) = _ := valueAt_mergeRows hbs.ids hr
        rw [← hkey, valueAt_of_mem (nodup_mergeRows has.ids) hc, Option.some.injEq, hkey] at hvalue
        have hupdated : c.2 = updated ((valueAt r.1 as).getD []) r.2 := by
          rw [hvalue]
          cases valueAt r.1 as with
          | none => exact (mergeRows_nil (hbs.keys r hr)).symm
          | some fs => rfl
        have holdKeys : (((valueAt r.1 as).getD []).map Prod.fst).Nodup := by
          cases hv : valueAt r.1 as with
          | none => exact List.nodup_nil
          | some fs => exact has.keys _ (mem_of_valueAt hv)
        rw [hupdated]
        refine ⟨mergesInto_mergeRows holdKeys (hbs.keys r hr), fun g hg => ?_⟩
        exact under?_updated (hbs.keys r hr) (valueAt_of_mem (hbs.keys r hr) hg) _
    | _ =>
      rw [merged_of_other (by nofun) (by nofun)]
      exact .replaced nofun nofun
  | obj gs ih =>
    cases b with
    | obj fs =>
      cases hb with
      | dict hfkeys hfs =>
        cases hp with
        | dict hgkeys hgs =>
          rw [merged_dict]
          refine .dict (mergesInto_mergeRows hfkeys hgkeys) ?_
          intro g hg r hr hkey
          have hvalue : valueAt g.1 (mergeRows (merged whole?) fs gs) = _ :=
            valueAt_mergeRows hgkeys hg
          rw [← hkey, valueAt_of_mem (nodup_mergeRows hfkeys) hr, Option.some.injEq, hkey] at hvalue
          rw [hvalue]
          show Keeps whole? ((valueAt g.1 fs).getD .null) g.2 _
          cases hv : valueAt g.1 fs with
          | none =>
            have hnew := ih g hg (b := .null) .null (hgs g hg)
            rwa [merged_null] at hnew
          | some v => exact ih g hg (hfs _ (mem_of_valueAt hv)) (hgs g hg)
    | _ =>
      rw [merged_of_other (by nofun) (by nofun)]
      exact .replaced nofun nofun

end Laws

/-! ## The merge in memory -/

/-- The cells of the set are there and refer to each other only. -/
structure Encloses (h : Heap φ) (Q : ℕ → Prop) : Prop where
  closed : h.Sealed Q
  known : ∀ a, Q a → a < h.size

/-- What a merge hands back: a value in the cells it was given and in new ones. -/
structure Yields (Q : ℕ → Prop) (n : ℕ) (h h' : Heap φ) (v : Val φ) (j : Json φ) : Prop where
  grows : h.Grows h'
  closed : h'.Sealed fun a => Q a ∨ Heap.New h h' a
  within : v.Within fun a => Q a ∨ Heap.New h h' a
  reads : h'.read n v = some j

section Memory
variable {whole? : φ → Option ℤ} {Q : ℕ → Prop} {n : ℕ} {h h' : Heap φ} {v base patch : Val φ}
  {j b p : Json φ}

theorem read_grows (hg : h.Grows h') {m : ℕ} (hnm : n ≤ m) (hj : h.read n v = some j) :
    h'.read m v = some j := by
  have hall : h.Sealed fun _ => True := fun _ _ _ _ v _ => by cases v <;> trivial
  exact hall.read hg hnm (by cases v <;> trivial) hj

theorem grows_setItem {d : ℕ} (hg : h.Grows h') (hd : h.size ≤ d) (k : PyStr) (v : Val φ) :
    h.Grows (h'.setItem d k v) := by
  unfold Heap.setItem
  split
  · obtain ⟨t, ht⟩ := hg
    rw [Heap.Grows, Heap.write, ← ht, List.set_append_right _ _ hd]
    exact List.prefix_append _ _
  · exact hg

theorem yields_same (hQ : Encloses h Q) (hv : v.Within Q) (hj : h.read n v = some j) :
    Yields Q n h h v j where
  grows := .refl h
  closed := by
    intro a c hc ha
    rcases ha with ha | ha
    · exact (hQ.closed a c hc ha).mono fun _ => .inl
    · exact absurd ha.2 (Nat.not_lt.mpr ha.1)
  within := hv.mono fun _ => .inl
  reads := hj

theorem dict_of_read {fs : Fields φ} (hj : h.read n v = some (.obj fs)) :
    ∃ a es m, v = .ref a ∧ n = m + 1 ∧ h.get? a = some (.dict es) ∧
      List.Forall₂ (fun e f => e.1 = f.1 ∧ h.read m e.2 = some f.2) es fs := by
  cases v with
  | ref a =>
    cases n with
    | zero => cases hj
    | succ m =>
      obtain ⟨es, hes, hfs⟩ := Heap.read_obj_iff.mp hj
      exact ⟨a, es, m, rfl, rfl, hes, hfs⟩
  | _ => simp at hj

theorem list_of_read {xs : List (Json φ)} (hj : h.read n v = some (.arr xs)) :
    ∃ a vs m, v = .ref a ∧ n = m + 1 ∧ h.get? a = some (.list vs) ∧
      List.Forall₂ (fun w i => h.read m w = some i) vs xs := by
  cases v with
  | ref a =>
    cases n with
    | zero => cases hj
    | succ m =>
      obtain ⟨vs, hvs, hxs⟩ := Heap.read_arr_iff.mp hj
      exact ⟨a, vs, m, rfl, rfl, hvs, hxs⟩
  | _ => simp at hj

theorem valKey?_read (hj : h.read n v = some j) : valKey? whole? v = idKey? whole? j := by
  cases v with
  | ref a =>
    rcases Heap.read_ref hj with ⟨items, rfl⟩ | ⟨fields, rfl⟩ <;> rfl
  | _ =>
    simp only [Heap.read_null, Heap.read_bool, Heap.read_int, Heap.read_float, Heap.read_str,
      Option.some.injEq] at hj
    subst hj
    rfl

theorem entries_dict {a : ℕ} {es : List (PyStr × Val φ)} (ha : h.get? a = some (.dict es)) :
    entries h (.ref a) = es := by
  rw [entries, Heap.dict?, Heap.cell?, ha]
  rfl

theorem hasIdAt_read (hj : h.read n v = some j) : hasIdAt h v = hasId j := by
  cases j with
  | obj fs =>
    obtain ⟨a, es, m, rfl, rfl, hes, hfs⟩ := dict_of_read hj
    rw [hasIdAt, entries_dict hes, hasId]
    rcases under?_forall₂ (R := fun _ w i => h.read m w = some i) hfs idField with
      ⟨he, hf⟩ | ⟨w, i, he, hf, -⟩
    · rw [he, hf]
      rfl
    · rw [he, hf]
      rfl
  | arr xs =>
    obtain ⟨a, vs, m, rfl, -, hvs, -⟩ := list_of_read hj
    rw [hasIdAt, entries, Heap.dict?, Heap.cell?, hvs]
    rfl
  | _ =>
    cases v with
    | ref a =>
      rcases Heap.read_ref hj with ⟨items, heq⟩ | ⟨fields, heq⟩ <;> cases heq
    | _ => rfl

theorem all_hasIdAt {vs : List (Val φ)} {xs : List (Json φ)}
    (h₂ : List.Forall₂ (fun w i => h.read n w = some i) vs xs) :
    vs.all (hasIdAt h) = xs.all hasId := by
  induction h₂ with
  | nil => rfl
  | cons hj _ ih => rw [List.all_cons, List.all_cons, ih, hasIdAt_read hj]

/-! ### Items -/

/-- A new dictionary, of values from before. -/
def NewDict (n : ℕ) (h s : Heap φ) (d : ℕ) (fs : Fields φ) : Prop :=
  h.size ≤ d ∧ ∃ es, s.get? d = some (.dict es) ∧
    List.Forall₂ (fun e f => e.1 = f.1 ∧ h.read n e.2 = some f.2) es fs

/-- The items in `merged_map`: their dictionaries are new, each for itself, and hold values from
before. -/
structure Collected (Q : ℕ → Prop) (n : ℕ) (h : Heap φ) (s : MergeState φ)
    (rows : List (IdKey φ × Fields φ)) : Prop where
  grows : h.Grows s.1
  fresh : ∀ a c, s.1.get? a = some c → h.size ≤ a → c.Within Q
  places : (s.2.map Prod.snd).Nodup
  cells : List.Forall₂ (fun r row => r.1 = row.1 ∧ NewDict n h s.1 r.2 row.2) s.2 rows

/-- An item of the lists that are merged. -/
structure ItemAt (whole? : φ → Option ℤ) (Q : ℕ → Prop) (n : ℕ) (h : Heap φ) (v : Val φ)
    (row : IdKey φ × Fields φ) : Prop where
  place : ∃ a es, v = .ref a ∧ h.get? a = some (.dict es) ∧ (Cell.dict es).Within Q ∧
    List.Forall₂ (fun e f => e.1 = f.1 ∧ h.read n e.2 = some f.2) es row.2
  key : itemKey? whole? h v = some row.1

theorem itemAt_of_read (hQ : Encloses h Q) (hv : v.Within Q) (hj : h.read (n + 1) v = some j)
    {row : IdKey φ × Fields φ} (hrow : keyed? whole? j = some row) :
    ItemAt whole? Q n h v row := by
  obtain ⟨rfl, -⟩ := hasId_of_keyed? hrow
  obtain ⟨a, es, m, rfl, hm, hes, hfs⟩ := dict_of_read hj
  cases hm
  refine ⟨⟨a, es, rfl, hes, hQ.closed a _ hes hv, hfs⟩, ?_⟩
  obtain ⟨i, hi, hk⟩ := id_of_keyed? hrow
  rw [itemKey?, entries_dict hes]
  rcases under?_forall₂ (R := fun _ w i => h.read n w = some i) hfs idField with
    ⟨-, hf⟩ | ⟨w, i', he, hf, hw⟩
  · exact absurd (hi.symm.trans hf) nofun
  · cases hi.symm.trans hf
    rw [he, Option.bind_some, valKey?_read hw, hk]

section Update
variable {d : ℕ} {es ps : List (PyStr × Val φ)} {fs gs : Fields φ}

theorem mergeRow_const {ν : Type*} (rows : List (PyStr × ν)) (r : PyStr × ν) :
    mergeRow (fun _ v => v) rows r = replaceRow Prod.fst r rows := by
  rw [mergeRow]
  cases valueAt r.1 rows <;> rfl

theorem get?_updateDict (hd : h.get? d = some (.dict es)) (ps : List (PyStr × Val φ)) :
    (updateDict h d ps).get? d = some (.dict (mergeRows (fun _ v => v) es ps)) := by
  induction ps generalizing h es with
  | nil => exact hd
  | cons e ps ih =>
    rw [mergeRows_cons, mergeRow_const]
    exact ih (Heap.get?_setItem_self hd e.1 e.2)

theorem get?_updateDict_ne {a : ℕ} (ha : a ≠ d) (h : Heap φ) (ps : List (PyStr × Val φ)) :
    (updateDict h d ps).get? a = h.get? a := by
  induction ps generalizing h with
  | nil => rfl
  | cons e ps ih => exact (ih _).trans (Heap.get?_setItem_ne ha.symm e.1 e.2)

theorem grows_updateDict (hg : h.Grows h') (hd : h.size ≤ d) (ps : List (PyStr × Val φ)) :
    h.Grows (updateDict h' d ps) := by
  induction ps generalizing h' with
  | nil => exact hg
  | cons e ps ih => exact ih (grows_setItem hg hd e.1 e.2)

theorem forall₂_updated {R : Val φ → Json φ → Prop}
    (hes : List.Forall₂ (fun e f => e.1 = f.1 ∧ R e.2 f.2) es fs)
    (hps : List.Forall₂ (fun e f => e.1 = f.1 ∧ R e.2 f.2) ps gs) :
    List.Forall₂ (fun e f => e.1 = f.1 ∧ R e.2 f.2) (mergeRows (fun _ v => v) es ps)
      (updated fs gs) := by
  rw [updated]
  induction hps generalizing es fs with
  | nil => exact hes
  | @cons e g ps gs heg _ ih =>
    obtain ⟨k, v⟩ := g
    obtain ⟨rfl, hv⟩ := heg
    rw [mergeRows_cons, mergeRows_cons, mergeRow_const, mergeRow_const]
    exact ih (forall₂_replaceRow hes e.1 hv)

end Update

section Collected
variable {s : MergeState φ} {rows : List (IdKey φ × Fields φ)} {row : IdKey φ × Fields φ}

theorem ItemAt.later (hv : ItemAt whole? Q n h v row) (hg : h.Grows h') :
    ∃ es, entries h' v = es ∧ itemKey? whole? h' v = some row.1 ∧ (Cell.dict es).Within Q ∧
      List.Forall₂ (fun e f => e.1 = f.1 ∧ h.read n e.2 = some f.2) es row.2 := by
  obtain ⟨a, es, rfl, hes, hwithin, hfs⟩ := hv.place
  have hes' : h'.get? a = some (.dict es) := by rwa [hg.get? (Heap.lt_size_of_get? hes)]
  refine ⟨es, entries_dict hes', ?_, hwithin, hfs⟩
  rw [← hv.key, itemKey?, itemKey?, entries_dict hes', entries_dict hes]

theorem Collected.keys (hs : Collected Q n h s rows) : s.2.map Prod.fst = rows.map Prod.fst := by
  have hcells := hs.cells.imp fun _ _ hr => hr.1
  rw [← List.forall₂_eq_eq_eq, List.forall₂_map_left_iff, List.forall₂_map_right_iff]
  exact hcells

theorem Collected.lt_size (hs : Collected Q n h s rows) : ∀ r ∈ s.2, r.2 < s.1.size := by
  refine forall₂_left hs.cells fun r row hr => ?_
  obtain ⟨es, hes, -⟩ := hr.2.2
  exact Heap.lt_size_of_get? hes

theorem Collected.list (hs : Collected Q n h s rows) (hQ : Encloses h Q) :
    Yields Q (n + 2) h (s.1.alloc (.list (s.2.map fun r => .ref r.2))).1
      (s.1.alloc (.list (s.2.map fun r => .ref r.2))).2 (.arr (rows.map item)) := by
  have hg := hs.grows.trans (Heap.grows_alloc s.1 (.list (s.2.map fun r => .ref r.2)))
  have hkept {a : ℕ} (ha : a < s.1.size) :=
    (Heap.grows_alloc s.1 (.list (s.2.map fun r => .ref r.2))).get? ha
  refine ⟨hg, ?_, ?_, ?_⟩
  · intro a c hc ha
    by_cases hlt : a < s.1.size
    · rw [hkept hlt] at hc
      rcases ha with ha | ha
      · rw [hs.grows.get? (hQ.known a ha)] at hc
        exact (hQ.closed a c hc ha).mono fun _ => .inl
      · exact (hs.fresh a c hc ha.1).mono fun _ => .inl
    · have hnew : a = s.1.size := by
        have hbound := Heap.lt_size_of_get? hc
        rw [Heap.size_alloc] at hbound
        omega
      subst hnew
      rw [Heap.get?_alloc_self] at hc
      cases hc
      intro w hw
      obtain ⟨r, hr, rfl⟩ := List.mem_map.mp hw
      have hplace : h.size ≤ r.2 := forall₂_left hs.cells (fun _ _ hr => hr.2.1) r hr
      refine .inr ⟨hplace, ?_⟩
      rw [Heap.size_alloc]
      exact (hs.lt_size r hr).trans (Nat.lt_succ_self _)
  · refine .inr ⟨hs.grows.size_le, ?_⟩
    rw [Heap.size_alloc]
    exact Nat.lt_succ_self _
  · refine Heap.read_alloc_list ?_
    refine List.forall₂_map_left_iff.mpr (List.forall₂_map_right_iff.mpr ?_)
    refine forall₂_imp_of_mem hs.cells fun r hr row hrow => ?_
    obtain ⟨es, hes, hfs⟩ := hrow.2.2
    refine Heap.read_obj_iff.mpr ⟨es, (hkept (hs.lt_size r hr)).trans hes, ?_⟩
    exact hfs.imp fun _ _ hef => ⟨hef.1, read_grows hg le_rfl hef.2⟩

variable [DecidableEq φ]

theorem Collected.copy (hs : Collected Q n h s rows) (hv : ItemAt whole? Q n h v row)
    (hk : row.1 ∉ rows.map Prod.fst) :
    ∃ s', copyItem whole? s v = .ok s' ∧ Collected Q n h s' (rows ++ [row]) := by
  obtain ⟨es, hentries, hkey, hwithin, hfs⟩ := hv.later hs.grows
  have happend : replaceRow Prod.fst (row.1, s.1.size) s.2 = s.2 ++ [(row.1, s.1.size)] :=
    Table.replaceRow_append fun r hr heq => hk (hs.keys ▸ heq ▸ List.mem_map_of_mem hr)
  refine ⟨_, by rw [copyItem, hkey, hentries], ?_⟩
  have hkept {a : ℕ} (ha : a < s.1.size) : (s.1.alloc (.dict es)).1.get? a = s.1.get? a :=
    (Heap.grows_alloc s.1 _).get? ha
  rw [happend]
  constructor
  · exact hs.grows.trans (Heap.grows_alloc s.1 _)
  · intro a c hc ha
    by_cases hlt : a < s.1.size
    · exact hs.fresh a c (hkept hlt ▸ hc) ha
    · have hnew : a = s.1.size := by
        have hbound := Heap.lt_size_of_get? hc
        rw [Heap.size_alloc] at hbound
        omega
      subst hnew
      rw [Heap.get?_alloc_self] at hc
      cases hc
      exact hwithin
  · rw [List.map_append, List.map_singleton, ← List.concat_eq_append, List.nodup_concat]
    refine ⟨?_, hs.places⟩
    intro hmem
    obtain ⟨r, hr, heq⟩ := List.mem_map.mp hmem
    exact absurd (heq ▸ hs.lt_size r hr) (lt_irrefl _)
  · refine List.rel_append (forall₂_imp_of_mem hs.cells fun r hr row hrow => ?_) (.cons ?_ .nil)
    · rwa [NewDict, hkept (hs.lt_size r hr)]
    · exact ⟨rfl, hs.grows.size_le, es, Heap.get?_alloc_self _ _, hfs⟩

theorem Collected.update (hs : Collected Q n h s rows) (hv : ItemAt whole? Q n h v row) :
    ∃ s', patchItem whole? s v = .ok s' ∧ Collected Q n h s' (mergeRow updated rows row) := by
  obtain ⟨ps, hentries, hkey, hwithin, hgs⟩ := hv.later hs.grows
  simp only [patchItem, hkey]
  rcases valueAt_forall₂ (R := fun _ => NewDict n h s.1) hs.cells row.1 with
    ⟨hnone, habsent⟩ | ⟨d, fs, hsome, hfound, hd, es, hes, hfs⟩
  · have hk : row.1 ∉ rows.map Prod.fst := valueAt_eq_none_iff.mp habsent
    have happend : mergeRow updated rows row = rows ++ [row] := by
      rw [mergeRow, habsent]
      exact Table.replaceRow_append fun r hr heq => hk (heq ▸ List.mem_map_of_mem hr)
    simp only [hnone, happend]
    exact hs.copy hv hk
  · simp only [hsome, hentries]
    refine ⟨_, rfl, grows_updateDict hs.grows hd ps, ?_, hs.places, ?_⟩
    · intro a c hc ha
      by_cases had : a = d
      · subst had
        rw [get?_updateDict hes ps] at hc
        cases hc
        intro w hw
        obtain ⟨e, he, rfl⟩ := List.mem_map.mp hw
        refine mem_mergeRows (p := fun e => e.2.Within Q) ?_ ?_ (fun e he _ _ => ?_) e he
        · exact fun e he => hs.fresh a _ hes ha e.2 (List.mem_map_of_mem he)
        · exact fun e he => hwithin e.2 (List.mem_map_of_mem he)
        · exact hwithin e.2 (List.mem_map_of_mem he)
      · rw [get?_updateDict_ne had] at hc
        exact hs.fresh a c hc ha
    · rw [mergeRow, hfound]
      refine forall₂_replace (R := NewDict n h s.1) hs.cells hsome hs.places ?_ ?_
      · exact ⟨hd, _, get?_updateDict hes ps,
          forall₂_updated (R := fun w i => h.read n w = some i) hfs hgs⟩
      · intro c fs' hc hold
        rwa [NewDict, get?_updateDict_ne hc]

theorem copyItems {vs : List (Val φ)} {as : List (IdKey φ × Fields φ)}
    (hvs : List.Forall₂ (ItemAt whole? Q n h) vs as) (hs : Collected Q n h s rows)
    (hn : ((rows ++ as).map Prod.fst).Nodup) :
    ∃ s', vs.foldlM (copyItem whole?) s = .ok s' ∧ Collected Q n h s' (rows ++ as) := by
  induction hvs generalizing s rows with
  | nil => exact ⟨s, rfl, by rwa [List.append_nil]⟩
  | @cons v a vs as hv _ ih =>
    have hk : a.1 ∉ rows.map Prod.fst := by
      intro hmem
      rw [List.map_append, List.nodup_append] at hn
      exact hn.2.2 a.1 hmem a.1 (by simp) rfl
    obtain ⟨s₁, hcopy, hs₁⟩ := hs.copy hv hk
    obtain ⟨s', hrest, hs'⟩ := ih hs₁ (by simpa using hn)
    refine ⟨s', (foldlM_cons_ok hcopy).trans hrest, ?_⟩
    rwa [List.append_assoc] at hs'

theorem patchItems {ws : List (Val φ)} {bs : List (IdKey φ × Fields φ)}
    (hws : List.Forall₂ (ItemAt whole? Q n h) ws bs) (hs : Collected Q n h s rows) :
    ∃ s', ws.foldlM (patchItem whole?) s = .ok s' ∧
      Collected Q n h s' (mergeRows updated rows bs) := by
  induction hws generalizing s rows with
  | nil => exact ⟨s, rfl, hs⟩
  | cons hw _ ih =>
    obtain ⟨s₁, hpatch, hs₁⟩ := hs.update hw
    obtain ⟨s', hrest, hs'⟩ := ih hs₁
    exact ⟨s', (foldlM_cons_ok hpatch).trans hrest, hs'⟩

theorem mergeItems_ok {vs ws : List (Val φ)} {as bs : List (IdKey φ × Fields φ)}
    (hQ : Encloses h Q) (hvs : List.Forall₂ (ItemAt whole? Q n h) vs as)
    (hws : List.Forall₂ (ItemAt whole? Q n h) ws bs) (hn : (as.map Prod.fst).Nodup) :
    ∃ h' v, mergeItems whole? h vs ws = .ok (h', v) ∧
      Yields Q (n + 2) h h' v (.arr ((mergeRows updated as bs).map item)) := by
  have hstart : Collected Q n h (h, []) ([] : List (IdKey φ × Fields φ)) :=
    ⟨.refl h, fun a c hc ha => absurd (Heap.lt_size_of_get? hc) (Nat.not_lt.mpr ha),
      List.nodup_nil, .nil⟩
  obtain ⟨copied, hcopied, hs⟩ := copyItems hvs hstart hn
  obtain ⟨patched, hpatched, hs'⟩ := patchItems hws hs
  refine ⟨_, _, ?_, hs'.list hQ⟩
  rw [mergeItems, hcopied]
  show (ws.foldlM (patchItem whole?) copied >>= _) = _
  rw [hpatched]
  rfl

end Collected

/-! ### Dictionaries -/

/-- The cells that a merge may use while it fills the dictionary that it puts up. -/
def Around (Q : ℕ → Prop) (h s : Heap φ) (a : ℕ) : Prop := (Q a ∨ Heap.New h s a) ∧ a ≠ h.size

/-- The dictionary `merged` on its way: nothing refers to it. -/
structure Filling (Q : ℕ → Prop) (n : ℕ) (h s : Heap φ) (fs : Fields φ) : Prop where
  grows : h.Grows s
  closed : s.Sealed (Around Q h s)
  root : ∃ es, s.get? h.size = some (.dict es) ∧ (Cell.dict es).Within (Around Q h s) ∧
    List.Forall₂ (fun e f => e.1 = f.1 ∧ s.read n e.2 = some f.2) es fs

section Filling
variable {s : Heap φ} {fs gs : Fields φ} {es ps : List (PyStr × Val φ)}

theorem Encloses.around (hQ : Encloses h Q) {a : ℕ} (ha : Q a) : Around Q h s a :=
  ⟨.inl ha, (hQ.known a ha).ne⟩

theorem filling_alloc (hQ : Encloses h Q) (hes : (Cell.dict es).Within Q)
    (hfs : List.Forall₂ (fun e f => e.1 = f.1 ∧ h.read n e.2 = some f.2) es fs) :
    Filling Q n h (h.alloc (.dict es)).1 fs where
  grows := Heap.grows_alloc h _
  closed := by
    rintro a c hc ⟨ha | ha, hne⟩
    · rw [(Heap.grows_alloc h _).get? (hQ.known a ha)] at hc
      exact (hQ.closed a c hc ha).mono fun _ => hQ.around
    · have hlt := ha.2
      rw [Heap.size_alloc] at hlt
      have hle := ha.1
      omega
  root :=
    ⟨es, Heap.get?_alloc_self h _, hes.mono fun _ => hQ.around,
      hfs.imp fun _ _ hef => ⟨hef.1, read_grows (Heap.grows_alloc h _) le_rfl hef.2⟩⟩

theorem Filling.root_lt (hs : Filling Q n h s fs) : h.size < s.size := by
  obtain ⟨es, hes, -⟩ := hs.root
  exact Heap.lt_size_of_get? hes

theorem Filling.encloses (hs : Filling Q n h s fs) (hQ : Encloses h Q) :
    Encloses s (Around Q h s) where
  closed := hs.closed
  known := by
    rintro a ⟨ha | ha, -⟩
    · exact (hQ.known a ha).trans hs.root_lt
    · exact ha.2

theorem Filling.step (hs : Filling Q n h s fs) (hy : Yields (Around Q h s) n s h' v j) (k : PyStr) :
    Filling Q n h (h'.setItem h.size k v) (replaceRow Prod.fst (k, j) fs) := by
  obtain ⟨es, hes, hwithin, hfs⟩ := hs.root
  have hlt := hs.root_lt
  have haround : (fun a => Around Q h s a ∨ Heap.New s h' a) =
      Around Q h (h'.setItem h.size k v) := by
    funext a
    refine propext ⟨?_, ?_⟩
    · rintro (⟨ha | ha, hne⟩ | ha)
      · exact ⟨.inl ha, hne⟩
      · refine ⟨.inr (ha.mono le_rfl ?_), hne⟩
        rw [Heap.size_setItem]
        exact hy.grows.size_le
      · refine ⟨.inr ⟨hlt.le.trans ha.1, ?_⟩, (hlt.trans_le ha.1).ne'⟩
        rw [Heap.size_setItem]
        exact ha.2
    · rintro ⟨ha | ha, hne⟩
      · exact .inl ⟨.inl ha, hne⟩
      · rcases Nat.lt_or_ge a s.size with hold | hnew
        · exact .inl ⟨.inr ⟨ha.1, hold⟩, hne⟩
        · refine .inr ⟨hnew, ?_⟩
          have hbound := ha.2
          rwa [Heap.size_setItem] at hbound
  have hclosed := hy.closed
  have hvalue := hy.within
  rw [haround] at hclosed hvalue
  have hkept {w : Val φ} {i : Json φ} (hw : w.Within (Around Q h (h'.setItem h.size k v)))
      (hi : h'.read n w = some i) : (h'.setItem h.size k v).read n w = some i := by
    refine Heap.read_frame hclosed (fun a c ha hc => ?_) le_rfl hw hi
    rwa [Heap.get?_setItem_ne ha.2.symm]
  have hmono : ∀ a, Around Q h s a → Around Q h (h'.setItem h.size k v) a := by
    intro a ha
    exact haround ▸ Or.inl ha
  have hroot : h'.get? h.size = some (.dict es) := by rwa [hy.grows.get? hlt]
  refine ⟨grows_setItem (hs.grows.trans hy.grows) le_rfl k v, ?_, ?_⟩
  · exact hclosed.setItem k fun hroot => absurd rfl hroot.2
  · refine ⟨_, Heap.get?_setItem_self hroot k v, ?_, ?_⟩
    · intro w hw
      obtain ⟨e, he, rfl⟩ := List.mem_map.mp hw
      rcases mem_replaceRow he with rfl | he
      · exact hvalue
      · exact (hwithin e.2 (List.mem_map_of_mem he)).mono hmono
    · refine forall₂_replaceRow (R := fun w i => (h'.setItem h.size k v).read n w = some i) ?_ k
        (hkept hvalue hy.reads)
      refine forall₂_imp_of_mem hfs fun e he f hef => ⟨hef.1, hkept ?_ ?_⟩
      · exact (hwithin e.2 (List.mem_map_of_mem he)).mono hmono
      · exact read_grows hy.grows le_rfl hef.2

theorem Filling.dict (hs : Filling Q n h s fs) :
    Yields Q (n + 1) h s (.ref h.size) (.obj fs) := by
  obtain ⟨es, hes, hwithin, hfs⟩ := hs.root
  refine ⟨hs.grows, ?_, .inr ⟨le_rfl, hs.root_lt⟩, Heap.read_obj_iff.mpr ⟨es, hes, hfs⟩⟩
  intro a c hc ha
  by_cases hroot : a = h.size
  · subst hroot
    cases hc.symm.trans hes
    exact hwithin.mono fun _ => And.left
  · exact (hs.closed a c hc ⟨ha, hroot⟩).mono fun _ => And.left

variable [DecidableEq φ]

/-- A merge with the fuel for values that are read with one less. -/
def MergesAt (whole? : φ → Option ℤ) (n : ℕ) : Prop :=
  ∀ {Q : ℕ → Prop} {h : Heap φ} {base patch : Val φ} {b p : Json φ}, Encloses h Q →
    base.Within Q → patch.Within Q → h.read n base = some b → h.read n patch = some p →
    WellIdentified whole? b → WellIdentified whole? p →
    ∃ h' v, mergeAt whole? (n + 1) h base patch = .ok (h', v) ∧
      Yields Q n h h' v (merged whole? b p)

theorem Filling.entry (hmerge : MergesAt whole? n) (hQ : Encloses h Q) (hs : Filling Q n h s fs)
    (hfs : ∀ f ∈ fs, WellIdentified whole? f.2) {e : PyStr × Val φ} {g : PyStr × Json φ}
    (he : e.2.Within Q) (heg : e.1 = g.1 ∧ h.read n e.2 = some g.2)
    (hg : WellIdentified whole? g.2) :
    ∃ s', mergeEntry (mergeAt whole? (n + 1)) h.size s e = .ok s' ∧
      Filling Q n h s' (mergeRow (merged whole?) fs g) := by
  obtain ⟨k, w⟩ := e
  obtain ⟨k', i⟩ := g
  obtain ⟨rfl, hw⟩ := heg
  obtain ⟨es, hes, hwithin, hreads⟩ := hs.root
  have hbase : ((under? k es).getD .null).Within (Around Q h s) ∧
      s.read n ((under? k es).getD .null) = some ((under? k fs).getD .null) ∧
      WellIdentified whole? ((under? k fs).getD .null) := by
    rcases under?_forall₂ (R := fun _ u y => s.read n u = some y) hreads k with
      ⟨he, hf⟩ | ⟨u, y, hu, hy, huy⟩
    · rw [he, hf]
      exact ⟨trivial, Heap.read_null s n, .null⟩
    · rw [hu, hy]
      exact ⟨hwithin.of_under? hu, huy, hfs _ (mem_of_under? hy)⟩
  obtain ⟨s', v, hrun, hyields⟩ := hmerge (hs.encloses hQ) hbase.1
    (he.mono fun _ => hQ.around) hbase.2.1 (read_grows hs.grows le_rfl hw) hbase.2.2 hg
  refine ⟨s'.setItem h.size k v, ?_, ?_⟩
  · rw [mergeEntry, entries_dict hes, hrun]
    rfl
  · rw [mergeRow, ← merged_under?]
    exact hs.step hyields k

theorem fillEntries (hmerge : MergesAt whole? n) (hQ : Encloses h Q)
    (hps : List.Forall₂ (fun e f => e.1 = f.1 ∧ h.read n e.2 = some f.2) ps gs)
    (hwithin : (Cell.dict ps).Within Q) (hgs : ∀ g ∈ gs, WellIdentified whole? g.2)
    (hs : Filling Q n h s fs) (hfs : ∀ f ∈ fs, WellIdentified whole? f.2) :
    ∃ s', ps.foldlM (mergeEntry (mergeAt whole? (n + 1)) h.size) s = .ok s' ∧
      Filling Q n h s' (mergeRows (merged whole?) fs gs) := by
  induction hps generalizing s fs with
  | nil => exact ⟨s, rfl, hs⟩
  | @cons e g ps gs heg _ ih =>
    have hg := hgs g List.mem_cons_self
    obtain ⟨s₁, hentry, hs₁⟩ := hs.entry hmerge hQ hfs (hwithin e.2 (by simp [Cell.values])) heg hg
    have hkeep : ∀ f ∈ mergeRows (merged whole?) fs [g], WellIdentified whole? f.2 := by
      apply mem_mergeRows (p := fun f => WellIdentified whole? f.2) hfs
      · simpa using hg
      · intro r hr v hv
        rw [List.mem_singleton] at hr
        exact hr ▸ hv.merged hg
    obtain ⟨s', hrest, hs'⟩ := ih (fun w hw => hwithin w (List.mem_cons_of_mem _ hw))
      (fun f hf => hgs f (List.mem_cons_of_mem g hf)) hs₁ hkeep
    exact ⟨s', (foldlM_cons_ok hentry).trans hrest, hs'⟩

end Filling

theorem itemsAt (hQ : Encloses h Q) {vs : List (Val φ)} {xs : List (Json φ)}
    {rows : List (IdKey φ × Fields φ)} (hvs : (Cell.list vs).Within Q)
    (hreads : List.Forall₂ (fun w i => h.read (n + 1) w = some i) vs xs)
    (hrows : xs.mapM (keyed? whole?) = some rows) :
    List.Forall₂ (ItemAt whole? Q n h) vs rows := by
  have hkeyed := mapM_some_iff.mp hrows
  clear hrows
  induction hreads generalizing rows with
  | nil =>
    cases hkeyed
    exact .nil
  | @cons w i vs xs hw _ ih =>
    cases hkeyed with
    | cons hrow hrest =>
      refine .cons (itemAt_of_read hQ (hvs w List.mem_cons_self) hw hrow) (ih ?_ hrest)
      exact fun u hu => hvs u (List.mem_cons_of_mem w hu)

theorem encloses_reached (hb : h.read n base = some b) (hp : h.read n patch = some p) :
    Encloses h fun a => h.Reaches base a ∨ h.Reaches patch a where
  closed := by
    rintro a c hc (ha | ha)
    · exact (Heap.sealed_reaches h base a c hc ha).mono fun _ => .inl
    · exact (Heap.sealed_reaches h patch a c hc ha).mono fun _ => .inr
  known := by
    have hknown {v : Val φ} {j : Json φ} (hj : h.read n v = some j) {a : ℕ} (ha : h.Reaches v a) :
        a < h.size := by
      obtain ⟨i, m, -, -, hi, -⟩ := Heap.kept_at (fun _ _ _ hc => hc) (fun _ _ _ hc => hc) ha hj hj
      cases hcell : h.get? a with
      | none => exact absurd (hi.symm.trans (Heap.read_dangling hcell)) nofun
      | some c => exact Heap.lt_size_of_get? hcell
    rintro a (ha | ha)
    · exact hknown hb ha
    · exact hknown hp ha

variable [DecidableEq φ]

theorem mergeAt_other (hdict : ∀ fs gs, b = .obj fs → p ≠ .obj gs)
    (hlist : ∀ xs ys, b = .arr xs → p ≠ .arr ys) (hb : h.read n base = some b)
    (hp : h.read n patch = some p) : mergeAt whole? (n + 1) h base patch = .ok (h, patch) := by
  rw [mergeAt]
  split
  · rename_i es ps hes hps
    obtain ⟨fs, rfl, -⟩ := Heap.read_dict hes hb
    obtain ⟨gs, rfl, -⟩ := Heap.read_dict hps hp
    exact absurd rfl (hdict fs gs rfl)
  · rename_i vs ws hvs hws
    obtain ⟨xs, rfl, -⟩ := Heap.read_list hvs hb
    obtain ⟨ys, rfl, -⟩ := Heap.read_list hws hp
    exact absurd rfl (hlist xs ys rfl)
  · rfl

theorem mergeAt_list {xs ys : List (Json φ)}
    (hQ : Encloses h Q) (hbQ : base.Within Q) (hpQ : patch.Within Q)
    (hb : h.read n base = some (.arr xs)) (hp : h.read n patch = some (.arr ys))
    (hbid : WellIdentified whole? (.arr xs)) (hpid : WellIdentified whole? (.arr ys)) :
    ∃ h' v, mergeAt whole? (n + 1) h base patch = .ok (h', v) ∧
      Yields Q n h h' v (merged whole? (.arr xs) (.arr ys)) := by
  obtain ⟨a, vs, m, rfl, rfl, hvs, hxs⟩ := list_of_read hb
  obtain ⟨a', ws, m', rfl, hm, hws, hys⟩ := list_of_read hp
  cases hm
  have hcell : h.cell? (.ref a) = some (.list vs) := hvs
  have hcell' : h.cell? (.ref a') = some (.list ws) := hws
  have hempty : vs.isEmpty = xs.isEmpty := by cases hxs <;> rfl
  have hrun : mergeAt whole? (m + 2) h (.ref a) (.ref a') =
      if !xs.isEmpty && xs.all hasId then
        if ys.all hasId then mergeItems whole? h vs ws else .ok (h, .ref a)
      else .ok (h, .ref a') := by
    rw [mergeAt, hcell, hcell', ← hempty, ← all_hasIdAt hxs, ← all_hasIdAt hys]
  rw [hrun]
  rcases list_cases hbid hpid with hnot | ⟨hnil, hall, hall'⟩ | ⟨as, bs, hnil, has, hbs⟩
  · rw [merged_list hnot, if_neg]
    · exact ⟨h, _, rfl, yields_same hQ hpQ hp⟩
    · rcases hnot with rfl | hnot
      · exact Bool.false_ne_true
      · rw [hnot, Bool.and_false]
        exact Bool.false_ne_true
  · rw [merged_base hnil hall hall', if_pos (by simp [hnil, hall]), if_neg (by simp [hall'])]
    exact ⟨h, _, rfl, yields_same hQ hbQ hb⟩
  · rw [merged_items hnil has.items hbs.items, if_pos (by simp [hnil, (all_hasId has.items).2]),
      if_pos (all_hasId hbs.items).2]
    -- an item is a dictionary, so the fuel reaches two levels down
    cases m with
    | zero =>
      cases hxs with
      | nil => exact absurd rfl hnil
      | cons hw _ =>
        cases mapM_some_iff.mp has.items with
        | cons hrow _ =>
          obtain ⟨rfl, -⟩ := hasId_of_keyed? hrow
          obtain ⟨_, _, _, -, hm, -⟩ := dict_of_read hw
          cases hm
    | succ m =>
      exact mergeItems_ok hQ (itemsAt hQ (hQ.closed a _ hvs hbQ) hxs has.items)
        (itemsAt hQ (hQ.closed a' _ hws hpQ) hys hbs.items) has.ids

theorem mergeAt_dict {fs gs : Fields φ} (ih : ∀ m < n, MergesAt whole? m)
    (hQ : Encloses h Q) (hbQ : base.Within Q) (hpQ : patch.Within Q)
    (hb : h.read n base = some (.obj fs)) (hp : h.read n patch = some (.obj gs))
    (hbid : WellIdentified whole? (.obj fs)) (hpid : WellIdentified whole? (.obj gs)) :
    ∃ h' v, mergeAt whole? (n + 1) h base patch = .ok (h', v) ∧
      Yields Q n h h' v (merged whole? (.obj fs) (.obj gs)) := by
  obtain ⟨a, es, m, rfl, rfl, hes, hfs⟩ := dict_of_read hb
  obtain ⟨a', ps, m', rfl, hm, hps, hgs⟩ := dict_of_read hp
  cases hm
  cases hbid with
  | dict _ hfsid =>
    cases hpid with
    | dict _ hgsid =>
      have hstart := filling_alloc hQ (hQ.closed a _ hes hbQ) hfs
      obtain ⟨s', hloop, hs'⟩ := fillEntries (ih m (Nat.lt_succ_self m)) hQ hgs
        (hQ.closed a' _ hps hpQ) hgsid hstart hfsid
      refine ⟨s', .ref h.size, ?_, merged_dict fs gs ▸ hs'.dict⟩
      have hcell : h.cell? (.ref a) = some (.dict es) := hes
      have hcell' : h.cell? (.ref a') = some (.dict ps) := hps
      rw [mergeAt, hcell, hcell']
      show (ps.foldlM _ _ >>= _) = _
      rw [hloop]
      rfl

theorem mergeAt_ok (n : ℕ) : MergesAt whole? n := by
  induction n using Nat.strong_induction_on with
  | _ n ih =>
    intro Q h base patch b p hQ hbQ hpQ hb hp hbid hpid
    by_cases hdict : ∃ fs gs, b = .obj fs ∧ p = .obj gs
    · obtain ⟨fs, gs, rfl, rfl⟩ := hdict
      exact mergeAt_dict ih hQ hbQ hpQ hb hp hbid hpid
    by_cases hlist : ∃ xs ys, b = .arr xs ∧ p = .arr ys
    · obtain ⟨xs, ys, rfl, rfl⟩ := hlist
      exact mergeAt_list hQ hbQ hpQ hb hp hbid hpid
    · have hdict : ∀ fs gs, b = .obj fs → p ≠ .obj gs :=
        fun fs gs hb hp => hdict ⟨fs, gs, hb, hp⟩
      have hlist : ∀ xs ys, b = .arr xs → p ≠ .arr ys :=
        fun xs ys hb hp => hlist ⟨xs, ys, hb, hp⟩
      rw [merged_of_other hdict hlist, mergeAt_other hdict hlist hb hp]
      exact ⟨h, patch, rfl, yields_same hQ hpQ hp⟩

theorem mergeConfigValue_ok (hb : h.toJson? base = some b) (hp : h.toJson? patch = some p)
    (hbid : WellIdentified whole? b) (hpid : WellIdentified whole? p) :
    ∃ h' v, mergeConfigValue whole? h base patch = .ok (h', v) ∧ h.Grows h' ∧
      h'.toJson? v = some (merged whole? b p) := by
  obtain ⟨h', v, hrun, hyields⟩ := mergeAt_ok h.size (encloses_reached hb hp)
    ((Heap.within_reaches h base).mono fun _ => .inl)
    ((Heap.within_reaches h patch).mono fun _ => .inr) hb hp hbid hpid
  exact ⟨h', v, hrun, hyields.grows, Heap.read_mono hyields.grows.size_le hyields.reads⟩

/-- A merge succeeds, leaves the base as it is, keeps what the patch does not name, and has its
whole effect the first time. -/
theorem merge_keeps_unnamed (hb : h.toJson? base = some b) (hp : h.toJson? patch = some p)
    (hbid : WellIdentified whole? b) (hpid : WellIdentified whole? p) :
    ∃ h' v r, mergeConfigValue whole? h base patch = .ok (h', v) ∧ h'.toJson? v = some r ∧
      Keeps whole? b p r ∧ h.Grows h' ∧ h'.toJson? base = some b ∧
      ∃ h'' w, mergeConfigValue whole? h' v patch = .ok (h'', w) ∧ h''.toJson? w = some r := by
  obtain ⟨h', v, hrun, hg, hv⟩ := mergeConfigValue_ok hb hp hbid hpid
  have hp' : h'.toJson? patch = some p := read_grows hg hg.size_le hp
  obtain ⟨h'', w, hagain, -, hw⟩ := mergeConfigValue_ok hv hp' (hbid.merged hpid) hpid
  rw [merged_twice hbid hpid] at hw
  exact ⟨h', v, _, hrun, hv, keeps_merged hbid hpid, hg, read_grows hg hg.size_le hb, h'', w,
    hagain, hw⟩

end Memory

def wholeEmpty (x : Empty) : Option ℤ := nomatch x

/-- A base with two models at the address 3, and at 7 a patch for the second and a third one. -/
def modelsHeap : Heap Empty :=
  ⟨[.dict [(idField, .int 1), (PyStr.ofString "on", .bool true)],
    .dict [(idField, .int 2)],
    .list [.ref 0, .ref 1],
    .dict [(PyStr.ofString "name", .str []), (PyStr.ofString "models", .ref 2)],
    .dict [(idField, .int 2), (PyStr.ofString "on", .bool false)],
    .dict [(idField, .str (PyStr.ofString "m3"))],
    .list [.ref 4, .ref 5],
    .dict [(PyStr.ofString "models", .ref 6)]]⟩

def baseItems : List (IdKey Empty × Fields Empty) :=
  [(.number 1, [(idField, .int 1), (PyStr.ofString "on", .bool true)]),
    (.number 2, [(idField, .int 2)])]

def patchedItems : List (IdKey Empty × Fields Empty) :=
  [(.number 2, [(idField, .int 2), (PyStr.ofString "on", .bool false)]),
    (.str (PyStr.ofString "m3"), [(idField, .str (PyStr.ofString "m3"))])]

def baseModels : Json Empty :=
  .obj [(PyStr.ofString "name", .str []), (PyStr.ofString "models", .arr (baseItems.map item))]

def patchModels : Json Empty := .obj [(PyStr.ofString "models", .arr (patchedItems.map item))]

theorem wellIdentified_baseModels : WellIdentified wholeEmpty baseModels := by
  refine .dict (by decide) (List.forall_mem_cons.mpr ⟨.str _, List.forall_mem_cons.mpr ⟨?_, nofun⟩⟩)
  exact .items (show Identified wholeEmpty (baseItems.map item) baseItems from
    ⟨rfl, by decide, by decide⟩)

theorem wellIdentified_patchModels : WellIdentified wholeEmpty patchModels := by
  refine .dict (by decide) (List.forall_mem_cons.mpr ⟨?_, nofun⟩)
  exact .items (show Identified wholeEmpty (patchedItems.map item) patchedItems from
    ⟨rfl, by decide, by decide⟩)

theorem models_merged : modelsHeap.toJson? (.ref 3) = some baseModels ∧
    modelsHeap.toJson? (.ref 7) = some patchModels ∧
    ∃ h' v r, mergeConfigValue wholeEmpty modelsHeap (.ref 3) (.ref 7) = .ok (h', v) ∧
      h'.toJson? v = some r ∧ Keeps wholeEmpty baseModels patchModels r ∧ modelsHeap.Grows h' ∧
      h'.toJson? (.ref 3) = some baseModels ∧
      ∃ h'' w, mergeConfigValue wholeEmpty h' v (.ref 7) = .ok (h'', w) ∧ h''.toJson? w = some r :=
  ⟨rfl, rfl,
    merge_keeps_unnamed rfl rfl wellIdentified_baseModels wellIdentified_patchModels⟩

/-- At 1 a list with an id, at 2 one without, at 5 one with an id that cannot be hashed. -/
def otherLists : Heap Empty :=
  ⟨[.dict [(idField, .int 1)], .list [.ref 0], .list [.str (PyStr.ofString "raw_string")],
    .list [], .dict [(idField, .ref 3)], .list [.ref 4]]⟩

/-- A patched item without an id is dropped, and an id that cannot be hashed is a `TypeError`. -/
theorem raw_string_is_dropped :
    otherLists.toJson? (.ref 2) = some (.arr [.str (PyStr.ofString "raw_string")]) ∧
    mergeConfigValue wholeEmpty otherLists (.ref 1) (.ref 2) = .ok (otherLists, .ref 1) ∧
    otherLists.toJson? (.ref 1) = some (.arr [.obj [(idField, .int 1)]]) ∧
    mergeConfigValue wholeEmpty otherLists (.ref 5) (.ref 5) = .error .unhashable :=
  ⟨rfl, rfl, rfl, rfl⟩

end OpenClaw.Config
