import OpenClaw.Foundation.HeapPaths

/-!
# Writing into what is read

A value reads as before when a dictionary is written that it does not lead to, or when the entry that
is written gets a value that reads as the old one did. Any other write shows.
-/

namespace Foundation

set_option autoImplicit false

variable {φ : Type}

namespace Json

theorem sizeOf_child {j i : Json φ} {s : Step} (h : j.child? s = some i) : sizeOf i < sizeOf j := by
  cases j with
  | arr items =>
    cases s with
    | key k => cases h
    | index n =>
      have hlt := List.sizeOf_lt_of_mem (List.mem_of_getElem? h)
      rw [Json.arr.sizeOf_spec]
      omega
  | obj fields =>
    cases s with
    | key k =>
      have hlt := List.sizeOf_lt_of_mem (mem_of_under? h)
      rw [Prod.mk.sizeOf_spec] at hlt
      rw [Json.obj.sizeOf_spec]
      omega
    | index n => cases h
  | _ => cases h

theorem sizeOf_at {j i : Json φ} {l : Location} (h : j.at? l = some i) : sizeOf i ≤ sizeOf j := by
  induction l generalizing j with
  | nil =>
    cases h
    exact le_refl _
  | cons s l ih =>
    obtain ⟨c, hc, hi⟩ := Option.bind_eq_some_iff.mp h
    exact (ih hi).trans (sizeOf_child hc).le

end Json

namespace Heap

section Reads
variable {h h' : Heap φ} {n m : ℕ} {v w : Val φ} {j i : Json φ}

theorem read_arr_iff {a : ℕ} {js : List (Json φ)} : h.read (n + 1) (.ref a) = some (.arr js) ↔
    ∃ vs, h.get? a = some (.list vs) ∧ List.Forall₂ (fun v j => h.read n v = some j) vs js := by
  rw [read]
  split
  · rename_i vs hcell
    rw [Option.map_eq_some_iff]
    constructor
    · rintro ⟨js', hjs, heq⟩
      cases heq
      exact ⟨vs, hcell, mapM_some_iff.mp hjs⟩
    · rintro ⟨vs', hvs, hjs⟩
      rw [hcell] at hvs
      cases hvs
      exact ⟨js, mapM_some_iff.mpr hjs, rfl⟩
  · rename_i es hcell
    refine iff_of_false ?_ ?_
    · rw [Option.map_eq_some_iff]
      rintro ⟨_, -, heq⟩
      cases heq
    · rintro ⟨vs, hvs, -⟩
      rw [hcell] at hvs
      cases hvs
  · rename_i hcell
    refine iff_of_false nofun ?_
    rintro ⟨vs, hvs, -⟩
    rw [hcell] at hvs
    cases hvs

theorem read_obj_iff {a : ℕ} {fs : List (PyStr × Json φ)} :
    h.read (n + 1) (.ref a) = some (.obj fs) ↔ ∃ es, h.get? a = some (.dict es) ∧
      List.Forall₂ (fun e f => e.1 = f.1 ∧ h.read n e.2 = some f.2) es fs := by
  rw [read]
  split
  · rename_i vs hcell
    refine iff_of_false ?_ ?_
    · rw [Option.map_eq_some_iff]
      rintro ⟨_, -, heq⟩
      cases heq
    · rintro ⟨es, hes, -⟩
      rw [hcell] at hes
      cases hes
  · rename_i es hcell
    rw [Option.map_eq_some_iff]
    constructor
    · rintro ⟨fs', hfs, heq⟩
      cases heq
      exact ⟨es, hcell, read_entries_iff.mp hfs⟩
    · rintro ⟨es', hes, hfs⟩
      rw [hcell] at hes
      cases hes
      exact ⟨fs, read_entries_iff.mpr hfs, rfl⟩
  · rename_i hcell
    refine iff_of_false nofun ?_
    rintro ⟨es, hes, -⟩
    rw [hcell] at hes
    cases hes

theorem read_unique (hj : h.read n v = some j) (hi : h.read m v = some i) : j = i := by
  have hone := read_mono (le_max_left n m) hj
  have htwo := read_mono (le_max_right n m) hi
  exact Option.some.inj (hone.symm.trans htwo)

theorem forall₂_change {α β γ : Type} {R : α → γ → Prop} {S T : β → γ → Prop} {xs : List α}
    {ys : List β} {zs : List γ} (hR : List.Forall₂ R xs zs) (hS : List.Forall₂ S ys zs)
    (hT : ∀ x y z, R x z → S y z → T y z) : List.Forall₂ T ys zs := by
  induction hR generalizing ys with
  | nil =>
    cases hS
    exact .nil
  | @cons x z xs zs hxz _ ih =>
    cases hS with
    | @cons y _ ys _ hyz hrest => exact .cons (hT x y z hxz hyz) (ih hrest)

/-- How much fuel a value takes depends on what is read only. -/
theorem read_fuel (hv : h.read n v = some j) (hw : h'.read m w = some j) :
    h'.read n w = some j := by
  induction n generalizing m v w j with
  | zero =>
    cases w with
    | ref b =>
      cases v with
      | ref a => cases hv
      | _ =>
        rcases read_ref hw with ⟨items, rfl⟩ | ⟨fields, rfl⟩ <;>
        · simp only [read_null, read_bool, read_int, read_float, read_str] at hv
          cases hv
    | _ => simpa only [read_null, read_bool, read_int, read_float, read_str] using hw
  | succ n ih =>
    cases w with
    | ref b =>
      cases m with
      | zero => cases hw
      | succ m =>
        cases v with
        | ref a =>
          rcases read_ref hw with ⟨items, rfl⟩ | ⟨fields, rfl⟩
          · obtain ⟨vs, -, hvs⟩ := read_arr_iff.mp hv
            obtain ⟨ws, hcell, hws⟩ := read_arr_iff.mp hw
            exact read_arr_iff.mpr ⟨ws, hcell, forall₂_change hvs hws fun _ _ _ => ih⟩
          · obtain ⟨es, -, hes⟩ := read_obj_iff.mp hv
            obtain ⟨es', hcell, hes'⟩ := read_obj_iff.mp hw
            exact read_obj_iff.mpr ⟨es', hcell, forall₂_change hes hes' fun _ _ _ he he' =>
              ⟨he'.1, ih he.2 he'.2⟩⟩
        | _ =>
          rcases read_ref hw with ⟨items, rfl⟩ | ⟨fields, rfl⟩ <;>
          · simp only [read_null, read_bool, read_int, read_float, read_str] at hv
            cases hv
    | _ => simpa only [read_null, read_bool, read_int, read_float, read_str] using hw

end Reads

theorem Sealed.grow {mem : Heap φ} {h h' : Heap φ} (hs : h.Sealed (New mem h)) (hle : mem.size ≤ h.size)
    (hg : h.Grows h') (hnew : h'.Sealed (New h h')) : h'.Sealed (New mem h') := by
  intro a c hc ha
  rcases Nat.lt_or_ge a h.size with hlt | hge
  · rw [hg.get? hlt] at hc
    exact (hs a c hc ⟨ha.1, hlt⟩).mono fun b hb => hb.mono le_rfl hg.size_le
  · exact (hnew a c hc ⟨hge, ha.2⟩).mono fun b hb => hb.mono hle le_rfl

/-! ## The cells that a value leads to -/

inductive Reaches (h : Heap φ) : Val φ → ℕ → Prop
  | here (a : ℕ) : Reaches h (.ref a) a
  | inside {a b : ℕ} {c : Cell φ} {w : Val φ} (hc : h.get? b = some c) (hw : w ∈ c.values)
      (hrest : Reaches h w a) : Reaches h (.ref b) a

section Reaches
variable {h h' : Heap φ} {n m : ℕ} {v w x : Val φ} {j i : Json φ} {d : ℕ} {k : PyStr}
  {es : List (PyStr × Val φ)}

theorem Reaches.trans {b : ℕ} (hx : h.Reaches x b) (hb : h.Reaches (.ref b) d) : h.Reaches x d := by
  induction hx with
  | here => exact hb
  | inside hc hw _ ih => exact .inside hc hw (ih hb)

theorem sealed_reaches (h : Heap φ) (x : Val φ) : h.Sealed (h.Reaches x) := by
  intro a c hc ha w hw
  cases w with
  | ref b => exact ha.trans (.inside hc hw (.here b))
  | _ => trivial

theorem within_reaches (h : Heap φ) (x : Val φ) : x.Within (h.Reaches x) := by
  cases x with
  | ref a => exact .here a
  | _ => trivial

theorem Sealed.reaches {Q : ℕ → Prop} (hs : h.Sealed Q) (hx : x.Within Q) (hd : h.Reaches x d) :
    Q d := by
  induction hd with
  | here => exact hx
  | inside hc hw _ ih => exact ih (hs _ _ hc hx _ hw)

/-- What a dictionary holds is reached with it. -/
theorem Reaches.entry {b : ℕ} (hx : h.Reaches x d) (hd : h.get? d = some (.dict es))
    (hk : under? k es = some (.ref b)) : h.Reaches x b :=
  hx.trans (.inside hd (List.mem_map_of_mem (mem_of_under? hk)) (.here b))

/-- Values that lead to no cell that has changed. -/
theorem read_apart (hsame : ∀ a c, a ≠ d → h.get? a = some c → h'.get? a = some c)
    (hd : ¬ h.Reaches x d) (hx : h.read n x = some j) : h'.read n x = some j := by
  refine read_frame (sealed_reaches h x) (fun a c ha hc => hsame a c ?_ hc) le_rfl
    (within_reaches h x) hx
  rintro rfl
  exact hd ha

theorem forall₂_both {α β : Type} {R S : α → β → Prop} {xs : List α} {ys : List β}
    (hR : List.Forall₂ R xs ys) (hS : List.Forall₂ S xs ys) {x : α} (hx : x ∈ xs) :
    ∃ y ∈ ys, R x y ∧ S x y := by
  induction hR with
  | nil => cases hx
  | @cons x' y xs ys hxy _ ih =>
    cases hS with
    | cons hxy' hrest =>
      rcases List.mem_cons.mp hx with rfl | hx
      · exact ⟨y, List.mem_cons_self, hxy, hxy'⟩
      · obtain ⟨z, hz, hboth⟩ := ih hrest hx
        exact ⟨z, List.mem_cons_of_mem y hz, hboth⟩

/-- Two heaps in which a cell is the same and reads the same. -/
theorem read_value {h₁ h₂ : Heap φ} {b : ℕ} {c : Cell φ} (h₁c : h₁.get? b = some c)
    (h₂c : h₂.get? b = some c) (hw : w ∈ c.values) (hone : h₁.read n (.ref b) = some j)
    (htwo : h₂.read m (.ref b) = some j) :
    ∃ i n' m', sizeOf i < sizeOf j ∧ h₁.read n' w = some i ∧ h₂.read m' w = some i := by
  cases n with
  | zero => cases hone
  | succ n =>
    cases m with
    | zero => cases htwo
    | succ m =>
      rcases read_ref hone with ⟨items, rfl⟩ | ⟨fields, rfl⟩
      · obtain ⟨vs, hvs, hitems⟩ := read_arr_iff.mp hone
        obtain ⟨vs', hvs', hitems'⟩ := read_arr_iff.mp htwo
        rw [h₁c] at hvs
        rw [h₂c] at hvs'
        cases hvs
        cases hvs'
        obtain ⟨y, hy, hread, hread'⟩ := forall₂_both hitems hitems' hw
        have hlt := List.sizeOf_lt_of_mem hy
        refine ⟨y, n, m, ?_, hread, hread'⟩
        rw [Json.arr.sizeOf_spec]
        omega
      · obtain ⟨es, hes, hfields⟩ := read_obj_iff.mp hone
        obtain ⟨es', hes', hfields'⟩ := read_obj_iff.mp htwo
        rw [h₁c] at hes
        rw [h₂c] at hes'
        cases hes
        cases hes'
        obtain ⟨e, he, rfl⟩ := List.mem_map.mp hw
        obtain ⟨⟨k, y⟩, hy, hread, hread'⟩ := forall₂_both hfields hfields' he
        have hlt := List.sizeOf_lt_of_mem hy
        refine ⟨y, n, m, ?_, hread.2, hread'.2⟩
        rw [Prod.mk.sizeOf_spec] at hlt
        rw [Json.obj.sizeOf_spec]
        omega

/-- Where a value that led to a cell reads the same in two heaps with other content there only, the cell
reads the same, too. -/
theorem kept_at {h₁ h₂ : Heap φ}
    (h₁same : ∀ a c, a ≠ d → h.get? a = some c → h₁.get? a = some c)
    (h₂same : ∀ a c, a ≠ d → h.get? a = some c → h₂.get? a = some c)
    (hd : h.Reaches x d) (hone : h₁.read n x = some j) (htwo : h₂.read m x = some j) :
    ∃ i n' m', sizeOf i ≤ sizeOf j ∧ h₁.read n' (.ref d) = some i ∧
      h₂.read m' (.ref d) = some i := by
  induction hd generalizing n m j with
  | here => exact ⟨j, n, m, le_refl _, hone, htwo⟩
  | @inside a b c w hc hw hrest ih =>
    by_cases hb : b = a
    · subst hb
      exact ⟨j, n, m, le_refl _, hone, htwo⟩
    obtain ⟨y, n', m', hlt, hone, htwo⟩ :=
      read_value (h₁same b c hb hc) (h₂same b c hb hc) hw hone htwo
    obtain ⟨i, n', m', hle, hi⟩ := ih h₁same h₂same hone htwo
    exact ⟨i, n', m', hle.trans hlt.le, hi⟩

end Reaches

/-! ## Setting an entry -/

section Entries
variable {h h' : Heap φ} {n m : ℕ} {v w x : Val φ} {j i : Json φ} {d : ℕ} {k : PyStr}
  {es : List (PyStr × Val φ)}

theorem get?_setItem_of_ne (h : Heap φ) (d : ℕ) (k : PyStr) (v : Val φ) :
    ∀ a c, a ≠ d → h.get? a = some c → (h.setItem d k v).get? a = some c := by
  intro a c ha hc
  rw [get?_setItem_ne ha.symm]
  exact hc

theorem forall₂_replaceEntry {β : Type} {R : Val φ → β → Prop} {fs : List (PyStr × β)}
    (hfs : List.Forall₂ (fun e f => e.1 = f.1 ∧ R e.2 f.2) es fs) (hk : under? k es = some w)
    (hv : ∀ y, R w y → R v y) :
    List.Forall₂ (fun e f => e.1 = f.1 ∧ R e.2 f.2) (replaceRow Prod.fst (k, v) es) fs := by
  induction hfs with
  | nil => cases hk
  | @cons e f es fs hef hrest ih =>
    by_cases hkey : e.1 = k
    · rw [replaceRow, if_pos hkey]
      have hw : e.2 = w := by simpa [under?, hkey] using hk
      exact .cons ⟨hkey.symm.trans hef.1, hv f.2 (hw ▸ hef.2)⟩ hrest
    · rw [replaceRow, if_neg hkey]
      refine .cons hef (ih ?_)
      simpa [under?, hkey] using hk

/-- An entry gets a value that reads as the old one. -/
theorem read_setItem_same (hd : h.get? d = some (.dict es)) (hk : under? k es = some w)
    (hw : ∃ m, h.read m w = some i) (hv : ∃ m, h.read m v = some i) (hx : h.read n x = some j) :
    (h.setItem d k v).read n x = some j := by
  obtain ⟨mw, hw⟩ := hw
  obtain ⟨mv, hv⟩ := hv
  induction n generalizing x j with
  | zero =>
    cases x with
    | ref a => cases hx
    | _ => exact hx
  | succ n ih =>
    cases x with
    | ref a =>
      rcases read_ref hx with ⟨items, rfl⟩ | ⟨fields, rfl⟩
      · obtain ⟨vs, hvs, hitems⟩ := read_arr_iff.mp hx
        refine read_arr_iff.mpr ⟨vs, get?_setItem_of_ne h d k v a _ ?_ hvs, hitems.imp fun _ _ => ih⟩
        rintro rfl
        rw [hd] at hvs
        cases hvs
      · obtain ⟨es', hes, hfields⟩ := read_obj_iff.mp hx
        have hkept : List.Forall₂ (fun e f => e.1 = f.1 ∧ (h.setItem d k v).read n e.2 = some f.2)
            es' fields := hfields.imp fun _ _ hef => ⟨hef.1, ih hef.2⟩
        by_cases had : a = d
        · subst had
          rw [hd] at hes
          cases hes
          refine read_obj_iff.mpr ⟨_, get?_setItem_self hd k v, ?_⟩
          refine (forall₂_replaceEntry (R := fun u y => h.read n u = some y) hfields hk ?_).imp
            fun _ _ hef => ⟨hef.1, ih hef.2⟩
          · intro y hy
            have hsame : y = i := read_unique hy hw
            exact read_fuel hy (hsame ▸ hv)
        · exact read_obj_iff.mpr ⟨es', get?_setItem_of_ne h d k v a _ had hes, hkept⟩
    | _ => exact hx

/-- Where a value still reads the same, an entry that was set holds what the old one held. -/
theorem entry_of_kept {es' : List (PyStr × Val φ)}
    (hsame : ∀ a c, a ≠ d → h.get? a = some c → h'.get? a = some c)
    (hd : h.get? d = some (.dict es)) (hd' : h'.get? d = some (.dict es')) (hreach : h.Reaches x d)
    (hx : h.read n x = some j) (hx' : h'.read m x = some j) (hk : under? k es' = some v) :
    ∃ w y whole, under? k es = some w ∧ (∃ m, h.read m w = some y) ∧ (∃ m, h'.read m v = some y) ∧
      sizeOf y < sizeOf whole ∧ ∃ m, h'.read m (.ref d) = some whole := by
  obtain ⟨whole, n', m', -, hone, htwo⟩ :=
    kept_at (fun a c _ hc => hc) hsame hreach hx hx'
  have hcell : h.cell? (.ref d) = some (.dict es) := hd
  have hcell' : h'.cell? (.ref d) = some (.dict es') := hd'
  obtain ⟨fs, rfl, hfs⟩ := read_dict hcell hone
  obtain ⟨fs', heq, hfs'⟩ := read_dict hcell' htwo
  cases heq
  rcases under?_forall₂ (R := fun _ u y => h'.read m' u = some y) hfs' k with
    ⟨hnone, -⟩ | ⟨u, y, hu, hy, hread⟩
  · rw [hk] at hnone
    cases hnone
  rw [hk] at hu
  cases hu
  rcases under?_forall₂ (R := fun _ u y => h.read n' u = some y) hfs k with
    ⟨-, hnone⟩ | ⟨w, y', hw, hy', hread'⟩
  · rw [hy] at hnone
    cases hnone
  rw [hy] at hy'
  cases hy'
  refine ⟨w, y, .obj fs, hw, ⟨n', hread'⟩, ⟨m', hread⟩, ?_, m', htwo⟩
  exact Json.sizeOf_child (s := .key k) hy

/-- Setting an entry shows, unless the dictionary is not reached or holds a value there that reads the
same. -/
theorem setItem_kept_iff (hd : h.get? d = some (.dict es)) (hv : ∃ m, h.read m v = some i)
    (hx : h.read n x = some j) : (∃ m, (h.setItem d k v).read m x = some j) ↔
      (h.Reaches x d → ∃ w, under? k es = some w ∧ ∃ m, h.read m w = some i) := by
  constructor
  · rintro ⟨m, hx'⟩ hreach
    have hset : under? k (replaceRow Prod.fst (k, v) es) = some v := by
      rw [under?_replaceRow, if_pos rfl]
    obtain ⟨w, y, whole, hw, hwy, ⟨mv, hvy⟩, hlt, hwhole⟩ :=
      entry_of_kept (get?_setItem_of_ne h d k v) hd (get?_setItem_self hd k v) hreach hx hx' hset
    obtain ⟨mi, hvi⟩ := hv
    by_cases hcircular : h.Reaches v d
    · -- the dictionary would lie in its own entry
      obtain ⟨whole', m₁, -, hle, hwhole', -⟩ := kept_at (get?_setItem_of_ne h d k v)
        (get?_setItem_of_ne h d k v) hcircular hvy hvy
      obtain ⟨m₂, hwhole⟩ := hwhole
      rw [read_unique hwhole hwhole'] at hlt
      omega
    · have hvi' := read_apart (get?_setItem_of_ne h d k v) hcircular hvi
      rw [read_unique hvy hvi'] at hwy
      exact ⟨w, hw, hwy⟩
  · intro hharmless
    by_cases hreach : h.Reaches x d
    · obtain ⟨w, hw, hwi⟩ := hharmless hreach
      exact ⟨n, read_setItem_same hd hw hwi hv hx⟩
    · exact ⟨n, read_apart (get?_setItem_of_ne h d k v) hreach hx⟩

/-- A new dictionary in the place of another value, or of none, shows. -/
theorem not_kept_of_dict {es' es₁ : List (PyStr × Val φ)} {b : ℕ}
    (hsame : ∀ a c, a ≠ d → h.get? a = some c → h'.get? a = some c)
    (hd : h.get? d = some (.dict es)) (hd' : h'.get? d = some (.dict es')) (hreach : h.Reaches x d)
    (hx : h.read n x = some j) (hk : under? k es' = some (.ref b))
    (hb : h'.get? b = some (.dict es₁))
    (hold : ∀ a es₂, under? k es = some (.ref a) → h.get? a ≠ some (.dict es₂)) :
    h'.read m x ≠ some j := by
  intro hx'
  obtain ⟨w, y, -, hw, ⟨mw, hwy⟩, ⟨mb, hby⟩, -⟩ :=
    entry_of_kept hsame hd hd' hreach hx hx' hk
  have hcell : h'.cell? (.ref b) = some (.dict es₁) := hb
  obtain ⟨fs, rfl, -⟩ := read_dict hcell hby
  cases hc : h.cell? w with
  | none => exact (read_scalar hc hwy).2 fs rfl
  | some c =>
    cases c with
    | list vs =>
      obtain ⟨js, heq, -⟩ := read_list hc hwy
      cases heq
    | dict es₂ =>
      cases w with
      | ref a => exact hold a es₂ hw hc
      | _ => cases hc

end Entries

end Heap

end Foundation
