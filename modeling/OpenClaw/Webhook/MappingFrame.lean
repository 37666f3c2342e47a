import OpenClaw.Foundation.HeapReads
import OpenClaw.Webhook.MappingTrees

/-!
# What a mapping writes into the payload

`_coerce_value` passes parts of the payload on as they are, and `_set_path` walks into a dictionary that
it finds: a rule whose target path leads through such a part writes into the payload.
-/

namespace OpenClaw.Webhook

open Foundation Heap
set_option autoImplicit false

variable {φ : Type}

/-! ## Rules -/

section Rules
variable (py : Builtins φ) (allowed : List (PyStr × PyStr)) (profileId : PyStr)

/-- What a rule writes, with its new cells; `none` when it is skipped. -/
def ruleValue (h : Heap φ) (payload : Val φ) (fm : FieldMapping φ) :
    Except MappingError (Option (Heap φ × Val φ)) :=
  if targetRoot fm.targetPath ∈ privilegedFields ∧
      (profileId, targetRoot fm.targetPath) ∉ allowed then
    .error (.privileged (targetRoot fm.targetPath) profileId)
  else
    match resolvePath h payload fm.sourcePath with
    | .error e => .error e
    | .ok none =>
      if fm.required then .error (.missing fm.sourcePath)
      else if fm.default.isNull then .ok none
      else .ok (some (h.build fm.default))
    | .ok (some v) =>
      match coerceValue py h v fm.coercion with
      | .error (.caught detail) =>
        .error (.coercion fm.sourcePath fm.targetPath fm.coercion detail)
      | .error .other => .error .other
      | .ok r => .ok (some r)

/-- What the rule says of the payload as it came. -/
def treeValue (payload : Json φ) (fm : FieldMapping φ) : Except MappingError (Option (Json φ)) :=
  if targetRoot fm.targetPath ∈ privilegedFields ∧
      (profileId, targetRoot fm.targetPath) ∉ allowed then
    .error (.privileged (targetRoot fm.targetPath) profileId)
  else
    match resolveTree (splitSource fm.sourcePath) payload with
    | .error e => .error e
    | .ok none =>
      if fm.required then .error (.missing fm.sourcePath)
      else if fm.default.isNull then .ok none
      else .ok (some fm.default)
    | .ok (some j) =>
      match coerceTree py j fm.coercion with
      | .error (.caught detail) =>
        .error (.coercion fm.sourcePath fm.targetPath fm.coercion detail)
      | .error .other => .error .other
      | .ok j => .ok (some j)

end Rules

section RuleSpecs
variable {py : Builtins φ} {allowed : List (PyStr × PyStr)} {profileId : PyStr} {h : Heap φ}
  {payload : Val φ} {j : Json φ} {n : ℕ}

theorem applyField_eq (root : ℕ) (s : MapState φ) (fm : FieldMapping φ) :
    applyField py allowed profileId payload root s fm =
      (ruleValue py allowed profileId s.heap payload fm).map fun
        | none => { s with warnings := s.warnings ++ [skippedWarning fm.sourcePath] }
        | some r => { s with heap := setPath r.1 root fm.targetPath r.2 } := by
  unfold applyField ruleValue
  split
  · rfl
  cases resolvePath s.heap payload fm.sourcePath with
  | error e => rfl
  | ok found =>
    cases found with
    | none =>
      dsimp only
      split
      · rfl
      · split <;> rfl
    | some v =>
      dsimp only
      cases coerceValue py s.heap v fm.coercion with
      | error e => cases e <;> rfl
      | ok r => rfl

/-- The rule sees what the payload reads as. -/
theorem ruleValue_tree (hpos : 0 < h.size) (hn : n ≤ h.size - 1) (hj : h.read n payload = some j)
    (fm : FieldMapping φ) :
    (ruleValue py allowed profileId h payload fm).map (Option.map fun r => r.1.toJson? r.2) =
      (treeValue py allowed profileId j fm).map (Option.map some) := by
  have hresolve : (resolvePath h payload fm.sourcePath).map (Option.map (h.read n)) =
      (resolveTree (splitSource fm.sourcePath) j).map (Option.map some) := resolveParts_tree hj
  unfold ruleValue treeValue
  split
  · rfl
  generalize resolvePath h payload fm.sourcePath = r at hresolve
  generalize resolveTree (splitSource fm.sourcePath) j = t at hresolve
  match r, t with
  | .error e, .error e' =>
    cases hresolve
    rfl
  | .error e, .ok t => cases hresolve
  | .ok r, .error e => cases hresolve
  | .ok none, .ok none =>
    dsimp only
    split
    · rfl
    · split
      · rfl
      · have hread := read_mono (Nat.sub_le _ _) (read_build hpos fm.default)
        exact congrArg (fun x => Except.ok (some x)) hread
  | .ok none, .ok (some i) => cases hresolve
  | .ok (some v), .ok none => cases hresolve
  | .ok (some v), .ok (some i) =>
    have hread : h.read n v = some i := by simpa [Except.map] using hresolve
    have hcoerce : (coerceValue py h v fm.coercion).map (fun r => r.1.read (r.1.size - 1) r.2) =
        (coerceTree py i fm.coercion).map some :=
      coerceValue_tree hpos (read_mono hn hread) fm.coercion
    dsimp only
    generalize coerceValue py h v fm.coercion = c at hcoerce
    generalize coerceTree py i fm.coercion = d at hcoerce
    match c, d with
    | .error e, .error e' =>
      cases hcoerce
      cases e <;> rfl
    | .error e, .ok i' => cases hcoerce
    | .ok r, .error e => cases hcoerce
    | .ok r, .ok i' =>
      have hread' : r.1.read (r.1.size - 1) r.2 = some i' := by
        simpa [Except.map] using hcoerce
      exact congrArg (fun x => Except.ok (some x)) (read_mono (Nat.sub_le _ _) hread')

end RuleSpecs

/-! ## Writing along a path -/

/-- Where a front of the path leads to a dictionary that belongs to `x`, the path leads to a value that
reads as `i`. -/
def HarmlessAt (h : Heap φ) (x : Val φ) (d : ℕ) (parts : List PyStr) (i : Json φ) : Prop :=
  ∀ front, front <+: parts.dropLast → ∀ a, h.at? (.ref d) (front.map .key) = some (.ref a) →
    (h.dict? (.ref a)).isSome → h.Reaches x a →
      ∃ w m, h.at? (.ref d) (parts.map .key) = some w ∧ h.read m w = some i

section Paths
variable {h : Heap φ} {x v : Val φ} {d n : ℕ} {k k' : PyStr} {parts : List PyStr}
  {es : List (PyStr × Val φ)} {i j : Json φ}

theorem dict?_of_get? (hd : h.get? d = some (.dict es)) : h.dict? (.ref d) = some es := by
  rw [dict?, cell?, hd]

theorem at?_key (hd : h.get? d = some (.dict es)) (l : Location) :
    h.at? (.ref d) (.key k :: l) = (under? k es).bind fun w => h.at? w l := by
  have hcell : h.cell? (.ref d) = some (.dict es) := hd
  rw [at?, child?, hcell]
  rfl

/-- A key leads on from a dictionary only. -/
theorem dict_of_child? {u w : Val φ} (hw : h.child? u (.key k) = some w) :
    ∃ a es, u = .ref a ∧ h.get? a = some (.dict es) := by
  obtain ⟨c, hc, hcw⟩ := Option.bind_eq_some_iff.mp hw
  cases u with
  | ref a =>
    cases c with
    | list items => cases hcw
    | dict es => exact ⟨a, es, rfl, hc⟩
  | _ => cases hc

theorem harmlessAt_single (hd : h.get? d = some (.dict es)) : HarmlessAt h x d [k] i ↔
    (h.Reaches x d → ∃ w, under? k es = some w ∧ ∃ m, h.read m w = some i) := by
  have hat : h.at? (.ref d) ([k].map .key) = under? k es := by
    rw [List.map_singleton, at?_key hd]
    cases under? k es <;> rfl
  unfold HarmlessAt
  rw [hat]
  constructor
  · intro hharmless hreach
    obtain ⟨w, m, hw, hm⟩ := hharmless [] (List.nil_prefix) d rfl
      (by rw [dict?_of_get? hd]; rfl) hreach
    exact ⟨w, hw, m, hm⟩
  · intro hharmless front hfront a ha _ hreach
    rw [List.prefix_nil.mp hfront] at ha
    cases ha
    obtain ⟨w, hw, m, hm⟩ := hharmless hreach
    exact ⟨w, m, hw, hm⟩

theorem harmlessAt_cons {a : ℕ} {es' : List (PyStr × Val φ)} (hd : h.get? d = some (.dict es))
    (hk : under? k es = some (.ref a)) (ha : h.get? a = some (.dict es')) :
    HarmlessAt h x d (k :: k' :: parts) i ↔ HarmlessAt h x a (k' :: parts) i := by
  have hat : ∀ l : Location, h.at? (.ref d) (.key k :: l) = h.at? (.ref a) l := by
    intro l
    rw [at?_key hd, hk]
    rfl
  constructor
  · intro hharmless front hfront b hb hdict hreach
    obtain ⟨w, m, hw, hm⟩ := hharmless (k :: front) (List.cons_prefix_cons.mpr ⟨rfl, hfront⟩) b
      ((hat _).trans hb) hdict hreach
    exact ⟨w, m, (hat _).symm.trans hw, hm⟩
  · intro hharmless front hfront b hb hdict hreach
    have hfound : ∃ w m, h.at? (.ref a) ((k' :: parts).map .key) = some w ∧
        h.read m w = some i := by
      cases front with
      | nil =>
        cases hb
        exact hharmless [] List.nil_prefix a rfl (by rw [dict?_of_get? ha]; rfl)
          (hreach.entry hd hk)
      | cons f front =>
        obtain ⟨rfl, hrest⟩ := List.cons_prefix_cons.mp hfront
        exact hharmless front hrest b ((hat _).symm.trans hb) hdict hreach
    obtain ⟨w, m, hw, hm⟩ := hfound
    exact ⟨w, m, (hat _).trans hw, hm⟩

theorem harmlessAt_fresh (hd : h.get? d = some (.dict es))
    (hk : ∀ a es', under? k es = some (.ref a) → h.get? a ≠ some (.dict es')) :
    HarmlessAt h x d (k :: k' :: parts) i ↔ ¬ h.Reaches x d := by
  have hend : ∀ u l w, under? k es = some u → h.at? u (.key k' :: l) = some w → False := by
    intro u l w hu hw
    obtain ⟨w', hchild, -⟩ := Option.bind_eq_some_iff.mp hw
    obtain ⟨a, es', rfl, ha⟩ := dict_of_child? hchild
    exact hk a es' hu ha
  constructor
  · intro hharmless hreach
    obtain ⟨w, m, hw, -⟩ := hharmless [] List.nil_prefix d rfl
      (by rw [dict?_of_get? hd]; rfl) hreach
    rw [List.map_cons, at?_key hd] at hw
    obtain ⟨u, hu, hw⟩ := Option.bind_eq_some_iff.mp hw
    exact hend u _ w hu hw
  · intro hapart front hfront a ha hdict hreach
    cases front with
    | nil =>
      cases ha
      exact absurd hreach hapart
    | cons f front =>
      obtain ⟨rfl, hrest⟩ := List.cons_prefix_cons.mp hfront
      rw [List.map_cons, at?_key hd] at ha
      obtain ⟨u, hu, ha⟩ := Option.bind_eq_some_iff.mp ha
      cases front with
      | nil =>
        cases ha
        obtain ⟨es', hes'⟩ := Option.isSome_iff_exists.mp hdict
        exact absurd (cell?_of_dict? hes') (hk a es' hu)
      | cons g front =>
        obtain ⟨w', hchild, -⟩ := Option.bind_eq_some_iff.mp ha
        obtain ⟨b, es', rfl, hb⟩ := dict_of_child? hchild
        exact absurd hb (hk b es' hu)

theorem descend_cases (hd : h.get? d = some (.dict es)) (k : PyStr) :
    (∃ a es', under? k es = some (.ref a) ∧ h.get? a = some (.dict es') ∧
        descend h d k = (h, a)) ∨
      (∀ a es', under? k es = some (.ref a) → h.get? a ≠ some (.dict es')) ∧
        descend h d k = freshDict h d k := by
  unfold descend
  rw [dict?_of_get? hd, Option.bind_some]
  split
  · rename_i a hk
    split
    · rename_i hdict
      obtain ⟨es', hes'⟩ := Option.isSome_iff_exists.mp hdict
      exact .inl ⟨a, es', hk, cell?_of_dict? hes', rfl⟩
    · rename_i hdict
      refine .inr ⟨fun b es' hb hcell => hdict ?_, rfl⟩
      rw [hk] at hb
      cases hb
      rw [dict?_of_get? hcell]
      rfl
  · rename_i hno
    exact .inr ⟨fun a es' ha => absurd ha (hno a), rfl⟩

theorem get?_freshDict_of_ne (h : Heap φ) (d : ℕ) (k : PyStr) :
    ∀ a c, a ≠ d → h.get? a = some c → (freshDict h d k).1.get? a = some c := by
  intro a c ha hc
  refine get?_setItem_of_ne _ d k _ a c ha ?_
  rw [(grows_alloc h _).get? (lt_size_of_get? hc)]
  exact hc

theorem get?_freshDict_self (hd : h.get? d = some (.dict es)) (k : PyStr) :
    (freshDict h d k).1.get? d = some (.dict (replaceRow Prod.fst (k, .ref h.size) es)) := by
  refine get?_setItem_self ?_ k _
  rw [(grows_alloc h _).get? (lt_size_of_get? hd)]
  exact hd

theorem get?_freshDict_new (hd : d < h.size) (k : PyStr) :
    (freshDict h d k).1.get? h.size = some (.dict []) :=
  get?_setItem_of_ne _ d k _ _ _ hd.ne' (get?_alloc_self h _)

/-- Behind a new dictionary everything is new. -/
theorem setParts_new (hd : h.get? d = some (.dict [])) (v : Val φ) (parts : List PyStr) :
    (∀ a c, a ≠ d → h.get? a = some c → (setParts h d v parts).get? a = some c) ∧
      ∃ es, (setParts h d v parts).get? d = some (.dict es) := by
  induction parts generalizing h d with
  | nil => exact ⟨fun _ _ _ hc => hc, [], hd⟩
  | cons k parts ih =>
    cases parts with
    | nil => exact ⟨get?_setItem_of_ne h d k v, _, get?_setItem_self hd k v⟩
    | cons k' parts =>
      have hfresh : descend h d k = freshDict h d k := by
        rcases descend_cases hd k with ⟨a, es', hk, -⟩ | ⟨-, hfresh⟩
        · cases hk
        · exact hfresh
      have hlt := lt_size_of_get? hd
      obtain ⟨hsame, -⟩ := ih (get?_freshDict_new hlt k)
      rw [setParts, hfresh]
      · refine ⟨fun a c ha hc => ?_, _, hsame d _ hlt.ne (get?_freshDict_self hd k)⟩
        exact hsame a c (lt_size_of_get? hc).ne (get?_freshDict_of_ne h d k a c ha hc)
      · exact fun h => by cases h

/-- Writing along a path shows in `x`, unless it is harmless. -/
theorem setParts_kept_iff (hd : h.get? d = some (.dict es)) (hv : ∃ m, h.read m v = some i)
    (hx : h.read n x = some j) : (∃ m, (setParts h d v (k :: parts)).read m x = some j) ↔
      HarmlessAt h x d (k :: parts) i := by
  induction parts generalizing d es k with
  | nil => exact (setItem_kept_iff hd hv hx).trans (harmlessAt_single hd).symm
  | cons k' parts ih =>
    rw [setParts]
    · rcases descend_cases hd k with ⟨a, es', hk, ha, hdescend⟩ | ⟨hk, hdescend⟩
      · rw [hdescend, harmlessAt_cons hd hk ha]
        exact ih ha
      · rw [hdescend, harmlessAt_fresh hd hk]
        have hlt := lt_size_of_get? hd
        obtain ⟨hrest, es₁, hnew⟩ := setParts_new (get?_freshDict_new hlt k) v (k' :: parts)
        have hsame : ∀ a c, a ≠ d → h.get? a = some c →
            (setParts (freshDict h d k).1 h.size v (k' :: parts)).get? a = some c := fun a c ha hc =>
          hrest a c (lt_size_of_get? hc).ne (get?_freshDict_of_ne h d k a c ha hc)
        have hself := hrest d _ hlt.ne (get?_freshDict_self hd k)
        constructor
        · rintro ⟨m, hm⟩ hreach
          have hset : under? k (replaceRow Prod.fst (k, .ref h.size) es) = some (.ref h.size) := by
            rw [under?_replaceRow, if_pos rfl]
          exact not_kept_of_dict hsame hd hself hreach hx hset hnew hk hm
        · intro hapart
          exact ⟨n, read_apart hsame hapart hx⟩
    · exact fun h => by cases h

end Paths

/-! ## Runs -/

/-- Between rules: what was in memory before the payload is untouched, the cells behind it refer to each
other only, and the result is a dictionary behind the payload. -/
structure Running (mem : Heap φ) (j : Json φ) (root : ℕ) (h : Heap φ) : Prop where
  grows : mem.Grows h
  closed : h.Sealed (New mem h)
  result : ∃ es, h.get? root = some (.dict es)
  behind : (mem.build j).1.size ≤ root

section Runs
variable {mem h h' : Heap φ} {j : Json φ} {root d : ℕ} {v : Val φ} {k : PyStr}

theorem grows_of_get? (hsame : ∀ a < mem.size, h.get? a = mem.get? a) : mem.Grows h := by
  refine List.prefix_iff_getElem?.mpr fun a ha => ?_
  rw [← List.getElem?_eq_getElem ha]
  exact hsame a ha

theorem Running.root_new (hr : Running mem j root h) : New mem h root := by
  obtain ⟨es, hes⟩ := hr.result
  exact ⟨(built_build j mem).grows.size_le.trans hr.behind, lt_size_of_get? hes⟩

theorem Running.payload (hr : Running mem j root h) : (mem.build j).2.Within (New mem h) :=
  (built_build j mem).within.mono fun _ ha =>
    ⟨ha.1, ha.2.trans_le (hr.behind.trans hr.root_new.2.le)⟩

theorem Running.grow (hr : Running mem j root h) (hg : h.Grows h') (hnew : h'.Sealed (New h h')) :
    Running mem j root h' where
  grows := hr.grows.trans hg
  closed := hr.closed.grow hr.grows.size_le hg hnew
  result := by
    obtain ⟨es, hes⟩ := hr.result
    exact ⟨es, (hg.get? (lt_size_of_get? hes)).trans hes⟩
  behind := hr.behind

theorem Running.setItem (hr : Running mem j root h) (hd : New mem h d)
    (hv : v.Within (New mem h)) (k : PyStr) : Running mem j root (h.setItem d k v) where
  grows := by
    refine grows_of_get? fun a ha => ?_
    rw [get?_setItem_ne (ha.trans_le hd.1).ne', hr.grows.get? ha]
  closed := by
    have hsealed : (h.setItem d k v).Sealed (New mem h) := hr.closed.setItem k fun _ => hv
    intro a c hc ha
    rw [New, size_setItem] at ha
    refine (hsealed a c hc ha).mono fun b hb => ?_
    rwa [New, size_setItem]
  result := by
    obtain ⟨es, hes⟩ := hr.result
    by_cases hroot : root = d
    · subst hroot
      exact ⟨_, get?_setItem_self hes k v⟩
    · exact ⟨es, get?_setItem_of_ne h d k v root _ hroot hes⟩
  behind := hr.behind

theorem Running.freshDict (hr : Running mem j root h) (hd : New mem h d) (k : PyStr) :
    Running mem j root (freshDict h d k).1 := by
  have hempty : (h.alloc (.dict [])).1.Sealed (New h (h.alloc (.dict [])).1) :=
    Sealed.alloc (fun _ _ _ ha => absurd ha.2 (Nat.not_lt.mpr ha.1)) nofun
  have hgrown := hr.grow (grows_alloc h _) hempty
  have hle := (grows_alloc h (.dict [])).size_le
  exact hgrown.setItem (hd.mono le_rfl hle) (new_alloc hr.grows.size_le _) k

theorem Running.setParts (hr : Running mem j root h) {es : List (PyStr × Val φ)}
    (hd : h.get? d = some (.dict es)) (hnew : mem.size ≤ d) (hv : v.Within (New mem h))
    (parts : List PyStr) : Running mem j root (setParts h d v parts) := by
  have hin : New mem h d := ⟨hnew, lt_size_of_get? hd⟩
  induction parts generalizing h d es with
  | nil => exact hr
  | cons k parts ih =>
    cases parts with
    | nil => exact hr.setItem hin hv k
    | cons k' parts =>
      rw [Webhook.setParts]
      · rcases descend_cases hd k with ⟨a, es', hk, ha, hdescend⟩ | ⟨-, hdescend⟩
        · have hbelow : (Val.ref a : Val φ).Within (New mem h) := (hr.closed d _ hd hin).of_under? hk
          rw [hdescend]
          exact ih hr ha hbelow.1 hv hbelow
        · have hfresh := get?_freshDict_new (lt_size_of_get? hd) k
          rw [hdescend]
          refine ih (hr.freshDict hin k) hfresh hr.grows.size_le (hv.mono fun b hb => ?_)
            ⟨hr.grows.size_le, lt_size_of_get? hfresh⟩
          refine hb.mono le_rfl ?_
          rw [Webhook.freshDict, size_setItem, size_alloc]
          exact Nat.le_succ _
      · exact fun h => by cases h

variable {py : Builtins φ} {allowed : List (PyStr × PyStr)} {profileId : PyStr}

/-- The new cells of what a rule writes. -/
theorem Running.ruleValue (hr : Running mem j root h) {fm : FieldMapping φ} {r : Heap φ × Val φ}
    (hrule : ruleValue py allowed profileId h (mem.build j).2 fm = .ok (some r)) :
    Running mem j root r.1 ∧ h.Grows r.1 ∧ r.2.Within (New mem r.1) := by
  have hbuilt (i : Json φ) : Running mem j root (h.build i).1 ∧ h.Grows (h.build i).1 ∧
      (h.build i).2.Within (New mem (h.build i).1) := by
    have hb := built_build i h
    exact ⟨hr.grow hb.grows hb.closed, hb.grows,
      hb.within.mono fun _ ha => ha.mono hr.grows.size_le le_rfl⟩
  unfold Webhook.ruleValue at hrule
  split at hrule
  · cases hrule
  split at hrule
  · cases hrule
  · split at hrule
    · cases hrule
    · split at hrule
      · cases hrule
      · cases hrule
        exact hbuilt fm.default
  · rename_i v hresolve
    have hwithin : v.Within (New mem h) := resolveParts_free hr.closed hr.payload hresolve
    split at hrule
    · cases hrule
    · cases hrule
    · rename_i r' hcoerce
      cases hrule
      rcases coerceValue_cases hcoerce with ⟨hheap, hval | hval⟩ | ⟨i, rfl⟩
      · rw [hheap, hval]
        exact ⟨hr, .refl h, hwithin⟩
      · rw [hheap]
        exact ⟨hr, .refl h, hval _⟩
      · exact hbuilt i

theorem Running.applyField {s s' : MapState φ} (hr : Running mem j root s.heap)
    {fm : FieldMapping φ}
    (hrule : applyField py allowed profileId (mem.build j).2 root s fm = .ok s') :
    Running mem j root s'.heap := by
  rw [applyField_eq] at hrule
  obtain ⟨r, hvalue, rfl⟩ := except_map_ok hrule
  cases r with
  | none => exact hr
  | some r =>
    obtain ⟨hrun, -, hwithin⟩ := hr.ruleValue hvalue
    obtain ⟨es, hes⟩ := hrun.result
    exact hrun.setParts hes hrun.root_new.1 hwithin _

/-! ### Harmless rules -/

/-- What is within a sealed set is the same in a heap that has its cells. -/
theorem reaches_iff {Q : ℕ → Prop} (hs : h.Sealed Q) (hsame : ∀ a, Q a → h'.get? a = h.get? a)
    {x : Val φ} (hx : x.Within Q) {a : ℕ} : h'.Reaches x a ↔ h.Reaches x a := by
  constructor
  · intro hreach
    induction hreach with
    | here a => exact .here a
    | inside hc hw _ ih =>
      rw [hsame _ hx] at hc
      exact .inside hc hw (ih (hs _ _ hc hx _ hw))
  · intro hreach
    induction hreach with
    | here a => exact .here a
    | inside hc hw _ ih => exact .inside ((hsame _ hx).trans hc) hw (ih (hs _ _ hc hx _ hw))

theorem harmlessAt_grows (hr : Running mem j root h) (hg : h.Grows h') (parts : List PyStr)
    (i : Json φ) : HarmlessAt h' (mem.build j).2 root parts i ↔
      HarmlessAt h (mem.build j).2 root parts i := by
  have hsame : ∀ a, New mem h a → h'.get? a = h.get? a := fun a ha => hg.get? ha.2
  have hroot : (Val.ref root : Val φ).Within (New mem h) := hr.root_new
  have hat : ∀ l, h'.at? (.ref root) l = h.at? (.ref root) l := hr.closed.at?_eq hsame hroot
  have hread : ∀ w, w.Within (New mem h) →
      ((∃ m, h'.read m w = some i) ↔ ∃ m, h.read m w = some i) := by
    intro w hw
    constructor
    · rintro ⟨m, hm⟩
      refine ⟨m, read_frame (hr.closed.grows hg fun _ ha => ha.2) (fun a c ha hc => ?_) le_rfl hw hm⟩
      rwa [← hsame a ha]
    · rintro ⟨m, hm⟩
      refine ⟨m, read_frame hr.closed (fun a c ha hc => ?_) le_rfl hw hm⟩
      rwa [hsame a ha]
  unfold HarmlessAt
  refine forall₂_congr fun front _ => forall_congr' fun a => ?_
  rw [hat, hat]
  refine imp_congr_right fun ha => ?_
  have hin : New mem h a := hr.closed.at? hroot ha
  have hdict : h'.dict? (.ref a) = h.dict? (.ref a) := by
    rw [dict?, dict?, cell?, cell?, hsame a hin]
  rw [hdict, reaches_iff hr.closed hsame hr.payload]
  refine imp_congr_right fun _ => imp_congr_right fun _ => exists_congr fun w => ?_
  constructor
  · rintro ⟨m, hw, hm⟩
    obtain ⟨m', hm'⟩ := (hread w (hr.closed.at? hroot hw)).mp ⟨m, hm⟩
    exact ⟨m', hw, hm'⟩
  · rintro ⟨m, hw, hm⟩
    obtain ⟨m', hm'⟩ := (hread w (hr.closed.at? hroot hw)).mpr ⟨m, hm⟩
    exact ⟨m', hw, hm'⟩

theorem targetParts_cons (path : PyStr) : ∃ k parts, targetParts path = k :: parts := by
  cases hparts : targetParts path with
  | nil => exact absurd hparts (List.splitOn_ne_nil _ _)
  | cons k parts => exact ⟨k, parts, rfl⟩

/-- The payload reads the same behind a rule when the rule is harmless, and only then. -/
theorem rule_kept_iff (hr : Running mem j root h) {n : ℕ}
    (hj : h.read n (mem.build j).2 = some j) {fm : FieldMapping φ} {r : Heap φ × Val φ}
    (hrule : ruleValue py allowed profileId h (mem.build j).2 fm = .ok (some r)) {i : Json φ}
    (hi : r.1.toJson? r.2 = some i) :
    (∃ m, (setPath r.1 root fm.targetPath r.2).read m (mem.build j).2 = some j) ↔
      HarmlessAt h (mem.build j).2 root (targetParts fm.targetPath) i := by
  obtain ⟨hrun, hg, -⟩ := hr.ruleValue hrule
  obtain ⟨es, hes⟩ := hrun.result
  obtain ⟨k, parts, hparts⟩ := targetParts_cons fm.targetPath
  have hj' : r.1.read n (mem.build j).2 = some j := hr.closed.read hg le_rfl hr.payload hj
  rw [← harmlessAt_grows hr hg, setPath, hparts]
  exact setParts_kept_iff hes ⟨_, hi⟩ hj'

end Runs

/-! ## Mapping reads the payload only -/

section Law
variable (py : Builtins φ) (allowed : List (PyStr × PyStr)) (profile : MappingProfile φ)
  (mem : Heap φ) (j : Json φ)

/-- The payload is decoded into a memory that holds the profile, and mapped. -/
def mapDecoded : Except MappingError (Mapped φ) :=
  applyMapping py allowed profile (mem.build j).1 (mem.build j).2

/-- The profile with other rules. -/
def withRules (rules : List (FieldMapping φ)) : MappingProfile φ :=
  { profile with fieldMappings := rules }

/-- Values that were in memory, such as the defaults of the profile, and the payload are unchanged, and
each rule wrote what it says of the payload as it came. -/
structure OnlyRead (m : Mapped φ) : Prop where
  memory : ∀ d i, mem.toJson? d = some i → m.heap.toJson? d = some i
  payload : m.heap.toJson? (mem.build j).2 = some j
  values : ∀ before fm after mid, profile.fieldMappings = before ++ fm :: after →
    mapDecoded py allowed (withRules profile before) mem j = .ok mid →
      (ruleValue py allowed profile.id mid.heap (mem.build j).2 fm).map
          (Option.map fun r => r.1.toJson? r.2) =
        (treeValue py allowed profile.id j fm).map (Option.map some)

def ReadsOnly : Prop :=
  ∀ m, mapDecoded py allowed profile mem j = .ok m → OnlyRead py allowed profile mem j m

/-- In the result of the rules before it: the rule writes nothing, or no front of its target path leads
to a dictionary of the payload, or the path leads to a value equal to the one that is written. -/
def Harmless (mid : Mapped φ) (fm : FieldMapping φ) : Prop :=
  ∀ i, treeValue py allowed profile.id j fm = .ok (some i) →
    HarmlessAt mid.heap (mem.build j).2 mid.root (targetParts fm.targetPath) i

end Law

section Law
variable {py : Builtins φ} {allowed : List (PyStr × PyStr)} {profile : MappingProfile φ}
  {mem : Heap φ} {j : Json φ} {before : List (FieldMapping φ)} {fm : FieldMapping φ}
  {mid m : Mapped φ}

theorem applyFields_concat (payload : Val φ) (root : ℕ) (before : List (FieldMapping φ))
    (fm : FieldMapping φ) (s : MapState φ) :
    applyFields py allowed profile.id payload root (before ++ [fm]) s =
      (applyFields py allowed profile.id payload root before s).bind fun s =>
        applyField py allowed profile.id payload root s fm := by
  induction before generalizing s with
  | nil =>
    rw [List.nil_append, applyFields, applyFields]
    change _ = applyField py allowed profile.id payload root s fm
    cases applyField py allowed profile.id payload root s fm <;> rfl
  | cons first before ih =>
    rw [List.cons_append, applyFields, applyFields]
    cases applyField py allowed profile.id payload root s first with
    | error e => rfl
    | ok s' => exact ih s'

/-- One more rule. -/
theorem mapDecoded_concat : mapDecoded py allowed (withRules profile (before ++ [fm])) mem j =
    (mapDecoded py allowed (withRules profile before) mem j).bind fun mid =>
      (applyField py allowed profile.id (mem.build j).2 mid.root
        { heap := mid.heap, warnings := mid.warnings } fm).map fun s =>
          { heap := s.heap, root := mid.root, warnings := s.warnings } := by
  unfold mapDecoded applyMapping withRules
  dsimp only
  rw [applyFields_concat]
  generalize applyFields py allowed profile.id (mem.build j).2
    ((mem.build j).1.buildFields profile.defaults).1.size before _ = r
  cases r <;> rfl

theorem running_start (profile : MappingProfile φ) (mem : Heap φ) (j : Json φ) :
    Running mem j ((mem.build j).1.buildFields profile.defaults).1.size
      (((mem.build j).1.buildFields profile.defaults).1.alloc
        (.dict ((mem.build j).1.buildFields profile.defaults).2)).1 := by
  have hpayload := built_build j mem
  obtain ⟨S, hb⟩ := built_fields (fun _ => False) profile.defaults (mem.build j).1
  have hclosed := hpayload.closed.grow hpayload.grows.size_le hb.grows hb.closed_new
  have hwithin := hb.within.mono fun a ha => ha.mono hpayload.grows.size_le le_rfl
  exact {
    grows := (hpayload.grows.trans hb.grows).trans (grows_alloc _ _)
    closed := hclosed.alloc hwithin
    result := ⟨_, get?_alloc_self _ _⟩
    behind := hb.grows.size_le }

theorem running_mapDecoded (rules : List (FieldMapping φ)) {mid : Mapped φ}
    (h : mapDecoded py allowed (withRules profile rules) mem j = .ok mid) :
    Running mem j mid.root mid.heap := by
  induction rules using List.reverseRecOn generalizing mid with
  | nil =>
    cases h
    exact running_start profile mem j
  | append_singleton before fm ih =>
    rw [mapDecoded_concat] at h
    obtain ⟨front, hfront, h⟩ := bind_eq_ok h
    obtain ⟨s, hs, rfl⟩ := except_map_ok h
    exact (ih hfront).applyField hs

theorem payload_read (mem : Heap φ) (j : Json φ) :
    (mem.build j).1.read (mem.build j).1.size (mem.build j).2 = some j :=
  read_mono (Nat.sub_le _ _) (built_build j mem).reads

/-- While the payload reads as it came, a rule writes what it says of the payload. -/
theorem values_of_kept (hr : Running mem j mid.root mid.heap)
    (hkept : ∃ n, mid.heap.read n (mem.build j).2 = some j) (fm : FieldMapping φ) :
    (ruleValue py allowed profile.id mid.heap (mem.build j).2 fm).map
        (Option.map fun r => r.1.toJson? r.2) =
      (treeValue py allowed profile.id j fm).map (Option.map some) := by
  obtain ⟨n, hn⟩ := hkept
  have hlt := hr.root_new.2
  have hbehind := hr.behind
  exact ruleValue_tree (by omega) (by omega) (read_fuel (payload_read mem j) hn) fm

theorem toJson?_of_kept (hr : Running mem j mid.root mid.heap)
    (hkept : ∃ n, mid.heap.read n (mem.build j).2 = some j) :
    mid.heap.toJson? (mem.build j).2 = some j := by
  obtain ⟨n, hn⟩ := hkept
  exact read_mono (hr.behind.trans hr.root_new.2.le) (read_fuel (payload_read mem j) hn)

/-- The value that a rule writes, and the heap behind it. -/
theorem written_of_value (hmid : mapDecoded py allowed (withRules profile before) mem j = .ok mid)
    {r : Heap φ × Val φ}
    (hrule : ruleValue py allowed profile.id mid.heap (mem.build j).2 fm = .ok (some r)) :
    mapDecoded py allowed (withRules profile (before ++ [fm])) mem j =
      .ok { heap := setPath r.1 mid.root fm.targetPath r.2, root := mid.root,
            warnings := mid.warnings } := by
  rw [mapDecoded_concat, hmid]
  change Except.map _ _ = _
  rw [applyField_eq, hrule]
  rfl

/-- Harmless rules leave the payload as it came. -/
theorem kept_of_harmless (hharmless : ∀ before fm after mid,
      profile.fieldMappings = before ++ fm :: after →
      mapDecoded py allowed (withRules profile before) mem j = .ok mid →
        Harmless py allowed profile mem j mid fm)
    (rules : List (FieldMapping φ)) (hrules : rules <+: profile.fieldMappings) {mid : Mapped φ}
    (h : mapDecoded py allowed (withRules profile rules) mem j = .ok mid) :
    ∃ n, mid.heap.read n (mem.build j).2 = some j := by
  induction rules using List.reverseRecOn generalizing mid with
  | nil =>
    obtain ⟨S, hb⟩ := built_fields (fun _ => False) profile.defaults (mem.build j).1
    cases h
    exact ⟨_, (built_build j mem).closed.read (hb.grows.trans (grows_alloc _ _)) le_rfl
      (built_build j mem).within (payload_read mem j)⟩
  | append_singleton before fm ih =>
    have hbefore := (List.prefix_append before [fm]).trans hrules
    obtain ⟨after, hafter⟩ := hrules
    have hsplit : profile.fieldMappings = before ++ fm :: after := by
      rw [← hafter, List.append_assoc]
      rfl
    rw [mapDecoded_concat] at h
    obtain ⟨front, hfront, h⟩ := bind_eq_ok h
    obtain ⟨s, hs, rfl⟩ := except_map_ok h
    have hkept := ih hbefore hfront
    have hrun := running_mapDecoded before hfront
    have hvalues : (ruleValue py allowed profile.id front.heap (mem.build j).2 fm).map _ = _ :=
      values_of_kept hrun hkept fm
    rw [applyField_eq] at hs
    obtain ⟨r, hrule, rfl⟩ := except_map_ok hs
    cases r with
    | none => exact hkept
    | some r =>
      rw [hrule] at hvalues
      obtain ⟨written, htree, hread⟩ := except_map_ok hvalues.symm
      cases written with
      | none => cases hread
      | some i =>
        have hi : r.1.toJson? r.2 = some i := Option.some.inj hread
        obtain ⟨n, hn⟩ := hkept
        exact (rule_kept_iff hrun hn hrule hi).mpr (hharmless before fm after front hsplit hfront i htree)

theorem onlyRead_of_kept {rules : List (FieldMapping φ)}
    (hm : mapDecoded py allowed (withRules profile rules) mem j = .ok m)
    (hkept : ∀ front, front <+: rules → ∀ mid,
      mapDecoded py allowed (withRules profile front) mem j = .ok mid →
        ∃ n, mid.heap.read n (mem.build j).2 = some j) :
    OnlyRead py allowed (withRules profile rules) mem j m where
  memory := by
    intro d i hd
    have hgrows := (running_mapDecoded rules hm).grows
    have hall : mem.Sealed fun _ => True := fun _ _ _ _ v _ => by cases v <;> trivial
    exact hall.read hgrows hgrows.size_le (by cases d <;> trivial) hd
  payload := toJson?_of_kept (running_mapDecoded rules hm) (hkept rules (List.prefix_refl _) m hm)
  values := by
    intro before fm after mid hsplit hmid
    have hfront : before <+: rules := ⟨fm :: after, hsplit.symm⟩
    exact values_of_kept (running_mapDecoded before hmid) (hkept before hfront mid hmid) fm

end Law

/-! ## A rule that writes into the payload -/

/-- The second rule writes below the part that the first one passed on. -/
def nestedProfile : MappingProfile Unit where
  id := PyStr.ofString "nested"
  fieldMappings := [
    { sourcePath := PyStr.ofString "inputs", targetPath := PyStr.ofString "inputs" },
    { sourcePath := PyStr.ofString "x", targetPath := PyStr.ofString "inputs.y" }]

def nestedPayload : Json Unit :=
  .obj [(PyStr.ofString "inputs", .obj []), (PyStr.ofString "x", .int 1)]

end OpenClaw.Webhook
