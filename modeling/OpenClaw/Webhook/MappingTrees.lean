import OpenClaw.Foundation.KeyedMerge
import OpenClaw.Webhook.PrivilegedFields

/-!
# Mapping as a function on JSON values

A profile whose target paths have one part writes into the result only, so nothing that is shared
changes, and `apply_mapping` is a function of JSON values. `applyTree` is this function, and the
mapping in memory refines it.
-/

namespace OpenClaw.Webhook

open Foundation Heap
set_option autoImplicit false

variable {φ : Type}

section Trees

def itemAt? : Json φ → ℕ → Option (Json φ)
  | .arr items, n => items[n]?
  | _, _ => none

def memberOf? : Json φ → PyStr → Option (Json φ)
  | .obj fields, k => under? k fields
  | _, _ => none

def resolveTree : List PyStr → Json φ → Except MappingError (Option (Json φ))
  | [], current => .ok (some current)
  | part :: parts, current =>
    if part = [] then resolveTree parts current
    else
      match indexDigits? part with
      | some digits =>
        if PyText.maxStrDigits < digits.length then .error (.index digits.length)
        else
          match itemAt? current (digits.foldl (fun n d => 10 * n + d) 0) with
          | some j => resolveTree parts j
          | none => .ok none
      | none =>
        match memberOf? current part with
        | some j => resolveTree parts j
        | none => .ok none

variable (py : Builtins φ)

def treeType : Json φ → String
  | .null => "NoneType"
  | .bool _ => "bool"
  | .int _ => "int"
  | .float _ => "float"
  | .str _ => "str"
  | .arr _ => "list"
  | .obj _ => "dict"

def intOfTree (j : Json φ) : Except Raised ℤ :=
  match j with
  | .bool b => .ok (if b then 1 else 0)
  | .int i => .ok i
  | .float x => py.intOfFloat x
  | .str s =>
    match s.chars?.bind PyText.int? with
    | some i => .ok i
    | none => .error (.caught (py.intError s))
  | j => .error <| .caught <| PyStr.ofString <|
    "int() argument must be a string, a bytes-like object or a real number, not '" ++
      treeType j ++ "'"

def floatOfTree (j : Json φ) : Except Raised φ :=
  match j with
  | .bool b => py.floatOfInt (if b then 1 else 0)
  | .int i => py.floatOfInt i
  | .float x => .ok x
  | .str s => py.floatOfStr s
  | j => .error <| .caught <| PyStr.ofString <|
    "float() argument must be a string or a real number, not '" ++ treeType j ++ "'"

def boolOfTree : Json φ → Bool
  | .bool b => b
  | .str s => trueWords.contains (py.lower s)
  | j => j.truthy py.toPyInterpreter

def coerceTree (j : Json φ) (kind : CoercionType) : Except Raised (Json φ) :=
  if j.isNull then .ok .null
  else
    match kind with
    | .passthrough => .ok j
    | .string => .ok (.str (j.toStr py.toPyInterpreter))
    | .int => (intOfTree py j).map .int
    | .float => (floatOfTree py j).map .float
    | .bool => .ok (.bool (boolOfTree py j))
    | .json =>
      match j.str? with
      | some s => py.loads s
      | none => .ok j

variable (allowed : List (PyStr × PyStr))

/-- One rule, on the entries of the result and the warnings. -/
def treeField (profileId : PyStr) (payload : Json φ) (s : List (PyStr × Json φ) × List PyStr)
    (fm : FieldMapping φ) : Except MappingError (List (PyStr × Json φ) × List PyStr) :=
  if targetRoot fm.targetPath ∈ privilegedFields ∧
      (profileId, targetRoot fm.targetPath) ∉ allowed then
    .error (.privileged (targetRoot fm.targetPath) profileId)
  else
    match resolveTree (splitSource fm.sourcePath) payload with
    | .error e => .error e
    | .ok none =>
      if fm.required then .error (.missing fm.sourcePath)
      else if fm.default.isNull then .ok (s.1, s.2 ++ [skippedWarning fm.sourcePath])
      else .ok (replaceRow Prod.fst (targetRoot fm.targetPath, fm.default) s.1, s.2)
    | .ok (some j) =>
      match coerceTree py j fm.coercion with
      | .error (.caught detail) =>
        .error (.coercion fm.sourcePath fm.targetPath fm.coercion detail)
      | .error .other => .error .other
      | .ok j => .ok (replaceRow Prod.fst (targetRoot fm.targetPath, j) s.1, s.2)

def treeFields (profileId : PyStr) (payload : Json φ) :
    List (FieldMapping φ) → List (PyStr × Json φ) × List PyStr →
      Except MappingError (List (PyStr × Json φ) × List PyStr)
  | [], s => .ok s
  | fm :: rest, s =>
    match treeField py allowed profileId payload s fm with
    | .error e => .error e
    | .ok s => treeFields profileId payload rest s

def applyTree (profile : MappingProfile φ) (payload : Json φ) :
    Except MappingError (List (PyStr × Json φ) × List PyStr) :=
  treeFields py allowed profile.id payload profile.fieldMappings (profile.defaults, [])

end Trees

/-- The result as a JSON value; `none` for a circular one. -/
def Mapped.tree? (m : Mapped φ) : Option (List (PyStr × Json φ)) :=
  match m.heap.toJson? (.ref m.root) with
  | some (.obj fs) => some fs
  | _ => none

section Steps
variable {h : Heap φ} {n : ℕ} {v : Val φ} {j : Json φ}

theorem read_itemAt (hj : h.read n v = some j) (i : ℕ) :
    ((h.list? v).bind (·[i]?)).map (h.read n) = (itemAt? j i).map some := by
  cases hcell : h.cell? v with
  | none =>
    have hscalar := (read_scalar hcell hj).1
    rw [list?, hcell]
    cases j with
    | arr items => exact absurd rfl (hscalar items)
    | _ => rfl
  | some c =>
    rw [list?, hcell]
    cases c with
    | list vs =>
      obtain ⟨js, rfl, hjs⟩ := read_list hcell hj
      rcases forall₂_getElem? hjs i with ⟨hx, hy⟩ | ⟨w, jw, hx, hy, hw⟩
      · simp [itemAt?, hx, hy]
      · simp [itemAt?, hx, hy, hw]
    | dict es =>
      obtain ⟨fs, rfl, -⟩ := read_dict hcell hj
      rfl

theorem read_entry (hj : h.read n v = some j) (k : PyStr) :
    ((h.dict? v).bind (under? k)).map (h.read n) = (memberOf? j k).map some := by
  cases hcell : h.cell? v with
  | none =>
    have hscalar := (read_scalar hcell hj).2
    rw [dict?, hcell]
    cases j with
    | obj fields => exact absurd rfl (hscalar fields)
    | _ => rfl
  | some c =>
    rw [dict?, hcell]
    cases c with
    | list vs =>
      obtain ⟨js, rfl, -⟩ := read_list hcell hj
      rfl
    | dict es =>
      obtain ⟨fs, rfl, hfs⟩ := read_dict hcell hj
      rcases under?_forall₂ (R := fun _ w jw => h.read n w = some jw) hfs k with
        ⟨hx, hy⟩ | ⟨w, jw, hx, hy, hw⟩
      · simp [memberOf?, hx, hy]
      · simp [memberOf?, hx, hy, hw]

theorem resolveParts_tree {parts : List PyStr} (hj : h.read n v = some j) :
    (resolveParts h parts v).map (Option.map (h.read n)) =
      (resolveTree parts j).map (Option.map some) := by
  have both {o : Option (Val φ)} {o' : Option (Json φ)} (ho : o.map (h.read n) = o'.map some) :
      o = none ∧ o' = none ∨ ∃ w i, o = some w ∧ o' = some i ∧ h.read n w = some i := by
    cases o with
    | none =>
      cases o' with
      | none => exact .inl ⟨rfl, rfl⟩
      | some _ => cases ho
    | some w =>
      cases o' with
      | none => cases ho
      | some i => exact .inr ⟨w, i, rfl, rfl, Option.some.inj ho⟩
  induction parts generalizing v j with
  | nil => exact congrArg (fun r => Except.ok (some r)) hj
  | cons part parts ih =>
    rw [resolveParts, resolveTree]
    by_cases hpart : part = []
    · rw [if_pos hpart, if_pos hpart]
      exact ih hj
    rw [if_neg hpart, if_neg hpart]
    cases indexDigits? part with
    | some digits =>
      by_cases hlen : PyText.maxStrDigits < digits.length
      · simp only [if_pos hlen]
        rfl
      · simp only [if_neg hlen]
        rcases both (read_itemAt hj (digits.foldl (fun n d => 10 * n + d) 0)) with
          ⟨hw, hi⟩ | ⟨w, i, hw, hi, hread⟩
        · rw [hw, hi]
          rfl
        · rw [hw, hi]
          exact ih hread
    | none =>
      rcases both (read_entry hj part) with ⟨hw, hi⟩ | ⟨w, i, hw, hi, hread⟩
      · simp only [hw, hi]
        rfl
      · simp only [hw, hi]
        exact ih hread

/-- A list or a dictionary as the coercions see it, and as they see its JSON value. -/
structure Container (py : Builtins φ) (h : Heap φ) (a : ℕ) (j : Json φ) : Prop where
  text : strOf py h (.ref a) = j.toStr py.toPyInterpreter
  type : typeName h (.ref a) = treeType j
  truth : truthy py h (.ref a) = j.truthy py.toPyInterpreter

theorem container_of_read {py : Builtins φ} {a : ℕ} (hn : n ≤ h.size)
    (hj : h.read n (.ref a) = some j) : Container py h a j := by
  have htext (c : Json φ) (hc : j = c) (hstr : c.toStr py.toPyInterpreter = py.containerStr c) :
      strOf py h (.ref a) = c.toStr py.toPyInterpreter := by
    rw [hstr, ← hc, strOf, toJson?, read_mono hn hj]
  cases hcell : h.cell? (.ref a) with
  | none => exact absurd (hj.symm.trans (read_dangling hcell)) nofun
  | some c =>
    have hget : h.get? a = some c := hcell
    cases c with
    | list vs =>
      obtain ⟨js, rfl, hjs⟩ := read_list hcell hj
      refine ⟨htext _ rfl rfl, by rw [typeName, hget]; rfl, ?_⟩
      rw [truthy, hget]
      cases hjs <;> rfl
    | dict es =>
      obtain ⟨fs, rfl, hfs⟩ := read_dict hcell hj
      refine ⟨htext _ rfl rfl, by rw [typeName, hget]; rfl, ?_⟩
      rw [truthy, hget]
      cases hfs <;> rfl

section Conversions
variable {py : Builtins φ} (hj : h.read n v = some j)
include hj

theorem strOf_tree (hn : n ≤ h.size) : strOf py h v = j.toStr py.toPyInterpreter := by
  cases v with
  | ref a => exact (container_of_read hn hj).text
  | bool b =>
    obtain rfl : Json.bool b = j := by simpa using hj
    cases b <;> rfl
  | _ =>
    simp only [read_null, read_int, read_float, read_str, Option.some.injEq] at hj
    rw [← hj]
    rfl

theorem truthy_tree (hn : n ≤ h.size) : truthy py h v = j.truthy py.toPyInterpreter := by
  cases v with
  | ref a => exact (container_of_read hn hj).truth
  | _ =>
    simp only [read_null, read_bool, read_int, read_float, read_str, Option.some.injEq] at hj
    rw [← hj]
    rfl

theorem intOf_tree (hn : n ≤ h.size) : intOf py h v = intOfTree py j := by
  cases v with
  | ref a =>
    have hc : Container py h a j := container_of_read hn hj
    rw [intOf, hc.type]
    · rcases read_ref hj with ⟨items, rfl⟩ | ⟨fields, rfl⟩ <;> rfl
    all_goals nofun
  | _ =>
    simp only [read_null, read_bool, read_int, read_float, read_str, Option.some.injEq] at hj
    rw [← hj]
    rfl

theorem floatOf_tree (hn : n ≤ h.size) : floatOf py h v = floatOfTree py j := by
  cases v with
  | ref a =>
    have hc : Container py h a j := container_of_read hn hj
    rw [floatOf, hc.type]
    · rcases read_ref hj with ⟨items, rfl⟩ | ⟨fields, rfl⟩ <;> rfl
    all_goals nofun
  | _ =>
    simp only [read_null, read_bool, read_int, read_float, read_str, Option.some.injEq] at hj
    rw [← hj]
    rfl

theorem boolOf_tree (hn : n ≤ h.size) : boolOf py h v = boolOfTree py j := by
  cases v with
  | ref a =>
    have hc : Container py h a j := container_of_read hn hj
    show truthy py h (.ref a) = _
    rw [hc.truth]
    rcases read_ref hj with ⟨items, rfl⟩ | ⟨fields, rfl⟩ <;> rfl
  | _ =>
    simp only [read_null, read_bool, read_int, read_float, read_str, Option.some.injEq] at hj
    rw [← hj]
    rfl

theorem shape_tree : v.isNull = j.isNull ∧ v.str? = j.str? := by
  cases v with
  | ref a => rcases read_ref hj with ⟨items, rfl⟩ | ⟨fields, rfl⟩ <;> exact ⟨rfl, rfl⟩
  | _ =>
    simp only [read_null, read_bool, read_int, read_float, read_str, Option.some.injEq] at hj
    rw [← hj]
    exact ⟨rfl, rfl⟩

end Conversions

/-- A new tree can be read below a result that is there already. -/
theorem read_build (hpos : 0 < h.size) (j : Json φ) :
    (h.build j).1.read ((h.build j).1.size - 1) (h.build j).2 = some j :=
  read_mono (Nat.sub_le_sub_left hpos _) (built_build j h).reads

theorem coerceValue_tree {py : Builtins φ} (hpos : 0 < h.size)
    (hj : h.read (h.size - 1) v = some j) (kind : CoercionType) :
    (coerceValue py h v kind).map (fun r => r.1.read (r.1.size - 1) r.2) =
      (coerceTree py j kind).map some := by
  have hle : h.size - 1 ≤ h.size := Nat.sub_le _ _
  obtain ⟨hnull, hstr⟩ := shape_tree hj
  unfold coerceValue coerceTree
  rw [hnull]
  split
  · exact congrArg Except.ok (read_null h _)
  · cases kind with
    | passthrough => exact congrArg Except.ok hj
    | string =>
      rw [strOf_tree hj hle]
      exact congrArg Except.ok (read_str h _ _)
    | int =>
      rw [intOf_tree hj hle]
      cases intOfTree py j with
      | error e => rfl
      | ok i => exact congrArg Except.ok (read_int h _ i)
    | float =>
      rw [floatOf_tree hj hle]
      cases floatOfTree py j with
      | error e => rfl
      | ok x => exact congrArg Except.ok (read_float h _ x)
    | bool =>
      rw [boolOf_tree hj hle]
      exact congrArg Except.ok (read_bool h _ _)
    | json =>
      rw [hstr]
      cases j.str? with
      | none => exact congrArg Except.ok hj
      | some s =>
        dsimp only
        cases py.loads s with
        | error e => rfl
        | ok j => exact congrArg Except.ok (read_build hpos j)

end Steps

/-- A value below the result: it does not lead to the result, and reads as `j`. -/
structure ReadsBelow (root : ℕ) (h : Heap φ) (v : Val φ) (j : Json φ) : Prop where
  within : v.Within (· ≠ root)
  reads : h.read (h.size - 1) v = some j

/-- The heap shows the payload and the entries of the result. -/
structure Mirrors (root : ℕ) (payload : Val φ) (j : Json φ) (fs : List (PyStr × Json φ))
    (h : Heap φ) : Prop where
  closed : h.Sealed (· ≠ root)
  payload : ReadsBelow root h payload j
  result : ∃ es, h.get? root = some (.dict es) ∧
    List.Forall₂ (fun e f => e.1 = f.1 ∧ ReadsBelow root h e.2 f.2) es fs

section Mirror
variable {root : ℕ} {payload v : Val φ} {j i : Json φ} {fs : List (PyStr × Json φ)} {h h' : Heap φ}

theorem Mirrors.root_lt (hm : Mirrors root payload j fs h) : root < h.size :=
  lt_size_of_get? hm.result.choose_spec.1

theorem Mirrors.grow (hm : Mirrors root payload j fs h) (hg : h.Grows h')
    (hnew : h'.Sealed (New h h')) : Mirrors root payload j fs h' := by
  have hkeep {v : Val φ} {j : Json φ} (hv : ReadsBelow root h v j) : ReadsBelow root h' v j :=
    ⟨hv.within, hm.closed.read hg (Nat.sub_le_sub_right hg.size_le 1) hv.within hv.reads⟩
  refine ⟨?_, hkeep hm.payload, ?_⟩
  · intro a c hc ha
    rcases Nat.lt_or_ge a h.size with hlt | hge
    · rw [hg.get? hlt] at hc
      exact hm.closed a c hc ha
    · exact (hnew a c hc ⟨hge, lt_size_of_get? hc⟩).mono fun b hb =>
        (hm.root_lt.trans_le hb.1).ne'
  · obtain ⟨es, hes, hfs⟩ := hm.result
    refine ⟨es, ?_, hfs.imp fun _ _ hef => ⟨hef.1, hkeep hef.2⟩⟩
    rw [hg.get? hm.root_lt]
    exact hes

theorem Mirrors.setItem (hm : Mirrors root payload j fs h) (hv : ReadsBelow root h v i)
    (k : PyStr) : Mirrors root payload j (replaceRow Prod.fst (k, i) fs) (h.setItem root k v) := by
  have hkeep {w : Val φ} {j : Json φ} (hv : ReadsBelow root h w j) :
      ReadsBelow root (h.setItem root k v) w j := by
    refine ⟨hv.within, read_frame hm.closed (fun a c ha hc => ?_) ?_ hv.within hv.reads⟩
    · rwa [get?_setItem_ne ha.symm]
    · rw [size_setItem]
  obtain ⟨es, hes, hfs⟩ := hm.result
  refine ⟨hm.closed.setItem k fun hroot => absurd rfl hroot, hkeep hm.payload, _,
    get?_setItem_self hes k v, ?_⟩
  exact forall₂_replaceRow (R := ReadsBelow root (h.setItem root k v))
    (hfs.imp fun _ _ hef => ⟨hef.1, hkeep hef.2⟩) k (hkeep hv)

theorem Mirrors.toJson? (hm : Mirrors root payload j fs h) :
    h.toJson? (.ref root) = some (.obj fs) := by
  obtain ⟨es, hes, hfs⟩ := hm.result
  obtain ⟨n, hn⟩ : ∃ n, h.size = n + 1 := ⟨h.size - 1, by have := hm.root_lt; omega⟩
  rw [Heap.toJson?, hn, Heap.read, hes]
  refine Option.map_eq_some_iff.mpr ⟨fs, read_entries_iff.mpr ?_, rfl⟩
  refine hfs.imp fun e f hef => ⟨hef.1, ?_⟩
  have := hef.2.reads
  rwa [hn] at this

/-- The two kinds of mapping end alike. -/
def Follows (root : ℕ) (payload : Val φ) (j : Json φ) (r : Except MappingError (MapState φ))
    (t : Except MappingError (List (PyStr × Json φ) × List PyStr)) : Prop :=
  match r with
  | .error e => t = .error e
  | .ok s => ∃ fs, t = .ok (fs, s.warnings) ∧ Mirrors root payload j fs s.heap

variable {py : Builtins φ} {allowed : List (PyStr × PyStr)} {profileId : PyStr}

theorem Mirrors.build (hm : Mirrors root payload j fs h) (i : Json φ) :
    Mirrors root payload j fs (h.build i).1 ∧ (h.build i).2.Within (· ≠ root) := by
  have hb := built_build i h
  exact ⟨hm.grow hb.grows hb.closed,
    hb.within.mono fun a ha => (hm.root_lt.trans_le ha.1).ne'⟩

theorem Mirrors.coerced (hm : Mirrors root payload j fs h) {v : Val φ}
    (hv : v.Within (· ≠ root)) {kind : CoercionType} {r : Heap φ × Val φ}
    (hr : coerceValue py h v kind = .ok r) :
    Mirrors root payload j fs r.1 ∧ r.2.Within (· ≠ root) := by
  rcases coerceValue_cases hr with ⟨hheap, hval | hval⟩ | ⟨i, rfl⟩
  · rw [hheap, hval]
    exact ⟨hm, hv⟩
  · rw [hheap]
    exact ⟨hm, hval _⟩
  · exact hm.build i

theorem follows_applyField {s : MapState φ} (hm : Mirrors root payload j fs s.heap)
    {fm : FieldMapping φ} (hone : targetParts fm.targetPath = [targetRoot fm.targetPath]) :
    Follows root payload j (applyField py allowed profileId payload root s fm)
      (treeField py allowed profileId j (fs, s.warnings) fm) := by
  have hset (h : Heap φ) (v : Val φ) :
      setPath h root fm.targetPath v = h.setItem root (targetRoot fm.targetPath) v := by
    rw [setPath, hone, setParts]
  have hpos : 0 < s.heap.size := (Nat.zero_le _).trans_lt hm.root_lt
  have hresolve : (resolvePath s.heap payload fm.sourcePath).map _ = _ :=
    resolveParts_tree hm.payload.reads
  have hfree : ∀ v, resolvePath s.heap payload fm.sourcePath = .ok (some v) →
      v.Within (· ≠ root) := fun v hv => resolveParts_free hm.closed hm.payload.within hv
  unfold applyField treeField
  split
  · rfl
  generalize resolvePath s.heap payload fm.sourcePath = r at hresolve hfree
  generalize resolveTree (splitSource fm.sourcePath) j = t at hresolve
  rcases r with e | _ | v <;> rcases t with e' | _ | i <;> try cases hresolve
  · rfl
  · dsimp only
    split
    · rfl
    · by_cases hdefault : fm.default.isNull
      · simp only [if_pos hdefault]
        exact ⟨fs, rfl, hm⟩
      · simp only [if_neg hdefault]
        obtain ⟨hm', hwithin⟩ := hm.build fm.default
        refine ⟨_, rfl, ?_⟩
        dsimp only
        rw [hset]
        exact hm'.setItem ⟨hwithin, read_build hpos _⟩ _
  · have hread : s.heap.read (s.heap.size - 1) v = some i := by
      simpa [Except.map] using hresolve
    have hcoerce : (coerceValue py s.heap v fm.coercion).map _ = _ :=
      coerceValue_tree hpos hread fm.coercion
    have hcoerced : ∀ r, coerceValue py s.heap v fm.coercion = .ok r →
        Mirrors root payload j fs r.1 ∧ r.2.Within (· ≠ root) :=
      fun r hr => hm.coerced (hfree v rfl) hr
    dsimp only
    generalize coerceValue py s.heap v fm.coercion = c at hcoerce hcoerced
    generalize coerceTree py i fm.coercion = d at hcoerce
    rcases c with e | r <;> rcases d with e' | i' <;> try cases hcoerce
    · cases e <;> rfl
    · have hread' : r.1.read (r.1.size - 1) r.2 = some i' := by
        simpa [Except.map] using hcoerce
      obtain ⟨hm', hwithin⟩ := hcoerced r rfl
      refine ⟨_, rfl, ?_⟩
      dsimp only
      rw [hset]
      exact hm'.setItem ⟨hwithin, hread'⟩ _

theorem follows_applyFields {fms : List (FieldMapping φ)}
    (hone : ∀ fm ∈ fms, targetParts fm.targetPath = [targetRoot fm.targetPath])
    {s : MapState φ} (hm : Mirrors root payload j fs s.heap) :
    Follows root payload j (applyFields py allowed profileId payload root fms s)
      (treeFields py allowed profileId j fms (fs, s.warnings)) := by
  induction fms generalizing s fs with
  | nil => exact ⟨fs, rfl, hm⟩
  | cons fm fms ih =>
    have hstep : Follows root payload j (applyField py allowed profileId payload root s fm) _ :=
      follows_applyField hm (hone fm List.mem_cons_self)
    rw [applyFields, treeFields]
    generalize applyField py allowed profileId payload root s fm = r at hstep
    cases r with
    | error e =>
      rw [show treeField py allowed profileId j (fs, s.warnings) fm = .error e from hstep]
      rfl
    | ok s' =>
      obtain ⟨fs', hfs', hm'⟩ := hstep
      rw [hfs']
      exact ih (fun fm hfm => hone fm (List.mem_cons_of_mem _ hfm)) hm'

end Mirror

theorem mirrors_defaults {o : Object φ} {j : Json φ} (hj : o.heap.toJson? o.value = some j)
    {h : Heap φ} {S : ℕ → Prop} {es : List (PyStr × Val φ)} {fs : List (PyStr × Json φ)}
    (hb : BuiltFields (fun _ => False) o.heap h S es fs) :
    Mirrors h.size o.value j fs (h.alloc (.dict es)).1 := by
  have hgrow := grows_alloc h (.dict es)
  have hsize : (h.alloc (.dict es)).1.size - 1 = h.size := by
    rw [size_alloc, Nat.add_sub_cancel]
  have hlt {a : ℕ} (ha : a < o.heap.size) : a ≠ h.size := (ha.trans_le hb.grows.size_le).ne
  refine ⟨?_, ⟨o.valid.mono fun _ => hlt, ?_⟩, es, get?_alloc_self h _, ?_⟩
  · intro a c hc ha
    have ha' : a < h.size := by
      have := lt_size_of_get? hc
      rw [size_alloc] at this
      omega
    rw [hgrow.get? ha'] at hc
    rcases Nat.lt_or_ge a o.heap.size with hold | hnew
    · rw [hb.grows.get? hold] at hc
      exact (o.closed a c hc hold).mono fun _ => hlt
    · exact (hb.closed_new a c hc ⟨hnew, ha'⟩).mono fun _ hb' => hb'.2.ne
  · rw [hsize]
    exact o.closed.read (hb.grows.trans hgrow) hb.grows.size_le o.valid hj
  · refine forall₂_imp_of_mem hb.entries fun e he f hef => ⟨hef.1, ?_⟩
    have hwithin := hb.within e.2 (List.mem_map_of_mem he)
    refine ⟨hwithin.mono fun _ ha => ha.2.ne, ?_⟩
    rw [hsize]
    exact hb.closed_new.read hgrow (Nat.sub_le _ _) hwithin hef.2.2.2

/-- Without nested targets `apply_mapping` computes what `applyTree` does. -/
theorem applyMapping_tree (py : Builtins φ) (allowed : List (PyStr × PyStr))
    {profile : MappingProfile φ}
    (hone : ∀ fm ∈ profile.fieldMappings, targetParts fm.targetPath = [targetRoot fm.targetPath])
    {o : Object φ} {j : Json φ} (hj : o.heap.toJson? o.value = some j) :
    (applyMapping py allowed profile o.heap o.value).map (fun m => (m.tree?, m.warnings)) =
      (applyTree py allowed profile j).map fun r => (some r.1, r.2) := by
  obtain ⟨S, hb⟩ := built_fields (fun _ => False) profile.defaults o.heap
  have hrun : Follows _ o.value j (applyFields py allowed profile.id o.value _ _ _) _ :=
    follows_applyFields hone (s := ⟨_, []⟩) (mirrors_defaults hj hb)
  unfold applyMapping applyTree
  dsimp only
  generalize applyFields py allowed profile.id o.value _ profile.fieldMappings _ = r at hrun
  cases r with
  | error e =>
    rw [show treeFields py allowed profile.id j profile.fieldMappings (profile.defaults, []) =
      .error e from hrun]
    rfl
  | ok s =>
    obtain ⟨fs, hfs, hm⟩ := hrun
    rw [hfs]
    have htree : (Mapped.mk s.heap (o.heap.buildFields profile.defaults).1.size
        s.warnings).tree? = some fs := by
      rw [Mapped.tree?, hm.toJson?]
    exact congrArg (fun t => Except.ok (t, s.warnings)) htree

end OpenClaw.Webhook
