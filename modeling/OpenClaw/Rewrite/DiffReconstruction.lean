import OpenClaw.Foundation.JsonPointer
import OpenClaw.Rewrite.RecipeDiff

/-!
# What a structured diff says

Below the limit of entries the walk computes a relation, `Diff`. From it follow that a diff is empty
for equal values only, that no path leads into another, that every entry shows a difference, and
that the entries turn the first value into the second.
-/

namespace OpenClaw.Rewrite

open Foundation
set_option autoImplicit false

variable {φ : Type}

/-- The entry seen from one step above. -/
def DiffEntry.under (s : Step) (e : DiffEntry φ) : DiffEntry φ :=
  { e with location := s :: e.location }

def DiffEntry.tokens (e : DiffEntry φ) : List PyStr := e.location.map Step.token

/-- The entries for one step, from those between the children. -/
def stepEntries (before after : Json φ) (s : Step) (sub : List (DiffEntry φ)) :
    List (DiffEntry φ) :=
  match before.child? s, after.child? s with
  | none, some a => [⟨[s], "added", .null, previewValue a⟩]
  | some b, none => [⟨[s], "removed", previewValue b, .null⟩]
  | some _, some _ => sub.map (DiffEntry.under s)
  | none, none => []

/-- In the order of a walk: indices ascend, keys do not come again. -/
def Before : Step → Step → Prop
  | .index i, .index j => i < j
  | .key k, .key k' => k ≠ k'
  | _, _ => True

def isNode : Json φ → Bool
  | .arr _ => true
  | .obj _ => true
  | _ => false

section Relation
variable (floatEq : φ → φ → Bool)

/-- Equality with types told apart: `==` of two values all of whose parts are of the same types. -/
inductive Same : Json φ → Json φ → Prop where
  | intro {b a : Json φ} (htype : sameType b a = true) (hscalar : scalarNe floatEq b a = false)
      (hsome : ∀ s, (b.child? s).isSome = (a.child? s).isSome)
      (hchildren : ∀ s x y, b.child? s = some x → a.child? s = some y → Same x y) : Same b a

/-- The entries of an unlimited walk, their locations seen from the two values. -/
inductive Diff : Json φ → Json φ → List (DiffEntry φ) → Prop where
  | typeChanged {b a : Json φ} (htype : sameType b a = false) : Diff b a [typeChanged b a []]
  | modified {b a : Json φ} (htype : sameType b a = true) (hne : scalarNe floatEq b a = true) :
      Diff b a [⟨[], "modified", previewValue b, previewValue a⟩]
  | same {b a : Json φ} (htype : sameType b a = true) (heq : scalarNe floatEq b a = false)
      (hleaf : ∀ s, b.holds s = false) : Diff b a []
  | steps {b a : Json φ} {steps : List Step} {sub : Step → List (DiffEntry φ)}
      (htype : sameType b a = true) (hnode : isNode b = true)
      (hholds : ∀ s ∈ steps, b.holds s = true)
      (hall : ∀ s, s ∈ steps ↔ (b.child? s).isSome = true ∨ (a.child? s).isSome = true)
      (horder : steps.Pairwise Before)
      (hsub : ∀ s ∈ steps, ∀ x y, b.child? s = some x → a.child? s = some y → Diff x y (sub s)) :
      Diff b a (steps.flatMap fun s => stepEntries b a s (sub s))

/-- No float of the value differs from itself. -/
def NanFree (j : Json φ) : Prop := ∀ l x, j.at? l = some (.float x) → floatEq x x = true

/-- What an entry says about what is at its place before and after. -/
def Shows (e : DiffEntry φ) : Option (Json φ) → Option (Json φ) → Prop
  | none, some a => e.change = "added" ∧ e.before = .null ∧ e.after = previewValue a
  | some b, none => e.change = "removed" ∧ e.before = previewValue b ∧ e.after = .null
  | some b, some a => e.before = previewValue b ∧ e.after = previewValue a ∧
      (e.change = "type_changed" ∧ sameType b a = false ∨
        e.change = "modified" ∧ sameType b a = true ∧ scalarNe floatEq b a = true)
  | none, none => False

end Relation

/-! ## Types -/

section Types
variable {floatEq : φ → φ → Bool} {b a j : Json φ} {s : Step}

theorem holds_of_sameType (h : sameType b a = true) (s : Step) : a.holds s = b.holds s := by
  cases b <;> cases a <;> first | (cases s <;> rfl) | cases h

theorem sameType_refl (j : Json φ) : sameType j j = true := by cases j <;> rfl

/-- Lists and dictionaries differ in their children only. -/
theorem scalarNe_of_isNode (h : isNode b = true) (a : Json φ) : scalarNe floatEq b a = false := by
  cases b <;> first | rfl | cases h

theorem child?_of_leaf (h : ∀ s, j.holds s = false) (s : Step) : j.child? s = none := by
  cases hc : j.child? s with
  | none => rfl
  | some c => exact absurd ((h s).symm.trans (Json.holds_of_child? hc)) nofun

theorem NanFree.child {c : Json φ} (h : NanFree floatEq j) (hc : j.child? s = some c) :
    NanFree floatEq c := by
  intro l x hx
  exact h (s :: l) x (by rw [Json.at?, hc]; exact hx)

theorem Same.refl (j : Json φ) (h : NanFree floatEq j) : Same floatEq j j := by
  induction j using Json.induction with
  | float x =>
    refine .intro rfl ?_ (fun _ => rfl) (by rintro (_ | _) x y ⟨⟩)
    rw [scalarNe, h [] x rfl]
    rfl
  | null => exact .intro rfl rfl (fun _ => rfl) (by rintro (_ | _) x y ⟨⟩)
  | bool b => exact .intro rfl (by simp [scalarNe]) (fun _ => rfl) (by rintro (_ | _) x y ⟨⟩)
  | int i => exact .intro rfl (by simp [scalarNe]) (fun _ => rfl) (by rintro (_ | _) x y ⟨⟩)
  | str t => exact .intro rfl (by simp [scalarNe]) (fun _ => rfl) (by rintro (_ | _) x y ⟨⟩)
  | arr items ih =>
    refine .intro rfl rfl (fun _ => rfl) fun s x y hx hy => ?_
    cases hx.symm.trans hy
    cases s with
    | index i => exact ih x (List.mem_of_getElem? hx) (h.child hx)
    | key k => cases hx
  | obj fields ih =>
    refine .intro rfl rfl (fun _ => rfl) fun s x y hx hy => ?_
    cases hx.symm.trans hy
    cases s with
    | index i => cases hx
    | key k => exact ih (k, x) (mem_of_under? hx) (h.child hx)

end Types

/-! ## Empty diffs -/

section Empty
variable {floatEq : φ → φ → Bool} {b a : Json φ} {es : List (DiffEntry φ)}

theorem stepEntries_eq_nil {s : Step} {sub : List (DiffEntry φ)}
    (h : stepEntries b a s sub = []) : (b.child? s).isSome = (a.child? s).isSome ∧
      ∀ x y, b.child? s = some x → a.child? s = some y → sub = [] := by
  unfold stepEntries at h
  split at h
  · cases h
  · cases h
  · rename_i hb ha
    rw [hb, ha]
    exact ⟨rfl, fun _ _ _ _ => List.map_eq_nil_iff.mp h⟩
  · rename_i hb ha
    rw [hb, ha]
    exact ⟨rfl, nofun⟩

/-- No entries, no difference. -/
theorem Diff.eq_nil_iff (h : Diff floatEq b a es) : es = [] ↔ Same floatEq b a := by
  induction h with
  | typeChanged htype =>
    refine iff_of_false (List.cons_ne_nil _ _) ?_
    rintro ⟨hsame, -, -, -⟩
    exact absurd (htype.symm.trans hsame) nofun
  | modified _ hne =>
    refine iff_of_false (List.cons_ne_nil _ _) ?_
    rintro ⟨-, heq, -, -⟩
    exact absurd (hne.symm.trans heq) nofun
  | @same b a htype heq hleaf =>
    have hleaf' : ∀ s, a.holds s = false := fun s => (holds_of_sameType htype s).trans (hleaf s)
    refine iff_of_true rfl (.intro htype heq (fun s => ?_) fun s x _ hx => ?_)
    · rw [child?_of_leaf hleaf, child?_of_leaf hleaf']
    · exact absurd (hx.symm.trans (child?_of_leaf hleaf s)) nofun
  | @steps b a steps sub htype hnode hholds hall horder hsub ih =>
    rw [List.flatMap_eq_nil_iff]
    constructor
    · intro hnil
      have hstep (s : Step) : (b.child? s).isSome = (a.child? s).isSome ∧
          ∀ x y, b.child? s = some x → a.child? s = some y → Same floatEq x y := by
        by_cases hs : s ∈ steps
        · obtain ⟨hsome, hempty⟩ := stepEntries_eq_nil (hnil s hs)
          exact ⟨hsome, fun x y hx hy => (ih s hs x y hx hy).mp (hempty x y hx hy)⟩
        · have hnone : ¬ ((b.child? s).isSome = true ∨ (a.child? s).isSome = true) :=
            fun h => hs ((hall s).mpr h)
          rw [not_or, Bool.not_eq_true, Bool.not_eq_true] at hnone
          refine ⟨hnone.1.trans hnone.2.symm, fun x y hx => ?_⟩
          rw [hx] at hnone
          cases hnone.1
      exact .intro htype (scalarNe_of_isNode hnode a) (fun s => (hstep s).1) fun s => (hstep s).2
    · rintro ⟨-, -, hsome, hchildren⟩ s hs
      have hs' := hsome s
      unfold stepEntries
      split
      · rename_i hb ha
        rw [hb, ha] at hs'
        cases hs'
      · rename_i hb ha
        rw [hb, ha] at hs'
        cases hs'
      · rename_i x y hb ha
        rw [(ih s hs x y hb ha).mpr (hchildren s x y hb ha)]
        rfl
      · rfl

end Empty

/-! ## Paths -/

section Paths
variable {floatEq : φ → φ → Bool} {b a : Json φ} {es : List (DiffEntry φ)}

/-- Neither path leads to or below the other. -/
def Apart (ts ts' : List PyStr) : Prop := ¬ ts <+: ts' ∧ ¬ ts' <+: ts

theorem apart_cons {t t' : PyStr} (h : t ≠ t') (ts ts' : List PyStr) :
    Apart (t :: ts) (t' :: ts') := by
  constructor
  · intro hpre
    exact h (List.cons_prefix_cons.mp hpre).1
  · intro hpre
    exact h (List.cons_prefix_cons.mp hpre).1.symm

theorem Apart.under {t : PyStr} {ts ts' : List PyStr} (h : Apart ts ts') :
    Apart (t :: ts) (t :: ts') := by
  constructor
  · intro hpre
    exact h.1 (List.cons_prefix_cons.mp hpre).2
  · intro hpre
    exact h.2 (List.cons_prefix_cons.mp hpre).2

/-- An entry for a step has a path that starts with it. -/
theorem tokens_of_mem_stepEntries {s : Step} {sub : List (DiffEntry φ)} {e : DiffEntry φ}
    (h : e ∈ stepEntries b a s sub) : ∃ ts, e.tokens = s.token :: ts := by
  unfold stepEntries at h
  split at h
  · cases List.mem_singleton.mp h
    exact ⟨[], rfl⟩
  · cases List.mem_singleton.mp h
    exact ⟨[], rfl⟩
  · obtain ⟨e', -, rfl⟩ := List.mem_map.mp h
    exact ⟨e'.tokens, rfl⟩
  · cases h

theorem Diff.pairwise_apart (h : Diff floatEq b a es) :
    es.Pairwise fun e e' => Apart e.tokens e'.tokens := by
  induction h with
  | typeChanged _ => exact List.pairwise_singleton _ _
  | modified _ _ => exact List.pairwise_singleton _ _
  | same _ _ _ => exact List.Pairwise.nil
  | @steps b a steps sub _ _ hholds hall horder hsub ih =>
    rw [List.pairwise_flatMap]
    constructor
    · intro s hs
      unfold stepEntries
      split
      · exact List.pairwise_singleton _ _
      · exact List.pairwise_singleton _ _
      · rename_i x y hb ha
        rw [List.pairwise_map]
        exact (ih s hs x y hb ha).imp fun he => he.under
      · exact List.Pairwise.nil
    · have hmem := List.Pairwise.and_mem.mp horder
      refine hmem.imp fun {s s'} hs e he e' he' => ?_
      obtain ⟨hs, hs', hbefore⟩ := hs
      obtain ⟨ts, hts⟩ := tokens_of_mem_stepEntries he
      obtain ⟨ts', hts'⟩ := tokens_of_mem_stepEntries he'
      rw [hts, hts']
      refine apart_cons (fun htoken => ?_) ts ts'
      have heq := Json.token_injective (hholds s hs) (hholds s' hs') htoken
      subst heq
      cases s with
      | key k => exact hbefore rfl
      | index i => exact absurd hbefore (Nat.lt_irrefl i)

/-- Every entry shows how the values differ at its path. -/
theorem Diff.shows (h : Diff floatEq b a es) :
    ∀ e ∈ es, Shows floatEq e (b.resolve e.tokens) (a.resolve e.tokens) := by
  induction h with
  | typeChanged htype =>
    intro e he
    cases List.mem_singleton.mp he
    exact ⟨rfl, rfl, .inl ⟨rfl, htype⟩⟩
  | modified htype hne =>
    intro e he
    cases List.mem_singleton.mp he
    exact ⟨rfl, rfl, .inr ⟨rfl, htype, hne⟩⟩
  | same _ _ _ => exact nofun
  | @steps b a steps sub htype _ hholds hall horder hsub ih =>
    intro e he
    obtain ⟨s, hs, he⟩ := List.mem_flatMap.mp he
    have hb := hholds s hs
    have ha := (holds_of_sameType htype s).trans hb
    unfold stepEntries at he
    split at he
    · rename_i y hnone hy
      cases List.mem_singleton.mp he
      show Shows floatEq _ (b.resolve [s.token]) (a.resolve [s.token])
      rw [Json.resolve_token hb, Json.resolve_token ha, hnone, hy]
      exact ⟨rfl, rfl, rfl⟩
    · rename_i x hx hnone
      cases List.mem_singleton.mp he
      show Shows floatEq _ (b.resolve [s.token]) (a.resolve [s.token])
      rw [Json.resolve_token hb, Json.resolve_token ha, hnone, hx]
      exact ⟨rfl, rfl, rfl⟩
    · rename_i x y hx hy
      obtain ⟨e', he', rfl⟩ := List.mem_map.mp he
      show Shows floatEq e' (b.resolve (s.token :: e'.tokens)) (a.resolve (s.token :: e'.tokens))
      rw [Json.resolve_token hb, Json.resolve_token ha, hx, hy]
      exact ih s hs x y hx hy e' he'
    · cases he

end Paths

/-! ## The first value, edited -/

section Rebuilding
variable {floatEq : φ → φ → Bool} {b a j c x y : Json φ} {es sub : List (DiffEntry φ)} {s : Step}

/-- Copy what the second value has at the path of an entry that is not a removal. -/
def copyEntry (a : Json φ) (j : Json φ) (e : DiffEntry φ) : Json φ :=
  if e.change = "removed" then j else j.put e.tokens ((a.resolve e.tokens).getD .null)

def removeEntry (e : DiffEntry φ) (j : Json φ) : Json φ :=
  if e.change = "removed" then j.remove e.tokens else j

/-- The copies in the order of the entries, then the removals from the last to the first. -/
def rebuild (a : Json φ) (es : List (DiffEntry φ)) (b : Json φ) : Json φ :=
  es.foldr removeEntry (es.foldl (copyEntry a) b)

/-- Values of one type that are lists or dictionaries together. -/
structure Alike (j j' : Json φ) : Prop where
  type : ∀ i, sameType j' i = sameType j i
  node : isNode j' = isNode j
  holds : ∀ s, j'.holds s = j.holds s

theorem Alike.refl (j : Json φ) : Alike j j := ⟨fun _ => rfl, rfl, fun _ => rfl⟩

theorem Alike.trans {j' j'' : Json φ} (h : Alike j j') (h' : Alike j' j'') : Alike j j'' :=
  ⟨fun i => (h'.type i).trans (h.type i), h'.node.trans h.node,
    fun s => (h'.holds s).trans (h.holds s)⟩

theorem alike_setChild (j : Json φ) (s : Step) (v : Json φ) : Alike j (j.setChild s v) := by
  refine ⟨fun i => ?_, ?_, Json.holds_setChild j s v⟩
  · cases j with
    | arr items =>
      cases s with
      | key k => rfl
      | index n =>
        rw [Json.setChild]
        split <;> cases i <;> rfl
    | obj fields => cases s <;> cases i <;> rfl
    | _ => rfl
  · cases j with
    | arr items =>
      cases s with
      | key k => rfl
      | index n =>
        rw [Json.setChild]
        split <;> rfl
    | obj fields => cases s <;> rfl
    | _ => rfl

theorem alike_dropChild (j : Json φ) (s : Step) : Alike j (j.dropChild s) := by
  refine ⟨fun i => ?_, ?_, Json.holds_dropChild j s⟩
  · cases j with
    | arr items => cases s <;> cases i <;> rfl
    | obj fields => cases s <;> cases i <;> rfl
    | _ => rfl
  · cases j with
    | arr items => cases s <;> rfl
    | obj fields => cases s <;> rfl
    | _ => rfl

/-- Where one step leads after an edit there. -/
structure Edited (j j' : Json φ) (s : Step) (new : Option (Json φ)) : Prop where
  alike : Alike j j'
  child : ∀ t, j'.child? t = if s = t then new else j.child? t

theorem edited_setChild (hc : j.child? s = some c) (v : Json φ) :
    Edited j (j.setChild s v) s (some v) :=
  ⟨alike_setChild j s v, Json.child?_setChild hc v⟩

theorem Edited.trans {j' j'' : Json φ} {new new' : Option (Json φ)} (h : Edited j j' s new)
    (h' : Edited j' j'' s new') : Edited j j'' s new' := by
  refine ⟨h.alike.trans h'.alike, fun t => ?_⟩
  rw [h'.child, h.child]
  split <;> rfl

theorem Edited.here {j' : Json φ} {new : Option (Json φ)} (h : Edited j j' s new) :
    j'.child? s = new := by
  rw [h.child, if_pos rfl]

theorem edited_refl (hc : j.child? s = some c) : Edited j j s (some c) := by
  refine ⟨.refl j, fun t => ?_⟩
  split
  · rename_i heq
    exact heq ▸ hc
  · rfl

/-- Copies below a child change that child only. -/
theorem copies_under (hc : j.child? s = some c) (hy : a.child? s = some y)
    (es : List (DiffEntry φ)) :
    Edited j ((es.map (DiffEntry.under s)).foldl (copyEntry a) j) s
      (some (es.foldl (copyEntry y) c)) := by
  induction es generalizing j c with
  | nil => exact edited_refl hc
  | cons e es ih =>
    rw [List.map_cons, List.foldl_cons, List.foldl_cons]
    by_cases hremoved : e.change = "removed"
    · have hskip : copyEntry a j (e.under s) = j := if_pos hremoved
      have hskip' : copyEntry y c e = c := if_pos hremoved
      rw [hskip, hskip']
      exact ih hc
    · have hcopy : copyEntry a j (e.under s) = j.setChild s (copyEntry y c e) := by
        have htokens : (e.under s).tokens = s.token :: e.tokens := rfl
        have hunder : ¬ (e.under s).change = "removed" := hremoved
        rw [copyEntry, if_neg hunder, htokens, Json.put_token hc, copyEntry, if_neg hremoved,
          Json.resolve_token (Json.holds_of_child? hy), hy, Option.bind_some]
      rw [hcopy]
      have hset := edited_setChild hc (copyEntry y c e)
      exact hset.trans (ih hset.here)

theorem removals_under (hc : j.child? s = some c)
    (hes : ∀ e ∈ es, e.change = "removed" → e.tokens ≠ []) :
    Edited j ((es.map (DiffEntry.under s)).foldr removeEntry j) s
      (some (es.foldr removeEntry c)) := by
  induction es with
  | nil => exact edited_refl hc
  | cons e es ih =>
    have ih := ih fun e' he' => hes e' (List.mem_cons_of_mem e he')
    rw [List.map_cons, List.foldr_cons, List.foldr_cons]
    by_cases hremoved : e.change = "removed"
    · have hremove : removeEntry (e.under s) ((es.map (DiffEntry.under s)).foldr removeEntry j) =
          ((es.map (DiffEntry.under s)).foldr removeEntry j).setChild s
            (removeEntry e (es.foldr removeEntry c)) := by
        have htokens : (e.under s).tokens = s.token :: e.tokens := rfl
        have hne := hes e List.mem_cons_self hremoved
        have hunder : (e.under s).change = "removed" := hremoved
        rw [removeEntry, if_pos hunder, htokens, Json.remove_token ih.here hne, removeEntry,
          if_pos hremoved]
      rw [hremove]
      exact ih.trans (edited_setChild ih.here _)
    · have hskip : removeEntry (e.under s) ((es.map (DiffEntry.under s)).foldr removeEntry j) =
          (es.map (DiffEntry.under s)).foldr removeEntry j := if_neg hremoved
      have hskip' : removeEntry e (es.foldr removeEntry c) = es.foldr removeEntry c :=
        if_neg hremoved
      rw [hskip, hskip']
      exact ih

theorem Diff.removed_inside (h : Diff floatEq b a es) :
    ∀ e ∈ es, e.change = "removed" → e.tokens ≠ [] := by
  intro e he hremoved
  cases h with
  | typeChanged _ =>
    cases List.mem_singleton.mp he
    exact absurd (show "type_changed" = "removed" from hremoved) (by decide)
  | modified _ _ =>
    cases List.mem_singleton.mp he
    exact absurd (show "modified" = "removed" from hremoved) (by decide)
  | same _ _ _ => cases he
  | steps _ _ _ _ _ _ =>
    obtain ⟨s, -, he⟩ := List.mem_flatMap.mp he
    obtain ⟨ts, hts⟩ := tokens_of_mem_stepEntries he
    rw [hts]
    exact List.cons_ne_nil _ _

/-! ### Step by step -/

/-- Where a step leads once the entries for it are copied. -/
def copied (b a : Json φ) (sub : Step → List (DiffEntry φ)) (s : Step) : Option (Json φ) :=
  match b.child? s, a.child? s with
  | none, after => after
  | some x, none => some x
  | some x, some y => some ((sub s).foldl (copyEntry y) x)

/-- Where it leads in the end. -/
def rebuilt (b a : Json φ) (sub : Step → List (DiffEntry φ)) (s : Step) : Option (Json φ) :=
  match b.child? s, a.child? s with
  | none, after => after
  | some _, none => none
  | some x, some y => some (rebuild y (sub s) x)

theorem copy_step {sub : Step → List (DiffEntry φ)} (hsame : j.child? s = b.child? s)
    (hj : j.holds s = true) (ha : a.holds s = true)
    (hfront : ∀ i, s = .index i → ∀ i' < i, (j.child? (.index i')).isSome = true) :
    Edited j ((stepEntries b a s (sub s)).foldl (copyEntry a) j) s (copied b a sub s) := by
  unfold stepEntries copied
  split
  · rename_i y hnone hy
    have hcopy : copyEntry a j ⟨[s], "added", .null, previewValue y⟩ = j.setChild s y := by
      rw [copyEntry, if_neg (by simp)]
      show j.put [s.token] ((a.resolve [s.token]).getD .null) = _
      rw [Json.put_new hj (hsame.trans hnone), Json.resolve_token ha, hy]
      rfl
    rw [List.foldl_cons, List.foldl_nil, hcopy, hnone, hy]
    exact ⟨alike_setChild j s y, Json.child?_setChild_new hj (hsame.trans hnone) hfront y⟩
  · rename_i x hx hnone
    rw [hx, hnone]
    exact edited_refl (hsame.trans hx)
  · rename_i x y hx hy
    rw [hx, hy]
    exact copies_under (hsame.trans hx) hy (sub s)
  · rename_i hb ha
    rw [hb, ha]
    refine ⟨.refl j, fun t => ?_⟩
    split
    · rename_i heq
      exact heq ▸ hsame.trans hb
    · rfl

theorem remove_step {sub : Step → List (DiffEntry φ)} (hsame : j.child? s = copied b a sub s)
    (hj : j.holds s = true)
    (hback : (a.child? s).isSome = false →
      ∀ i, s = .index i → ∀ i', i < i' → j.child? (.index i') = none)
    (hsub : ∀ x y, b.child? s = some x → a.child? s = some y →
      ∀ e ∈ sub s, e.change = "removed" → e.tokens ≠ []) :
    Edited j ((stepEntries b a s (sub s)).foldr removeEntry j) s (rebuilt b a sub s) := by
  unfold stepEntries rebuilt
  unfold copied at hsame
  split
  · rename_i y hnone hy
    rw [hnone, hy] at hsame ⊢
    exact edited_refl hsame
  · rename_i x hx hnone
    rw [hx, hnone]
    have hremove : removeEntry ⟨[s], "removed", previewValue x, .null⟩ j = j.dropChild s :=
      Json.remove_last hj
    rw [List.foldr_cons, List.foldr_nil, hremove]
    exact ⟨alike_dropChild j s, Json.child?_dropChild hj (hback (by rw [hnone]; rfl))⟩
  · rename_i x y hx hy
    rw [hx, hy] at hsame ⊢
    exact removals_under hsame (hsub x y hx hy)
  · rename_i hb ha
    rw [hb, ha] at hsame ⊢
    refine ⟨.refl j, fun t => ?_⟩
    split
    · rename_i heq
      exact heq ▸ hsame
    · rfl

section Walks
variable {steps : List Step}

/-- Of a list, no place is left out before one that is still to come. -/
def Gapless (j : Json φ) (steps : List Step) : Prop :=
  ∀ i, .index i ∈ steps → ∀ i' < i, .index i' ∈ steps ∨ (j.child? (.index i')).isSome = true

theorem before_ne {s t : Step} (h : Before s t) : s ≠ t := by
  rintro rfl
  cases s with
  | key k => exact h rfl
  | index i => exact Nat.lt_irrefl i h

theorem not_mem_of_before (h : ∀ t ∈ steps, Before s t) : s ∉ steps :=
  fun hmem => before_ne (h s hmem) rfl

theorem copied_isSome {sub : Step → List (DiffEntry φ)}
    (h : (b.child? s).isSome = true ∨ (a.child? s).isSome = true) :
    (copied b a sub s).isSome = true := by
  unfold copied
  split
  · rename_i hb
    rw [hb] at h
    exact h.resolve_left nofun
  · rfl
  · rfl

theorem copy_steps (sub : Step → List (DiffEntry φ)) (horder : steps.Pairwise Before)
    (hsame : ∀ s ∈ steps, j.child? s = b.child? s)
    (hj : ∀ s ∈ steps, j.holds s = true) (ha : ∀ s ∈ steps, a.holds s = true)
    (hsome : ∀ s ∈ steps, (b.child? s).isSome = true ∨ (a.child? s).isSome = true)
    (hgapless : Gapless j steps) :
    ∃ j', (steps.flatMap fun s => stepEntries b a s (sub s)).foldl (copyEntry a) j = j' ∧
      Alike j j' ∧ ∀ t, j'.child? t = if t ∈ steps then copied b a sub t else j.child? t := by
  induction steps generalizing j with
  | nil => exact ⟨j, rfl, .refl j, fun t => by simp⟩
  | cons s steps ih =>
    obtain ⟨hfirst, horder⟩ := List.pairwise_cons.mp horder
    have hs := List.mem_cons_self (a := s) (l := steps)
    have hfront : ∀ i, s = .index i → ∀ i' < i, (j.child? (.index i')).isSome = true := by
      rintro i rfl i' hlt
      rcases hgapless i hs i' hlt with hmem | hsome
      · rcases List.mem_cons.mp hmem with heq | hmem
        · cases heq
          exact absurd hlt (Nat.lt_irrefl _)
        · have hlt' : i < i' := hfirst _ hmem
          omega
      · exact hsome
    have hedit : Edited j _ s (copied b a sub s) :=
      copy_step (hsame s hs) (hj s hs) (ha s hs) hfront
    have hne : ∀ t ∈ steps, s ≠ t := fun t ht => before_ne (hfirst t ht)
    have hrest : Gapless ((stepEntries b a s (sub s)).foldl (copyEntry a) j) steps := by
      intro i hi i' hlt
      rcases hgapless i (List.mem_cons_of_mem s hi) i' hlt with hmem | hsome'
      · rcases List.mem_cons.mp hmem with heq | hmem
        · right
          rw [hedit.child, if_pos heq.symm]
          exact copied_isSome (hsome s hs)
        · exact .inl hmem
      · right
        rw [hedit.child]
        split
        · exact copied_isSome (hsome s hs)
        · exact hsome'
    obtain ⟨j', hrun, halike, hchild⟩ := ih horder
      (fun t ht => by rw [hedit.child, if_neg (hne t ht), hsame t (List.mem_cons_of_mem s ht)])
      (fun t ht => by rw [hedit.alike.holds, hj t (List.mem_cons_of_mem s ht)])
      (fun t ht => ha t (List.mem_cons_of_mem s ht))
      (fun t ht => hsome t (List.mem_cons_of_mem s ht)) hrest
    refine ⟨j', ?_, hedit.alike.trans halike, fun t => ?_⟩
    · rw [List.flatMap_cons, List.foldl_append, hrun]
    · rw [hchild, hedit.child]
      by_cases ht : s = t
      · subst ht
        simp [not_mem_of_before hfirst]
      · simp [ht, Ne.symm ht]

/-- Of a list, no place is taken behind the last that is still to come. -/
def Trailing (k : Step → Option (Json φ)) (steps : List Step) : Prop :=
  ∀ i, .index i ∈ steps → ∀ i', i < i' → (k (.index i')).isSome = true → .index i' ∈ steps

theorem remove_steps (sub : Step → List (DiffEntry φ)) (horder : steps.Pairwise Before)
    (hj : ∀ s ∈ steps, j.holds s = true)
    (hsame : ∀ t, j.child? t = copied b a sub t)
    (hlist : ∀ i i', i < i' → a.child? (.index i) = none → a.child? (.index i') = none)
    (htrailing : Trailing (copied b a sub) steps)
    (hsub : ∀ s ∈ steps, ∀ x y, b.child? s = some x → a.child? s = some y →
      ∀ e ∈ sub s, e.change = "removed" → e.tokens ≠ []) :
    ∃ j', (steps.flatMap fun s => stepEntries b a s (sub s)).foldr removeEntry j = j' ∧
      Alike j j' ∧
        ∀ t, j'.child? t = if t ∈ steps then rebuilt b a sub t else copied b a sub t := by
  induction steps with
  | nil => exact ⟨j, rfl, .refl j, fun t => by simpa using hsame t⟩
  | cons s steps ih =>
    obtain ⟨hfirst, horder⟩ := List.pairwise_cons.mp horder
    have hs := List.mem_cons_self (a := s) (l := steps)
    have hrest : Trailing (copied b a sub) steps := by
      intro i hi i' hlt hsome
      rcases List.mem_cons.mp (htrailing i (List.mem_cons_of_mem s hi) i' hlt hsome) with heq | hmem
      · have hlt' : Before s (.index i) := hfirst _ hi
        rw [← heq] at hlt'
        exact absurd hlt' (Nat.lt_asymm hlt)
      · exact hmem
    obtain ⟨j₁, hrun, halike, hchild⟩ := ih horder (fun t ht => hj t (List.mem_cons_of_mem s ht))
      hrest fun t ht => hsub t (List.mem_cons_of_mem s ht)
    have hhere : j₁.child? s = copied b a sub s := by
      rw [hchild, if_neg (not_mem_of_before hfirst)]
    have hback : (a.child? s).isSome = false →
        ∀ i, s = .index i → ∀ i', i < i' → j₁.child? (.index i') = none := by
      rintro hnone i rfl i' hlt
      have hnone : a.child? (.index i) = none := by simpa using hnone
      have ha := hlist i i' hlt hnone
      rw [hchild]
      split
      · unfold rebuilt
        rw [ha]
        split <;> first | rfl | contradiction
      · rename_i hnot
        by_contra hsome
        have hmem := htrailing i hs i' hlt (Option.isSome_iff_ne_none.mpr hsome)
        rcases List.mem_cons.mp hmem with heq | hmem
        · cases heq
          exact absurd hlt (Nat.lt_irrefl _)
        · exact hnot hmem
    have hedit := remove_step hhere (by rw [halike.holds, hj s hs]) hback (hsub s hs)
    refine ⟨_, ?_, halike.trans hedit.alike, fun t => ?_⟩
    · rw [List.flatMap_cons, List.foldr_append, hrun]
    · rw [hedit.child, hchild]
      by_cases ht : s = t
      · subst ht
        simp
      · simp [ht, Ne.symm ht]

end Walks

/-- The entries turn the first value into the second. -/
theorem Diff.rebuild_same (h : Diff floatEq b a es) (ha : NanFree floatEq a) :
    Same floatEq (rebuild a es b) a := by
  induction h with
  | typeChanged _ => exact .refl _ ha
  | modified _ _ => exact .refl _ ha
  | same htype heq hleaf => exact (Diff.same htype heq hleaf).eq_nil_iff.mp rfl
  | @steps b a steps sub htype hnode hholds hall horder hsub ih =>
    have hsome : ∀ s ∈ steps, (b.child? s).isSome = true ∨ (a.child? s).isSome = true :=
      fun s => (hall s).mp
    have hnone {t : Step} (ht : t ∉ steps) : b.child? t = none ∧ a.child? t = none := by
      have hnot : ¬ ((b.child? t).isSome = true ∨ (a.child? t).isSome = true) :=
        fun h => ht ((hall t).mpr h)
      simpa using hnot
    have hlist : ∀ i i', i < i' → a.child? (.index i) = none → a.child? (.index i') = none := by
      intro i i' hlt hi
      cases a with
      | arr items => exact List.getElem?_eq_none ((List.getElem?_eq_none_iff.mp hi).trans hlt.le)
      | _ => rfl
    have hgapless : Gapless b steps := by
      intro i hi i' hlt
      left
      apply (hall _).mpr
      rcases hsome _ hi with hb | ha
      · left
        cases b with
        | arr items =>
          obtain ⟨c, hc⟩ := Option.isSome_iff_exists.mp hb
          have hbound := (List.getElem?_eq_some_iff.mp hc).1
          simpa [Json.child?] using hlt.trans hbound
        | _ => cases hb
      · right
        by_contra hnone'
        have hnone' : a.child? (.index i') = none := by simpa using hnone'
        rw [hlist i' i hlt hnone'] at ha
        cases ha
    obtain ⟨j₁, hcopies, halike₁, hchild₁⟩ := copy_steps sub horder (fun _ _ => rfl) hholds
      (fun s hs => (holds_of_sameType htype s).trans (hholds s hs)) hsome hgapless
    have hcopied : ∀ t, j₁.child? t = copied b a sub t := by
      intro t
      rw [hchild₁]
      split
      · rfl
      · rename_i ht
        obtain ⟨hb, ha⟩ := hnone ht
        rw [copied, hb, ha]
    have htrailing : Trailing (copied b a sub) steps := by
      intro i _ i' _ hpresent
      by_contra ht
      obtain ⟨hb, ha⟩ := hnone ht
      rw [copied, hb, ha] at hpresent
      cases hpresent
    obtain ⟨j₂, hremovals, halike₂, hchild₂⟩ := remove_steps sub horder
      (fun s hs => by rw [halike₁.holds, hholds s hs]) hcopied hlist htrailing
      fun s hs x y hx hy => (hsub s hs x y hx hy).removed_inside
    have halike := halike₁.trans halike₂
    have hrebuild : rebuild a (steps.flatMap fun s => stepEntries b a s (sub s)) b = j₂ := by
      rw [rebuild, hcopies, hremovals]
    have hfinal : ∀ t, j₂.child? t = rebuilt b a sub t := by
      intro t
      rw [hchild₂]
      split
      · rfl
      · rename_i ht
        obtain ⟨hb, ha⟩ := hnone ht
        rw [copied, rebuilt, hb, ha]
    rw [hrebuild]
    refine .intro ?_ (scalarNe_of_isNode (halike.node.trans hnode) a) (fun t => ?_) ?_
    · rw [halike.type, htype]
    · rw [hfinal, rebuilt]
      cases hb : b.child? t <;> cases ha : a.child? t <;> rfl
    · intro t x y hx hy
      have ht : t ∈ steps := (hall t).mpr (.inr (by rw [hy]; rfl))
      rw [hfinal, rebuilt, hy] at hx
      cases hb : b.child? t with
      | none =>
        rw [hb] at hx
        cases hx
        exact .refl _ (ha.child hy)
      | some x₀ =>
        rw [hb] at hx
        cases hx
        exact ih t ht x₀ y hb hy (ha.child hy)

end Rebuilding

/-! ## The walk below its limit -/

section Walk
variable {floatEq : φ → φ → Bool} {b a : Json φ} {l : Location} {out : List (DiffEntry φ)}

/-- The entry seen from the top. -/
def DiffEntry.below (l : Location) (e : DiffEntry φ) : DiffEntry φ :=
  { e with location := l ++ e.location }

theorem below_nil (e : DiffEntry φ) : e.below [] = e := rfl

theorem below_here (l : Location) (change : String) (x y : Json φ) :
    DiffEntry.below l ⟨[], change, x, y⟩ = ⟨l, change, x, y⟩ := by
  rw [DiffEntry.below, List.append_nil]

theorem below_typeChanged (x y : Json φ) (l : Location) :
    DiffEntry.below l (typeChanged x y []) = typeChanged x y l := below_here l _ _ _

theorem below_under (l : Location) (s : Step) (e : DiffEntry φ) :
    DiffEntry.below l (e.under s) = DiffEntry.below (l ++ [s]) e := by
  simp [DiffEntry.below, DiffEntry.under]

/-- A walk that stays below the limit adds the entries of a diff. -/
def Computes (floatEq : φ → φ → Bool) (before : Json φ) (walk : Walk φ) : Prop :=
  ∀ after l out, (walk after l out).length < maxDiffEntries →
    ∃ es, Diff floatEq before after es ∧ walk after l out = out ++ es.map (DiffEntry.below l)

theorem computes_diffScalar (hb : isNode b = false) :
    Computes floatEq b (diffScalar floatEq b) := by
  intro after l out hlen
  unfold diffScalar at hlen ⊢
  split at hlen
  · rename_i hfull
    omega
  · rename_i hroom
    rw [if_neg hroom]
    by_cases htype : sameType b after = false
    · refine ⟨_, .typeChanged htype, ?_⟩
      rw [if_pos htype, List.map_singleton, below_typeChanged]
    · rw [if_neg htype]
      rw [Bool.not_eq_false] at htype
      by_cases hne : scalarNe floatEq b after = true
      · refine ⟨_, .modified htype hne, ?_⟩
        rw [if_pos hne, List.map_singleton, below_here]
      · rw [if_neg hne]
        rw [Bool.not_eq_true] at hne
        refine ⟨[], .same htype hne fun s => ?_, (List.append_nil out).symm⟩
        cases b <;> first | rfl | cases hb

/-- One step of the loop over the children. -/
def stepWalk (floatEq : φ → φ → Bool) (b a : Json φ) (l : Location) (out : List (DiffEntry φ))
    (s : Step) : List (DiffEntry φ) :=
  diffStep s (b.child? s) (a.child? s) ((b.child? s).map (collectDiff floatEq)) l out

theorem prefix_stepWalk (floatEq : φ → φ → Bool) (b a : Json φ)
    (l : Location) (out : List (DiffEntry φ)) (s : Step) :
    out <+: stepWalk floatEq b a l out s := by
  refine prefix_diffStep _ _ _ (fun w hw => ?_) l out
  obtain ⟨c, -, rfl⟩ := Option.map_eq_some_iff.mp hw
  exact extends_collectDiff floatEq c

theorem stepWalk_entries {s : Step}
    (ih : ∀ x, b.child? s = some x → Computes floatEq x (collectDiff floatEq x))
    (hlen : (stepWalk floatEq b a l out s).length < maxDiffEntries) :
    ∃ sub, (∀ x y, b.child? s = some x → a.child? s = some y → Diff floatEq x y sub) ∧
      stepWalk floatEq b a l out s = out ++ (stepEntries b a s sub).map (DiffEntry.below l) := by
  have hroom : ¬ maxDiffEntries ≤ out.length := by
    have hle := (prefix_stepWalk floatEq b a l out s).length_le
    omega
  unfold stepWalk at hlen ⊢
  cases hb : b.child? s with
  | none =>
    refine ⟨[], by rintro x y ⟨⟩, ?_⟩
    cases ha : a.child? s <;> simp [diffStep, if_neg hroom, stepEntries, hb, ha, DiffEntry.below]
  | some x =>
    cases ha : a.child? s with
    | none =>
      refine ⟨[], by rintro x y - ⟨⟩, ?_⟩
      simp [diffStep, if_neg hroom, stepEntries, hb, ha, DiffEntry.below]
    | some y =>
      rw [hb, ha] at hlen
      simp only [diffStep, if_neg hroom, Option.map_some] at hlen ⊢
      obtain ⟨sub, hsub, hrun⟩ := ih x hb y (l ++ [s]) out hlen
      refine ⟨sub, ?_, ?_⟩
      · rintro x' y' hx hy
        cases hx
        cases hy
        exact hsub
      · rw [hrun, stepEntries, hb, ha, List.map_map]
        congr 2
        funext e
        exact (below_under l s e).symm

theorem stepWalks_entries {steps : List Step} (horder : steps.Pairwise Before)
    (ih : ∀ s x, b.child? s = some x → Computes floatEq x (collectDiff floatEq x))
    (hlen : (steps.foldl (stepWalk floatEq b a l) out).length < maxDiffEntries) :
    ∃ sub : Step → List (DiffEntry φ),
      (∀ s ∈ steps, ∀ x y, b.child? s = some x → a.child? s = some y → Diff floatEq x y (sub s)) ∧
      steps.foldl (stepWalk floatEq b a l) out =
        out ++ (steps.flatMap fun s => stepEntries b a s (sub s)).map (DiffEntry.below l) := by
  induction steps generalizing out with
  | nil => exact ⟨fun _ => [], nofun, (List.append_nil out).symm⟩
  | cons s steps ihs =>
    obtain ⟨hfirst, horder⟩ := List.pairwise_cons.mp horder
    have hpre : stepWalk floatEq b a l out s <+:
        steps.foldl (stepWalk floatEq b a l) (stepWalk floatEq b a l out s) :=
      foldl_prefix (fun t _ out => prefix_stepWalk floatEq b a l out t) _
    have hhead := stepWalk_entries (ih s) (hpre.length_le.trans_lt hlen)
    obtain ⟨first, hfirstDiff, hstep⟩ := hhead
    obtain ⟨sub, hsub, hrun⟩ := ihs horder hlen
    have hne : ∀ t ∈ steps, t ≠ s := fun t ht => (before_ne (hfirst t ht)).symm
    refine ⟨Function.update sub s first, ?_, ?_⟩
    · intro t ht x y hx hy
      rcases List.mem_cons.mp ht with rfl | ht
      · rw [Function.update_self]
        exact hfirstDiff x y hx hy
      · rw [Function.update_of_ne (hne t ht)]
        exact hsub t ht x y hx hy
    · have hrest : (steps.flatMap fun t => stepEntries b a t (Function.update sub s first t)) =
          steps.flatMap fun t => stepEntries b a t (sub t) :=
        List.flatMap_congr fun t ht => by rw [Function.update_of_ne (hne t ht)]
      rw [List.foldl_cons, hrun, hstep, List.flatMap_cons, Function.update_self, hrest,
        List.map_append, List.append_assoc]

/-- What the walks over lists and over dictionaries have in common. -/
theorem computes_steps {steps : List Step} (htype : sameType b a = true) (hnode : isNode b = true)
    (hholds : ∀ s ∈ steps, b.holds s = true)
    (hall : ∀ s, s ∈ steps ↔ (b.child? s).isSome = true ∨ (a.child? s).isSome = true)
    (horder : steps.Pairwise Before)
    (ih : ∀ s x, b.child? s = some x → Computes floatEq x (collectDiff floatEq x))
    (hlen : (steps.foldl (stepWalk floatEq b a l) out).length < maxDiffEntries) :
    ∃ es, Diff floatEq b a es ∧
      steps.foldl (stepWalk floatEq b a l) out = out ++ es.map (DiffEntry.below l) := by
  obtain ⟨sub, hsub, hrun⟩ := stepWalks_entries horder ih hlen
  exact ⟨_, .steps htype hnode hholds hall horder hsub, hrun⟩

theorem diffDict_steps (fields fields' : List (PyStr × Json φ))
    (hroom : ¬ maxDiffEntries ≤ out.length) :
    collectDiff floatEq (.obj fields) (.obj fields') l out =
      ((sortedKeys fields fields').map Step.key).foldl
        (stepWalk floatEq (.obj fields) (.obj fields') l) out := by
  rw [collectDiff, diffDict, if_neg hroom, List.foldl_map]
  congr 1
  funext out k
  rw [under?_fieldWalks]
  rfl

theorem diffList_steps (items items' : List (Json φ)) (hroom : ¬ maxDiffEntries ≤ out.length) :
    collectDiff floatEq (.arr items) (.arr items') l out =
      ((List.range (max items.length items'.length)).map Step.index).foldl
        (stepWalk floatEq (.arr items) (.arr items') l) out := by
  rw [collectDiff, diffList, if_neg hroom, List.foldl_map]
  congr 1
  funext out i
  rw [getElem?_itemWalks]
  rfl

theorem computes_collectDiff (floatEq : φ → φ → Bool) (before : Json φ) :
    Computes floatEq before (collectDiff floatEq before) := by
  induction before using Json.induction with
  | null => exact computes_diffScalar rfl
  | bool b => exact computes_diffScalar rfl
  | int i => exact computes_diffScalar rfl
  | float x => exact computes_diffScalar rfl
  | str s => exact computes_diffScalar rfl
  | arr items ih =>
    intro after l out hlen
    have hroom : ¬ maxDiffEntries ≤ out.length := by
      have hle := (extends_collectDiff floatEq (.arr items) after l out).length_le
      omega
    cases after with
    | arr items' =>
      rw [diffList_steps items items' hroom] at hlen ⊢
      refine computes_steps rfl rfl ?_ ?_ ?_ ?_ hlen
      · intro s hs
        obtain ⟨i, -, rfl⟩ := List.mem_map.mp hs
        rfl
      · intro s
        cases s with
        | key k => simp [Json.child?]
        | index i => simp [Json.child?]
      · exact List.pairwise_map.mpr List.pairwise_lt_range
      · intro s x hx
        cases s with
        | key k => cases hx
        | index i => exact ih x (List.mem_of_getElem? hx)
    | _ =>
      refine ⟨_, .typeChanged rfl, ?_⟩
      rw [collectDiff, diffList, if_neg hroom, List.map_singleton, below_typeChanged]
      rintro _ ⟨⟩
  | obj fields ih =>
    intro after l out hlen
    have hroom : ¬ maxDiffEntries ≤ out.length := by
      have hle := (extends_collectDiff floatEq (.obj fields) after l out).length_le
      omega
    cases after with
    | obj fields' =>
      rw [diffDict_steps fields fields' hroom] at hlen ⊢
      refine computes_steps rfl rfl ?_ ?_ ?_ ?_ hlen
      · intro s hs
        obtain ⟨k, -, rfl⟩ := List.mem_map.mp hs
        rfl
      · intro s
        cases s with
        | key k => simp [Json.child?, sortedKeys, under?]
        | index i => simp [Json.child?]
      · refine List.pairwise_map.mpr ?_
        exact ((sortedBy_perm _ _).nodup_iff.mpr (List.nodup_dedup _))
      · intro s x hx
        cases s with
        | key k => exact ih (k, x) (mem_of_under? hx)
        | index i => cases hx
    | _ =>
      refine ⟨_, .typeChanged rfl, ?_⟩
      rw [collectDiff, diffDict, if_neg hroom, List.map_singleton, below_typeChanged]
      rintro _ ⟨⟩

end Walk

section Main
variable {floatEq : φ → φ → Bool} {before after : Json φ}

theorem path_eq (e : DiffEntry φ) : e.path = pointerText e.tokens := by
  have hstep (s : Step) : stepText s = slashUnit :: escapeToken s.token := by
    cases s with
    | key k => rfl
    | index i =>
      show PyStr.ofString ("/" ++ toString i) = slashUnit :: escapeToken (indexToken i)
      rw [escapeToken_indexToken, indexToken, PyStr.ofString, String.toList_append]
      rfl
  rw [DiffEntry.path, DiffEntry.tokens, pointerText, List.flatMap_map]
  exact List.flatMap_congr fun s _ => hstep s

/-- Below the limit the entries are a diff. -/
theorem diff_buildStructuredDiff
    (hlen : (buildStructuredDiff floatEq before after).length < maxDiffEntries) :
    Diff floatEq before after (buildStructuredDiff floatEq before after) := by
  have hshort : (collectDiff floatEq before after [] []).length < maxDiffEntries := by
    rw [buildStructuredDiff, List.length_take] at hlen
    omega
  obtain ⟨es, hdiff, hrun⟩ := computes_collectDiff floatEq before after [] [] hshort
  have hes : buildStructuredDiff floatEq before after = es := by
    rw [buildStructuredDiff, List.take_of_length_le hshort.le, hrun, List.nil_append]
    exact List.map_id es
  exact hes ▸ hdiff

/-- A structured diff below its limit is empty for equal values only; its paths are pointers, none
of which leads to or below another; each shows a difference of its kind; and copying what the second
value has at them, and removing what it has not, turns the first value into the second. -/
theorem structured_diff_sound_complete (hafter : NanFree floatEq after)
    (hlen : (buildStructuredDiff floatEq before after).length < maxDiffEntries) :
    (buildStructuredDiff floatEq before after = [] ↔ Same floatEq before after) ∧
    (∀ e ∈ buildStructuredDiff floatEq before after, pointer? e.path = some e.tokens ∧
      Shows floatEq e (before.resolve e.tokens) (after.resolve e.tokens)) ∧
    (buildStructuredDiff floatEq before after).Pairwise (fun e e' => Apart e.tokens e'.tokens) ∧
    Same floatEq (rebuild after (buildStructuredDiff floatEq before after) before) after := by
  have hdiff := diff_buildStructuredDiff hlen
  refine ⟨hdiff.eq_nil_iff, fun e he => ⟨?_, hdiff.shows e he⟩, hdiff.pairwise_apart,
    hdiff.rebuild_same hafter⟩
  rw [path_eq]
  exact pointer?_pointerText e.tokens

end Main

/-- A list loses two items, a value under an escaped key changes, and a key is new. -/
def sampleBefore : Json Empty :=
  .obj [(PyStr.ofString "a", .arr [.int 1, .int 2, .int 3]), (PyStr.ofString "b/c", .null)]

def sampleAfter : Json Empty :=
  .obj [(PyStr.ofString "b/c", .str (PyStr.ofString "x")), (PyStr.ofString "n", .obj []),
    (PyStr.ofString "a", .arr [.int 1])]

def noFloatEq (x : Empty) (_ : Empty) : Bool := nomatch x

theorem sample_diff :
    (buildStructuredDiff noFloatEq sampleBefore sampleAfter = [] ↔
      Same noFloatEq sampleBefore sampleAfter) ∧
    (∀ e ∈ buildStructuredDiff noFloatEq sampleBefore sampleAfter, pointer? e.path = some e.tokens ∧
      Shows noFloatEq e (sampleBefore.resolve e.tokens) (sampleAfter.resolve e.tokens)) ∧
    (buildStructuredDiff noFloatEq sampleBefore sampleAfter).Pairwise
      (fun e e' => Apart e.tokens e'.tokens) ∧
    Same noFloatEq (rebuild sampleAfter (buildStructuredDiff noFloatEq sampleBefore sampleAfter)
      sampleBefore) sampleAfter :=
  structured_diff_sound_complete (fun _ x => nomatch x) (by decide)

example : (buildStructuredDiff noFloatEq sampleBefore sampleAfter).map DiffEntry.path =
    ["/a/1", "/a/2", "/b~1c", "/n"].map PyStr.ofString := by decide

end OpenClaw.Rewrite
