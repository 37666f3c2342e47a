import OpenClaw.Foundation.HeapPaths
import OpenClaw.Foundation.PyText
import OpenClaw.Foundation.Table
import Mathlib.Data.List.Dedup

/-!
# Structured diffs

`build_structured_diff` of `services/rewrite_recipes.py`. The two values are walked together; a walk
adds to the entries that are there and stops at their limit. An entry is where its location is, and
its path is the text of that.
-/

namespace OpenClaw.Rewrite

open Foundation
set_option autoImplicit false

variable {φ : Type}

def maxDiffEntries : ℕ := 200

structure DiffEntry (φ : Type) where
  location : Location
  change : String
  before : Json φ
  after : Json φ

/-- `.replace("~", "~0").replace("/", "~1")`. -/
def escapeSegment (s : PyStr) : PyStr :=
  s.flatMap fun u =>
    if u = 0x7e then PyStr.ofString "~0"
    else if u = 0x2f then PyStr.ofString "~1"
    else [u]

def stepText : Step → PyStr
  | .key k => PyStr.ofString "/" ++ escapeSegment k
  | .index i => PyStr.ofString ("/" ++ toString i)

def DiffEntry.path (e : DiffEntry φ) : PyStr := e.location.flatMap stepText

/-- `_diff_preview_value`. -/
def previewValue : Json φ → Json φ
  | .str s =>
    if 200 < s.len then .str (s.takePoints 200 ++ PyStr.ofString "...(truncated)") else .str s
  | .arr items => .obj [(PyStr.ofString "type", .str (PyStr.ofString "list")),
      (PyStr.ofString "length", .int items.length)]
  | .obj fields => .obj [(PyStr.ofString "type", .str (PyStr.ofString "dict")),
      (PyStr.ofString "keys", .int fields.length)]
  | j => j

section Walks
variable (floatEq : φ → φ → Bool)

abbrev Walk (φ : Type) := Json φ → Location → List (DiffEntry φ) → List (DiffEntry φ)

def typeChanged (before after : Json φ) (l : Location) : DiffEntry φ :=
  ⟨l, "type_changed", previewValue before, previewValue after⟩

def sameType : Json φ → Json φ → Bool
  | .null, .null => true
  | .bool _, .bool _ => true
  | .int _, .int _ => true
  | .float _, .float _ => true
  | .str _, .str _ => true
  | .arr _, .arr _ => true
  | .obj _, .obj _ => true
  | _, _ => false

/-- `before != after` of two scalars of one type. -/
def scalarNe : Json φ → Json φ → Bool
  | .bool b, .bool b' => b ≠ b'
  | .int i, .int i' => i ≠ i'
  | .float x, .float x' => !floatEq x x'
  | .str s, .str s' => s ≠ s'
  | _, _ => false

def diffScalar (before : Json φ) : Walk φ := fun after l out =>
  if maxDiffEntries ≤ out.length then out
  else if sameType before after = false then out ++ [typeChanged before after l]
  else if scalarNe floatEq before after then
    out ++ [⟨l, "modified", previewValue before, previewValue after⟩]
  else out

/-- One step that either value has, or both. -/
def diffStep (s : Step) (before after : Option (Json φ)) (walk : Option (Walk φ)) (l : Location)
    (out : List (DiffEntry φ)) : List (DiffEntry φ) :=
  if maxDiffEntries ≤ out.length then out
  else
    match before, after with
    | none, some a => out ++ [⟨l ++ [s], "added", .null, previewValue a⟩]
    | some b, none => out ++ [⟨l ++ [s], "removed", previewValue b, .null⟩]
    | some _, some a =>
      match walk with
      | some walk => walk a (l ++ [s]) out
      | none => out
    | none, none => out

/-- `sorted(set(before.keys()) | set(after.keys()))`. -/
def sortedKeys (before after : List (PyStr × Json φ)) : List PyStr :=
  sortedBy PyStr.codePoints ((before.map Prod.fst ++ after.map Prod.fst).dedup)

def diffDict (before : List (PyStr × Json φ)) (walks : List (PyStr × Walk φ)) : Walk φ :=
  fun after l out =>
    if maxDiffEntries ≤ out.length then out
    else
      match after with
      | .obj fields =>
        (sortedKeys before fields).foldl (fun out k =>
          diffStep (.key k) (under? k before) (under? k fields) (under? k walks) l out) out
      | after => out ++ [typeChanged (.obj before) after l]

def diffList (before : List (Json φ)) (walks : List (Walk φ)) : Walk φ :=
  fun after l out =>
    if maxDiffEntries ≤ out.length then out
    else
      match after with
      | .arr items =>
        (List.range (max before.length items.length)).foldl (fun out i =>
          diffStep (.index i) before[i]? items[i]? walks[i]? l out) out
      | after => out ++ [typeChanged (.arr before) after l]

mutual

/-- `_collect_diff`; the walk from a value goes through the walks from what is below it. -/
def collectDiff : Json φ → Walk φ
  | .arr items => diffList items (itemWalks items)
  | .obj fields => diffDict fields (fieldWalks fields)
  | .null => diffScalar floatEq .null
  | .bool b => diffScalar floatEq (.bool b)
  | .int i => diffScalar floatEq (.int i)
  | .float x => diffScalar floatEq (.float x)
  | .str s => diffScalar floatEq (.str s)

def itemWalks : List (Json φ) → List (Walk φ)
  | [] => []
  | j :: items => collectDiff j :: itemWalks items

def fieldWalks : List (PyStr × Json φ) → List (PyStr × Walk φ)
  | [] => []
  | (k, j) :: fields => (k, collectDiff j) :: fieldWalks fields

end

def buildStructuredDiff (before after : Json φ) : List (DiffEntry φ) :=
  (collectDiff floatEq before after [] []).take maxDiffEntries

theorem getElem?_itemWalks (items : List (Json φ)) (i : ℕ) :
    (itemWalks floatEq items)[i]? = items[i]?.map (collectDiff floatEq) := by
  induction items generalizing i with
  | nil => rfl
  | cons j items ih =>
    cases i with
    | zero => rfl
    | succ i => exact ih i

theorem under?_fieldWalks (fields : List (PyStr × Json φ)) (k : PyStr) :
    under? k (fieldWalks floatEq fields) = (under? k fields).map (collectDiff floatEq) := by
  induction fields with
  | nil => rfl
  | cons f fields ih =>
    obtain ⟨k', j⟩ := f
    by_cases hk : k' = k
    · simp [under?, fieldWalks, hk]
    · simpa [under?, fieldWalks, hk] using ih

/-! ## What a walk adds -/

theorem foldl_prefix {α β : Type} {f : List β → α → List β} {xs : List α}
    (h : ∀ x ∈ xs, ∀ out, out <+: f out x) (out : List β) : out <+: xs.foldl f out := by
  induction xs generalizing out with
  | nil => exact List.prefix_refl out
  | cons x xs ih =>
    have hx := h x List.mem_cons_self out
    exact hx.trans (ih (fun y hy => h y (List.mem_cons_of_mem x hy)) (f out x))

/-- A walk only adds entries. -/
def Extends (walk : Walk φ) : Prop := ∀ after l out, out <+: walk after l out

theorem prefix_diffStep (s : Step) (before after : Option (Json φ)) {walk : Option (Walk φ)}
    (hwalk : ∀ w, walk = some w → Extends w) (l : Location) (out : List (DiffEntry φ)) :
    out <+: diffStep s before after walk l out := by
  unfold diffStep
  split
  · exact List.prefix_refl out
  · split
    · exact List.prefix_append out _
    · exact List.prefix_append out _
    · split
      · exact hwalk _ rfl _ _ out
      · exact List.prefix_refl out
    · exact List.prefix_refl out

theorem extends_diffScalar (before : Json φ) : Extends (diffScalar floatEq before) := by
  intro after l out
  unfold diffScalar
  split
  · exact List.prefix_refl out
  · split
    · exact List.prefix_append out _
    · split
      · exact List.prefix_append out _
      · exact List.prefix_refl out

theorem extends_collectDiff (before : Json φ) : Extends (collectDiff floatEq before) := by
  induction before using Json.induction with
  | null => exact extends_diffScalar floatEq _
  | bool b => exact extends_diffScalar floatEq _
  | int i => exact extends_diffScalar floatEq _
  | float x => exact extends_diffScalar floatEq _
  | str s => exact extends_diffScalar floatEq _
  | arr items ih =>
    intro after l out
    have hstep : ∀ (items' : List (Json φ)) (i : ℕ) (out : List (DiffEntry φ)), out <+:
        diffStep (.index i) items[i]? items'[i]? (itemWalks floatEq items)[i]? l out := by
      intro items' i out
      refine prefix_diffStep _ _ _ (fun w hw => ?_) l out
      rw [getElem?_itemWalks] at hw
      obtain ⟨j, hj, rfl⟩ := Option.map_eq_some_iff.mp hw
      exact ih j (List.mem_of_getElem? hj)
    rw [collectDiff]
    unfold diffList
    split
    · exact List.prefix_refl out
    · split
      · exact foldl_prefix (fun i _ out => hstep _ i out) out
      · exact List.prefix_append out _
  | obj fields ih =>
    intro after l out
    have hstep : ∀ (fields' : List (PyStr × Json φ)) (k : PyStr) (out : List (DiffEntry φ)), out <+:
        diffStep (.key k) (under? k fields) (under? k fields')
          (under? k (fieldWalks floatEq fields)) l out := by
      intro fields' k out
      refine prefix_diffStep _ _ _ (fun w hw => ?_) l out
      rw [under?_fieldWalks] at hw
      obtain ⟨j, hj, rfl⟩ := Option.map_eq_some_iff.mp hw
      exact ih (k, j) (mem_of_under? hj)
    rw [collectDiff]
    unfold diffDict
    split
    · exact List.prefix_refl out
    · split
      · exact foldl_prefix (fun k _ out => hstep _ k out) out
      · exact List.prefix_append out _

theorem prefix_itemStep (items items' : List (Json φ)) (i : ℕ) (l : Location)
    (out : List (DiffEntry φ)) :
    out <+: diffStep (.index i) items[i]? items'[i]? (itemWalks floatEq items)[i]? l out := by
  refine prefix_diffStep _ _ _ (fun w hw => ?_) l out
  rw [getElem?_itemWalks] at hw
  obtain ⟨j, -, rfl⟩ := Option.map_eq_some_iff.mp hw
  exact extends_collectDiff floatEq j

theorem prefix_fieldStep (fields fields' : List (PyStr × Json φ)) (k : PyStr) (l : Location)
    (out : List (DiffEntry φ)) :
    out <+: diffStep (.key k) (under? k fields) (under? k fields')
      (under? k (fieldWalks floatEq fields)) l out := by
  refine prefix_diffStep _ _ _ (fun w hw => ?_) l out
  rw [under?_fieldWalks] at hw
  obtain ⟨j, -, rfl⟩ := Option.map_eq_some_iff.mp hw
  exact extends_collectDiff floatEq j

/-- Outside `B` the values have the same shapes below the location. -/
def SameBeside (B : Location → Prop) (before after : Json φ) (l : Location) : Prop :=
  ∀ l', ¬B (l ++ l') → (after.at? l').map Json.shape = (before.at? l').map Json.shape

/-- A float that is not equal to itself, outside `B`. -/
def Stray (B : Location → Prop) (before : Json φ) (l l' : Location) : Prop :=
  ¬B (l ++ l') ∧ ∃ x, before.at? l' = some (.float x) ∧ floatEq x x = false

/-- The entry is at a location of `B` or at a stray float of the value at `l`. -/
def Accounted (B : Location → Prop) (before : Json φ) (l : Location) (e : DiffEntry φ) : Prop :=
  B e.location ∨ ∃ l', e.location = l ++ l' ∧ Stray floatEq B before l l'

/-- What a walk adds is accounted for. -/
def Explained (B : Location → Prop) (before : Json φ) (walk : Walk φ) : Prop :=
  ∀ after l out, SameBeside B before after l → ∀ e ∈ walk after l out,
    e ∈ out ∨ Accounted floatEq B before l e

section Explained
variable {floatEq} {B : Location → Prop}

theorem sameType_of_shape {before after : Json φ} (h : after.shape = before.shape) :
    sameType before after = true := by
  cases before <;> cases after <;> first | rfl | cases h

/-- Only a float is not equal to itself. -/
theorem float_of_scalarNe {before after : Json φ} (h : after.shape = before.shape)
    (hne : scalarNe floatEq before after = true) : ∃ x, before = .float x ∧ floatEq x x = false := by
  cases before with
  | float x =>
    cases after <;> cases h
    exact ⟨x, rfl, by simpa [scalarNe] using hne⟩
  | _ =>
    cases after <;> first | cases h | skip
    all_goals simp [scalarNe] at hne

theorem SameBeside.here {before after : Json φ} {l : Location} (h : SameBeside B before after l)
    (hl : ¬B l) : after.shape = before.shape := by
  have hnil := h [] (by rwa [List.append_nil])
  exact Option.some.inj hnil

theorem SameBeside.child {before after b a : Json φ} {l : Location} {s : Step}
    (h : SameBeside B before after l) (hb : before.child? s = some b)
    (ha : after.child? s = some a) : SameBeside B b a (l ++ [s]) := by
  intro l' hl'
  have hs := h (s :: l') (by rwa [List.append_assoc] at hl')
  rwa [Json.at?, Json.at?, ha, hb] at hs

theorem SameBeside.presence {before after : Json φ} {l : Location} {s : Step}
    (h : SameBeside B before after l)
    (hne : (before.child? s).isSome ≠ (after.child? s).isSome) : B (l ++ [s]) := by
  by_contra hB
  have hs := congrArg Option.isSome (h [s] hB)
  have hat : ∀ j : Json φ, (j.at? [s]).isSome = (j.child? s).isSome := by
    intro j
    rw [Json.at?]
    cases j.child? s <;> rfl
  rw [Option.isSome_map, Option.isSome_map, hat, hat] at hs
  exact hne hs.symm

theorem Stray.of_child {before b : Json φ} {l l' : Location} {s : Step}
    (hb : before.child? s = some b) (h : Stray floatEq B b (l ++ [s]) l') :
    Stray floatEq B before l (s :: l') := by
  obtain ⟨hB, x, hx, hne⟩ := h
  refine ⟨by rwa [List.append_assoc] at hB, x, ?_, hne⟩
  rw [Json.at?, hb]
  exact hx

theorem explained_diffScalar {before : Json φ} : Explained floatEq B before (diffScalar floatEq before) := by
  intro after l out hsame e he
  unfold diffScalar at he
  split at he
  · exact .inl he
  split at he
  · rename_i htype
    rcases List.mem_append.mp he with he | he
    · exact .inl he
    · rw [List.mem_singleton] at he
      subst he
      refine .inr (.inl ?_)
      by_contra hl
      rw [sameType_of_shape (hsame.here hl)] at htype
      cases htype
  split at he
  · rename_i hne
    rcases List.mem_append.mp he with he | he
    · exact .inl he
    · rw [List.mem_singleton] at he
      subst he
      refine .inr ?_
      by_cases hl : B l
      · exact .inl hl
      · refine .inr ⟨[], (List.append_nil l).symm, by rwa [List.append_nil], ?_⟩
        obtain ⟨x, rfl, hx⟩ := float_of_scalarNe (hsame.here hl) hne
        exact ⟨x, rfl, hx⟩
  · exact .inl he

/-- One step of the walk of a list or a dictionary. -/
theorem explained_diffStep {before after : Json φ} {l : Location} (hsame : SameBeside B before after l)
    {s : Step} {walk : Option (Walk φ)}
    (hwalk : ∀ w b, walk = some w → before.child? s = some b → Explained floatEq B b w)
    {out : List (DiffEntry φ)} {e : DiffEntry φ}
    (he : e ∈ diffStep s (before.child? s) (after.child? s) walk l out) :
    e ∈ out ∨ Accounted floatEq B before l e := by
  unfold diffStep at he
  split at he
  · exact .inl he
  split at he
  · rename_i hb ha
    rcases List.mem_append.mp he with he | he
    · exact .inl he
    · rw [List.mem_singleton] at he
      subst he
      exact .inr (.inl (hsame.presence (by simp [hb, ha])))
  · rename_i hb ha
    rcases List.mem_append.mp he with he | he
    · exact .inl he
    · rw [List.mem_singleton] at he
      subst he
      exact .inr (.inl (hsame.presence (by simp [hb, ha])))
  · rename_i b a hb ha
    split at he
    · rename_i w
      rcases hwalk w b rfl hb a (l ++ [s]) out (hsame.child hb ha) e he with
        hout | hB | ⟨l', hl', hstray⟩
      · exact .inl hout
      · exact .inr (.inl hB)
      · exact .inr (.inr ⟨s :: l', by rw [hl', List.append_assoc]; rfl, hstray.of_child hb⟩)
    · exact .inl he
  · exact .inl he

theorem mem_foldl {α β : Type} {P : β → Prop} {f : List β → α → List β} {xs : List α}
    (h : ∀ x ∈ xs, ∀ out, ∀ e ∈ f out x, e ∈ out ∨ P e) {out : List β} {e : β}
    (he : e ∈ xs.foldl f out) : e ∈ out ∨ P e := by
  induction xs generalizing out with
  | nil => exact .inl he
  | cons x xs ih =>
    rcases ih (fun y hy => h y (List.mem_cons_of_mem x hy)) he with hmem | hP
    · exact h x List.mem_cons_self out e hmem
    · exact .inr hP

theorem explained_collectDiff (before : Json φ) :
    Explained floatEq B before (collectDiff floatEq before) := by
  induction before using Json.induction with
  | null => exact explained_diffScalar
  | bool b => exact explained_diffScalar
  | int i => exact explained_diffScalar
  | float x => exact explained_diffScalar
  | str s => exact explained_diffScalar
  | arr items ih =>
    intro after l out hsame e he
    rw [collectDiff] at he
    unfold diffList at he
    split at he
    · exact .inl he
    split at he
    · rename_i items'
      refine mem_foldl (P := Accounted floatEq B (.arr items) l) (fun i _ out e he => ?_) he
      refine explained_diffStep hsame (s := .index i) (fun w b hw hb => ?_) he
      rw [getElem?_itemWalks, show items[i]? = some b from hb] at hw
      cases hw
      exact ih b (List.mem_of_getElem? hb)
    · rename_i hother
      rcases List.mem_append.mp he with he | he
      · exact .inl he
      · rw [List.mem_singleton] at he
        subst he
        refine .inr (.inl ?_)
        by_contra hl
        have hshape := hsame.here hl
        cases after with
        | arr items' => exact hother items' rfl
        | _ => cases hshape
  | obj fields ih =>
    intro after l out hsame e he
    rw [collectDiff] at he
    unfold diffDict at he
    split at he
    · exact .inl he
    split at he
    · rename_i fields'
      refine mem_foldl (P := Accounted floatEq B (.obj fields) l) (fun k _ out e he => ?_) he
      refine explained_diffStep hsame (s := .key k) (fun w b hw hb => ?_) he
      have hb' : under? k fields = some b := hb
      rw [under?_fieldWalks, hb'] at hw
      cases hw
      exact ih (k, b) (mem_of_under? hb')
    · rename_i hother
      rcases List.mem_append.mp he with he | he
      · exact .inl he
      · rw [List.mem_singleton] at he
        subst he
        refine .inr (.inl ?_)
        by_contra hl
        have hshape := hsame.here hl
        cases after with
        | obj fields' => exact hother fields' rfl
        | _ => cases hshape

end Explained

/-! ## What a walk finds -/

/-- Unless the limit is reached, a walk finds every float that is not equal to itself. -/
def Finds (before : Json φ) (walk : Walk φ) : Prop :=
  ∀ after l l' out x, before.at? l' = some (.float x) → after.at? l' = some (.float x) →
    floatEq x x = false → (walk after l out).length < maxDiffEntries →
    ∃ e ∈ walk after l out, e.location = l ++ l'

theorem foldl_finds {α β : Type} {f : List β → α → List β} {xs : List α} {x : α} {n : ℕ}
    {P : β → Prop} (hgrow : ∀ x ∈ xs, ∀ out, out <+: f out x) (hx : x ∈ xs)
    (hfind : ∀ out, (f out x).length < n → ∃ e ∈ f out x, P e) {out : List β}
    (hn : (xs.foldl f out).length < n) : ∃ e ∈ xs.foldl f out, P e := by
  induction xs generalizing out with
  | nil => cases hx
  | cons y ys ih =>
    have hrest := fun z hz => hgrow z (List.mem_cons_of_mem y hz)
    rcases List.mem_cons.mp hx with rfl | hx
    · have hpre := foldl_prefix hrest (f out x)
      obtain ⟨e, he, hP⟩ := hfind out (lt_of_le_of_lt hpre.length_le hn)
      exact ⟨e, hpre.subset he, hP⟩
    · exact ih hrest hx hn

variable {floatEq}

theorem finds_diffScalar {before : Json φ} (hitems : ∀ items, before ≠ .arr items)
    (hfields : ∀ fields, before ≠ .obj fields) : Finds floatEq before (diffScalar floatEq before) := by
  intro after l l' out x hx hx' hne hn
  cases l' with
  | cons s l' =>
    have hchild : before.child? s = none := by
      cases before with
      | arr items => exact absurd rfl (hitems items)
      | obj fields => exact absurd rfl (hfields fields)
      | _ => rfl
    rw [Json.at?, hchild] at hx
    cases hx
  | nil =>
    cases hx
    cases hx'
    have hroom : ¬maxDiffEntries ≤ out.length := by
      have hpre := (extends_diffScalar floatEq (.float x) (.float x) l out).length_le
      omega
    have hwalk : diffScalar floatEq (.float x) (.float x) l out =
        out ++ [⟨l, "modified", .float x, .float x⟩] := by
      rw [diffScalar, if_neg hroom, if_neg (by simp [sameType]), if_pos (by simp [scalarNe, hne])]
      rfl
    rw [hwalk]
    exact ⟨_, List.mem_append_right _ (List.mem_singleton_self _), (List.append_nil l).symm⟩

theorem finds_diffStep {s : Step} {b a : Json φ} {w : Walk φ} (hw : Finds floatEq b w)
    (hext : Extends w) {l l' : Location} {x : φ} (hb : b.at? l' = some (.float x))
    (ha : a.at? l' = some (.float x)) (hne : floatEq x x = false) {out : List (DiffEntry φ)}
    (hn : (diffStep s (some b) (some a) (some w) l out).length < maxDiffEntries) :
    ∃ e ∈ diffStep s (some b) (some a) (some w) l out, e.location = l ++ s :: l' := by
  have hroom : ¬maxDiffEntries ≤ out.length := by
    have hpre : out <+: diffStep s (some b) (some a) (some w) l out :=
      prefix_diffStep s _ _ (fun w' hw' => Option.some.inj hw' ▸ hext) l out
    have hlen := hpre.length_le
    omega
  have hwalk : diffStep s (some b) (some a) (some w) l out = w a (l ++ [s]) out := by
    rw [diffStep, if_neg hroom]
  rw [hwalk] at hn ⊢
  obtain ⟨e, he, hl⟩ := hw a (l ++ [s]) l' out x hb ha hne hn
  exact ⟨e, he, by rw [hl, List.append_assoc]; rfl⟩

theorem finds_collectDiff (before : Json φ) : Finds floatEq before (collectDiff floatEq before) := by
  induction before using Json.induction with
  | null => exact finds_diffScalar nofun nofun
  | bool b => exact finds_diffScalar nofun nofun
  | int i => exact finds_diffScalar nofun nofun
  | float x => exact finds_diffScalar nofun nofun
  | str s => exact finds_diffScalar nofun nofun
  | arr items ih =>
    intro after l l' out x hx hx' hne hn
    have hroom : ¬maxDiffEntries ≤ out.length := by
      have hlen := (extends_collectDiff floatEq (.arr items) after l out).length_le
      omega
    cases l' with
    | nil => cases hx
    | cons s l' =>
      obtain ⟨b, hb, hbx⟩ := Option.bind_eq_some_iff.mp hx
      obtain ⟨a, ha, hax⟩ := Option.bind_eq_some_iff.mp hx'
      cases s with
      | key k => cases hb
      | index i =>
        cases after with
        | arr items' =>
          have hb' : items[i]? = some b := hb
          have ha' : items'[i]? = some a := ha
          have hwalk : (itemWalks floatEq items)[i]? = some (collectDiff floatEq b) := by
            rw [getElem?_itemWalks, hb']
            rfl
          have hi : i ∈ List.range (max items.length items'.length) := by
            have := (List.getElem?_eq_some_iff.mp hb').1
            rw [List.mem_range]
            omega
          rw [collectDiff, diffList, if_neg hroom] at hn ⊢
          refine foldl_finds (fun i _ out => ?_) hi (fun out hn => ?_) hn
          · exact prefix_itemStep floatEq items items' i l out
          · rw [hb', ha', hwalk] at hn ⊢
            exact finds_diffStep (ih b (List.mem_of_getElem? hb')) (extends_collectDiff floatEq b)
              hbx hax hne hn
        | _ => cases ha
  | obj fields ih =>
    intro after l l' out x hx hx' hne hn
    have hroom : ¬maxDiffEntries ≤ out.length := by
      have hlen := (extends_collectDiff floatEq (.obj fields) after l out).length_le
      omega
    cases l' with
    | nil => cases hx
    | cons s l' =>
      obtain ⟨b, hb, hbx⟩ := Option.bind_eq_some_iff.mp hx
      obtain ⟨a, ha, hax⟩ := Option.bind_eq_some_iff.mp hx'
      cases s with
      | index i => cases hb
      | key k =>
        cases after with
        | obj fields' =>
          have hb' : under? k fields = some b := hb
          have ha' : under? k fields' = some a := ha
          have hwalk : under? k (fieldWalks floatEq fields) = some (collectDiff floatEq b) := by
            rw [under?_fieldWalks, hb']
            rfl
          have hk : k ∈ sortedKeys fields fields' := by
            rw [sortedKeys, mem_sortedBy, List.mem_dedup, List.mem_append]
            exact .inl (List.mem_map_of_mem (mem_of_under? hb'))
          rw [collectDiff, diffDict, if_neg hroom] at hn ⊢
          refine foldl_finds (fun k _ out => ?_) hk (fun out hn => ?_) hn
          · exact prefix_fieldStep floatEq fields fields' k l out
          · rw [hb', ha', hwalk] at hn ⊢
            exact finds_diffStep (ih (k, b) (mem_of_under? hb')) (extends_collectDiff floatEq b)
              hbx hax hne hn
        | _ => cases ha

end Walks

end OpenClaw.Rewrite
