import OpenClaw.Foundation.PyText

/-!
# POSIX paths

`posixpath` on texts, and the components that a text stands for. One normal path is a common path
with another exactly where its components are the first ones of the other's.
-/

namespace Foundation.PosixPath

set_option autoImplicit false

def slash : CodeUnit := 0x2f

def isabs (path : PyStr) : Bool := path.head? = some slash

/-- `posixpath.join(a, b)`. -/
def join (a b : PyStr) : PyStr :=
  if isabs b then b
  else if a = [] ∨ a.getLast? = some slash then a ++ b
  else a ++ slash :: b

/-- The text up to the last slash, without the slashes at its end unless it is made of slashes. -/
def dirname (path : PyStr) : PyStr :=
  let head := path.rdropWhile fun u => u ≠ slash
  if head.all fun u => u = slash then head else head.rdropWhile fun u => u = slash

/-- The extension with its dot, as `splitext` cuts it off: not at the dots a name begins with. -/
def extension (path : PyStr) : PyStr :=
  let name := path.rtakeWhile fun u => u ≠ slash
  let stem := name.dropWhile fun u => u = 0x2e
  if 0x2e ∈ stem then 0x2e :: stem.rtakeWhile fun u => u ≠ 0x2e else []

def components (path : PyStr) : List PyStr := (path.splitOn slash).filter fun c => c ≠ [] ∧ c ≠ [0x2e]

def render (cs : List PyStr) : PyStr := slash :: List.intercalate [slash] cs

/-- The longest list that both begin with. -/
def commonPrefix {α : Type} [DecidableEq α] : List α → List α → List α
  | x :: xs, y :: ys => if x = y then x :: commonPrefix xs ys else []
  | _, _ => []

/-- `posixpath.commonpath([a, b])`; `none` is the `ValueError` of an absolute and a relative path. -/
def commonpath (a b : PyStr) : Option PyStr :=
  if isabs a ≠ isabs b then none
  else if isabs a then some (render (commonPrefix (components a) (components b)))
  else some (List.intercalate [slash] (commonPrefix (components a) (components b)))

/-- A component of a normal path. -/
def Segment (c : PyStr) : Prop := c ≠ [] ∧ c ≠ [0x2e] ∧ slash ∉ c

theorem commonPrefix_eq_right {α : Type} [DecidableEq α] {xs ys : List α} :
    commonPrefix xs ys = ys ↔ ys <+: xs := by
  induction ys generalizing xs with
  | nil => cases xs <;> simp [commonPrefix]
  | cons y ys ih =>
    cases xs with
    | nil => simp [commonPrefix]
    | cons x xs =>
      rw [commonPrefix, List.cons_prefix_cons]
      by_cases hxy : x = y
      · simp [hxy, ih]
      · simp [hxy, Ne.symm hxy]

theorem mem_of_mem_commonPrefix {α : Type} [DecidableEq α] {xs ys : List α} {z : α}
    (h : z ∈ commonPrefix xs ys) : z ∈ xs := by
  induction xs generalizing ys with
  | nil => cases ys <;> cases h
  | cons x xs ih =>
    cases ys with
    | nil => cases h
    | cons y ys =>
      rw [commonPrefix] at h
      split at h
      · rcases List.mem_cons.mp h with rfl | h
        · exact List.mem_cons_self
        · exact List.mem_cons_of_mem x (ih h)
      · cases h

/-- Splitting only leaves the separators out. -/
theorem mem_of_mem_splitOn {s part : PyStr} {c u : CodeUnit} (hpart : part ∈ s.splitOn c)
    (hu : u ∈ part) : u ∈ s := by
  induction s generalizing part with
  | nil =>
    rw [List.splitOn_nil, List.mem_singleton] at hpart
    subst hpart
    cases hu
  | cons x s ih =>
    rw [List.splitOn, List.splitOnP_cons_eq_if_modifyHead] at hpart
    split at hpart
    · rcases List.mem_cons.mp hpart with rfl | hpart
      · cases hu
      · exact List.mem_cons_of_mem x (ih hpart hu)
    · obtain ⟨first, rest, hsplit⟩ := List.exists_cons_of_ne_nil (List.splitOnP_ne_nil (· == c) s)
      have hmem : ∀ {q : PyStr}, q ∈ first :: rest → u ∈ q → u ∈ s := by
        intro q hq
        rw [← hsplit] at hq
        exact ih hq
      rw [hsplit, List.modifyHead_cons] at hpart
      rcases List.mem_cons.mp hpart with rfl | hpart
      · rcases List.mem_cons.mp hu with rfl | hu
        · exact List.mem_cons_self
        · exact List.mem_cons_of_mem x (hmem List.mem_cons_self hu)
      · exact List.mem_cons_of_mem x (hmem (List.mem_cons_of_mem first hpart) hu)

theorem mem_intercalate {α : Type} {cs : List (List α)} {sep : List α} {u : α}
    (h : u ∈ List.intercalate sep cs) : u ∈ sep ∨ ∃ c ∈ cs, u ∈ c := by
  induction cs with
  | nil => cases h
  | cons c cs ih =>
    cases cs with
    | nil =>
      rw [List.intercalate_singleton] at h
      exact .inr ⟨c, List.mem_cons_self, h⟩
    | cons d ds =>
      rw [List.intercalate_cons_cons, List.append_assoc, List.mem_append, List.mem_append] at h
      rcases h with h | h | h
      · exact .inr ⟨c, List.mem_cons_self, h⟩
      · exact .inl h
      · rcases ih h with h | ⟨e, he, hu⟩
        · exact .inl h
        · exact .inr ⟨e, List.mem_cons_of_mem c he, hu⟩

theorem components_render {cs : List PyStr} (h : ∀ c ∈ cs, Segment c) :
    components (render cs) = cs := by
  have hkeep : (cs.filter fun c => c ≠ [] ∧ c ≠ [0x2e]) = cs := by
    rw [List.filter_eq_self]
    intro c hc
    exact decide_eq_true ⟨(h c hc).1, (h c hc).2.1⟩
  unfold components render
  cases cs with
  | nil => decide
  | cons c cs =>
    have hsplit : (slash :: List.intercalate [slash] (c :: cs)).splitOn slash =
        [] :: (c :: cs) := by
      have hjoin : slash :: List.intercalate [slash] (c :: cs) =
          List.intercalate [slash] ([] :: c :: cs) := rfl
      rw [hjoin]
      refine List.splitOn_intercalate slash (fun d hd => ?_) (by simp)
      rcases List.mem_cons.mp hd with rfl | hd
      · simp
      · exact (h d hd).2.2
    rw [hsplit, List.filter_cons_of_neg (by simp), hkeep]

/-- What a normal path is below. -/
theorem commonpath_render_iff {cs ds : List PyStr} (hc : ∀ c ∈ cs, Segment c)
    (hd : ∀ d ∈ ds, Segment d) :
    commonpath (render cs) (render ds) = some (render ds) ↔ ds <+: cs := by
  have habs : ∀ cs, isabs (render cs) = true := fun cs => by simp [isabs, render]
  rw [commonpath, habs, habs, if_neg (by simp), if_pos rfl, components_render hc,
    components_render hd, Option.some_inj, ← commonPrefix_eq_right]
  constructor
  · intro h
    have hcommon : ∀ c ∈ commonPrefix cs ds, Segment c := by
      intro c hmem
      exact hc c (mem_of_mem_commonPrefix hmem)
    rw [← components_render hcommon, h, components_render hd]
  · exact congrArg render

end Foundation.PosixPath
