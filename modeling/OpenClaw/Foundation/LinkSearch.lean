import Mathlib.Data.List.Nodup

/-!
# Searching along links

A depth-first search for the first node that supplies a value. A node that supplies one is not
searched further, and each path carries the nodes it has been through, so that it ends in a cyclic
graph. The search finds a value exactly if a supplying node can be reached through nodes that
supply nothing.
-/

namespace Foundation

set_option autoImplicit false

universe u v w x
variable {κ : Type u} {ν : Type v} {ρ : Type w} {β : Type x}

/-- Nodes under finitely many names, and what to ask of them. -/
structure LinkGraph (κ : Type u) (ν : Type v) (ρ : Type w) (β : Type x) where
  names : List κ
  node? : κ → Option ν
  listed : ∀ a v, node? a = some v → a ∈ names
  target : ρ → Option κ
  supply : ν → Option β
  links : ν → List ρ

namespace LinkGraph
variable [DecidableEq κ] (g : LinkGraph κ ν ρ β)

/-- How many nodes a path has not been through. -/
def unseen (seen : List κ) : ℕ := (g.names.filter (· ∉ seen)).length

variable {g} in
theorem unseen_cons {seen : List κ} {a : κ} (ha : a ∉ seen) (hmem : a ∈ g.names) :
    g.unseen (a :: seen) < g.unseen seen := by
  unfold unseen
  have hsub : g.names.filter (· ∉ a :: seen) = (g.names.filter (· ∉ seen)).filter (· ≠ a) := by
    rw [List.filter_filter]
    exact List.filter_congr fun b _ => by simp [not_or]
  rw [hsub]
  apply List.length_filter_lt_length_iff_exists.mpr
  exact ⟨a, List.mem_filter.mpr ⟨hmem, by simpa using ha⟩, by simp⟩

/-- The value at the end of the first path that has one. -/
def search (seen : List κ) (r : ρ) : Option β :=
  match g.target r with
  | none => none
  | some a =>
    if _ha : a ∈ seen then none
    else
      match _hnode : g.node? a with
      | none => none
      | some v =>
        match g.supply v with
        | some b => some b
        | none => (g.links v).findSome? fun r => search (a :: seen) r
termination_by g.unseen seen
decreasing_by exact unseen_cons _ha (g.listed a v _hnode)

/-- The link leads to the node, through nodes that supply nothing. -/
inductive Leads : ρ → ν → Prop where
  | here {r : ρ} {a : κ} {v : ν} : g.target r = some a → g.node? a = some v → Leads r v
  | step {r s : ρ} {a : κ} {v w : ν} : g.target r = some a → g.node? a = some v →
      g.supply v = none → s ∈ g.links v → Leads s w → Leads r w

/-- A path with the names of its nodes. -/
inductive Walk : ρ → List κ → ν → Prop where
  | here {r : ρ} {a : κ} {v : ν} : g.target r = some a → g.node? a = some v → Walk r [a] v
  | step {r s : ρ} {a : κ} {v w : ν} {as : List κ} : g.target r = some a → g.node? a = some v →
      g.supply v = none → s ∈ g.links v → Walk s as w → Walk r (a :: as) w

variable {g} {r : ρ} {w : ν} {seen as : List κ}

omit [DecidableEq κ] in
theorem Leads.walk (h : g.Leads r w) : ∃ as, g.Walk r as w := by
  induction h with
  | here htarget hnode => exact ⟨_, .here htarget hnode⟩
  | step htarget hnode hsupply hlink _ ih =>
    obtain ⟨as, has⟩ := ih
    exact ⟨_, .step htarget hnode hsupply hlink has⟩

/-- A walk can be entered at each of its nodes. -/
theorem Walk.enter (h : g.Walk r as w) {a : κ} (ha : a ∈ as) {s : ρ} (hs : g.target s = some a) :
    ∃ bs, g.Walk s bs w ∧ bs <:+ as := by
  induction h with
  | here htarget hnode =>
    rw [List.mem_singleton] at ha
    subst ha
    exact ⟨_, .here hs hnode, List.suffix_refl _⟩
  | @step _ _ b _ _ bs _ hnode hsupply hlink hwalk ih =>
    by_cases hab : a = b
    · subst hab
      exact ⟨_, .step hs hnode hsupply hlink hwalk, List.suffix_refl _⟩
    · obtain ⟨cs, hcs, hsuffix⟩ := ih ((List.mem_cons.mp ha).resolve_left hab)
      exact ⟨cs, hcs, hsuffix.trans (List.suffix_cons b bs)⟩

/-- Loops can be cut out of a walk. -/
theorem Walk.exists_nodup (h : g.Walk r as w) : ∃ bs, g.Walk r bs w ∧ bs.Nodup := by
  have hsub : ∃ bs, g.Walk r bs w ∧ bs.Nodup ∧ bs ⊆ as := by
    induction h with
    | here htarget hnode => exact ⟨_, .here htarget hnode, by simp, List.Subset.refl _⟩
    | @step r _ a _ w as htarget hnode hsupply hlink _ ih =>
      obtain ⟨bs, hwalk, hnodup, hbs⟩ := ih
      by_cases ha : a ∈ bs
      · obtain ⟨cs, hcs, hsuffix⟩ := hwalk.enter ha htarget
        exact ⟨cs, hcs, hsuffix.sublist.nodup hnodup,
          fun b hb => List.mem_cons_of_mem a (hbs (hsuffix.subset hb))⟩
      · exact ⟨a :: bs, .step htarget hnode hsupply hlink hwalk,
          List.nodup_cons.mpr ⟨ha, hnodup⟩, List.cons_subset_cons a hbs⟩
  obtain ⟨bs, hwalk, hnodup, -⟩ := hsub
  exact ⟨bs, hwalk, hnodup⟩

theorem search_node {a : κ} {v : ν} (htarget : g.target r = some a) (ha : a ∉ seen)
    (hnode : g.node? a = some v) : g.search seen r = (g.supply v).or
      ((g.links v).findSome? fun s => g.search (a :: seen) s) := by
  rw [search, htarget]
  simp only
  rw [dif_neg ha]
  split
  · rename_i hnone
    rw [hnode] at hnone
    cases hnone
  · rename_i v' hsome
    rw [hnode] at hsome
    cases hsome
    cases g.supply v <;> rfl

theorem search_of_walk (h : g.Walk r as w) (hnodup : as.Nodup) (hnew : ∀ a ∈ as, a ∉ seen)
    (hsupply : (g.supply w).isSome = true) : (g.search seen r).isSome = true := by
  induction h generalizing seen with
  | @here r a v htarget hnode =>
    obtain ⟨b, hb⟩ := Option.isSome_iff_exists.mp hsupply
    rw [search_node htarget (hnew a List.mem_cons_self) hnode, hb]
    rfl
  | @step r s a v w as htarget hnode hnone hlink _ ih =>
    rw [List.nodup_cons] at hnodup
    have hrest : (g.search (a :: seen) s).isSome = true := by
      refine ih hnodup.2 (fun b hb => ?_) hsupply
      rw [List.mem_cons, not_or]
      exact ⟨fun heq => hnodup.1 (heq ▸ hb), hnew b (List.mem_cons_of_mem a hb)⟩
    rw [search_node htarget (hnew a List.mem_cons_self) hnode, hnone, Option.none_or,
      List.findSome?_isSome_iff]
    exact ⟨s, hlink, hrest⟩

theorem leads_of_search {b : β} (h : g.search seen r = some b) :
    ∃ v, g.Leads r v ∧ g.supply v = some b := by
  induction seen, r using search.induct (g := g) with
  | case1 seen r htarget =>
    rw [search, htarget] at h
    cases h
  | case2 seen r a htarget ha =>
    rw [search, htarget] at h
    simp only [dif_pos ha] at h
    cases h
  | case3 seen r a htarget ha hnode =>
    rw [search, htarget] at h
    simp only [dif_neg ha] at h
    split at h
    · cases h
    · rename_i v hsome
      rw [hnode] at hsome
      cases hsome
  | case4 seen r a htarget ha v hnode b' hsupply =>
    rw [search_node htarget ha hnode, hsupply] at h
    cases h
    exact ⟨v, .here htarget hnode, hsupply⟩
  | case5 seen r a htarget ha v hnode hnone ih =>
    rw [search_node htarget ha hnode, hnone, Option.none_or] at h
    obtain ⟨s, hlink, hs⟩ := List.exists_of_findSome?_eq_some h
    obtain ⟨w, hleads, hw⟩ := ih s hs
    exact ⟨w, .step htarget hnode hnone hlink hleads, hw⟩

/-- The search finds a value if and only if it can be reached. -/
theorem search_isSome_iff : (g.search [] r).isSome = true ↔
    ∃ v, g.Leads r v ∧ (g.supply v).isSome = true := by
  constructor
  · intro h
    obtain ⟨b, hb⟩ := Option.isSome_iff_exists.mp h
    obtain ⟨v, hleads, hv⟩ := leads_of_search hb
    exact ⟨v, hleads, by rw [hv]; rfl⟩
  · rintro ⟨v, hleads, hsupply⟩
    obtain ⟨as, hwalk⟩ := hleads.walk
    obtain ⟨bs, hbs, hnodup⟩ := hwalk.exists_nodup
    exact search_of_walk hbs hnodup (fun a _ => List.not_mem_nil) hsupply

end LinkGraph

end Foundation
