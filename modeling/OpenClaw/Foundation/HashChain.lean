import Mathlib.Data.List.Forall2
import Mathlib.Data.List.Induction

/-!
# Hash chains

Each link carries the hash of the link before it and its own, which is computed from that one and
an entry. If equal hashes come from equal arguments, the last hash and the number of links
determine all links.
-/

namespace Foundation

set_option autoImplicit false

universe u v
variable {α : Type u} {η : Type v}

structure Link (α : Type u) (η : Type v) where
  prev : η
  entry : α
  hash : η

/-- The hash that a chain ends with; it starts from `p`. -/
def terminal (p : η) (links : List (Link α η)) : η := (links.getLast?.map Link.hash).getD p

theorem terminal_concat (p : η) (links : List (Link α η)) (l : Link α η) :
    terminal p (links ++ [l]) = l.hash := by
  simp [terminal]

section Chain
variable (h : η → α → Option η)

/-- The links form a chain that starts from `p`. -/
def Linked : η → List (Link α η) → Prop
  | _, [] => True
  | p, l :: links => l.prev = p ∧ h l.prev l.entry = some l.hash ∧ Linked l.hash links

variable {h} {p : η}

theorem linked_append {links more : List (Link α η)} :
    Linked h p (links ++ more) ↔ Linked h p links ∧ Linked h (terminal p links) more := by
  induction links generalizing p with
  | nil => simp [Linked, terminal]
  | cons l links ih =>
    have hterm : terminal p (l :: links) = terminal l.hash links := by
      rcases List.eq_nil_or_concat links with rfl | ⟨front, last, rfl⟩
      · rfl
      · rw [List.concat_eq_append, ← List.cons_append, terminal_concat, terminal_concat]
    rw [List.cons_append, Linked, Linked, ih, hterm]
    simp only [and_assoc]

theorem linked_singleton {l : Link α η} :
    Linked h p [l] ↔ l.prev = p ∧ h l.prev l.entry = some l.hash := by
  simp [Linked]

/-- Links that agree, with entries in the relation `same`. -/
structure Link.Agree (same : α → α → Prop) (l l' : Link α η) : Prop where
  prev : l.prev = l'.prev
  entry : same l.entry l'.entry
  hash : l.hash = l'.hash

/-- The last hash and the number of links determine a chain; the induction goes back from the
last link. -/
theorem linked_determined {same : α → α → Prop}
    (hinj : ∀ q q' a a' x, h q a = some x → h q' a' = some x → q = q' ∧ same a a')
    {links links' : List (Link α η)} {p' : η} (hl : Linked h p links) (hl' : Linked h p' links')
    (hterm : links ≠ [] → terminal p links = terminal p' links')
    (hlen : links.length = links'.length) : List.Forall₂ (Link.Agree same) links links' := by
  induction links using List.reverseRecOn generalizing links' with
  | nil =>
    obtain rfl := List.length_eq_zero_iff.mp hlen.symm
    exact .nil
  | append_singleton front l ih =>
    rcases List.eq_nil_or_concat links' with rfl | ⟨front', l', rfl⟩
    · simp at hlen
    rw [List.concat_eq_append] at hl' hterm hlen ⊢
    obtain ⟨hfront, hlast⟩ := linked_append.mp hl
    obtain ⟨hfront', hlast'⟩ := linked_append.mp hl'
    obtain ⟨hprev, hhash⟩ := linked_singleton.mp hlast
    obtain ⟨hprev', hhash'⟩ := linked_singleton.mp hlast'
    have hsame : l.hash = l'.hash := by
      have := hterm (by simp)
      rwa [terminal_concat, terminal_concat] at this
    obtain ⟨hq, hentry⟩ := hinj _ _ _ _ _ hhash (hsame ▸ hhash')
    have hrest := ih hfront hfront' (fun _ => hprev ▸ hprev' ▸ hq) (by simpa using hlen)
    exact List.rel_append hrest (.cons ⟨hq, hentry, hsame⟩ .nil)

end Chain

end Foundation
