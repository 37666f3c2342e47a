import Mathlib.Order.Monotone.Basic
import Mathlib.Order.Interval.Set.Basic

/-!
# Time-boxed leases

The life of one leased item, independently of who stores it: it waits, is granted to a
holder until an expiry, may be granted again once that expiry has passed, and is closed
for good. A holder proves itself by its token.
-/

namespace Foundation

set_option autoImplicit false

universe u v

inductive Lease (τ : Type u) (θ : Type v) where
  | idle
  | held (token : τ) (expiry : θ)
  | closed (token : Option τ)

inductive LeaseEvent (τ : Type u) (θ : Type v) where
  | quiet
  | grant (token : τ) (now expiry : θ)
  | finish (token : τ)
  | again (token : τ)

variable {τ : Type u} {θ : Type v} [LinearOrder θ]

namespace Lease

/-- The token of the holder the item was last granted to. -/
def token : Lease τ θ → Option τ
  | idle => none
  | held t _ => some t
  | closed t => t

inductive Step : Lease τ θ → LeaseEvent τ θ → Lease τ θ → Prop where
  | stay (l : Lease τ θ) : Step l .quiet l
  | first (t : τ) (now e : θ) : Step idle (.grant t now e) (held t e)
  | regrant {t₀ : τ} {e₀ : θ} (t : τ) {now : θ} (e : θ) :
      e₀ ≤ now → Step (held t₀ e₀) (.grant t now e) (held t e)
  | finish (t : τ) (e : θ) : Step (held t e) (.finish t) (closed (some t))
  | again (t : τ) : Step (closed (some t)) (.again t) (closed (some t))
  | abandon (t : τ) (e : θ) : Step (held t e) .quiet (closed (some t))
  | discard : Step idle .quiet (closed none)

namespace Step
variable {l l' : Lease τ θ} {v : LeaseEvent τ θ} {t : τ} {now e : θ} {o : Option τ}

theorem of_grant (h : Step l (.grant t now e) l') :
    l' = held t e ∧ (l = idle ∨ ∃ t₀ e₀, l = held t₀ e₀ ∧ e₀ ≤ now) := by
  cases h with
  | first => exact ⟨rfl, Or.inl rfl⟩
  | regrant _ _ hle => exact ⟨rfl, Or.inr ⟨_, _, rfl, hle⟩⟩

theorem of_finish (h : Step l (.finish t) l') : (∃ e, l = held t e) ∧ l' = closed (some t) := by
  cases h
  exact ⟨⟨_, rfl⟩, rfl⟩

theorem of_again (h : Step l (.again t) l') : l = closed (some t) ∧ l' = closed (some t) := by
  cases h
  exact ⟨rfl, rfl⟩

theorem from_closed (h : Step (closed o) v l') : l' = closed o := by
  cases h <;> rfl

/-- Without a new grant the holder keeps the item or the item is closed. -/
theorem from_held (h : Step (held t e) v l') (hv : ∀ t' now' e', v ≠ .grant t' now' e') :
    l' = held t e ∨ ∃ o, l' = closed o := by
  cases h with
  | stay => exact Or.inl rfl
  | regrant t' e' _ => exact absurd rfl (hv _ _ _)
  | finish => exact Or.inr ⟨_, rfl⟩
  | abandon => exact Or.inr ⟨_, rfl⟩

/-- Only a grant changes the token on record. -/
theorem token_eq (h : Step l v l') (hv : ∀ t' now' e', v ≠ .grant t' now' e') :
    l'.token = l.token := by
  cases h with
  | first t now e => exact absurd rfl (hv _ _ _)
  | regrant t e _ => exact absurd rfl (hv _ _ _)
  | _ => rfl

end Step

end Lease

/-- The item goes through the states `st lo, …, st hi` under the events `ev lo, …, ev (hi - 1)`. -/
def LeaseTrace (st : ℕ → Lease τ θ) (ev : ℕ → LeaseEvent τ θ) (lo hi : ℕ) : Prop :=
  ∀ k, lo ≤ k → k < hi → Lease.Step (st k) (ev k) (st (k + 1))

namespace LeaseTrace
variable {st : ℕ → Lease τ θ} {ev : ℕ → LeaseEvent τ θ} {lo hi : ℕ}

theorem closed_stays (h : LeaseTrace st ev lo hi) {j : ℕ} (hj : lo ≤ j) {o : Option τ}
    (hc : st j = .closed o) {k : ℕ} (hjk : j ≤ k) (hk : k ≤ hi) : st k = .closed o := by
  induction k, hjk using Nat.le_induction with
  | base => exact hc
  | succ k hjk ih =>
    have hs := h k (Nat.le_trans hj hjk) hk
    rw [ih (Nat.le_of_succ_le hk)] at hs
    exact hs.from_closed

/-- A closed item is granted to nobody. -/
theorem no_grant_closed (h : LeaseTrace st ev lo hi) {j k : ℕ} (hj : lo ≤ j) (hjk : j ≤ k)
    (hk : k < hi) {o : Option τ} (hc : st j = .closed o) (t : τ) (now e : θ) :
    ev k ≠ .grant t now e := by
  intro he
  have hs := h k (Nat.le_trans hj hjk) hk
  rw [h.closed_stays hj hc hjk (Nat.le_of_lt hk), he] at hs
  rcases hs.of_grant.2 with hi | ⟨_, _, hh, _⟩
  · cases hi
  · cases hh

theorem finish_unique (h : LeaseTrace st ev lo hi) {j k : ℕ} (hj : lo ≤ j) (hjk : j < k)
    (hk : k < hi) {t t' : τ} (hf : ev j = .finish t) : ev k ≠ .finish t' := by
  intro he
  have hs := h j hj (Nat.lt_trans hjk hk)
  have hs' := h k (by omega) hk
  rw [hf] at hs
  rw [h.closed_stays (by omega) hs.of_finish.2 hjk (Nat.le_of_lt hk), he] at hs'
  obtain ⟨⟨_, hh⟩, _⟩ := hs'.of_finish
  cases hh

/-- Between a grant and the next one the item stays with its holder or is closed. -/
theorem held_between (h : LeaseTrace st ev lo hi) {j k : ℕ} (hj : lo ≤ j) (hjk : j < k)
    (hk : k ≤ hi) {t : τ} {now e : θ} (hg : ev j = .grant t now e)
    (hno : ∀ m, j < m → m < k → ∀ t' now' e', ev m ≠ .grant t' now' e') :
    st k = .held t e ∨ ∃ o, st k = .closed o := by
  induction k, hjk using Nat.le_induction with
  | base =>
    have hs := h j hj hk
    rw [hg] at hs
    exact Or.inl hs.of_grant.1
  | succ k hjk ih =>
    have hs := h k (by omega) hk
    rcases ih (Nat.le_of_succ_le hk) (fun m h1 h2 => hno m h1 (by omega)) with hh | ⟨o, hc⟩
    · rw [hh] at hs
      exact hs.from_held (hno k hjk (Nat.lt_succ_self k))
    · exact Or.inr ⟨o, h.closed_stays (by omega) hc (Nat.le_succ k) hk⟩

/-- Under a clock that never runs back, a grant is exclusive until its expiry. -/
theorem grants_apart (h : LeaseTrace st ev lo hi) {clock : ℕ → θ} (hmono : Monotone clock)
    (hclock : ∀ k t now e, ev k = .grant t now e → now = clock k)
    {j k : ℕ} (hj : lo ≤ j) (hjk : j < k) (hk : k < hi) {t t' : τ} {now now' e e' : θ}
    (hg : ev j = .grant t now e) (hg' : ev k = .grant t' now' e') : e ≤ now' := by
  induction k using Nat.strong_induction_on generalizing t' now' e' with
  | _ k ih =>
    by_cases hmid : ∃ m t₁ n₁ e₁, j < m ∧ m < k ∧ ev m = .grant t₁ n₁ e₁
    · obtain ⟨m, t₁, n₁, e₁, hjm, hmk, hm⟩ := hmid
      have hle : e ≤ n₁ := ih m hmk hjm (Nat.lt_trans hmk hk) hm
      calc e ≤ n₁ := hle
        _ = clock m := hclock m _ _ _ hm
        _ ≤ clock k := hmono (Nat.le_of_lt hmk)
        _ = now' := (hclock k _ _ _ hg').symm
    · have hno : ∀ m, j < m → m < k → ∀ t₁ n₁ e₁, ev m ≠ .grant t₁ n₁ e₁ :=
        fun m h1 h2 t₁ n₁ e₁ he => hmid ⟨m, t₁, n₁, e₁, h1, h2, he⟩
      have hs := h k (by omega) hk
      rw [hg'] at hs
      rcases h.held_between hj hjk (Nat.le_of_lt hk) hg hno with hh | ⟨o, hc⟩
      · rcases hs.of_grant.2 with hi | ⟨_, _, hh', hle⟩
        · rw [hh] at hi
          cases hi
        · rw [hh] at hh'
          cases hh'
          exact hle
      · exact absurd hg' (h.no_grant_closed (by omega) (Nat.le_refl k) hk hc _ _ _)

/-- The token on record is the one handed out by the most recent grant. -/
theorem last_grant (h : LeaseTrace st ev lo hi) (hstart : (st lo).token = none) {k : ℕ}
    (hlo : lo ≤ k) (hk : k ≤ hi) {t : τ} (ht : (st k).token = some t) :
    ∃ j, lo ≤ j ∧ j < k ∧ (∃ now e, ev j = .grant t now e) ∧
      ∀ m, j < m → m < k → ∀ t' now' e', ev m ≠ .grant t' now' e' := by
  induction k, hlo using Nat.le_induction with
  | base => rw [hstart] at ht; cases ht
  | succ k hlo ih =>
    have hs := h k hlo hk
    by_cases hg : ∃ t₁ now e, ev k = .grant t₁ now e
    · obtain ⟨t₁, now, e, hg⟩ := hg
      rw [hg] at hs
      rw [hs.of_grant.1] at ht
      cases ht
      exact ⟨k, hlo, Nat.lt_succ_self k, ⟨now, e, hg⟩, fun m h1 h2 => by omega⟩
    · have hq : ∀ t' now' e', ev k ≠ .grant t' now' e' := fun t' now' e' he => hg ⟨t', now', e', he⟩
      rw [hs.token_eq hq] at ht
      obtain ⟨j, h1, h2, h3, h4⟩ := ih (Nat.le_of_succ_le hk) ht
      refine ⟨j, h1, by omega, h3, fun m hm hmk => ?_⟩
      by_cases hmk' : m < k
      · exact h4 m hm hmk'
      · have : m = k := by omega
        exact this ▸ hq

/-- Finishing, or finishing again, takes the token of the most recent grant. -/
theorem token_of_finish (h : LeaseTrace st ev lo hi) {k : ℕ} (hlo : lo ≤ k) (hk : k < hi) {t : τ}
    (he : ev k = .finish t ∨ ev k = .again t) : (st k).token = some t := by
  have hs := h k hlo hk
  rcases he with he | he
  · rw [he] at hs
    obtain ⟨⟨e, hh⟩, _⟩ := hs.of_finish
    rw [hh]
    rfl
  · rw [he] at hs
    rw [hs.of_again.1]
    rfl

end LeaseTrace

end Foundation
