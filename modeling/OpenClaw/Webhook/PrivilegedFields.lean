import OpenClaw.Webhook.WebhookMapping

/-!
# Mapping leaves the privileged fields alone

The cells under the privileged defaults form a sealed set `S`, and nothing outside it refers into
it but the result itself, under the privileged keys. Rules read and write outside `S`, and write
into the result under other keys only.
-/

namespace OpenClaw.Webhook

open Foundation Heap
set_option autoImplicit false

variable {φ : Type}

section Guard
variable (S : ℕ → Prop) (root : ℕ)

def Free (a : ℕ) : Prop := ¬ S a ∧ a ≠ root

/-- The heap still has the cells of `S` and the privileged entries `es₀` of the result; other
values do not refer to them. -/
structure Guarded (h₀ : Heap φ) (es₀ : List (PyStr × Val φ)) (h : Heap φ) : Prop where
  size_le : h₀.size ≤ h.size
  cells : ∀ a, S a → h.get? a = h₀.get? a
  entries : ∃ es, h.get? root = some (.dict es) ∧
    (∀ k ∈ privilegedFields, under? k es = under? k es₀) ∧
    ∀ e ∈ es, e.1 ∉ privilegedFields → e.2.Within (Free S root)
  closed : h.Sealed (Free S root)

/-- Where a rule may write: outside of `S`, and into the result under an unprivileged key. -/
def Writable (d : ℕ) (k : PyStr) : Prop := Free S root d ∨ d = root ∧ k ∉ privilegedFields

end Guard

section Steps
variable {S : ℕ → Prop} {root : ℕ} {h₀ h h' : Heap φ} {es₀ : List (PyStr × Val φ)}

theorem free_of_le (hS : ∀ a, S a → a < h₀.size) (hroot : root < h₀.size) {a : ℕ}
    (ha : h₀.size ≤ a) : Free S root a :=
  ⟨fun h => absurd (hS a h) (Nat.not_lt.mpr ha), fun h => absurd (h ▸ hroot) (Nat.not_lt.mpr ha)⟩

theorem Guarded.grow (hS : ∀ a, S a → a < h₀.size) (hroot : root < h₀.size)
    (hg : Guarded S root h₀ es₀ h) (hgrow : h.Grows h') (hnew : h'.Sealed (New h h')) :
    Guarded S root h₀ es₀ h' where
  size_le := hg.size_le.trans hgrow.size_le
  cells := fun a ha => by
    rw [hgrow.get? ((hS a ha).trans_le hg.size_le)]
    exact hg.cells a ha
  entries := by
    rw [hgrow.get? (hroot.trans_le hg.size_le)]
    exact hg.entries
  closed := by
    intro a c hc ha
    rcases Nat.lt_or_ge a h.size with hlt | hge
    · rw [hgrow.get? hlt] at hc
      exact hg.closed a c hc ha
    · exact (hnew a c hc ⟨hge, lt_size_of_get? hc⟩).mono fun b hb =>
        free_of_le hS hroot (hg.size_le.trans hb.1)

theorem Guarded.setItem (hSroot : ¬ S root) {d : ℕ} {k : PyStr} {v : Val φ}
    (hg : Guarded S root h₀ es₀ h) (hd : Writable S root d k) (hv : v.Within (Free S root)) :
    Guarded S root h₀ es₀ (h.setItem d k v) where
  size_le := by
    rw [size_setItem]
    exact hg.size_le
  cells := fun a ha => by
    have hda : d ≠ a := by
      rintro rfl
      rcases hd with hd | hd
      · exact hd.1 ha
      · exact hSroot (hd.1 ▸ ha)
    rw [get?_setItem_ne hda]
    exact hg.cells a ha
  entries := by
    obtain ⟨es, hes, hkept, hfree⟩ := hg.entries
    rcases hd with hd | ⟨rfl, hk⟩
    · rw [get?_setItem_ne hd.2]
      exact ⟨es, hes, hkept, hfree⟩
    · refine ⟨_, get?_setItem_self hes k v, fun k' hk' => ?_, fun e he hpriv => ?_⟩
      · have hne : k ≠ k' := fun heq => hk (heq ▸ hk')
        rw [under?_replaceRow, if_neg hne]
        exact hkept k' hk'
      · rcases mem_replaceRow he with rfl | he
        · exact hv
        · exact hfree e he hpriv
  closed := hg.closed.setItem k fun _ => hv

/-- What stands under a key of a free dictionary, or under an unprivileged key of the result, is
free. -/
theorem Guarded.under (hg : Guarded S root h₀ es₀ h) {d : ℕ} {k : PyStr} {v : Val φ}
    (hd : Writable S root d k) (hv : (h.dict? (.ref d)).bind (under? k) = some v) :
    v.Within (Free S root) := by
  obtain ⟨es, hes, hk⟩ := Option.bind_eq_some_iff.mp hv
  have hcell : h.get? d = some (.dict es) := cell?_of_dict? hes
  rcases hd with hd | ⟨rfl, hpriv⟩
  · exact (hg.closed d _ hcell hd).of_under? hk
  · obtain ⟨es', hes', -, hfree⟩ := hg.entries
    rw [hcell] at hes'
    cases hes'
    exact hfree (k, v) (mem_of_under? hk) hpriv

/-- The dictionary below is free, found or new. -/
theorem Guarded.descend (hS : ∀ a, S a → a < h₀.size) (hroot : root < h₀.size) (hSroot : ¬ S root)
    (hg : Guarded S root h₀ es₀ h) {d : ℕ} {k : PyStr} (hd : Writable S root d k) :
    Guarded S root h₀ es₀ (descend h d k).1 ∧ Free S root (descend h d k).2 := by
  have hnew : Guarded S root h₀ es₀ (freshDict h d k).1 ∧ Free S root (freshDict h d k).2 := by
    have hfree : Free S root h.size := free_of_le hS hroot hg.size_le
    have halloc : (h.alloc (.dict [])).1.Sealed (New h (h.alloc (.dict [])).1) :=
      Sealed.alloc (fun _ _ _ ha => absurd ha.2 (Nat.not_lt.mpr ha.1)) nofun
    exact ⟨(hg.grow hS hroot (grows_alloc h _) halloc).setItem hSroot hd hfree, hfree⟩
  unfold Webhook.descend
  split
  · rename_i a ha
    split
    · exact ⟨hg, hg.under hd ha⟩
    · exact hnew
  · exact hnew

theorem Guarded.setParts (hS : ∀ a, S a → a < h₀.size) (hroot : root < h₀.size)
    (hSroot : ¬ S root) {v : Val φ} (hv : v.Within (Free S root)) {k : PyStr} {parts : List PyStr}
    {d : ℕ} (hd : Writable S root d k) (hg : Guarded S root h₀ es₀ h) :
    Guarded S root h₀ es₀ (setParts h d v (k :: parts)) := by
  induction parts generalizing h d k with
  | nil => exact hg.setItem hSroot hd hv
  | cons k' parts ih =>
    obtain ⟨hbelow, hfree⟩ := hg.descend hS hroot hSroot hd
    exact ih (.inl hfree) hbelow

theorem Guarded.setPath (hS : ∀ a, S a → a < h₀.size) (hroot : root < h₀.size) (hSroot : ¬ S root)
    {path : PyStr} {v : Val φ} (hv : v.Within (Free S root))
    (hpath : targetRoot path ∉ privilegedFields) (hg : Guarded S root h₀ es₀ h) :
    Guarded S root h₀ es₀ (setPath h root path v) := by
  unfold Webhook.setPath
  unfold targetRoot at hpath
  cases hparts : targetParts path with
  | nil => exact hg
  | cons k parts =>
    rw [hparts] at hpath
    exact hg.setParts hS hroot hSroot hv (.inr ⟨rfl, hpath⟩)

/-- From a free value a path leads to free values. -/
theorem resolveParts_free {Q : ℕ → Prop} (hs : h.Sealed Q) {parts : List PyStr} {current v : Val φ}
    (hc : current.Within Q) (hv : resolveParts h parts current = .ok (some v)) : v.Within Q := by
  fun_induction resolveParts h parts current with
  | case1 current =>
    cases hv
    exact hc
  | case2 current parts ih => exact ih hc hv
  | case3 => cases hv
  | case4 current part parts hpart digits hdigits hlen w hw ih =>
    obtain ⟨items, hitems, hget⟩ := Option.bind_eq_some_iff.mp hw
    exact ih (hs.cell hc (cell?_of_list? hitems) w (List.mem_of_getElem? hget)) hv
  | case5 => cases hv
  | case6 current part parts hpart hdigits w hw ih =>
    obtain ⟨es, hes, hk⟩ := Option.bind_eq_some_iff.mp hw
    exact ih ((hs.cell hc (cell?_of_dict? hes)).of_under? hk) hv
  | case7 => cases hv

theorem except_map_ok {ε α β : Type} {f : α → β} {x : Except ε α} {b : β} (h : x.map f = .ok b) :
    ∃ a, x = .ok a ∧ b = f a := by
  cases x with
  | error e => cases h
  | ok a =>
    cases h
    exact ⟨a, rfl, rfl⟩

/-- A coercion gives the value itself, one without an address, or a tree of new cells. -/
theorem coerceValue_cases {py : Builtins φ} {v : Val φ} {kind : CoercionType}
    {r : Heap φ × Val φ} (h' : coerceValue py h v kind = .ok r) :
    (r.1 = h ∧ (r.2 = v ∨ ∀ Q, r.2.Within Q)) ∨ ∃ j, r = h.build j := by
  unfold coerceValue at h'
  split at h'
  · cases h'
    exact .inl ⟨rfl, .inr fun _ => trivial⟩
  · cases kind with
    | passthrough =>
      cases h'
      exact .inl ⟨rfl, .inl rfl⟩
    | string | bool =>
      cases h'
      exact .inl ⟨rfl, .inr fun _ => trivial⟩
    | int | float =>
      obtain ⟨i, -, rfl⟩ := except_map_ok h'
      exact .inl ⟨rfl, .inr fun _ => trivial⟩
    | json =>
      dsimp only at h'
      split at h'
      · obtain ⟨j, -, rfl⟩ := except_map_ok h'
        exact .inr ⟨j, rfl⟩
      · cases h'
        exact .inl ⟨rfl, .inl rfl⟩

end Steps

section Mapping
variable {S : ℕ → Prop} {root : ℕ} {h₀ : Heap φ} {es₀ : List (PyStr × Val φ)} {py : Builtins φ}
  {allowed : List (PyStr × PyStr)} {profileId : PyStr} {payload : Val φ}

/-- A rule that gets through writes one value under its target path. -/
theorem applyField_cases {s s' : MapState φ} {fm : FieldMapping φ}
    (h : applyField py allowed profileId payload root s fm = .ok s') :
    (targetRoot fm.targetPath ∈ privilegedFields →
      (profileId, targetRoot fm.targetPath) ∈ allowed) ∧
    (s'.heap = s.heap ∨
      (∃ r, s'.heap = setPath r.1 root fm.targetPath r.2 ∧
        ((∃ v, resolvePath s.heap payload fm.sourcePath = .ok (some v) ∧
            coerceValue py s.heap v fm.coercion = .ok r) ∨
          r = s.heap.build fm.default))) := by
  unfold applyField at h
  split at h
  · cases h
  · rename_i hallowed
    refine ⟨fun hpriv => not_not.mp fun hnot => hallowed ⟨hpriv, hnot⟩, ?_⟩
    split at h
    · cases h
    · split at h
      · cases h
      · split at h
        · cases h
          exact .inl rfl
        · cases h
          exact .inr ⟨_, rfl, .inr rfl⟩
    · rename_i v hv
      split at h
      · cases h
      · cases h
      · rename_i r hr
        cases h
        exact .inr ⟨r, rfl, .inl ⟨v, hv, hr⟩⟩

theorem Guarded.applyField (hS : ∀ a, S a → a < h₀.size) (hroot : root < h₀.size)
    (hSroot : ¬ S root) (hpayload : payload.Within (Free S root)) {s s' : MapState φ}
    {fm : FieldMapping φ}
    (hno : targetRoot fm.targetPath ∈ privilegedFields →
      (profileId, targetRoot fm.targetPath) ∉ allowed)
    (hg : Guarded S root h₀ es₀ s.heap)
    (h : applyField py allowed profileId payload root s fm = .ok s') :
    Guarded S root h₀ es₀ s'.heap := by
  obtain ⟨hallowed, hcases⟩ := applyField_cases h
  have hpath : targetRoot fm.targetPath ∉ privilegedFields := fun hp => hno hp (hallowed hp)
  have hbuilt (j : Json φ) : Guarded S root h₀ es₀ (s.heap.build j).1 ∧
      (s.heap.build j).2.Within (Free S root) := by
    have hb := built_build j s.heap
    exact ⟨hg.grow hS hroot hb.grows hb.closed,
      hb.within.mono fun a ha => free_of_le hS hroot (hg.size_le.trans ha.1)⟩
  rcases hcases with heq | ⟨r, heq, ⟨v, hv, hr⟩ | rfl⟩
  · rwa [heq]
  · rw [heq]
    have hfree : v.Within (Free S root) := resolveParts_free hg.closed hpayload hv
    rcases coerceValue_cases hr with ⟨hheap, hval⟩ | ⟨j, rfl⟩
    · rw [hheap]
      refine hg.setPath hS hroot hSroot ?_ hpath
      rcases hval with hval | hval
      · rwa [hval]
      · exact hval _
    · exact (hbuilt j).1.setPath hS hroot hSroot (hbuilt j).2 hpath
  · rw [heq]
    exact (hbuilt fm.default).1.setPath hS hroot hSroot (hbuilt fm.default).2 hpath

theorem Guarded.applyFields (hS : ∀ a, S a → a < h₀.size) (hroot : root < h₀.size)
    (hSroot : ¬ S root) (hpayload : payload.Within (Free S root)) {fms : List (FieldMapping φ)}
    (hno : ∀ fm ∈ fms, targetRoot fm.targetPath ∈ privilegedFields →
      (profileId, targetRoot fm.targetPath) ∉ allowed)
    {s s' : MapState φ} (hg : Guarded S root h₀ es₀ s.heap)
    (h : applyFields py allowed profileId payload root fms s = .ok s') :
    Guarded S root h₀ es₀ s'.heap := by
  induction fms generalizing s with
  | nil =>
    cases h
    exact hg
  | cons fm fms ih =>
    rw [Webhook.applyFields] at h
    split at h
    · cases h
    · rename_i s₁ hs₁
      have hstep := hg.applyField hS hroot hSroot hpayload (hno fm List.mem_cons_self) hs₁
      exact ih (fun fm hfm => hno fm (List.mem_cons_of_mem _ hfm)) hstep h

end Mapping

/-- The result as `apply_mapping` starts with it: a copy of the defaults. -/
theorem guarded_defaults (o : Object φ) {h : Heap φ} {S : ℕ → Prop} {es : List (PyStr × Val φ)}
    {fs : List (PyStr × Json φ)} (hb : BuiltFields (· ∈ privilegedFields) o.heap h S es fs) :
    Guarded S h.size (h.alloc (.dict es)).1 es (h.alloc (.dict es)).1 where
  size_le := le_rfl
  cells := fun _ _ => rfl
  entries := by
    refine ⟨es, get?_alloc_self h _, fun _ _ => rfl, fun e he hpriv => ?_⟩
    have hwithin := forall₂_left (p := fun e => e.1 ∉ privilegedFields →
      e.2.Within fun a => New o.heap h a ∧ ¬ S a) hb.entries (fun _ _ hef => hef.2.2.1) e he
    exact (hwithin hpriv).mono fun a ha => ⟨ha.2, ha.1.2.ne⟩
  closed := by
    intro a c hc ha
    have hlt : a < h.size := by
      have := lt_size_of_get? hc
      rw [size_alloc] at this
      exact lt_of_le_of_ne (Nat.le_of_lt_succ this) ha.2
    rw [(grows_alloc h _).get? hlt] at hc
    rcases Nat.lt_or_ge a o.heap.size with hold | hnew
    · rw [hb.grows.get? hold] at hc
      refine (o.closed a c hc hold).mono fun b hb' => ⟨fun hS => ?_, ?_⟩
      · exact absurd (hb.new b hS).1 (Nat.not_le.mpr hb')
      · exact (hb'.trans_le hb.grows.size_le).ne
    · exact (hb.rest a c hc ⟨⟨hnew, hlt⟩, ha.1⟩).mono fun b hb' => ⟨hb'.2, hb'.1.2.ne⟩

/-- Behind a mapping the privileged entries of the result are the ones that were built from the
defaults. -/
theorem json?_of_applyMapping {py : Builtins φ} {allowed : List (PyStr × PyStr)}
    {profile : MappingProfile φ}
    (hno : ∀ fm ∈ profile.fieldMappings, targetRoot fm.targetPath ∈ privilegedFields →
      (profile.id, targetRoot fm.targetPath) ∉ allowed)
    (o : Object φ) {m : Mapped φ}
    (h : applyMapping py allowed profile o.heap o.value = .ok m) {k : PyStr}
    (hk : k ∈ privilegedFields) : m.json? k = (under? k profile.defaults).map some := by
  obtain ⟨S, hb⟩ := built_fields (· ∈ privilegedFields) profile.defaults o.heap
  unfold applyMapping at h
  generalize o.heap.buildFields profile.defaults = r at h hb
  obtain ⟨s, hs, rfl⟩ := except_map_ok h
  have hbelow : ∀ a, S a → a < r.1.size := fun a ha => (hb.new a ha).2
  have hle := (grows_alloc r.1 (.dict r.2)).size_le
  have hpayload : o.value.Within (Free S r.1.size) := o.valid.mono fun a ha =>
    ⟨fun hS => absurd (hb.new a hS).1 (Nat.not_le.mpr ha), (ha.trans_le hb.grows.size_le).ne⟩
  have hg := (guarded_defaults o hb).applyFields (fun a ha => (hbelow a ha).trans_le hle)
    (by rw [size_alloc]; exact Nat.lt_succ_self _) (fun hS => lt_irrefl _ (hbelow _ hS)) hpayload
    hno hs
  obtain ⟨es, hes, hkept, -⟩ := hg.entries
  have hfield : (Mapped.mk s.heap r.1.size s.warnings).field? k = under? k r.2 := by
    rw [← hkept k hk, Mapped.field?, dict?, cell?, hes]
    rfl
  rw [Mapped.json?, hfield]
  rcases under?_forall₂ (R := fun k v j => (k ∈ privilegedFields → v.Within S) ∧
      readNew o.heap r.1 v = some j) (hb.entries.imp fun _ _ hef => ⟨hef.1, hef.2.1, hef.2.2.2⟩) k with
    ⟨hnone, hdefault⟩ | ⟨v, j, hv, hdefault, hwithin, hread⟩
  · rw [hnone, hdefault]
    rfl
  · rw [hv, hdefault]
    refine congrArg some (read_frame hb.closed (fun a c ha hc => ?_)
      ((Nat.sub_le _ _).trans (hle.trans hg.size_le))
      (hwithin hk) hread)
    rw [hg.cells a ha, (grows_alloc r.1 _).get? (hbelow a ha)]
    exact hc

def demoBuiltins : Builtins Unit where
  floatTruthy _ := true
  floatStr _ := []
  containerStr _ := []
  lower s := s
  circularStr _ _ := []
  intOfFloat _ := .error .other
  intError _ := []
  floatOfInt _ := .error .other
  floatOfStr _ := .error .other
  loads _ := .error .other

/-- The second rule puts the payload below itself, under the name of a privileged field. -/
def demoProfile : MappingProfile Unit where
  id := PyStr.ofString "demo"
  defaults := [(PyStr.ofString "template_id", .str (PyStr.ofString "t"))]
  fieldMappings := [
    { sourcePath := PyStr.ofString "data", targetPath := PyStr.ofString "inputs" },
    { sourcePath := [], targetPath := PyStr.ofString "inputs.template_id" }]

def demoPayload (id : String) : Object Unit :=
  .ofJson (.obj [(PyStr.ofString "data",
    .obj [(PyStr.ofString "template_id", .str (PyStr.ofString id))])])

end OpenClaw.Webhook
