import OpenClaw.Webhook.ContentChecks

/-!
# Requests that differ in their trace id

Validate and submit draw different trace ids for one body. Their data then agree at every other key,
and a built-in profile keeps it so.
-/

namespace OpenClaw.Webhook

open Foundation
set_option autoImplicit false

variable {φ : Type}

/-- The same data under every other key, and one trace id each. -/
structure SameBut (t₁ t₂ : PyStr) (d₁ d₂ : Data φ) : Prop where
  others : ∀ k, k ≠ traceKey → under? k d₁ = under? k d₂
  left : under? traceKey d₁ = some (.str t₁)
  right : under? traceKey d₂ = some (.str t₂)

/-- The ids are the same one, or both were generated. -/
def SameOrFresh (t₁ t₂ : PyStr) : Prop :=
  t₁ = t₂ ∨ ∃ u₁ u₂ : TraceUuid, t₁ = u₁.text ∧ t₂ = u₂.text

theorem sameBut_setTraceId (t₁ t₂ : PyStr) (d : Data φ) :
    SameBut t₁ t₂ (setTraceId t₁ d) (setTraceId t₂ d) where
  others := fun k hk => by
    rw [setTraceId, setTraceId, under?_replaceRow, under?_replaceRow, if_neg (Ne.symm hk),
      if_neg (Ne.symm hk)]
  left := by
    rw [setTraceId, under?_replaceRow]
    exact if_pos rfl
  right := by
    rw [setTraceId, under?_replaceRow]
    exact if_pos rfl

theorem sameOrFresh_getOrCreate (u₁ u₂ : TraceUuid) (id : PyStr) :
    SameOrFresh (getOrCreateTraceId u₁ id) (getOrCreateTraceId u₂ id) := by
  unfold getOrCreateTraceId
  split
  · exact .inl rfl
  · exact .inr ⟨u₁, u₂, rfl, rfl⟩

/-- Both ids are missing, or they are the same one or both generated. -/
theorem getEffectiveTraceId_rel (libs : WebhookLibs φ) (headers : String → Option String)
    (u₁ u₂ : TraceUuid) (d : Data φ) :
    (getEffectiveTraceId libs headers u₁ d = none ∧ getEffectiveTraceId libs headers u₂ d = none) ∨
      ∃ t₁ t₂, getEffectiveTraceId libs headers u₁ d = some t₁ ∧
        getEffectiveTraceId libs headers u₂ d = some t₂ ∧ SameOrFresh t₁ t₂ := by
  have hbody (j : Json φ) (o₁ o₂ : Option PyStr)
      (h₁ : o₁ = if j.truthy libs.toPyInterpreter then j.str?.map (getOrCreateTraceId u₁)
        else some u₁.text)
      (h₂ : o₂ = if j.truthy libs.toPyInterpreter then j.str?.map (getOrCreateTraceId u₂)
        else some u₂.text) :
      (o₁ = none ∧ o₂ = none) ∨ ∃ t₁ t₂, o₁ = some t₁ ∧ o₂ = some t₂ ∧ SameOrFresh t₁ t₂ := by
    subst h₁ h₂
    split
    · cases j.str? with
      | none => exact .inl ⟨rfl, rfl⟩
      | some s => exact .inr ⟨_, _, rfl, rfl, sameOrFresh_getOrCreate u₁ u₂ s⟩
    · exact .inr ⟨_, _, rfl, rfl, .inr ⟨u₁, u₂, rfl, rfl⟩⟩
  unfold getEffectiveTraceId
  dsimp only
  split
  · exact .inr ⟨_, _, rfl, rfl, sameOrFresh_getOrCreate u₁ u₂ _⟩
  · exact hbody _ _ _ rfl rfl

theorem normalizeBody_rel (env : WebhookEnv φ) (headers : String → Option String)
    (u₁ u₂ : TraceUuid) (body : Json φ) :
    (∃ e, normalizeBody env headers u₁ body = .error e ∧
        normalizeBody env headers u₂ body = .error e) ∨
      ∃ t₁ t₂ d₁ d₂, normalizeBody env headers u₁ body = .ok (t₁, d₁) ∧
        normalizeBody env headers u₂ body = .ok (t₂, d₂) ∧ SameOrFresh t₁ t₂ ∧
        SameBut t₁ t₂ d₁ d₂ := by
  cases body with
  | obj fields =>
    rcases getEffectiveTraceId_rel env.libs headers u₁ u₂ (normalizeAliases (unwrap fields)) with
      ⟨h₁, h₂⟩ | ⟨t₁, t₂, h₁, h₂, ht⟩
    · exact .inl ⟨.raised, by simp only [normalizeBody, h₁], by simp only [normalizeBody, h₂]⟩
    · refine .inr ⟨t₁, t₂, setTraceId t₁ (normalizeAliases (unwrap fields)),
        setTraceId t₂ (normalizeAliases (unwrap fields)), ?_, ?_, ht, sameBut_setTraceId t₁ t₂ _⟩
      · simp only [normalizeBody, h₁]
      · simp only [normalizeBody, h₂]
  | _ => exact .inl ⟨.raised, rfl, rfl⟩

/-! ## Rules that copy a field -/

/-- The rule reads the field of one name and writes it under this name. -/
structure Copies (fm : FieldMapping φ) : Prop where
  source : splitSource fm.sourcePath = [fm.sourcePath]
  plain : indexDigits? fm.sourcePath = none
  nonempty : fm.sourcePath ≠ []
  target : targetRoot fm.targetPath = fm.sourcePath
  trace : fm.sourcePath = traceKey → fm.coercion = .string

theorem Copies.resolve {fm : FieldMapping φ} (h : Copies fm) (d : Data φ) :
    resolveTree (splitSource fm.sourcePath) (.obj d) = .ok (under? fm.sourcePath d) := by
  rw [h.source, resolveTree, if_neg h.nonempty, h.plain]
  dsimp only [memberOf?]
  cases under? fm.sourcePath d <;> rfl

/-- What `SameBut` says of a result that may have no trace id yet. -/
structure SameSoFar (t₁ t₂ : PyStr) (present : Prop) (fs₁ fs₂ : Data φ) : Prop where
  others : ∀ k, k ≠ traceKey → under? k fs₁ = under? k fs₂
  trace : present → under? traceKey fs₁ = some (.str t₁) ∧ under? traceKey fs₂ = some (.str t₂)

section Rules
variable (py : Builtins φ) (allowed : List (PyStr × PyStr)) (profileId : PyStr)
  {t₁ t₂ : PyStr} {d₁ d₂ : Data φ}

theorem SameSoFar.replace {present : Prop} {fs₁ fs₂ : Data φ}
    (h : SameSoFar t₁ t₂ present fs₁ fs₂) {k : PyStr} (hk : k ≠ traceKey) (j : Json φ) :
    SameSoFar t₁ t₂ present (replaceRow Prod.fst (k, j) fs₁) (replaceRow Prod.fst (k, j) fs₂) where
  others := fun k' hk' => by
    rw [under?_replaceRow, under?_replaceRow, h.others k' hk']
  trace := fun hp => by
    rw [under?_replaceRow, under?_replaceRow, if_neg hk, if_neg hk]
    exact h.trace hp

theorem SameSoFar.setTrace {present : Prop} {fs₁ fs₂ : Data φ}
    (h : SameSoFar t₁ t₂ present fs₁ fs₂) :
    SameSoFar t₁ t₂ True (replaceRow Prod.fst (traceKey, .str t₁) fs₁)
      (replaceRow Prod.fst (traceKey, .str t₂) fs₂) where
  others := fun k hk => by
    rw [under?_replaceRow, under?_replaceRow, if_neg (Ne.symm hk), if_neg (Ne.symm hk)]
    exact h.others k hk
  trace := fun _ => by
    rw [under?_replaceRow, under?_replaceRow, if_pos rfl, if_pos rfl]
    exact ⟨rfl, rfl⟩

theorem SameSoFar.weaken {present present' : Prop} {fs₁ fs₂ : Data φ}
    (h : SameSoFar t₁ t₂ present fs₁ fs₂) (hp : present' → present) :
    SameSoFar t₁ t₂ present' fs₁ fs₂ := ⟨h.others, fun h' => h.trace (hp h')⟩

theorem treeField_rel {fm : FieldMapping φ} (hfm : Copies fm) (hd : SameBut t₁ t₂ d₁ d₂)
    {present : Prop} {s₁ s₂ : Data φ × List PyStr} (hs : SameSoFar t₁ t₂ present s₁.1 s₂.1) :
    (∃ e, treeField py allowed profileId (.obj d₁) s₁ fm = .error e ∧
        treeField py allowed profileId (.obj d₂) s₂ fm = .error e) ∨
      ∃ r₁ r₂, treeField py allowed profileId (.obj d₁) s₁ fm = .ok r₁ ∧
        treeField py allowed profileId (.obj d₂) s₂ fm = .ok r₂ ∧
        SameSoFar t₁ t₂ (present ∨ fm.sourcePath = traceKey) r₁.1 r₂.1 := by
  unfold treeField
  rw [hfm.resolve, hfm.resolve, hfm.target]
  split
  · exact .inl ⟨_, rfl, rfl⟩
  by_cases hk : fm.sourcePath = traceKey
  · rw [hk, hd.left, hd.right, hfm.trace hk]
    exact .inr ⟨_, _, rfl, rfl, hs.setTrace.weaken fun _ => trivial⟩
  · have hpresent : present ∨ fm.sourcePath = traceKey → present := fun h => h.resolve_right hk
    rw [hd.others _ hk]
    cases under? fm.sourcePath d₂ with
    | none =>
      dsimp only
      split
      · exact .inl ⟨_, rfl, rfl⟩
      · split
        · exact .inr ⟨_, _, rfl, rfl, hs.weaken hpresent⟩
        · exact .inr ⟨_, _, rfl, rfl, (hs.replace hk _).weaken hpresent⟩
    | some j =>
      dsimp only
      split
      · exact .inl ⟨_, rfl, rfl⟩
      · exact .inl ⟨_, rfl, rfl⟩
      · exact .inr ⟨_, _, rfl, rfl, (hs.replace hk _).weaken hpresent⟩

theorem treeFields_rel {fms : List (FieldMapping φ)} (hfms : ∀ fm ∈ fms, Copies fm)
    (hd : SameBut t₁ t₂ d₁ d₂) {present : Prop} {s₁ s₂ : Data φ × List PyStr}
    (hs : SameSoFar t₁ t₂ present s₁.1 s₂.1) :
    (∃ e, treeFields py allowed profileId (.obj d₁) fms s₁ = .error e ∧
        treeFields py allowed profileId (.obj d₂) fms s₂ = .error e) ∨
      ∃ r₁ r₂, treeFields py allowed profileId (.obj d₁) fms s₁ = .ok r₁ ∧
        treeFields py allowed profileId (.obj d₂) fms s₂ = .ok r₂ ∧
        SameSoFar t₁ t₂ (present ∨ ∃ fm ∈ fms, fm.sourcePath = traceKey) r₁.1 r₂.1 := by
  induction fms generalizing present s₁ s₂ with
  | nil => exact .inr ⟨s₁, s₂, rfl, rfl, hs.weaken (by simp)⟩
  | cons fm fms ih =>
    rw [treeFields, treeFields]
    rcases treeField_rel py allowed profileId (hfms fm List.mem_cons_self) hd hs with ⟨e, h₁, h₂⟩ | ⟨r₁, r₂, h₁, h₂, hr⟩
    · exact .inl ⟨e, by rw [h₁], by rw [h₂]⟩
    · rw [h₁, h₂]
      rcases ih (fun fm hfm => hfms fm (List.mem_cons_of_mem _ hfm)) hr with
        ⟨e, h₁, h₂⟩ | ⟨r₁, r₂, h₁, h₂, hr⟩
      · exact .inl ⟨e, h₁, h₂⟩
      · refine .inr ⟨r₁, r₂, h₁, h₂, hr.weaken ?_⟩
        simp only [List.mem_cons, exists_eq_or_imp]
        tauto

end Rules

/-! ## The built-in profiles -/

theorem copies_field {name : String} {coercion : CoercionType} {default : Json φ} {required : Bool}
    (hsource : splitSource (PyStr.ofString name) = [PyStr.ofString name])
    (hplain : indexDigits? (PyStr.ofString name) = none) (hnonempty : PyStr.ofString name ≠ [])
    (htarget : targetRoot (PyStr.ofString name) = PyStr.ofString name)
    (htrace : name = "trace_id" → coercion = .string) :
    Copies (field name name coercion default required) :=
  ⟨hsource, hplain, hnonempty, htarget, fun h => htrace (PyStr.ofString_inj.mp h)⟩

theorem copies_generic : ∀ fm ∈ (generic : MappingProfile φ).fieldMappings, Copies fm := by
  simp only [generic, List.forall_mem_cons]
  refine ⟨?_, ?_, ?_, ?_, ?_, ?_, nofun⟩ <;>
    exact copies_field (by decide) (by decide) (by decide) (by decide) (by decide)

theorem resolveProfile_mem {py : Builtins φ} {headers : String → Option String}
    {p : MappingProfile φ} (h : resolveProfile py headers = some p) : p ∈ builtinProfiles := by
  unfold resolveProfile at h
  dsimp only at h
  split at h
  · rename_i hp
    cases h
    exact List.mem_of_find?_eq_some hp
  · split at h
    · cases h
    · exact List.mem_of_find?_eq_some h

theorem under?_of_tree? {m : Mapped φ} {d : Data φ} (h : m.tree? = some d) {k : PyStr}
    (hk : m.field? k = none) : under? k d = none := by
  unfold Mapped.tree? at h
  split at h
  · rename_i fs hread
    cases h
    cases hcell : m.heap.cell? (.ref m.root) with
    | none => exact absurd rfl ((Heap.read_scalar hcell hread).2 d)
    | some c =>
      cases c with
      | list vs =>
        obtain ⟨js, hjs, -⟩ := Heap.read_list hcell hread
        cases hjs
      | dict es =>
        obtain ⟨fs', hfs, hentries⟩ := Heap.read_dict hcell hread
        cases hfs
        have hes : m.field? k = under? k es := by
          rw [Mapped.field?, Heap.dict?, hcell]
          rfl
        rcases under?_forall₂ (R := fun _ w j => m.heap.read m.heap.size w = some j) hentries k with
          ⟨-, hnone⟩ | ⟨w, j, hw, -, -⟩
        · exact hnone
        · rw [hes, hw] at hk
          cases hk
  · cases h

theorem no_template {env : WebhookEnv φ} {headers : String → Option String} {p : MappingProfile φ}
    (hp : resolveProfile env.libs.toBuiltins headers = some p)
    (hroots : ∀ fm ∈ p.fieldMappings, targetRoot fm.targetPath ∉ privilegedFields)
    (hdefault : field? "template_id" p.defaults = none) {d d' : Data φ}
    (h : mapData env headers d = .ok d') : field? "template_id" d' = none := by
  unfold mapData at h
  rw [hp] at h
  dsimp only at h
  split at h
  · cases h
  · rename_i m hm
    split at h
    · rename_i fs hfs
      cases h
      have hpriv : PyStr.ofString "template_id" ∈ privilegedFields := by decide
      have hjson :=
        json?_of_applyMapping (fun fm hfm hroot => absurd hroot (hroots fm hfm)) _ hm hpriv
      rw [show under? (PyStr.ofString "template_id") p.defaults = none from hdefault] at hjson
      exact under?_of_tree? hfs (Option.map_eq_none_iff.mp hjson)
    · cases h

theorem flat_generic : ∀ fm ∈ (generic : MappingProfile φ).fieldMappings,
    targetParts fm.targetPath = [targetRoot fm.targetPath] := by
  simp only [generic, List.forall_mem_cons]
  refine ⟨?_, ?_, ?_, ?_, ?_, ?_, nofun⟩ <;> exact by dsimp only [field]; decide

theorem mapData_generic {env : WebhookEnv φ} {headers : String → Option String}
    (hp : resolveProfile env.libs.toBuiltins headers = some generic) (d : Data φ) :
    mapData env headers d =
      match applyTree env.libs.toBuiltins allowedPrivilegedOverrides generic (.obj d) with
      | .error e => .error (.ofMapping e)
      | .ok r => .ok r.1 := by
  have htree := applyMapping_tree env.libs.toBuiltins allowedPrivilegedOverrides flat_generic
    (Object.toJson?_ofJson (.obj d))
  unfold mapData
  rw [hp]
  dsimp only
  generalize applyMapping env.libs.toBuiltins allowedPrivilegedOverrides generic _ _ = r at htree
  generalize applyTree env.libs.toBuiltins allowedPrivilegedOverrides generic _ = t at htree
  match r, t with
  | .error e, .error e' =>
    cases htree
    rfl
  | .error e, .ok t => cases htree
  | .ok m, .error e => cases htree
  | .ok m, .ok t =>
    have hm : m.tree? = some t.1 := by
      simpa [Except.map] using congrArg (Except.map Prod.fst) htree
    dsimp only
    rw [hm]

theorem roots_githubPush : ∀ fm ∈ (githubPush : MappingProfile φ).fieldMappings,
    targetRoot fm.targetPath ∉ privilegedFields := by
  simp only [githubPush, List.forall_mem_cons]
  refine ⟨?_, ?_, ?_, ?_, nofun⟩ <;> exact by dsimp only [field]; decide

theorem roots_discordMessage : ∀ fm ∈ (discordMessage : MappingProfile φ).fieldMappings,
    targetRoot fm.targetPath ∉ privilegedFields := by
  simp only [discordMessage, List.forall_mem_cons]
  refine ⟨?_, ?_, nofun⟩ <;> exact by dsimp only [field]; decide

theorem mapData_rel (env : WebhookEnv φ) (headers : String → Option String) {t₁ t₂ : PyStr}
    {d₁ d₂ : Data φ} (hd : SameBut t₁ t₂ d₁ d₂) :
    (∃ e, mapData env headers d₁ = .error e ∧ mapData env headers d₂ = .error e) ∨
      (∃ d₁' d₂', mapData env headers d₁ = .ok d₁' ∧ mapData env headers d₂ = .ok d₂' ∧
        SameBut t₁ t₂ d₁' d₂') ∨
      ∀ d d', mapData env headers d = .ok d' → field? "template_id" d' = none := by
  cases hp : resolveProfile env.libs.toBuiltins headers with
  | none =>
    exact .inr (.inl ⟨d₁, d₂, by simp only [mapData, hp], by simp only [mapData, hp], hd⟩)
  | some p =>
    have hmem := resolveProfile_mem hp
    simp only [builtinProfiles, List.mem_cons, List.not_mem_nil, or_false] at hmem
    rcases hmem with rfl | rfl | rfl
    · exact .inr (.inr fun d d' h => no_template hp roots_githubPush rfl h)
    · exact .inr (.inr fun d d' h => no_template hp roots_discordMessage rfl h)
    · let start : Data φ × List PyStr := (generic.defaults, [])
      have hstart : SameSoFar t₁ t₂ False start.1 start.1 := ⟨fun _ _ => rfl, False.elim⟩
      rw [mapData_generic hp, mapData_generic hp, applyTree, applyTree]
      rcases treeFields_rel env.libs.toBuiltins allowedPrivilegedOverrides _ copies_generic hd
        hstart with ⟨e, h₁, h₂⟩ | ⟨r₁, r₂, h₁, h₂, hr⟩
      · exact .inl ⟨_, by rw [h₁], by rw [h₂]⟩
      · have htrace := hr.trace (.inr
          ⟨field "trace_id" "trace_id" .string .null false, by simp [generic], rfl⟩)
        exact .inr (.inl ⟨r₁.1, r₂.1, by rw [h₁], by rw [h₂], hr.others, htrace.1, htrace.2⟩)

end OpenClaw.Webhook
