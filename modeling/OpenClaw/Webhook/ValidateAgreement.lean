import OpenClaw.Webhook.TraceIndependence

/-!
# When validate and submit agree

Both handlers parse and render a request in the same way. Validate then asks for a workflow that is
an object within the size budget; submit has asked for the types of the fields before, which
validate never does. So they agree on a request exactly if it passes both checks or neither.
-/

namespace OpenClaw.Webhook

open Foundation
set_option autoImplicit false

variable {φ : Type}

/-- What the canonical schema gate adds to a request that parses and renders. -/
structure WellTyped (libs : WebhookLibs φ) (r : JobRequest φ) : Prop where
  version : ∀ x, r.version ≠ .float x
  template : r.templateId ≠ .str []
  profile : ∃ s, r.profileId = .str s
  job : r.jobId = .null ∨ ∃ s, r.jobId = .str s
  callback : r.callback = .null ∨ ∃ fields, r.callback = .obj fields
  inputs : (Json.dumps libs.repr .standard r.inputs).length ≤ maxPayloadSize

/-- What validate asks of a rendered workflow. -/
def Servable (env : WebhookEnv φ) (workflow : Json φ) : Prop :=
  (∃ nodes, workflow = .obj nodes) ∧
    checkRenderSize env.libs.repr env.maxRenderedWorkflowBytes workflow = none

/-! ## Parsing -/

section Parsing
variable {libs : WebhookLibs φ} {d d₁ d₂ : Data φ} {r : JobRequest φ}

theorem mem_keys_iff {k : PyStr} : k ∈ d.map Prod.fst ↔ (under? k d).isSome := by
  simp [under?, List.find?_isSome]

theorem fromDict_ok_iff : JobRequest.fromDict libs d = .ok r ↔
    (∀ k, (under? k d).isSome → k ∈ allowedTopLevel) ∧
      (∀ k ∈ requiredTopLevel, (under? k d).isSome) ∧
      (JobRequest.ofFields d).postInit libs = none ∧ r = JobRequest.ofFields d := by
  have hunknown : ((d.map Prod.fst).filter fun k => k ∉ allowedTopLevel) = [] ↔
      ∀ k, (under? k d).isSome → k ∈ allowedTopLevel := by
    simp only [List.filter_eq_nil_iff, mem_keys_iff, decide_eq_true_eq, not_not]
  have hmissing : (requiredTopLevel.filter fun k => k ∉ d.map Prod.fst) = [] ↔
      ∀ k ∈ requiredTopLevel, (under? k d).isSome := by
    simp only [List.filter_eq_nil_iff, mem_keys_iff, decide_eq_true_eq, not_not]
  rw [← hunknown, ← hmissing]
  unfold JobRequest.fromDict
  dsimp only
  generalize ((d.map Prod.fst).filter fun k => k ∉ allowedTopLevel) = unknown
  generalize (requiredTopLevel.filter fun k => k ∉ d.map Prod.fst) = missing
  split
  · rename_i h₁
    exact ⟨nofun, fun h => absurd h.1 h₁⟩
  · rename_i h₁
    split
    · rename_i h₂
      exact ⟨nofun, fun h => absurd h.2.1 h₂⟩
    · rename_i h₂
      split
      · rename_i e he
        exact ⟨nofun, fun h => absurd (he.symm.trans h.2.2.1) nofun⟩
      · rename_i hnone
        refine ⟨fun h => ?_, fun h => congrArg Except.ok h.2.2.2.symm⟩
        exact ⟨not_not.mp h₁, not_not.mp h₂, hnone, (Except.ok.inj h).symm⟩

theorem postInit_eq_none_iff : r.postInit libs = none ↔
    isOne libs r.version = true ∧
      whenTruthy libs r.jobId (checkLength "job_id" maxIdLength) = none ∧
      whenTruthy libs r.traceId (checkLength "trace_id" maxIdLength) = none ∧
      whenTruthy libs r.traceId checkTrace = none ∧
      checkLength "template_id" maxIdLength r.templateId = none ∧
      checkLength "profile_id" maxIdLength r.profileId = none ∧ checkInputs r.inputs = none := by
  simp [JobRequest.postInit, List.findSome?_eq_none_iff]

theorem len_fresh (u : TraceUuid) : PyStr.len u.text = 32 := by
  have hplain : ∀ v ∈ u.text, v.val < 0xD800 := fun v hv => by
    have := u.hex v hv
    omega
  rw [PyStr.len, PyStr.codePoints_plain hplain, List.length_map, u.length_eq]

theorem traceText_fresh (u : TraceUuid) : traceText u.text = true := by
  have hend : beforeEnd u.text = u.text := by
    refine if_neg fun hlast => ?_
    have := u.hex 10 (List.mem_of_getLast? hlast)
    revert this
    decide
  have hne : u.text ≠ [] := fun hnil => by
    have := u.length_eq
    rw [hnil] at this
    cases this
  have hall : u.text.all traceUnit = true := by
    rw [List.all_eq_true]
    intro v hv
    have := u.hex v hv
    simp only [traceUnit, decide_eq_true_eq]
    omega
  simp [traceText, hend, hne, hall]

theorem traceChecks_fresh (u : TraceUuid) :
    whenTruthy libs (.str u.text) (checkLength "trace_id" maxIdLength) = none ∧
      whenTruthy libs (.str u.text) checkTrace = none := by
  have hlength : checkLength "trace_id" maxIdLength (.str u.text : Json φ) = none := by
    simp [checkLength, Json.len?, len_fresh, maxIdLength]
  have htrace : checkTrace (.str u.text : Json φ) = none := by
    simp [checkTrace, traceText_fresh]
  simp [whenTruthy, hlength, htrace]

theorem postInit_trace {t₁ t₂ : PyStr} (ht : SameOrFresh t₁ t₂) :
    { r with traceId := .str t₁ }.postInit libs = none ↔
      { r with traceId := .str t₂ }.postInit libs = none := by
  rcases ht with rfl | ⟨u₁, u₂, rfl, rfl⟩
  · rfl
  · simp only [postInit_eq_none_iff, traceChecks_fresh]

theorem ofFields_sameBut {t₁ t₂ : PyStr} (hd : SameBut t₁ t₂ d₁ d₂) :
    JobRequest.ofFields d₁ = { JobRequest.ofFields d₂ with traceId := .str t₁ } ∧
      JobRequest.ofFields d₂ = { JobRequest.ofFields d₂ with traceId := .str t₂ } := by
  have hother (key : String) (hkey : PyStr.ofString key ≠ traceKey) :
      field? key d₁ = field? key d₂ := hd.others _ hkey
  have hleft : field? "trace_id" d₁ = some (.str t₁) := hd.left
  have hright : field? "trace_id" d₂ = some (.str t₂) := hd.right
  constructor
  · simp [JobRequest.ofFields, hleft, hother "version" (by decide), hother "template_id" (by decide),
      hother "profile_id" (by decide), hother "inputs" (by decide), hother "job_id" (by decide),
      hother "callback" (by decide)]
  · simp [JobRequest.ofFields, hright]

theorem isSome_sameBut {t₁ t₂ : PyStr} (hd : SameBut t₁ t₂ d₁ d₂) (k : PyStr) :
    (under? k d₁).isSome = (under? k d₂).isSome := by
  by_cases hk : k = traceKey
  · rw [hk, hd.left, hd.right]
    rfl
  · rw [hd.others k hk]

/-- Data that differ in the trace id parse to requests that differ in the trace id. -/
theorem fromDict_rel {t₁ t₂ : PyStr} (ht : SameOrFresh t₁ t₂) (hd : SameBut t₁ t₂ d₁ d₂) :
    ((∃ e, JobRequest.fromDict libs d₁ = .error e) ∧ ∃ e, JobRequest.fromDict libs d₂ = .error e) ∨
      ∃ r₁ r₂, JobRequest.fromDict libs d₁ = .ok r₁ ∧ JobRequest.fromDict libs d₂ = .ok r₂ ∧
        r₂ = { r₁ with traceId := .str t₂ } := by
  obtain ⟨h₁, h₂⟩ := ofFields_sameBut hd
  have hpost : (JobRequest.ofFields d₁).postInit libs = none ↔
      (JobRequest.ofFields d₂).postInit libs = none := by
    rw [h₁, h₂]
    exact postInit_trace ht
  have hiff : JobRequest.fromDict libs d₁ = .ok (JobRequest.ofFields d₁) ↔
      JobRequest.fromDict libs d₂ = .ok (JobRequest.ofFields d₂) := by
    simp only [fromDict_ok_iff, isSome_sameBut hd, hpost, and_true]
  by_cases hok : JobRequest.fromDict libs d₁ = .ok (JobRequest.ofFields d₁)
  · refine .inr ⟨_, _, hok, hiff.mp hok, ?_⟩
    rw [h₁]
    exact h₂
  · have herror {d : Data φ} (hd : JobRequest.fromDict libs d ≠ .ok (JobRequest.ofFields d)) :
        ∃ e, JobRequest.fromDict libs d = .error e := by
      cases hr : JobRequest.fromDict libs d with
      | error e => exact ⟨e, rfl⟩
      | ok r =>
        obtain ⟨-, -, -, rfl⟩ := fromDict_ok_iff.mp hr
        exact absurd hr hd
    exact .inl ⟨herror hok, herror fun h => hok (hiff.mpr h)⟩

end Parsing

/-! ## The canonical gate -/

section Gate
variable {libs : WebhookLibs φ} {d : Data φ} {r : JobRequest φ}

theorem typeError?_eq_none_iff {field : String × CanonicalType} : typeError? d field = none ↔
    ((field? field.1 d).getD .null).isNull = true ∨
      field.2.isInstance ((field? field.1 d).getD .null) = true := by
  unfold typeError?
  cases field? field.1 d with
  | none => simp [Json.isNull]
  | some j =>
    dsimp only [Option.getD_some]
    split
    · rename_i h
      exact ⟨fun _ => h, fun _ => rfl⟩
    · rename_i h
      exact ⟨nofun, fun h' => absurd h' h⟩

theorem canonicalErrors_eq_nil_iff : canonicalErrors libs d = [] ↔
    requiredErrors libs d = [] ∧ (∀ field ∈ canonicalAllowedTypes, typeError? d field = none) ∧
      sizeErrors libs d = [] := by
  simp [canonicalErrors, List.filterMap_eq_nil_iff]

theorem isInstance_str_iff {j : Json φ} :
    j.isNull = true ∨ CanonicalType.str.isInstance j = true ↔ j = .null ∨ ∃ s, j = .str s := by
  cases j <;> simp [Json.isNull, CanonicalType.isInstance]

theorem isInstance_dict_iff {j : Json φ} : j.isNull = true ∨ CanonicalType.dict.isInstance j = true ↔
    j = .null ∨ ∃ fields, j = .obj fields := by
  cases j <;> simp [Json.isNull, CanonicalType.isInstance]

theorem isInstance_int_iff {j : Json φ} (h : isOne libs j = true) :
    j.isNull = true ∨ CanonicalType.int.isInstance j = true ↔ ∀ x, j ≠ .float x := by
  cases j <;> simp_all [Json.isNull, CanonicalType.isInstance, isOne]

theorem requiredErrors_iff {id : PyStr} (hid : (JobRequest.ofFields d).templateId = .str id) :
    requiredErrors libs d = [] ↔ (JobRequest.ofFields d).templateId ≠ .str [] := by
  have hfield : field? "template_id" d = some (.str id) := by
    cases hf : field? "template_id" d with
    | none =>
      rw [JobRequest.ofFields, hf] at hid
      cases hid
    | some j =>
      rw [JobRequest.ofFields, hf] at hid
      exact congrArg some hid
  rw [requiredErrors, hfield, hid]
  by_cases hnil : id = [] <;> simp [Json.truthy, hnil]

theorem inputs_object (h : checkInputs (JobRequest.ofFields d).inputs = none) :
    field? "inputs" d = none ∨ ∃ fields, field? "inputs" d = some (.obj fields) := by
  cases hf : field? "inputs" d with
  | none => exact .inl rfl
  | some j =>
    rw [JobRequest.ofFields, hf] at h
    cases j with
    | obj fields => exact .inr ⟨fields, rfl⟩
    | _ => cases h

theorem sizeErrors_iff (h : checkInputs (JobRequest.ofFields d).inputs = none) :
    sizeErrors libs d = [] ↔
      (Json.dumps libs.repr .standard (JobRequest.ofFields d).inputs).length ≤ maxPayloadSize := by
  rcases inputs_object h with hf | ⟨fields, hf⟩
  · have hempty : (Json.dumps libs.repr .standard (.obj [])).length = 2 := rfl
    simp [sizeErrors, hf, JobRequest.ofFields, hempty, maxPayloadSize]
  · simp only [sizeErrors, hf, JobRequest.ofFields, Option.getD_some]
    split
    · rename_i hlt
      exact ⟨nofun, fun hle => absurd hle (Nat.not_le.mpr hlt)⟩
    · rename_i hlt
      exact ⟨fun _ => Nat.not_lt.mp hlt, fun _ => rfl⟩

/-- A request that parses passes the gate exactly if it is well typed. -/
theorem canonicalErrors_iff {id t : PyStr} (hr : JobRequest.fromDict libs d = .ok r)
    (hid : r.templateId = .str id) (htrace : r.traceId = .str t) :
    canonicalErrors libs d = [] ↔ WellTyped libs r := by
  obtain ⟨-, -, hpost, rfl⟩ := fromDict_ok_iff.mp hr
  obtain ⟨hversion, -, -, -, -, hprofile, hinputs⟩ := postInit_eq_none_iff.mp hpost
  have htemplate : ((field? "template_id" d).getD .null).isNull = true ∨
      CanonicalType.str.isInstance ((field? "template_id" d).getD .null) = true :=
    isInstance_str_iff.mpr (.inr ⟨id, hid⟩)
  have htraceType : ((field? "trace_id" d).getD .null).isNull = true ∨
      CanonicalType.str.isInstance ((field? "trace_id" d).getD .null) = true :=
    isInstance_str_iff.mpr (.inr ⟨t, htrace⟩)
  have hinputsType : ((field? "inputs" d).getD .null).isNull = true ∨
      CanonicalType.dict.isInstance ((field? "inputs" d).getD .null) = true := by
    refine isInstance_dict_iff.mpr ?_
    rcases inputs_object hinputs with hf | ⟨fields, hf⟩
    · exact .inl (by rw [hf]; rfl)
    · exact .inr ⟨fields, by rw [hf]; rfl⟩
  have hprofileNull : (JobRequest.ofFields d).profileId ≠ .null := by
    intro hnull
    rw [hnull] at hprofile
    cases hprofile
  rw [canonicalErrors_eq_nil_iff, requiredErrors_iff hid, sizeErrors_iff hinputs]
  simp only [canonicalAllowedTypes, List.forall_mem_cons, typeError?_eq_none_iff, htemplate,
    htraceType, hinputsType, true_and]
  constructor
  · rintro ⟨hempty, ⟨hprof, hvers, hjob, hcall, -⟩, hsize⟩
    exact {
      version := (isInstance_int_iff hversion).mp hvers
      template := hempty
      profile := (isInstance_str_iff.mp hprof).resolve_left hprofileNull
      job := isInstance_str_iff.mp hjob
      callback := isInstance_dict_iff.mp hcall
      inputs := hsize }
  · intro h
    exact ⟨h.template, ⟨isInstance_str_iff.mpr (.inr h.profile),
      (isInstance_int_iff hversion).mpr h.version, isInstance_str_iff.mpr h.job,
      isInstance_dict_iff.mpr h.callback, nofun⟩, h.inputs⟩

end Gate

/-! ## The handlers -/

section Handlers
variable {env : WebhookEnv φ} {headers : String → Option String} {fresh : TraceUuid}
  {body w : Json φ} {d d₁ d₂ : Data φ} {r : JobRequest φ}

/-- The body parses to this request, and its template renders to this workflow. -/
def Renders (env : WebhookEnv φ) (headers : String → Option String) (fresh : TraceUuid)
    (body : Json φ) (r : JobRequest φ) (w : Json φ) : Prop :=
  ∃ t d d', normalizeBody env headers fresh body = .ok (t, d) ∧ mapData env headers d = .ok d' ∧
    renderRequest env d' = .ok (r, w)

theorem renderRequest_ok (h : renderRequest env d = .ok (r, w)) :
    JobRequest.fromDict env.libs d = .ok r ∧ ∃ id, r.templateId = .str id := by
  unfold renderRequest at h
  split at h
  · cases h
  · rename_i r' hr'
    dsimp only at h
    split at h
    · cases h
    · rename_i w' hw'
      cases h
      refine ⟨hr', ?_⟩
      cases hid : r.templateId with
      | str id => exact ⟨id, rfl⟩
      | _ =>
        rw [hid] at hw'
        cases hw'

theorem renderRequest_rel {t₁ t₂ : PyStr} (ht : SameOrFresh t₁ t₂) (hd : SameBut t₁ t₂ d₁ d₂) :
    ((∃ e, renderRequest env d₁ = .error e) ∧ ∃ e, renderRequest env d₂ = .error e) ∨
      ∃ r w, renderRequest env d₁ = .ok (r, w) ∧
        renderRequest env d₂ = .ok ({ r with traceId := .str t₂ }, w) := by
  unfold renderRequest
  rcases fromDict_rel ht hd with ⟨⟨e₁, h₁⟩, e₂, h₂⟩ | ⟨r₁, r₂, h₁, h₂, rfl⟩
  · rw [h₁, h₂]
    exact .inl ⟨⟨_, rfl⟩, _, rfl⟩
  · rw [h₁, h₂]
    dsimp only
    generalize env.templates.renderTemplate r₁.templateId _ = t
    cases t with
    | error e => exact .inl ⟨⟨_, rfl⟩, _, rfl⟩
    | ok w => exact .inr ⟨r₁, w, rfl, rfl⟩

theorem fromDict_no_template {libs : WebhookLibs φ} (h : field? "template_id" d = none) :
    JobRequest.fromDict libs d ≠ .ok r := by
  intro hr
  obtain ⟨-, hrequired, -⟩ := fromDict_ok_iff.mp hr
  have := hrequired (PyStr.ofString "template_id") (by decide)
  rw [show under? (PyStr.ofString "template_id") d = none from h] at this
  cases this

theorem validate_isOk {d' : Data φ} {t : PyStr}
    (hn : normalizeBody env headers fresh body = .ok (t, d)) (hm : mapData env headers d = .ok d') :
    (validateHandler env headers fresh body).isOk = true ↔
      ∃ r w, renderRequest env d' = .ok (r, w) ∧ Servable env w := by
  simp only [validateHandler, hn, hm]
  cases renderRequest env d' with
  | error e => simp [Except.isOk, Except.toBool]
  | ok rendered =>
    obtain ⟨r, w⟩ := rendered
    constructor
    · intro h
      refine ⟨r, w, rfl, ?_⟩
      cases w with
      | obj nodes =>
        refine ⟨⟨nodes, rfl⟩, ?_⟩
        cases hfit : checkRenderSize env.libs.repr env.maxRenderedWorkflowBytes (.obj nodes) with
        | none => rfl
        | some e =>
          dsimp only at h
          rw [hfit] at h
          cases h
      | _ => cases h
    · rintro ⟨r', w', heq, ⟨nodes, rfl⟩, hfit⟩
      cases heq
      dsimp only
      rw [hfit]
      rfl

/-- The data that submit checks. -/
def submitted (env : WebhookEnv φ) (headers : String → Option String) (t : PyStr) (d : Data φ) :
    Data φ :=
  if (resolveProfile env.libs.toBuiltins headers).isSome ∧ (field? "trace_id" d).isNone then
    setTraceId t d
  else d

theorem submit_isOk {d' : Data φ} {t : PyStr}
    (hn : normalizeBody env headers fresh body = .ok (t, d)) (hm : mapData env headers d = .ok d') :
    (submitHandler env headers fresh body).isOk = true ↔
      canonicalErrors env.libs (submitted env headers t d') = [] ∧
        ∃ r w, renderRequest env (submitted env headers t d') = .ok (r, w) := by
  simp only [submitHandler, hn, hm]
  rw [← submitted]
  cases canonicalErrors env.libs (submitted env headers t d') with
  | cons e es => simp [Except.isOk, Except.toBool]
  | nil =>
    cases renderRequest env (submitted env headers t d') with
    | error e => simp [Except.isOk, Except.toBool]
    | ok rendered => exact ⟨fun _ => ⟨rfl, rendered.1, rendered.2, rfl⟩, fun _ => rfl⟩

theorem submitted_of_trace {t t' : PyStr} (h : under? traceKey d = some (.str t')) :
    submitted env headers t d = d := by
  refine if_neg fun hnone => ?_
  rw [show field? "trace_id" d = some (.str t') from h] at hnone
  exact absurd hnone.2 nofun

theorem template_submitted {t : PyStr} (h : field? "template_id" d = none) :
    field? "template_id" (submitted env headers t d) = none := by
  unfold submitted
  split
  · rw [field?, setTraceId, under?_replaceRow, if_neg (by decide)]
    exact h
  · exact h

theorem wellTyped_trace {libs : WebhookLibs φ} (t : PyStr) :
    WellTyped libs { r with traceId := .str t } ↔ WellTyped libs r :=
  ⟨fun h => ⟨h.version, h.template, h.profile, h.job, h.callback, h.inputs⟩,
    fun h => ⟨h.version, h.template, h.profile, h.job, h.callback, h.inputs⟩⟩

/-! A body that cannot be normalized or mapped is refused by both handlers and renders nothing. -/

theorem validate_not_normalized {e : Refusal} (hn : normalizeBody env headers fresh body = .error e) :
    ¬ (validateHandler env headers fresh body).isOk = true := by
  rw [show validateHandler env headers fresh body = .error e by simp only [validateHandler, hn]]
  nofun

theorem submit_not_normalized {e : Refusal} (hn : normalizeBody env headers fresh body = .error e) :
    ¬ (submitHandler env headers fresh body).isOk = true := by
  rw [show submitHandler env headers fresh body = .error e by simp only [submitHandler, hn]]
  nofun

theorem validate_not_mapped {e : Refusal} {t : PyStr}
    (hn : normalizeBody env headers fresh body = .ok (t, d)) (hm : mapData env headers d = .error e) :
    ¬ (validateHandler env headers fresh body).isOk = true := by
  rw [show validateHandler env headers fresh body = .error e by
    simp only [validateHandler, hn, hm]]
  nofun

theorem submit_not_mapped {e : Refusal} {t : PyStr}
    (hn : normalizeBody env headers fresh body = .ok (t, d)) (hm : mapData env headers d = .error e) :
    ¬ (submitHandler env headers fresh body).isOk = true := by
  rw [show submitHandler env headers fresh body = .error e by simp only [submitHandler, hn, hm]]
  nofun

theorem not_renders_of_normalizeBody {e : Refusal}
    (hn : normalizeBody env headers fresh body = .error e) :
    ¬ Renders env headers fresh body r w := by
  rintro ⟨t, d, d', hok, -, -⟩
  rw [hn] at hok
  cases hok

theorem renders_cases {t : PyStr} (hn : normalizeBody env headers fresh body = .ok (t, d))
    (h : Renders env headers fresh body r w) :
    ∃ d', mapData env headers d = .ok d' ∧ renderRequest env d' = .ok (r, w) := by
  obtain ⟨t', d'', d', hok, hm, hr⟩ := h
  rw [hn] at hok
  cases hok
  exact ⟨d', hm, hr⟩

theorem renders_iff {d' : Data φ} {t : PyStr}
    (hn : normalizeBody env headers fresh body = .ok (t, d)) (hm : mapData env headers d = .ok d') :
    Renders env headers fresh body r w ↔ renderRequest env d' = .ok (r, w) := by
  constructor
  · intro h
    obtain ⟨d'', hm', hr⟩ := renders_cases hn h
    rw [hm] at hm'
    cases hm'
    exact hr
  · exact fun hr => ⟨t, d, d', hn, hm, hr⟩

/-! Nor does one whose data have no `template_id` behind the mapping. -/

theorem renderRequest_no_template (h : field? "template_id" d = none) :
    renderRequest env d ≠ .ok (r, w) :=
  fun hr => fromDict_no_template h (renderRequest_ok hr).1

theorem validate_no_template {t : PyStr}
    (hn : normalizeBody env headers fresh body = .ok (t, d))
    (hnone : ∀ d', mapData env headers d = .ok d' → field? "template_id" d' = none) :
    ¬ (validateHandler env headers fresh body).isOk = true := by
  cases hm : mapData env headers d with
  | error e => exact validate_not_mapped hn hm
  | ok d' =>
    rw [validate_isOk hn hm]
    rintro ⟨r, w, hr, -⟩
    exact renderRequest_no_template (hnone d' hm) hr

theorem submit_no_template {t : PyStr}
    (hn : normalizeBody env headers fresh body = .ok (t, d))
    (hnone : ∀ d', mapData env headers d = .ok d' → field? "template_id" d' = none) :
    ¬ (submitHandler env headers fresh body).isOk = true := by
  cases hm : mapData env headers d with
  | error e => exact submit_not_mapped hn hm
  | ok d' =>
    rw [submit_isOk hn hm]
    rintro ⟨-, r, w, hr⟩
    exact renderRequest_no_template (template_submitted (hnone d' hm)) hr

theorem not_renders_of_no_template {t : PyStr}
    (hn : normalizeBody env headers fresh body = .ok (t, d))
    (hnone : ∀ d', mapData env headers d = .ok d' → field? "template_id" d' = none) :
    ¬ Renders env headers fresh body r w := by
  intro h
  obtain ⟨d', hm, hr⟩ := renders_cases hn h
  exact renderRequest_no_template (hnone d' hm) hr

/-! Mapped data that render are served if the workflow is, and submitted if they are well typed. -/

theorem validate_rendered {d' : Data φ} {t : PyStr}
    (hn : normalizeBody env headers fresh body = .ok (t, d)) (hm : mapData env headers d = .ok d')
    (hr : renderRequest env d' = .ok (r, w)) :
    (validateHandler env headers fresh body).isOk = true ↔ Servable env w := by
  rw [validate_isOk hn hm, hr]
  constructor
  · rintro ⟨r', w', h, hs⟩
    cases h
    exact hs
  · exact fun hs => ⟨r, w, rfl, hs⟩

theorem submit_rendered {d' : Data φ} {t t' : PyStr}
    (hn : normalizeBody env headers fresh body = .ok (t, d)) (hm : mapData env headers d = .ok d')
    (ht : under? traceKey d' = some (.str t'))
    (hr : renderRequest env d' = .ok ({ r with traceId := .str t' }, w)) :
    (submitHandler env headers fresh body).isOk = true ↔ WellTyped env.libs r := by
  obtain ⟨hparsed, id, hid⟩ := renderRequest_ok hr
  have hgate : canonicalErrors env.libs d' = [] ↔ WellTyped env.libs r :=
    (canonicalErrors_iff hparsed hid rfl).trans (wellTyped_trace t')
  rw [submit_isOk hn hm, submitted_of_trace ht, hr, hgate]
  exact ⟨fun h => h.1, fun h => ⟨h, _, _, rfl⟩⟩

end Handlers

theorem agrees_of_refused {env : WebhookEnv φ} {headers : String → Option String}
    {u₁ u₂ : TraceUuid} {body : Json φ}
    (hv : ¬ (validateHandler env headers u₁ body).isOk = true)
    (hs : ¬ (submitHandler env headers u₂ body).isOk = true)
    (hr : ∀ r w, ¬ Renders env headers u₁ body r w) :
    ((validateHandler env headers u₁ body).isOk = true ↔
        (submitHandler env headers u₂ body).isOk = true) ↔
      ∀ r w, Renders env headers u₁ body r w → (WellTyped env.libs r ↔ Servable env w) :=
  ⟨fun _ r w h => absurd h (hr r w), fun _ => iff_of_false hv hs⟩

/-- Validate and submit agree on a body exactly if a request that parses and renders is well typed
just when its workflow can be served. -/
theorem validate_agrees_iff (env : WebhookEnv φ) (headers : String → Option String)
    (u₁ u₂ : TraceUuid) (body : Json φ) :
    ((validateHandler env headers u₁ body).isOk = true ↔
        (submitHandler env headers u₂ body).isOk = true) ↔
      ∀ r w, Renders env headers u₁ body r w → (WellTyped env.libs r ↔ Servable env w) := by
  -- the two handlers differ in the generated trace id only, up to the checks
  rcases normalizeBody_rel env headers u₁ u₂ body with
    ⟨e, h₁, h₂⟩ | ⟨t₁, t₂, d₁, d₂, h₁, h₂, ht, hd⟩
  · exact agrees_of_refused (validate_not_normalized h₁) (submit_not_normalized h₂)
      fun r w => not_renders_of_normalizeBody h₁
  rcases mapData_rel env headers hd with ⟨e, hm₁, hm₂⟩ | ⟨d₁', d₂', hm₁, hm₂, hd'⟩ | hnone
  · refine agrees_of_refused (validate_not_mapped h₁ hm₁) (submit_not_mapped h₂ hm₂) ?_
    intro r w h
    obtain ⟨d', hm, -⟩ := renders_cases h₁ h
    rw [hm₁] at hm
    cases hm
  · rcases renderRequest_rel ht hd' with ⟨⟨e₁, hr₁⟩, e₂, hr₂⟩ | ⟨r, w, hr₁, hr₂⟩
    · refine agrees_of_refused ?_ ?_ ?_
      · rw [validate_isOk h₁ hm₁, hr₁]
        rintro ⟨r, w, h, -⟩
        cases h
      · rw [submit_isOk h₂ hm₂, submitted_of_trace hd'.right, hr₂]
        rintro ⟨-, r, w, h⟩
        cases h
      · intro r w h
        rw [renders_iff h₁ hm₁, hr₁] at h
        cases h
    · rw [validate_rendered h₁ hm₁ hr₁, submit_rendered h₂ hm₂ hd'.right hr₂]
      constructor
      · intro h r' w' h'
        rw [renders_iff h₁ hm₁, hr₁] at h'
        cases h'
        exact h.symm
      · exact fun h => (h r w ((renders_iff h₁ hm₁).mpr hr₁)).symm
  · exact agrees_of_refused (validate_no_template h₁ fun d' => hnone d₁ d')
      (submit_no_template h₂ fun d' => hnone d₂ d')
      fun r w => not_renders_of_no_template h₁ fun d' => hnone d₁ d'

/-! ## A callback that is no object -/

def demoEnv : WebhookEnv Unit where
  libs := { demoBuiltins with
    floatIsOne := fun _ => true
    repr := fun _ => ['1', '.', '0'] }
  templates := {
    isTemplateFile := fun path => path = PyStr.ofString "t.json"
    readJson := fun _ => some (.obj []) }
  maxRenderedWorkflowBytes := 1000

def demoUuid : TraceUuid where
  text := List.replicate 32 48
  length_eq := rfl
  hex := fun u hu => by
    rw [List.eq_of_mem_replicate hu]
    decide

def demoBody : Json Unit :=
  .obj [(PyStr.ofString "version", .int 1), (PyStr.ofString "template_id", text "t"),
    (PyStr.ofString "profile_id", text "p"),
    (PyStr.ofString "callback", text "https://example.test/hook")]

theorem callback_text_disagrees :
    ¬ ((validateHandler demoEnv (fun _ => none) demoUuid demoBody).isOk = true ↔
      (submitHandler demoEnv (fun _ => none) demoUuid demoBody).isOk = true) := by
  decide +kernel

end OpenClaw.Webhook
