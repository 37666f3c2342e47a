import OpenClaw.Outbound.SafeIo

/-!
# What a validated URL has passed

The address that validation returns keeps the policy unless the insecure override is set, its host
is allowed, and every one of its addresses is public or falls under an exception. With a port that
can be read, and a resolver that answers or fails as it should, a refusal is an SSRF error.
-/

namespace OpenClaw.Outbound

open Foundation
set_option autoImplicit false

variable {tables : UnicodeTables} {options : OutboundOptions}

/-! ## The addresses -/

/-- Not private, or under one of the three exceptions. -/
def Passes (tables : UnicodeTables) (options : OutboundOptions) (host ip : CodePoints) : Prop :=
  isPrivateIp ip = false ∨ options.allowInsecureBaseUrl = true ∨
    options.allowScopedPrivateNetwork tables host = true ∨
    options.loopbackException tables host ip = true

theorem nodup_appended {ips : List CodePoints} (h : ips.Nodup) (ip : CodePoints) :
    (appendNew ips ip).Nodup := by
  unfold appendNew
  split
  · exact h
  · rename_i hnew
    rw [← List.concat_eq_append]
    exact h.concat hnew

theorem mem_appended {ips : List CodePoints} {ip x : CodePoints}
    (h : x ∈ appendNew ips ip) : x ∈ ips ∨ x = ip := by
  unfold appendNew at h
  split at h
  · exact .inl h
  · exact (List.mem_append.mp h).imp_right List.mem_singleton.mp

/-- An address that the loop keeps passes, and is an answer. -/
theorem collectIps_ok {host : CodePoints} {answers : List CodePoints} :
    ∀ {resolved ips : List CodePoints},
      collectIps tables options host resolved answers = .ok ips → resolved.Nodup →
      ips.Nodup ∧ ∀ ip ∈ ips, ip ∈ resolved ∨ (ip ∈ answers ∧ Passes tables options host ip) := by
  induction answers with
  | nil =>
    intro resolved ips h hnodup
    cases h
    exact ⟨hnodup, fun _ hip => .inl hip⟩
  | cons answer rest ih =>
    intro resolved ips h hnodup
    have hstep : collectIps tables options host (appendNew resolved answer) rest = .ok ips ∧
        Passes tables options host answer := by
      unfold collectIps at h
      split at h
      · split at h
        · rename_i hloop
          exact ⟨h, .inr (.inr (.inr hloop))⟩
        · cases h
      · rename_i hpass
        refine ⟨h, ?_⟩
        simp only [Bool.and_eq_true, Bool.not_eq_true', not_and_or, Bool.not_eq_true,
          Bool.not_eq_false] at hpass
        exact hpass.imp_right fun h => h.imp_right .inl
    obtain ⟨hrest, hpass⟩ := hstep
    obtain ⟨hnodup', hall⟩ := ih hrest (nodup_appended hnodup answer)
    refine ⟨hnodup', ?_⟩
    intro ip hip
    rcases hall ip hip with hold | ⟨hmem, hip⟩
    · rcases mem_appended hold with hold | rfl
      · exact .inl hold
      · exact .inr ⟨List.mem_cons_self, hpass⟩
    · exact .inr ⟨List.mem_cons_of_mem _ hmem, hip⟩

theorem resolveIps_ok {resolve : Resolver} {host : CodePoints} {port : ℕ} {ips : List CodePoints}
    (h : resolveIps tables options resolve host port = .ok ips) :
    ips ≠ [] ∧ ips.Nodup ∧ ∃ answers, resolve host port = .addresses answers ∧
      ∀ ip ∈ ips, ip ∈ answers ∧ Passes tables options host ip := by
  unfold resolveIps at h
  split at h
  · cases h
  · cases h
  · rename_i answers hanswers
    split at h
    · cases h
    · cases h
    · rename_i ip rest hcollect
      cases h
      obtain ⟨hnodup, hall⟩ := collectIps_ok hcollect List.nodup_nil
      refine ⟨List.cons_ne_nil _ _, hnodup, answers, hanswers, ?_⟩
      intro x hx
      exact (hall x hx).resolve_left List.not_mem_nil

theorem resolveIps_error {resolve : Resolver} {host : CodePoints} {port : ℕ} {e : OutboundError}
    (h : resolveIps tables options resolve host port = .error e) :
    (∃ s, e = .ssrf s) ∨ resolve host port = .raised := by
  unfold resolveIps at h
  split at h
  · cases h
    exact .inl ⟨_, rfl⟩
  · rename_i hraised
    exact .inr hraised
  · split at h
    · cases h
      exact .inl ⟨_, rfl⟩
    · cases h
      exact .inl ⟨_, rfl⟩
    · cases h

/-! ## The host and the policy -/

theorem policyDenies_none {scheme : CodePoints} {port : ℕ}
    (h : policyDenies options scheme port = none) (hsecure : options.allowInsecureBaseUrl = false) :
    ∀ policy ∈ options.policy, scheme ∈ policy.allowedSchemes ∧ port ∈ policy.allowedPorts := by
  intro policy hpolicy
  rw [policyDenies, hsecure, if_neg (by decide), hpolicy, Option.bind_some,
    OutboundPolicy.validate] at h
  split at h
  · cases h
  · rename_i hscheme
    split at h
    · cases h
    · rename_i hport
      exact ⟨not_not.mp hscheme, not_not.mp hport⟩

theorem checkHost_none {host : CodePoints} (h : checkHost tables options host = none)
    (hsecure : options.allowInsecureBaseUrl = false) (hpublic : options.allowAnyPublicHost = false) :
    ∃ hosts ∈ options.allowHosts,
      normalizeHost tables host ∈ hosts.map (normalizeHost tables) := by
  have hallow : checkAllowlist tables options host = none := by
    unfold checkHost at h
    split at h
    · cases h
    · split at h
      · cases h
      · assumption
  rw [checkAllowlist, hsecure, hpublic, if_neg (by decide)] at hallow
  split at hallow
  · cases hallow
  · rename_i hsome
    split at hallow
    · rename_i hmem
      cases hhosts : options.allowHosts with
      | none => simp [hhosts] at hsome
      | some hosts =>
        refine ⟨hosts, rfl, ?_⟩
        rw [OutboundOptions.normalizedAllowlist, hhosts] at hmem
        exact hmem
    · cases hallow

/-! ## The whole validation -/

/-- The steps of a validation that returns. -/
theorem validate_ok {resolve : Resolver} {url : CodePoints} {v : Validated}
    (h : validateOutboundUrl tables options resolve url = .ok v) :
    v.scheme ∈ [CodePoints.ofString "http", CodePoints.ofString "https"] ∧
      policyDenies options v.scheme v.port = none ∧ checkHost tables options v.host = none ∧
      resolveIps tables options resolve v.host v.port = .ok v.ips := by
  unfold validateOutboundUrl at h
  split at h
  · cases h
  split at h
  · cases h
  rename_i hscheme
  split at h
  · cases h
  split at h
  · cases h
  split at h
  · cases h
  dsimp only at h
  split at h
  · cases h
  rename_i hpolicy
  split at h
  · cases h
  rename_i hhost
  split at h
  · cases h
  rename_i ips hips
  cases h
  exact ⟨not_not.mp hscheme, hpolicy, hhost, hips⟩

/-- Anything but an SSRF error comes from the port or from the resolver. -/
theorem validate_error {resolve : Resolver} {url : CodePoints} {e : OutboundError}
    (h : validateOutboundUrl tables options resolve url = .error e) :
    (∃ s, e = .ssrf s) ∨
      (∃ parsed reason, urlsplit tables url = some parsed ∧ parsed.port = .error reason) ∨
      ∃ host port, resolve host port = .raised := by
  unfold validateOutboundUrl at h
  split at h
  · cases h
    exact .inl ⟨_, rfl⟩
  rename_i parsed hparsed
  split at h
  · cases h
    exact .inl ⟨_, rfl⟩
  split at h
  · cases h
    exact .inl ⟨_, rfl⟩
  split at h
  · cases h
    exact .inl ⟨_, rfl⟩
  split at h
  · rename_i reason hport
    exact .inr (.inl ⟨parsed, reason, hparsed, hport⟩)
  dsimp only at h
  split at h
  · cases h
    exact .inl ⟨_, rfl⟩
  split at h
  · cases h
    exact .inl ⟨_, rfl⟩
  split at h
  · rename_i e' hips
    cases h
    exact (resolveIps_error hips).imp_right fun hraised => .inr ⟨_, _, hraised⟩
  · cases h

/-- Nothing but an address that can be read and that no range contains is not private. -/
theorem not_blocked_of_public {ip : CodePoints} (h : isPrivateIp ip = false) :
    ∃ address, ipAddress ip = some address ∧
      ∀ net ∈ blockedIpNetworks, net.contains address = false := by
  unfold isPrivateIp at h
  split at h
  · cases h
  · rename_i address haddress
    refine ⟨address, haddress, ?_⟩
    have hranges : address.within blockedIpNetworks = false := (Bool.or_eq_false_iff.mp h).1
    intro net hnet
    exact Bool.eq_false_iff.mpr fun hin =>
      Bool.eq_false_iff.mp hranges (List.any_eq_true.mpr ⟨net, hnet, hin⟩)

/-- What holds of every address that validation returns. -/
structure Sound (tables : UnicodeTables) (options : OutboundOptions) (v : Validated) : Prop where
  scheme : v.scheme = CodePoints.ofString "http" ∨ v.scheme = CodePoints.ofString "https"
  policy : options.allowInsecureBaseUrl = false → ∀ policy ∈ options.policy,
    v.scheme ∈ policy.allowedSchemes ∧ v.port ∈ policy.allowedPorts
  host : options.allowInsecureBaseUrl = false → options.allowAnyPublicHost = false →
    ∃ hosts ∈ options.allowHosts, normalizeHost tables v.host ∈ hosts.map (normalizeHost tables)
  nonempty : v.ips ≠ []
  nodup : v.ips.Nodup
  notBlocked : ∀ ip ∈ v.ips, options.allowInsecureBaseUrl = false →
    options.allowScopedPrivateNetwork tables v.host = false →
    options.loopbackException tables v.host ip = false →
      ∃ address, ipAddress ip = some address ∧
        ∀ net ∈ blockedIpNetworks, net.contains address = false

/-- Where the port can be read, and the resolver answers or fails as it should, only SSRF errors
are raised. -/
theorem validateOutboundUrl_sound (tables : UnicodeTables) (options : OutboundOptions)
    (resolve : Resolver) (url : CodePoints) :
    ((∀ parsed, urlsplit tables url = some parsed → ∃ given, parsed.port = .ok given) →
      (∀ host port, resolve host port ≠ .raised) →
        ∀ e, validateOutboundUrl tables options resolve url = .error e → ∃ s, e = .ssrf s) ∧
    ∀ v, validateOutboundUrl tables options resolve url = .ok v → Sound tables options v := by
  constructor
  · intro hport hresolve e he
    rcases validate_error he with hssrf | ⟨parsed, reason, hparsed, hbad⟩ | ⟨host, port, hraised⟩
    · exact hssrf
    · obtain ⟨given, hgiven⟩ := hport parsed hparsed
      rw [hbad] at hgiven
      cases hgiven
    · exact absurd hraised (hresolve host port)
  · intro v hv
    obtain ⟨hscheme, hpolicy, hhost, hips⟩ := validate_ok hv
    obtain ⟨hne, hnodup, answers, -, hall⟩ := resolveIps_ok hips
    refine ⟨by simpa using hscheme, policyDenies_none hpolicy, checkHost_none hhost, hne, hnodup, ?_⟩
    intro ip hip hsecure hscoped hloop
    apply not_blocked_of_public
    rcases (hall ip hip).2 with hpublic | hover | hscope | hlisted
    · exact hpublic
    · rw [hsecure] at hover
      cases hover
    · rw [hscoped] at hscope
      cases hscope
    · rw [hloop] at hlisted
      cases hlisted

private def plainTables : UnicodeTables := ⟨CodePoints.lower, id, some⟩

/-- With the insecure override the strict policy does not keep port 22 and http out. -/
theorem override_leaves_policy :
    ¬ ∀ (tables : UnicodeTables) (options : OutboundOptions) (resolve : Resolver)
      (url : CodePoints) (v : Validated),
      validateOutboundUrl tables options resolve url = .ok v → ∀ policy ∈ options.policy,
        v.scheme ∈ policy.allowedSchemes ∧ v.port ∈ policy.allowedPorts := by
  intro h
  let options : OutboundOptions :=
    { allowInsecureBaseUrl := true, policy := some strictOutboundPolicy }
  let result := validateOutboundUrl plainTables options
    (fun _ _ => .addresses [CodePoints.ofString "93.184.215.14"])
    (CodePoints.ofString "http://llm.example:22/")
  have hport : result.toOption.map Validated.port = some 22 := by decide +kernel
  obtain ⟨v, hv, hv22⟩ := Option.map_eq_some_iff.mp hport
  have hok : result = .ok v := by
    cases hresult : result with
    | error e => rw [hresult] at hv; cases hv
    | ok w => rw [hresult] at hv; cases hv; rfl
  have hallowed := (h _ _ _ _ v hok strictOutboundPolicy rfl).2
  rw [hv22] at hallowed
  revert hallowed
  decide

end OpenClaw.Outbound
