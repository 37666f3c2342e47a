import OpenClaw.Outbound.ValidateLaw

/-!
# Opening an outbound response

`_open_outbound_response` of `services/safe_io.py`: each round validates the URL, dials the addresses
of this validation in their order, and follows a redirect up to the limit. The resolver, the network
and the server are parameters and may change from round to round.
-/

namespace OpenClaw.Outbound

open Foundation
set_option autoImplicit false

inductive Dial where
  | connected
  | osError
  | raised

inductive Failure where
  | httpError
  | urlError
  | other
  deriving DecidableEq

/-- What the outside does in one round. -/
structure Hop where
  resolve : Resolver
  /-- an exception before the first address is dialled -/
  early : Option Failure := none
  /-- `self.port`, which the client reads off the request -/
  port : ℕ
  dial : CodePoints → Dial
  /-- status code and `Location` -/
  reply : Except Failure (ℤ × Option CodePoints)

/-- A request that is opened, with the addresses that it dials: it is sent once one connects. -/
structure OutboundRequest where
  url : CodePoints
  method : String
  body : Option (List UInt8)
  dialled : List (CodePoints × ℕ)

structure RedirectState where
  url : CodePoints
  method : String
  body : Option (List UInt8)
  redirectsFollowed : ℕ

/-- What a round raises. -/
inductive Cause where
  | validation (error : OutboundError)
  /-- through the mappers of HTTP and URL errors, or as it is -/
  | failed (failure : Failure)
  /-- `redirect_error_factory(max_redirects)` -/
  | redirectLimit (limit : ℤ)
  /-- `redirect_error_factory(code)` -/
  | noLocation (code : ℤ)
  /-- the `ValueError` of `urljoin` -/
  | badLocation

inductive Outcome where
  | response (code : ℤ) (url : CodePoints) (method : String)
  | raised (cause : Cause)

/-- `connect` of a pinned connection: no address but the pinned ones is dialled. -/
def pinnedConnect (dial : CodePoints → Dial) :
    List CodePoints → List CodePoints × Except Failure Unit
  | [] => ([], .error .urlError)
  | ip :: rest =>
    match dial ip with
    | .connected => ([ip], .ok ())
    | .raised => ([ip], .error .other)
    | .osError => (ip :: (pinnedConnect dial rest).1, (pinnedConnect dial rest).2)

section Loop
variable (tables : UnicodeTables) (urljoin : CodePoints → CodePoints → Option CodePoints)
  (options : OutboundOptions) (maxRedirects : ℤ)

def nextRedirectState (s : RedirectState) (code : ℤ) (location : Option CodePoints) :
    Except Cause (Option RedirectState) :=
  if code ∉ ([301, 302, 303, 307, 308] : List ℤ) then .ok none
  else if ¬(0 < maxRedirects ∧ s.redirectsFollowed < maxRedirects) then
    .error (.redirectLimit maxRedirects)
  else
    match location.filter (· ≠ []) with
    | none => .error (.noLocation code)
    | some newLoc =>
      match urljoin s.url newLoc with
      | none => .error .badLocation
      | some url =>
        if code ∈ ([301, 302, 303] : List ℤ) then
          .ok (some ⟨url, "GET", none, s.redirectsFollowed + 1⟩)
        else .ok (some ⟨url, s.method, s.body, s.redirectsFollowed + 1⟩)

/-- The requests of one round, and how it goes on. -/
def hopStep (hop : Hop) (s : RedirectState) : List OutboundRequest × (Outcome ⊕ RedirectState) :=
  match validateOutboundUrl tables options hop.resolve s.url with
  | .error e => ([], .inl (.raised (.validation e)))
  | .ok v =>
    match hop.early with
    | some failure => ([], .inl (.raised (.failed failure)))
    | none =>
      let (ips, connected) := pinnedConnect hop.dial v.ips
      let request : OutboundRequest :=
        ⟨s.url, s.method, s.body, ips.map fun ip => (ip, hop.port)⟩
      match connected with
      | .error failure => ([request], .inl (.raised (.failed failure)))
      | .ok () =>
        match hop.reply with
        | .error failure => ([request], .inl (.raised (.failed failure)))
        | .ok (code, location) =>
          match nextRedirectState urljoin maxRedirects s code location with
          | .error cause => ([request], .inl (.raised cause))
          | .ok none => ([request], .inl (.response code s.url s.method))
          | .ok (some next) => ([request], .inr next)

/-- The loop from a round on; without fuel it has no outcome. -/
def hopLoop (hops : ℕ → Hop) : ℕ → ℕ → RedirectState → List OutboundRequest × Option Outcome
  | 0, _, _ => ([], none)
  | fuel + 1, round, s =>
    match hopStep tables urljoin options maxRedirects (hops round) s with
    | (requests, .inl outcome) => (requests, some outcome)
    | (requests, .inr next) =>
      let rest := hopLoop hops fuel (round + 1) next
      (requests ++ rest.1, rest.2)

def openOutboundResponse (hops : ℕ → Hop) (method : String) (url : CodePoints)
    (body : Option (List UInt8)) (fuel : ℕ) : List OutboundRequest × Option Outcome :=
  hopLoop tables urljoin options maxRedirects hops fuel 0 ⟨url, method, body, 0⟩

end Loop

/-! ## One round -/

/-- The URL passes validation in this round, and only its addresses are dialled. -/
def Pinned (tables : UnicodeTables) (options : OutboundOptions) (hop : Hop)
    (request : OutboundRequest) : Prop :=
  ∃ v, validateOutboundUrl tables options hop.resolve request.url = .ok v ∧
    request.dialled.map Prod.fst <+: v.ips

section Laws
variable {tables : UnicodeTables} {urljoin : CodePoints → CodePoints → Option CodePoints}
  {options : OutboundOptions} {maxRedirects : ℤ}

theorem pinnedConnect_prefix (dial : CodePoints → Dial) (ips : List CodePoints) :
    (pinnedConnect dial ips).1 <+: ips := by
  induction ips with
  | nil => exact List.prefix_refl _
  | cons ip rest ih =>
    unfold pinnedConnect
    cases dial ip with
    | connected => exact ⟨rest, rfl⟩
    | raised => exact ⟨rest, rfl⟩
    | osError => exact List.cons_prefix_cons.mpr ⟨rfl, ih⟩

/-- Only below the limit is there a next state, and it counts one redirect more. -/
theorem nextRedirectState_some {s next : RedirectState} {code : ℤ} {location : Option CodePoints}
    (h : nextRedirectState urljoin maxRedirects s code location = .ok (some next)) :
    s.redirectsFollowed < maxRedirects ∧ next.redirectsFollowed = s.redirectsFollowed + 1 := by
  unfold nextRedirectState at h
  split at h
  · cases h
  split at h
  · cases h
  rename_i hlimit
  split at h
  · cases h
  split at h
  · cases h
  split at h
  · cases h
    exact ⟨(not_not.mp hlimit).2, rfl⟩
  · cases h
    exact ⟨(not_not.mp hlimit).2, rfl⟩

variable (tables urljoin options maxRedirects)

/-- A round that is not the last one sends one request, and its request is pinned. -/
theorem hopStep_cases (hop : Hop) (s : RedirectState) :
    (∃ outcome, hopStep tables urljoin options maxRedirects hop s = ([], .inl outcome)) ∨
    ∃ request, Pinned tables options hop request ∧
      ((∃ outcome,
          hopStep tables urljoin options maxRedirects hop s = ([request], .inl outcome)) ∨
        ∃ next : RedirectState, s.redirectsFollowed < maxRedirects ∧
          next.redirectsFollowed = s.redirectsFollowed + 1 ∧
          hopStep tables urljoin options maxRedirects hop s = ([request], .inr next)) := by
  cases hv : validateOutboundUrl tables options hop.resolve s.url with
  | error e => exact .inl ⟨_, by rw [hopStep, hv]⟩
  | ok v =>
    cases hearly : hop.early with
    | some failure => exact .inl ⟨_, by simp only [hopStep, hv, hearly]; rfl⟩
    | none =>
      have hpinned := pinnedConnect_prefix hop.dial v.ips
      cases hconnect : pinnedConnect hop.dial v.ips with | mk ips connected
      rw [hconnect] at hpinned
      right
      refine ⟨⟨s.url, s.method, s.body, ips.map fun ip => (ip, hop.port)⟩, ⟨v, hv, ?_⟩, ?_⟩
      · simpa [Function.comp_def] using hpinned
      simp only [hopStep, hv, hearly, hconnect]
      cases connected with
      | error failure => exact .inl ⟨_, rfl⟩
      | ok _ =>
        cases hop.reply with
        | error failure => exact .inl ⟨_, rfl⟩
        | ok answer =>
          obtain ⟨code, location⟩ := answer
          cases hnext : nextRedirectState urljoin maxRedirects s code location with
          | error cause => exact .inl ⟨.raised cause, by simp only [hnext]⟩
          | ok next? =>
            cases next? with
            | none => exact .inl ⟨.response code s.url s.method, by simp only [hnext]⟩
            | some next =>
              obtain ⟨hlimit, hcount⟩ := nextRedirectState_some hnext
              exact .inr ⟨next, hlimit, hcount, by simp only [hnext]⟩

/-! ## The whole loop -/

/-- A loop with fuel for the redirects that are left has an outcome. -/
theorem hopLoop_spec (hops : ℕ → Hop) (fuel round : ℕ) (s : RedirectState)
    (hfuel : maxRedirects - s.redirectsFollowed < fuel) (hpos : 0 < fuel) :
    let r := hopLoop tables urljoin options maxRedirects hops fuel round s
    (∃ outcome, r.2 = some outcome) ∧
      (r.1.length : ℤ) ≤ max (maxRedirects - s.redirectsFollowed) 0 + 1 ∧
      ∀ k request, r.1[k]? = some request → Pinned tables options (hops (round + k)) request := by
  induction fuel generalizing round s with
  | zero => cases hpos
  | succ fuel ih =>
    rcases hopStep_cases tables urljoin options maxRedirects (hops round) s with
      ⟨outcome, hstep⟩ | ⟨request, hpinned, ⟨outcome, hstep⟩ | ⟨next, hlimit, hcount, hstep⟩⟩
    · simp only [hopLoop, hstep]
      refine ⟨⟨outcome, rfl⟩, ?_, ?_⟩
      · simp only [List.length_nil]
        omega
      · intro k request hk
        cases hk
    · simp only [hopLoop, hstep]
      refine ⟨⟨outcome, rfl⟩, ?_, ?_⟩
      · simp only [List.length_singleton]
        omega
      · intro k r hk
        cases k with
        | zero =>
          cases hk
          exact hpinned
        | succ k => cases hk
    · simp only [hopLoop, hstep]
      obtain ⟨hends, hlength, hall⟩ := ih (round + 1) next (by omega) (by omega)
      refine ⟨hends, ?_, ?_⟩
      · simp only [List.singleton_append, List.length_cons]
        omega
      · intro k r hk
        cases k with
        | zero =>
          cases hk
          exact hpinned
        | succ k =>
          have hlater := hall k r hk
          rwa [Nat.add_right_comm, Nat.add_assoc] at hlater

end Laws

/-- With fuel for the redirects the call ends; it opens at most one request more than it may follow
redirects, and each one only after its URL has passed in the same round. -/
theorem openOutboundResponse_pinned (tables : UnicodeTables)
    (urljoin : CodePoints → CodePoints → Option CodePoints) (options : OutboundOptions)
    (maxRedirects : ℤ) (hops : ℕ → Hop) (method : String) (url : CodePoints)
    (body : Option (List UInt8)) (spare : ℕ) :
    let r := openOutboundResponse tables urljoin options maxRedirects hops method url body
      (maxRedirects.toNat + 1 + spare)
    (∃ outcome, r.2 = some outcome) ∧ (r.1.length : ℤ) ≤ max maxRedirects 0 + 1 ∧
      ∀ k request, r.1[k]? = some request →
        ∃ v, validateOutboundUrl tables options (hops k).resolve request.url = .ok v ∧
          ∀ address ∈ request.dialled, address.1 ∈ v.ips := by
  intro r
  have hfuel : maxRedirects - (0 : ℕ) < (maxRedirects.toNat + 1 + spare : ℕ) := by omega
  obtain ⟨hends, hlength, hall⟩ := hopLoop_spec tables urljoin options maxRedirects hops
    (maxRedirects.toNat + 1 + spare) 0 ⟨url, method, body, 0⟩ hfuel (by omega)
  refine ⟨hends, ?_, ?_⟩
  · have hzero : maxRedirects - (0 : ℕ) = maxRedirects := by omega
    rwa [hzero] at hlength
  · intro k request hk
    obtain ⟨v, hv, hdialled⟩ := hall k request hk
    rw [Nat.zero_add] at hv
    exact ⟨v, hv, fun address haddress => hdialled.subset (List.mem_map_of_mem haddress)⟩

/-- A limit below zero allows one request all the same. -/
theorem negative_limit_sends_one :
    ¬ ∀ (tables : UnicodeTables) (urljoin : CodePoints → CodePoints → Option CodePoints)
      (options : OutboundOptions) (maxRedirects : ℤ) (hops : ℕ → Hop) (url : CodePoints)
      (fuel : ℕ),
      ((openOutboundResponse tables urljoin options maxRedirects hops "GET" url none fuel).1.length :
        ℤ) ≤ maxRedirects + 1 := by
  intro h
  let hop : Hop :=
    { resolve := fun _ _ => .addresses [CodePoints.ofString "93.184.215.14"]
      port := 443
      dial := fun _ => .connected
      reply := .ok (200, none) }
  have hone := h ⟨CodePoints.lower, id, some⟩ (fun _ url => some url)
    { allowAnyPublicHost := true } (-1) (fun _ => hop)
    (CodePoints.ofString "https://example.test/") 1
  revert hone
  decide +kernel

end OpenClaw.Outbound
