import Mathlib.Data.List.Dedup
import OpenClaw.Connector.SlackEvents
import OpenClaw.Foundation.PyCanonical

/-!
# Slack messages over a whole run

`process_event_payload` with the server's own replay guard, one delivery after another. The guard is
asked before anything is awaited, so a run is the order in which the deliveries get that far. The
guard goes by the event id and the router is given a channel and a time stamp, which several events
may share.
-/

namespace OpenClaw.Connector

open Foundation
set_option autoImplicit false

/-! ## A guard that has room -/

namespace ReplayGuard

/-- The keys are among those given, and some of them are held since times within the window. -/
structure Tracks (all : List CodePoints) (recent : ℚ → Prop) (held : List CodePoints)
    (guard : ReplayGuard) : Prop where
  known : ∀ e ∈ guard.seen.rows, e.1 ∈ all
  held : ∀ key ∈ held, ∃ e, guard.seen.get? key = some e ∧ recent e.2

variable {all held : List CodePoints} {recent : ℚ → Prop} {guard : ReplayGuard}
  {key : CodePoints} {evictNow now : ℚ}

theorem size_le_of_known (h : ∀ e ∈ guard.seen.rows, e.1 ∈ all) : guard.size ≤ all.length := by
  have hsub : guard.seen.rows.map Prod.fst ⊆ all := by
    intro k hk
    obtain ⟨e, he, rfl⟩ := List.mem_map.mp hk
    exact h e he
  have hle := (guard.seen.nodup.subperm hsub).length_le
  rwa [List.length_map] at hle

theorem known_dropExpired (h : ∀ e ∈ guard.seen.rows, e.1 ∈ all) :
    ∀ e ∈ (guard.dropExpired evictNow).seen.rows, e.1 ∈ all := by
  intro e he
  obtain ⟨e', he', hsome⟩ := List.mem_filterMap.mp he
  rw [key_of_unexpired? e' e hsome]
  exact h e' he'

theorem evictExpired_of_known (h : ∀ e ∈ guard.seen.rows, e.1 ∈ all)
    (hfit : all.length ≤ guard.maxEntries) :
    guard.evictExpired evictNow = guard.dropExpired evictNow :=
  enforceCap_eq ((size_le_of_known (known_dropExpired h)).trans hfit)

theorem Tracks.evict (h : Tracks all recent held guard) (hfit : all.length ≤ guard.maxEntries)
    (hrecent : ∀ t, recent t → evictNow - guard.windowSec ≤ t) :
    Tracks all recent held (guard.evictExpired evictNow) := by
  rw [evictExpired_of_known h.known hfit]
  refine ⟨known_dropExpired h.known, fun k hk => ?_⟩
  obtain ⟨e, he, ht⟩ := h.held k hk
  exact ⟨e, get?_dropExpired_eq_some.mpr ⟨he, hrecent e.2 ht⟩, ht⟩

/-- A key that is held is a duplicate, and one that was new is held from then on. -/
theorem Tracks.check (h : Tracks all recent held guard) (hfit : all.length ≤ guard.maxEntries)
    (hkey : key ∈ all) (hnow : recent now)
    (hrecent : ∀ t, recent t → evictNow - guard.windowSec ≤ t ∧ now - t ≤ guard.windowSec) :
    (key ∈ held → (guard.checkAndRecord key evictNow now).2 = false) ∧
      Tracks all recent
        (if (guard.checkAndRecord key evictNow now).2 then key :: held else held)
        (guard.checkAndRecord key evictNow now).1 := by
  have hevict := h.evict hfit fun t ht => (hrecent t ht).1
  have hmax : (guard.evictExpired evictNow).maxEntries = guard.maxEntries := by
    simp [evictExpired, dropExpired]
  have hknown : ∀ e ∈ ((guard.evictExpired evictNow).seen.put (key, now)).rows, e.1 ∈ all := by
    intro e he
    rcases Table.mem_put he with rfl | he
    · exact hkey
    · exact hevict.known e he
  have hrecord : (guard.evictExpired evictNow).record key now =
      { guard.evictExpired evictNow with
        seen := (guard.evictExpired evictNow).seen.put (key, now) } := by
    refine enforceCap_eq (le_trans (size_le_of_known hknown) ?_)
    exact hfit.trans hmax.ge
  have hnew : Tracks all recent (key :: held) ((guard.evictExpired evictNow).record key now) := by
    rw [hrecord]
    refine ⟨hknown, fun k hk => ?_⟩
    change ∃ e, ((guard.evictExpired evictNow).seen.put (key, now)).get? k = some e ∧ recent e.2
    rw [Table.get?_put]
    by_cases hself : key = k
    · rw [if_pos hself]
      exact ⟨_, rfl, hnow⟩
    · rw [if_neg hself]
      rcases List.mem_cons.mp hk with rfl | hk
      · exact absurd rfl hself
      · exact hevict.held k hk
  have hnone : (guard.evictExpired evictNow).seen.get? key = none → key ∉ held := by
    intro hget hin
    obtain ⟨e, he, -⟩ := hevict.held key hin
    rw [hget] at he
    cases he
  cases hget : (guard.evictExpired evictNow).seen.get? key with
  | none =>
    have hcheck : guard.checkAndRecord key evictNow now =
        ((guard.evictExpired evictNow).record key now, true) := by
      simp only [checkAndRecord, hget]
    rw [hcheck]
    exact ⟨fun hin => absurd hin (hnone hget), hnew⟩
  | some e =>
    by_cases hin : now - e.2 ≤ (guard.evictExpired evictNow).windowSec
    · have hcheck : guard.checkAndRecord key evictNow now =
          (guard.evictExpired evictNow, false) := by
        simp only [checkAndRecord, hget, if_pos hin]
      rw [hcheck]
      exact ⟨fun _ => rfl, hevict⟩
    · have hcheck : guard.checkAndRecord key evictNow now =
          ((guard.evictExpired evictNow).record key now, true) := by
        simp only [checkAndRecord, hget, if_neg hin]
      rw [hcheck]
      refine ⟨fun hheld => ?_, hnew⟩
      obtain ⟨e', he', ht⟩ := hevict.held key hheld
      rw [hget] at he'
      cases he'
      rw [evictExpired, enforceCap_windowSec] at hin
      exact absurd (hrecent _ ht).2 hin

end ReplayGuard

namespace Slack

variable {φ : Type}

/-! ## Deliveries one after another -/

/-- What Python does with the values of a payload. Numbers and booleans as dictionary keys are
stood for by texts. -/
structure SlackRuntime (φ : Type) where
  py : PyInterpreter φ
  floatOf : Json φ → Except Raised φ
  numberKey : Json φ → CodePoints

/-- A payload that arrives by the webhook or by the socket, with what the clock and the registry of
installations answer then. -/
structure Delivery (φ : Type) where
  payload : Fields φ
  installedBot : PyStr → Except Raised PyStr
  received : φ
  evictNow : ℚ
  now : ℚ

structure SlackState where
  guard : ReplayGuard
  known : BotIdentity

def hostOf (rt : SlackRuntime φ) (d : Delivery φ) (checkAndRecord : Json φ → Except Raised Bool) :
    SlackHost φ where
  py := rt.py
  checkAndRecord := checkAndRecord
  installedBot := d.installedBot
  floatOf := rt.floatOf
  now := d.received

/-- The dictionary key of an event id; lists and dictionaries have none. -/
def guardKey (rt : SlackRuntime φ) : Json φ → Except Raised CodePoints
  | .str s => .ok s.points
  | .arr _ => .error .typeError
  | .obj _ => .error .typeError
  | j => .ok (rt.numberKey j)

def eventId (d : Delivery φ) : Json φ := getOr d.payload "event_id" (text "")

def guardAnswer (rt : SlackRuntime φ) (guard : ReplayGuard) (d : Delivery φ) (id : Json φ) :
    Except Raised Bool :=
  (guardKey rt id).map fun key => (guard.checkAndRecord key d.evictNow d.now).2

/-- The event of a payload for which the replay guard is asked. -/
def askedFor (host : SlackHost φ) (payload : Fields φ) : Option (Fields φ) :=
  if isOneOf ["event_callback"] (getOr payload "type" .null) = false then none
  else
    match asDict (getOr payload "event" (.obj [])) with
    | .error _ => none
    | .ok event =>
      match extractWorkspaceId host payload event with
      | .error _ => none
      | .ok _ =>
        if isOneOf lifecycleEvents (getOr event "type" (text "")) then none
        else if (getOr payload "event_id" (text "")).truthy host.py = false then none
        else some event

/-- The guard evicts what has expired before it looks the key up. -/
def guardAfter (rt : SlackRuntime φ) (guard : ReplayGuard) (d : Delivery φ) : ReplayGuard :=
  match askedFor (hostOf rt d (guardAnswer rt guard d)) d.payload with
  | none => guard
  | some _ =>
    match guardKey rt (eventId d) with
    | .ok key => (guard.checkAndRecord key d.evictNow d.now).1
    | .error _ => guard.evictExpired d.evictNow

def handle (rt : SlackRuntime φ) (server : SlackServer) (s : SlackState) (d : Delivery φ) :
    Except Raised (Outcome φ) × SlackState :=
  let processed := processEventPayload (hostOf rt d (guardAnswer rt s.guard d)) server s.known
    d.payload
  (processed.1, ⟨guardAfter rt s.guard d, processed.2⟩)

/-- The channel and the time stamp of the message that an event is about. -/
def messageOf (payload : Fields φ) : Json φ × Json φ :=
  match getOr payload "event" (.obj []) with
  | .obj event => (getOr event "channel" (text ""), getOr event "ts" (text ""))
  | _ => (text "", text "")

/-- The messages that a run gives to the router. -/
def handled (rt : SlackRuntime φ) (server : SlackServer) :
    SlackState → List (Delivery φ) → List (Json φ × Json φ)
  | _, [] => []
  | s, d :: ds =>
    match (handle rt server s d).1 with
    | .ok (.routed _) => messageOf d.payload :: handled rt server (handle rt server s d).2 ds
    | _ => handled rt server (handle rt server s d).2 ds

/-! ## One delivery -/

section Delivered
variable {rt : SlackRuntime φ} {server : SlackServer} {s : SlackState} {d : Delivery φ}

/-- The checks behind the guard let the event through, whoever the bot is. -/
def LetThrough (rt : SlackRuntime φ) (server : SlackServer) (d : Delivery φ) : Prop :=
  ∃ event, askedFor (hostOf rt d fun _ => .ok true) d.payload = some event ∧
    Routable (hostOf rt d fun _ => .ok true) server event []

theorem askedFor_arrives {host : SlackHost φ} {known : BotIdentity} {payload event : Fields φ}
    {workspaceId botUserId : PyStr}
    (h : Arrives host known payload event workspaceId botUserId) :
    askedFor host payload = some event := by
  unfold askedFor
  rw [if_neg (by rw [h.callback]; simp), h.carried]
  simp only [asDict, h.workspace, h.living, h.named, Bool.false_eq_true, Bool.true_eq_false,
    if_false]

/-- An event that is routed was new to the guard. -/
theorem routed_new {request : CommandRequest φ}
    (h : (handle rt server s d).1 = .ok (.routed request)) :
    LetThrough rt server d ∧ ∃ key, guardKey rt (eventId d) = .ok key ∧
      (s.guard.checkAndRecord key d.evictNow d.now).2 = true ∧
      (handle rt server s d).2.guard = (s.guard.checkAndRecord key d.evictNow d.now).1 := by
  obtain ⟨event, workspaceId, botUserId, harrives, hroute⟩ := arrives_of_routed h
  obtain ⟨hr, -⟩ := routable_of_routed hroute
  have hasked := askedFor_arrives harrives
  refine ⟨⟨event, hasked, hr.typed, hr.sender, fun hself => hself.1 rfl, hr.notBot, hr.plain,
    hr.said, hr.userAllowed, hr.channelAllowed, hr.timed⟩, ?_⟩
  have hanswer : guardAnswer rt s.guard d (eventId d) = .ok true := harrives.new
  unfold guardAnswer at hanswer
  cases hkey : guardKey rt (eventId d) with
  | error e =>
    rw [hkey] at hanswer
    cases hanswer
  | ok key =>
    rw [hkey] at hanswer
    refine ⟨key, rfl, Except.ok.inj hanswer, ?_⟩
    change guardAfter rt s.guard d = _
    rw [guardAfter, hasked]
    simp only [hkey]

end Delivered

/-! ## Every order of the deliveries -/

section Runs
variable {rt : SlackRuntime φ} {server : SlackServer} {ds : List (Delivery φ)}

/-- No two of the deliveries are further apart than the window. -/
def WithinWindow (windowSec : ℕ) (ds : List (Delivery φ)) : Prop :=
  ∀ d ∈ ds, ∀ d' ∈ ds, d'.evictNow - windowSec ≤ d.now ∧ d'.now - d.now ≤ windowSec

/-- The keys that a run asks the guard about. -/
def askedKeys (rt : SlackRuntime φ) (ds : List (Delivery φ)) : List CodePoints :=
  ds.filterMap fun d => (guardKey rt (eventId d)).toOption

/-- The guard has an entry to spare for every event id of the run. -/
def RoomFor (rt : SlackRuntime φ) (guard : ReplayGuard) (ds : List (Delivery φ)) : Prop :=
  (guard.seen.rows.map Prod.fst ++ askedKeys rt ds).dedup.length ≤ guard.maxEntries

/-- Events about one message have one id. -/
def OneId (rt : SlackRuntime φ) (server : SlackServer) (ds : List (Delivery φ)) : Prop :=
  ∀ d ∈ ds, ∀ d' ∈ ds, LetThrough rt server d → LetThrough rt server d' →
    messageOf d.payload = messageOf d'.payload →
      guardKey rt (eventId d) = guardKey rt (eventId d')

variable {all held : List CodePoints} {recent : ℚ → Prop} {s : SlackState} {d : Delivery φ}

/-- What a delivery leaves of the guard, whether or not the guard is asked. -/
theorem tracks_handle (h : ReplayGuard.Tracks all recent held s.guard)
    (hfit : all.length ≤ s.guard.maxEntries)
    (hkey : ∀ key, guardKey rt (eventId d) = .ok key → key ∈ all) (hnow : recent d.now)
    (hrecent : ∀ t, recent t → d.evictNow - s.guard.windowSec ≤ t ∧ d.now - t ≤ s.guard.windowSec) :
    ReplayGuard.Tracks all recent held (handle rt server s d).2.guard := by
  change ReplayGuard.Tracks all recent held (guardAfter rt s.guard d)
  unfold guardAfter
  split
  · exact h
  · split
    · rename_i key hown
      obtain ⟨-, hafter⟩ := h.check hfit (hkey key hown) hnow hrecent
      refine ⟨hafter.known, fun k hk => hafter.held k ?_⟩
      split
      · exact List.mem_cons_of_mem _ hk
      · exact hk
    · exact h.evict hfit fun t ht => (hrecent t ht).1

theorem handle_limits (rt : SlackRuntime φ) (server : SlackServer) (s : SlackState)
    (d : Delivery φ) :
    (handle rt server s d).2.guard.windowSec = s.guard.windowSec ∧
      (handle rt server s d).2.guard.maxEntries = s.guard.maxEntries := by
  change (guardAfter rt s.guard d).windowSec = _ ∧ (guardAfter rt s.guard d).maxEntries = _
  unfold guardAfter
  split
  · exact ⟨rfl, rfl⟩
  · split
    · exact ReplayGuard.checkAndRecord_windowSec _ _ _ _
    · simp [ReplayGuard.evictExpired, ReplayGuard.dropExpired]

theorem mem_handled {m : Json φ × Json φ} (h : m ∈ handled rt server s ds) :
    ∃ d ∈ ds, messageOf d.payload = m := by
  induction ds generalizing s with
  | nil => cases h
  | cons d ds ih =>
    have htail (h : m ∈ handled rt server (handle rt server s d).2 ds) :
        ∃ d' ∈ d :: ds, messageOf d'.payload = m := by
      obtain ⟨d', hd', heq⟩ := ih h
      exact ⟨d', List.mem_cons_of_mem _ hd', heq⟩
    rw [handled] at h
    split at h
    · rcases List.mem_cons.mp h with rfl | h
      · exact ⟨d, List.mem_cons_self, rfl⟩
      · exact htail h
    · exact htail h

/-- The messages handled before stay unhandled after: their keys are held. -/
theorem handled_apart (hfit : all.length ≤ s.guard.maxEntries)
    (hkeys : ∀ d ∈ ds, ∀ key, guardKey rt (eventId d) = .ok key → key ∈ all)
    (hnow : ∀ d ∈ ds, recent d.now)
    (hrecent : ∀ d ∈ ds, ∀ t, recent t →
      d.evictNow - s.guard.windowSec ≤ t ∧ d.now - t ≤ s.guard.windowSec)
    (hone : OneId rt server ds) (h : ReplayGuard.Tracks all recent held s.guard)
    {before : List (Json φ × Json φ)}
    (hbefore : ∀ d ∈ ds, LetThrough rt server d → messageOf d.payload ∈ before →
      ∃ key ∈ held, guardKey rt (eventId d) = .ok key) :
    (handled rt server s ds).Nodup ∧ ∀ m ∈ handled rt server s ds, m ∉ before := by
  induction ds generalizing s held before with
  | nil => exact ⟨List.nodup_nil, fun m hm => absurd hm List.not_mem_nil⟩
  | cons d ds ih =>
    obtain ⟨hwindow, hmax⟩ := handle_limits rt server s d
    have hin : d ∈ d :: ds := List.mem_cons_self
    have htail : ∀ d' ∈ ds, d' ∈ d :: ds := fun _ => List.mem_cons_of_mem _
    have hfit' : all.length ≤ (handle rt server s d).2.guard.maxEntries := hfit.trans hmax.ge
    have hkeys' := fun d' hd' => hkeys d' (htail d' hd')
    have hnow' := fun d' hd' => hnow d' (htail d' hd')
    have hrecent' : ∀ d' ∈ ds, ∀ t, recent t →
        d'.evictNow - (handle rt server s d).2.guard.windowSec ≤ t ∧
          d'.now - t ≤ (handle rt server s d).2.guard.windowSec := by
      rw [hwindow]
      exact fun d' hd' => hrecent d' (htail d' hd')
    have hone' : OneId rt server ds :=
      fun a ha b hb => hone a (htail a ha) b (htail b hb)
    rw [handled]
    split
    · rename_i request hrouted
      obtain ⟨hlet, key, hown, hnew, hguard⟩ := routed_new hrouted
      obtain ⟨hdup, hafter⟩ := h.check hfit (hkeys d hin key hown) (hnow d hin) (hrecent d hin)
      rw [hnew, if_pos rfl, ← hguard] at hafter
      have hfresh : messageOf d.payload ∉ before := by
        intro hm
        obtain ⟨key', hheld, hown'⟩ := hbefore d hin hlet hm
        rw [hown] at hown'
        cases hown'
        rw [hdup hheld] at hnew
        cases hnew
      have hbefore' : ∀ d' ∈ ds, LetThrough rt server d' →
          messageOf d'.payload ∈ messageOf d.payload :: before →
            ∃ k ∈ key :: held, guardKey rt (eventId d') = .ok k := by
        intro d' hd' hlet' hm
        rcases List.mem_cons.mp hm with hsame | hm
        · exact ⟨key, List.mem_cons_self,
            (hone d hin d' (htail d' hd') hlet hlet' hsame.symm).symm.trans hown⟩
        · obtain ⟨k, hk, hown'⟩ := hbefore d' (htail d' hd') hlet' hm
          exact ⟨k, List.mem_cons_of_mem _ hk, hown'⟩
      obtain ⟨hnodup, hapart⟩ := ih hfit' hkeys' hnow' hrecent' hone' hafter hbefore'
      refine ⟨List.nodup_cons.mpr ⟨fun hm => hapart _ hm List.mem_cons_self, hnodup⟩, ?_⟩
      intro m hm
      rcases List.mem_cons.mp hm with rfl | hm
      · exact hfresh
      · exact fun hb => hapart m hm (List.mem_cons_of_mem _ hb)
    · exact ih hfit' hkeys' hnow' hrecent' hone'
        (tracks_handle h hfit (hkeys d hin) (hnow d hin) (hrecent d hin))
        fun d' hd' => hbefore d' (htail d' hd')

/-- However often and in whatever order events come within the window, a message is given to the
router once, as long as its events share an id and the guard has room for all of them. -/
theorem message_handled_once (rt : SlackRuntime φ) (server : SlackServer) (s : SlackState)
    (ds : List (Delivery φ)) (htime : WithinWindow s.guard.windowSec ds)
    (hroom : RoomFor rt s.guard ds) (hone : OneId rt server ds) :
    (handled rt server s ds).Nodup := by
  let all := (s.guard.seen.rows.map Prod.fst ++ askedKeys rt ds).dedup
  have htracks : ReplayGuard.Tracks all (fun t => ∃ d ∈ ds, d.now = t) [] s.guard := by
    refine ⟨fun e he => List.mem_dedup.mpr ?_, fun key hkey => absurd hkey List.not_mem_nil⟩
    exact List.mem_append_left _ (List.mem_map_of_mem he)
  have hkeys : ∀ d ∈ ds, ∀ key, guardKey rt (eventId d) = .ok key → key ∈ all := by
    intro d hd key hkey
    refine List.mem_dedup.mpr (List.mem_append_right _ ?_)
    exact List.mem_filterMap.mpr ⟨d, hd, by rw [hkey]; rfl⟩
  have hrecent : ∀ d ∈ ds, ∀ t, (∃ d' ∈ ds, d'.now = t) →
      d.evictNow - s.guard.windowSec ≤ t ∧ d.now - t ≤ s.guard.windowSec := by
    rintro d hd t ⟨d', hd', rfl⟩
    exact htime d' hd' d hd
  have hbefore : ∀ d ∈ ds, LetThrough rt server d → messageOf d.payload ∈ [] →
      ∃ key ∈ [], guardKey rt (eventId d) = .ok key :=
    fun d _ _ hm => absurd hm List.not_mem_nil
  exact (handled_apart hroom hkeys (fun d hd => ⟨d, hd, rfl⟩) hrecent hone htracks hbefore).1

end Runs

/-! ## A mention comes as two events -/

def plainRuntime : SlackRuntime Unit where
  py := plainHost.py
  floatOf := plainHost.floatOf
  numberKey := fun _ => []

/-- `process_event_payload` as a server starts, with `REPLAY_WINDOW_SEC` and `NONCE_CACHE_SIZE`. -/
def startedSlack : SlackState := ⟨⟨300, 5000, Table.empty⟩, ⟨some (PyStr.ofString "UBOT"), []⟩⟩

/-- `<@UBOT> /run x`, as Slack reports it under an event type and an event id. -/
def reported (eventType id : String) (time : ℚ) : Delivery Unit where
  payload := [stringField "type" "event_callback", stringField "event_id" id,
    (PyStr.ofString "event", .obj [stringField "type" eventType, stringField "user" "U1",
      stringField "text" "<@UBOT> /run x", stringField "channel" "C1",
      stringField "ts" "1700000000.000100"])]
  installedBot := fun _ => .ok []
  received := ()
  evictNow := time
  now := time

def twoEvents : List (Delivery Unit) :=
  [reported "message" "Ev1" 10, reported "app_mention" "Ev2" 10]

def retried : List (Delivery Unit) := [reported "message" "Ev1" 10, reported "message" "Ev1" 60]

theorem message_handled_once_retried :
    (handled plainRuntime openServer startedSlack retried).Nodup := by
  refine message_handled_once plainRuntime openServer startedSlack retried ?_ ?_ ?_
  · intro d hd d' hd'
    simp only [retried, List.mem_cons, List.not_mem_nil, or_false] at hd hd'
    rcases hd with rfl | rfl <;> rcases hd' with rfl | rfl <;>
      exact ⟨by norm_num [reported, startedSlack], by norm_num [reported, startedSlack]⟩
  · unfold RoomFor
    decide +kernel
  · intro d hd d' hd' _ _ _
    simp only [retried, List.mem_cons, List.not_mem_nil, or_false] at hd hd'
    rcases hd with rfl | rfl <;> rcases hd' with rfl | rfl <;> rfl

/-- Both are given to the router. -/
theorem mention_handled_twice : WithinWindow startedSlack.guard.windowSec twoEvents ∧
    ¬(handled plainRuntime openServer startedSlack twoEvents).Nodup := by
  refine ⟨?_, ?_⟩
  · intro d hd d' hd'
    simp only [twoEvents, List.mem_cons, List.not_mem_nil, or_false] at hd hd'
    rcases hd with rfl | rfl <;> rcases hd' with rfl | rfl <;>
      exact ⟨by norm_num [reported, startedSlack], by norm_num [reported, startedSlack]⟩
  · have htwice : handled plainRuntime openServer startedSlack twoEvents =
        List.replicate 2 (text "C1", text "1700000000.000100") := by
      refine List.eq_replicate_iff.mpr ⟨by decide +kernel, fun m hm => ?_⟩
      obtain ⟨d, hd, rfl⟩ := mem_handled hm
      simp only [twoEvents, List.mem_cons, List.not_mem_nil, or_false] at hd
      rcases hd with rfl | rfl <;> rfl
    rw [htwice]
    simp

end Slack

end OpenClaw.Connector
