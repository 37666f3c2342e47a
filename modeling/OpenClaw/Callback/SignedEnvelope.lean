import OpenClaw.Foundation.Delimited
import OpenClaw.Foundation.JsonSorted
import OpenClaw.Foundation.TextBytes
import OpenClaw.Foundation.PyText

/-!
# The signed callback envelope

`InteractiveCallbackEnvelope` and the signature of `services/connector_callback_contract.py`. The
signed text puts colons between fields that may hold colons themselves, so it determines the fields
only together with the number of colons in each.
-/

namespace OpenClaw.Callback

open Foundation
set_option autoImplicit false

/-- What the contract gets from the interpreter: floats, `int` and `str` of a float, `str` of a list
or a dictionary, and the hashes of the standard library. -/
structure Runtime (φ : Type) where
  floats : Json.FloatFormat φ
  floatTrunc : φ → Option ℤ
  floatStr : φ → PyStr
  containerStr : Json φ → PyStr
  sha256 : List UInt8 → List UInt8
  hmacSha256 : List UInt8 → List UInt8 → List UInt8

abbrev Fields (φ : Type) := List (PyStr × Json φ)

structure InteractiveCallbackEnvelope where
  signature : PyStr
  timestamp : ℤ
  requestId : PyStr
  workspaceId : PyStr
  actionType : PyStr
  payloadHash : PyStr
  deriving DecidableEq

section Envelope
variable {φ : Type} (rt : Runtime φ)

/-- `payload.get(key)`. -/
def Fields.get? (fields : Fields φ) (key : String) : Option (Json φ) :=
  (fields.find? fun f => f.1 = PyStr.ofString key).map Prod.snd

/-- `int(value)`; `none` is any exception. -/
def toInt : Json φ → Option ℤ
  | .bool b => some (if b then 1 else 0)
  | .int i => some i
  | .float x => rt.floatTrunc x
  | .str s => s.chars?.bind PyText.int?
  | .null => none
  | .arr _ => none
  | .obj _ => none

/-- `str(value)`. -/
def toStr : Json φ → PyStr
  | .null => PyStr.ofString "None"
  | .bool b => PyStr.ofString (if b then "True" else "False")
  | .int i => PyStr.ofList (Json.showInt i)
  | .float x => rt.floatStr x
  | .str s => s
  | .arr items => rt.containerStr (.arr items)
  | .obj fields => rt.containerStr (.obj fields)

/-- `str(payload.get(key, "")).strip()`. -/
def fieldText (payload : Fields φ) (key : String) : PyStr :=
  PyStr.strip ((payload.get? key).elim [] (toStr rt))

def fromDict (payload : Fields φ) : Except String InteractiveCallbackEnvelope :=
  match toInt rt ((payload.get? "timestamp").getD (.int 0)) with
  | none => .error "timestamp must be integer"
  | some timestamp =>
    let e : InteractiveCallbackEnvelope := {
      signature := fieldText rt payload "signature"
      timestamp
      requestId := fieldText rt payload "request_id"
      workspaceId := fieldText rt payload "workspace_id"
      actionType := fieldText rt payload "action_type"
      payloadHash := fieldText rt payload "payload_hash" }
    if e.signature = [] ∨ e.requestId = [] ∨ e.workspaceId = [] ∨ e.actionType = [] ∨
        e.payloadHash = [] ∨ e.timestamp = 0 then
      .error "callback envelope fields must be non-empty"
    else .ok e

/-- What every envelope that is read from a dictionary has. -/
structure Trimmed (e : InteractiveCallbackEnvelope) : Prop where
  request_ne : e.requestId ≠ []
  request_strip : e.requestId.strip = e.requestId
  workspace_ne : e.workspaceId ≠ []
  action_ne : e.actionType ≠ []

theorem fromDict_trimmed {payload : Fields φ} {e : InteractiveCallbackEnvelope}
    (h : fromDict rt payload = .ok e) : Trimmed e := by
  unfold fromDict at h
  split at h
  · cases h
  simp only at h
  split at h
  · cases h
  · rename_i hne
    simp only [not_or] at hne
    cases h
    exact ⟨hne.2.1, PyStr.strip_strip _, hne.2.2.1, hne.2.2.2.1⟩

/-! ## The signature -/

def colon : CodeUnit := 58

/-- `_CALLBACK_SIGNING_VERSION` and the colon behind it. -/
def signingVersion : PyStr := PyStr.ofString "v1:"

/-- The text that is signed. -/
def InteractiveCallbackEnvelope.base (e : InteractiveCallbackEnvelope) : PyStr :=
  signingVersion ++ (PyStr.ofList (Json.showInt e.timestamp) ++ colon :: (e.requestId ++
    colon :: (e.workspaceId ++ colon :: (e.actionType ++ colon :: e.payloadHash))))

/-- `compute_payload_hash`; a payload of JSON values needs no `default`. -/
def computePayloadHash (payload : Fields φ) : PyStr :=
  PyStr.ofList (hex (rt.sha256
    (utf8 (Json.dumpsSorted rt.floats.repr Json.Separators.compact (.obj payload)))))

/-- `compute_signature`; `none` is the `UnicodeEncodeError` of a lone surrogate. -/
def computeSignature (secret : PyStr) (e : InteractiveCallbackEnvelope) : Option PyStr :=
  secret.chars?.bind fun key => e.base.chars?.map fun base =>
    PyStr.ofList (hex (rt.hmacSha256 (utf8 key) (utf8 base)))

end Envelope

/-! ## What the signed text determines -/

/-- The fields under the signature. -/
structure SameSigned (e e' : InteractiveCallbackEnvelope) : Prop where
  timestamp : e.timestamp = e'.timestamp
  requestId : e.requestId = e'.requestId
  workspaceId : e.workspaceId = e'.workspaceId
  actionType : e.actionType = e'.actionType
  payloadHash : e.payloadHash = e'.payloadHash

structure SameColons (e e' : InteractiveCallbackEnvelope) : Prop where
  requestId : e.requestId.count colon = e'.requestId.count colon
  workspaceId : e.workspaceId.count colon = e'.workspaceId.count colon
  actionType : e.actionType.count colon = e'.actionType.count colon

theorem showInt_injective : Function.Injective Json.showInt := by
  intro i j h
  rw [← Json.readInt_showInt i, h, Json.readInt_showInt]

/-- A numeral has no colon in it. -/
theorem colon_not_mem_numeral (i : ℤ) : colon ∉ PyStr.ofList (Json.showInt i) := by
  have hsmall : ∀ c ∈ Json.showInt i, colon ∉ utf16 c := by
    intro c hc
    have hdigit : c = '-' ∨ c.isDigit = true := by
      unfold Json.showInt at hc
      split at hc
      · rcases List.mem_cons.mp hc with h | h
        · exact .inl h
        · exact .inr (Json.toDigits_isDigit h)
      · exact .inr (Json.toDigits_isDigit hc)
    have hcode : c.toNat < 58 := by
      rcases hdigit with h | h
      · rw [h]
        decide
      · simp only [Char.isDigit, Bool.and_eq_true, decide_eq_true_eq] at h
        have := UInt32.le_iff_toNat_le.mp h.2
        have hnine : ('9' : Char).val.toNat = 57 := rfl
        have hval : c.val.toNat = c.toNat := rfl
        omega
    unfold utf16
    rw [if_pos (by omega), List.mem_singleton]
    intro h
    have hval := congrArg Fin.val h
    simp only [colon, Fin.val_ofNat] at hval
    have h58 : ((58 : Fin 65536) : ℕ) = 58 := rfl
    omega
  intro h
  obtain ⟨c, hc, hmem⟩ := List.mem_flatMap.mp h
  exact hsmall c hc hmem

theorem sameSigned_of_colons {e e' : InteractiveCallbackEnvelope} (hbase : e.base = e'.base)
    (hcolons : SameColons e e') : SameSigned e e' := by
  unfold InteractiveCallbackEnvelope.base at hbase
  have htext := List.append_cancel_left hbase
  obtain ⟨hstamp, htext⟩ := delimited_free (colon_not_mem_numeral _) (colon_not_mem_numeral _) htext
  obtain ⟨hrequest, htext⟩ := delimited_inj htext hcolons.requestId
  obtain ⟨hworkspace, htext⟩ := delimited_inj htext hcolons.workspaceId
  obtain ⟨haction, hhash⟩ := delimited_inj htext hcolons.actionType
  exact ⟨showInt_injective (PyStr.ofList_injective hstamp), hrequest, hworkspace, haction, hhash⟩

variable {φ : Type} {rt : Runtime φ}

/-- The payload hash determines the payload up to the order of its keys. -/
theorem payload_of_hash (hsha : Function.Injective rt.sha256) {p p' : Fields φ}
    (hp : Json.Valid (.obj p)) (hp' : Json.Valid (.obj p'))
    (h : computePayloadHash rt p = computePayloadHash rt p') :
    (Json.obj p).sortKeys = (Json.obj p').sortKeys :=
  Json.dumpsSorted_injective rt.floats Json.Separators.compact hp hp'
    (utf8_injective (hsha (hex_injective (PyStr.ofList_injective h))))

/-- Two envelopes over one signed text agree in what is signed, and then in the payload, exactly if
their fields have the same numbers of colons. -/
theorem signed_fields_iff (hsha : Function.Injective rt.sha256) {e e' : InteractiveCallbackEnvelope}
    (hbase : e.base = e'.base) :
    (SameSigned e e' ∧ ∀ p p' : Fields φ, Json.Valid (.obj p) → Json.Valid (.obj p') →
      computePayloadHash rt p = e.payloadHash → computePayloadHash rt p' = e'.payloadHash →
      (Json.obj p).sortKeys = (Json.obj p').sortKeys) ↔ SameColons e e' := by
  constructor
  · rintro ⟨hsame, _⟩
    exact ⟨by rw [hsame.requestId], by rw [hsame.workspaceId], by rw [hsame.actionType]⟩
  · intro hcolons
    have hsame := sameSigned_of_colons hbase hcolons
    refine ⟨hsame, ?_⟩
    intro p p' hp hp' he he'
    apply payload_of_hash hsha hp hp'
    rw [he, he', hsame.payloadHash]

/-! ## A colon that moves -/

/-- SHA-256 of the empty JSON object. -/
def demoHash : List UInt8 :=
  [68, 19, 111, 163, 85, 179, 103, 138, 17, 70, 173, 22, 247, 232, 100, 158, 148, 251, 79, 194, 31,
    231, 126, 131, 16, 192, 96, 246, 28, 170, 255, 138]

def demoSecret : PyStr := PyStr.ofString "secret"

/-- HMAC-SHA-256 under the demo secret, for the request "a:b" in the workspace "c". -/
def demoSignature : List UInt8 :=
  [106, 54, 198, 168, 218, 137, 159, 253, 166, 192, 187, 117, 140, 79, 70, 85, 138, 198, 138, 194,
    10, 57, 135, 113, 83, 244, 22, 213, 129, 23, 237, 110]

/-- The same in the workspace "d". -/
def demoSignatureOther : List UInt8 :=
  [113, 222, 12, 112, 209, 39, 216, 22, 112, 171, 176, 31, 42, 81, 71, 98, 44, 70, 170, 49, 201, 13,
    224, 237, 89, 133, 229, 40, 122, 35, 148, 99]

def demoBaseOther : List UInt8 := utf8 ("v1:1000:a:b:d:run:".toList ++ hex demoHash)

def demoRuntime : Runtime Unit where
  floats := Json.nanOnly
  floatTrunc _ := none
  floatStr _ := PyStr.ofString "nan"
  containerStr _ := PyStr.ofString "[]"
  sha256 message := if message = utf8 "\x7b\x7d".toList then demoHash else 0 :: message
  hmacSha256 _ message := if message = demoBaseOther then demoSignatureOther else demoSignature

theorem demoRuntime_injective : Function.Injective demoRuntime.sha256 := by
  have hhead : ∀ message, demoHash ≠ 0 :: message := by
    intro message h
    cases h
  intro m m' h
  simp only [demoRuntime] at h
  split at h <;> split at h
  · rename_i hm hm'
    rw [hm, hm']
  · exact absurd h (hhead _)
  · exact absurd h.symm (hhead _)
  · exact (List.cons.inj h).2

def demoEnvelope (signature : List UInt8) (requestId workspaceId : String) :
    InteractiveCallbackEnvelope where
  signature := PyStr.ofList (hex signature)
  timestamp := 1000
  requestId := PyStr.ofString requestId
  workspaceId := PyStr.ofString workspaceId
  actionType := PyStr.ofString "run"
  payloadHash := PyStr.ofList (hex demoHash)

def demoFields (signature : List UInt8) (requestId workspaceId : String) : Fields Unit :=
  [(PyStr.ofString "signature", .str (PyStr.ofList (hex signature))),
    (PyStr.ofString "timestamp", .int 1000),
    (PyStr.ofString "request_id", .str (PyStr.ofString requestId)),
    (PyStr.ofString "workspace_id", .str (PyStr.ofString workspaceId)),
    (PyStr.ofString "action_type", .str (PyStr.ofString "run")),
    (PyStr.ofString "payload_hash", .str (PyStr.ofList (hex demoHash)))]

/-- A request, and what a moved colon makes of it. -/
def demoRequest : InteractiveCallbackEnvelope := demoEnvelope demoSignature "a:b" "c"
def demoMoved : InteractiveCallbackEnvelope := demoEnvelope demoSignature "a" "b:c"

theorem demo_read :
    fromDict demoRuntime (demoFields demoSignature "a:b" "c") = .ok demoRequest := by
  decide +kernel

theorem signed_fields_iff_moved : (SameSigned demoRequest demoMoved ∧
      ∀ p p' : Fields Unit, Json.Valid (.obj p) → Json.Valid (.obj p') →
        computePayloadHash demoRuntime p = demoRequest.payloadHash →
        computePayloadHash demoRuntime p' = demoMoved.payloadHash →
        (Json.obj p).sortKeys = (Json.obj p').sortKeys) ↔ SameColons demoRequest demoMoved :=
  signed_fields_iff demoRuntime_injective (by decide +kernel)

/-- One signed text, and so one signature, for two requests to two workspaces. -/
theorem moved_colon_same_signature :
    fromDict demoRuntime (demoFields demoSignature "a:b" "c") = .ok demoRequest ∧
      fromDict demoRuntime (demoFields demoSignature "a" "b:c") = .ok demoMoved ∧
      demoRequest.base = demoMoved.base ∧
      computeSignature demoRuntime demoSecret demoRequest = some demoMoved.signature ∧
      ¬ SameSigned demoRequest demoMoved := by
  refine ⟨demo_read, by decide +kernel, by decide +kernel, by decide +kernel, ?_⟩
  intro h
  have hrequest : PyStr.ofString "a:b" = PyStr.ofString "a" := h.requestId
  rw [PyStr.ofString_inj] at hrequest
  exact absurd hrequest (by decide)

end OpenClaw.Callback
