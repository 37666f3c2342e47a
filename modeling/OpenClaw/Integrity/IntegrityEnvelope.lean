import OpenClaw.Foundation.PyCanonical
import OpenClaw.Foundation.TextBytes

/-!
# Integrity envelopes

`services/integrity.py`: state is saved with the hash of its canonical text, and the hash is checked
when the state is loaded. Files are texts. The resolution of paths, the order of floats and the
hash function come from outside.
-/

namespace OpenClaw.Integrity

open Foundation
set_option autoImplicit false

/-- The exceptions of the module. -/
inductive Failure where
  | typeError
  | valueError (message : String)
  | fileNotFound (message : String)
  | integrity (message : String)
deriving DecidableEq, Repr

/-- What the module gets from the interpreter: floats, how they compare, the text of a JSON decoding
error, `hashlib.sha256`, and `_normalize_verified_path`, which asks the operating system. -/
structure Runtime (φ : Type) where
  floats : Json.FloatFormat φ
  order : FloatOrder φ
  floatEq : φ → ℤ → Bool
  decodeError : List Char → String
  sha256 : List UInt8 → List UInt8
  normalizeVerifiedPath : String → Except Failure String

abbrev Dict (φ : Type) := List (PyKey φ × PyValue φ)

abbrev Files := String → Option (List Char)

def strKey {φ : Type} (s : String) : PyKey φ := .str (PyStr.ofString s).points

structure IntegrityEnvelope (φ : Type) where
  version : ℤ
  data : Dict φ
  hash : PyStr
  algo : String := "sha256"
  metadata : Option (Dict φ) := none

/-- `asdict(envelope)`. -/
def IntegrityEnvelope.asdict {φ : Type} (e : IntegrityEnvelope φ) : PyValue φ :=
  .dict [(strKey "version", .int e.version), (strKey "data", .dict e.data),
    (strKey "hash", .str e.hash.points), (strKey "algo", .str (PyStr.ofString e.algo).points),
    (strKey "meta", match e.metadata with
      | none => .none
      | some m => .dict m)]

section Module
variable {φ : Type} (rt : Runtime φ)

/-- `canonical_dumps`; the text is ASCII, so its encoding does not fail. -/
def canonicalDumps (data : PyValue φ) : Except Failure (List UInt8) :=
  match dumpsCanonical? rt.floats rt.order data with
  | none => .error .typeError
  | some text => .ok (utf8 text)

def calculateHash (data : PyValue φ) (algo : String) : Except Failure PyStr :=
  if algo ≠ "sha256" then .error (.valueError s!"Unsupported hash algorithm: {algo}")
  else (canonicalDumps rt data).map fun payload => PyStr.ofList (hex (rt.sha256 payload))

/-- The text of the file that `save_verified` writes. -/
def envelopeText (data : Dict φ) (version : ℤ) (dataHash : PyStr) : List Char :=
  let envelope : IntegrityEnvelope φ := ⟨version, data, dataHash, "sha256", none⟩
  Json.dumpsIndent rt.floats.repr (spell rt.floats.repr envelope.asdict)

/-- `save_verified` on a disk that does not fail. -/
def saveVerified (files : Files) (path : String) (data : Dict φ) (version : ℤ) :
    Except Failure Files :=
  match rt.normalizeVerifiedPath path with
  | .error e => .error e
  | .ok safePath =>
    match calculateHash rt (.dict data) "sha256" with
    | .error e => .error e
    | .ok dataHash =>
      .ok (Function.update files safePath (some (envelopeText rt data version dataHash)))

/-- `raw["version"]`, `raw["hash"]` and `raw["data"]` of what looks like an envelope. -/
structure Stored (φ : Type) where
  version : Json φ
  hash : Json φ
  data : Json φ

def field? (fields : List (PyStr × Json φ)) (key : String) : Option (Json φ) :=
  (fields.find? fun f => f.1 = PyStr.ofString key).map Prod.snd

/-- The test for an envelope. -/
def stored? : Json φ → Option (Stored φ)
  | .obj fields =>
    match field? fields "hash", field? fields "data", field? fields "version" with
    | some hash, some data, some version => some ⟨version, hash, data⟩
    | _, _, _ => none
  | _ => none

/-- `computed_hash == stored_hash`. -/
def isHash (computed : PyStr) : Json φ → Bool
  | .str s => s = computed
  | _ => false

/-- `load_verified`; the expected version is not looked at. -/
def loadVerified (files : Files) (path : String) (_expectedVersion : ℤ) (migrate : Bool) :
    Except Failure (Json φ) :=
  match rt.normalizeVerifiedPath path with
  | .error e => .error e
  | .ok safePath =>
    match files safePath with
    | none => .error (.fileNotFound s!"File not found: {safePath}")
    | some text =>
      match Json.loads rt.floats.read text with
      | none =>
        .error (.integrity (s!"Corrupt JSON file {safePath}: " ++ rt.decodeError text))
      | some raw =>
        match stored? raw with
        | some stored =>
          match calculateHash rt stored.data.toPy "sha256" with
          | .error e => .error e
          | .ok computedHash =>
            if isHash computedHash stored.hash then .ok stored.data
            else .error
              (.integrity s!"Integrity check failed for {safePath} (hash mismatch)")
        -- a legacy file
        | none =>
          if migrate then .ok raw
          else .error (.integrity s!"File {safePath} is not a valid integrity envelope")

/-! ## Hashes -/

variable {rt}

theorem calculateHash_eq_ok {data : PyValue φ} {h : PyStr} :
    calculateHash rt data "sha256" = .ok h ↔ ∃ t, dumpsCanonical? rt.floats rt.order data = some t ∧
      PyStr.ofList (hex (rt.sha256 (utf8 t))) = h := by
  rw [calculateHash, if_neg (by simp), canonicalDumps]
  cases dumpsCanonical? rt.floats rt.order data with
  | none => simp [Except.map]
  | some t => simp [Except.map]

/-- What was read can always be hashed. -/
theorem calculateHash_toPy (j : Json φ) : calculateHash rt j.toPy "sha256" =
    .ok (PyStr.ofList (hex (rt.sha256 (utf8
      (Json.dumpsSorted rt.floats.repr Json.Separators.compact j))))) :=
  calculateHash_eq_ok.mpr ⟨_, dumpsCanonical?_toPy rt.floats rt.order j, rfl⟩

theorem digest_of_hash {bs bs' : List UInt8} (h : PyStr.ofList (hex bs) = PyStr.ofList (hex bs')) :
    bs = bs' :=
  hex_injective (PyStr.ofList_injective h)

theorem isHash_iff {h : PyStr} {j : Json φ} : isHash h j = true ↔ j = .str h := by
  cases j <;> simp [isHash]

/-! ## Files that were written -/

theorem saveVerified_eq_ok {files files' : Files} {path : String} {data : Dict φ} {version : ℤ}
    (h : saveVerified rt files path data version = .ok files') :
    ∃ safePath t, rt.normalizeVerifiedPath path = .ok safePath ∧
      dumpsCanonical? rt.floats rt.order (.dict data) = some t ∧
      files' = Function.update files safePath
        (some (envelopeText rt data version (PyStr.ofList (hex (rt.sha256 (utf8 t)))))) := by
  unfold saveVerified at h
  split at h
  · cases h
  rename_i safePath hpath
  split at h
  · cases h
  rename_i dataHash hhash
  obtain ⟨t, ht, rfl⟩ := calculateHash_eq_ok.mp hhash
  cases h
  exact ⟨safePath, t, hpath, ht, rfl⟩

theorem saveVerified_of_text {path safePath : String} {data : Dict φ} {t : List Char}
    (hpath : rt.normalizeVerifiedPath path = .ok safePath)
    (ht : dumpsCanonical? rt.floats rt.order (.dict data) = some t) (files : Files)
    (version : ℤ) : saveVerified rt files path data version = .ok (Function.update files safePath
      (some (envelopeText rt data version (PyStr.ofList (hex (rt.sha256 (utf8 t))))))) := by
  simp only [saveVerified, hpath, calculateHash_eq_ok.mpr ⟨t, ht, rfl⟩]

theorem spell_asdict (data : Dict φ) (version : ℤ) (dataHash : PyStr) :
    spell rt.floats.repr
        (IntegrityEnvelope.asdict ⟨version, data, dataHash, "sha256", none⟩) =
      .obj [(PyStr.ofString "version", .int version),
        (PyStr.ofString "data", spell rt.floats.repr (.dict data)),
        (PyStr.ofString "hash", .str dataHash),
        (PyStr.ofString "algo", .str (PyStr.ofString "sha256")), (PyStr.ofString "meta", .null)] := by
  simp only [IntegrityEnvelope.asdict, strKey, spell, spellFields, spellKey, PyStr.spellStr_points]

/-- A file that was written is read as an envelope around the JSON image of the data. -/
theorem stored?_envelopeText (rt : Runtime φ) (data : Dict φ) (version : ℤ) (dataHash : PyStr) :
    ∃ raw, Json.loads rt.floats.read (envelopeText rt data version dataHash) = some raw ∧
      stored? raw = some ⟨.int version, .str dataHash, jsonImage rt.floats (.dict data)⟩ := by
  refine ⟨_, Json.loads_dumpsIndent rt.floats _, ?_⟩
  rw [spell_asdict, Json.collapse, Json.collapseFields_eq, Json.dict, Table.rows_ofRows]
  · simp [stored?, field?, Json.collapseField, Json.collapse, jsonImage]
  · simp [Json.collapseField]

/-- Loading what was saved compares the hashes of two canonical texts. -/
theorem loadVerified_envelopeText {files : Files} {path safePath : String} {data : Dict φ}
    {version : ℤ} {t : List Char} (hpath : rt.normalizeVerifiedPath path = .ok safePath)
    (hfile : files safePath =
      some (envelopeText rt data version (PyStr.ofList (hex (rt.sha256 (utf8 t))))))
    (expected : ℤ) (migrate : Bool) :
    loadVerified rt files path expected migrate =
      if rt.sha256 (utf8 t) = rt.sha256 (utf8 (Json.dumpsSorted rt.floats.repr
          Json.Separators.compact (jsonImage rt.floats (.dict data)))) then
        .ok (jsonImage rt.floats (.dict data))
      else .error (.integrity s!"Integrity check failed for {safePath} (hash mismatch)") := by
  obtain ⟨raw, hraw, hstored⟩ := stored?_envelopeText rt data version
    (PyStr.ofList (hex (rt.sha256 (utf8 t))))
  simp only [loadVerified, hpath, hfile, hraw, hstored, calculateHash_toPy]
  split
  · rename_i h
    rw [isHash_iff, Json.str.injEq] at h
    rw [if_pos (digest_of_hash h)]
  · rename_i h
    rw [if_neg]
    rintro he
    exact h (isHash_iff.mpr (by rw [he]))

end Module

end OpenClaw.Integrity
