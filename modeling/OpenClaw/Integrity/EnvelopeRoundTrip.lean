import OpenClaw.Integrity.IntegrityEnvelope

/-!
# Loading what was saved

The hash is taken of the canonical text of the value in memory and checked on the canonical text of
the value that was read. The two agree exactly where the keys, sorted as Python sorts them, have
spellings that ascend.
-/

namespace OpenClaw.Integrity

open Foundation
set_option autoImplicit false

section RoundTrip
variable {φ : Type} {rt : Runtime φ}

/-- SHA-256 tells the canonical text of `data` from the canonical text of what it is read as. -/
def HashesApart (rt : Runtime φ) (data : PyValue φ) : Prop :=
  ∀ t t', dumpsCanonical? rt.floats rt.order data = some t →
    dumpsCanonical? rt.floats rt.order (jsonImage rt.floats data).toPy = some t' →
    rt.sha256 (utf8 t) = rt.sha256 (utf8 t') → t = t'

theorem hashesApart_of_injective (h : Function.Injective rt.sha256) (data : PyValue φ) :
    HashesApart rt data :=
  fun _ _ _ _ hsame => utf8_injective (h hsame)

/-- A dictionary whose keys ascend comes back from the file. -/
theorem load_saved_of_ascend {files files' : Files} {path : String} {data : Dict φ} {version : ℤ}
    (hsave : saveVerified rt files path data version = .ok files')
    (hascend : KeysAscend rt.floats.repr rt.order (.dict data)) (expected : ℤ) (migrate : Bool) :
    loadVerified rt files' path expected migrate = .ok (jsonImage rt.floats (.dict data)) := by
  obtain ⟨safePath, t, hpath, ht, rfl⟩ := saveVerified_eq_ok hsave
  have himage := (dumpsCanonical?_image_iff ht).mpr hascend
  rw [dumpsCanonical?_toPy] at himage
  rw [loadVerified_envelopeText hpath (Function.update_self ..), Option.some.inj himage, if_pos rfl]

/-- Data whose canonical text has another hash after it was read is taken for corrupt. -/
theorem saved_refused {path safePath : String} {data : Dict φ} {t : List Char}
    (hpath : rt.normalizeVerifiedPath path = .ok safePath)
    (ht : dumpsCanonical? rt.floats rt.order (.dict data) = some t)
    (hne : rt.sha256 (utf8 t) ≠ rt.sha256 (utf8 (Json.dumpsSorted rt.floats.repr
      Json.Separators.compact (jsonImage rt.floats (.dict data)))))
    (files : Files) (version expected : ℤ) (migrate : Bool) : ∃ files' message,
      saveVerified rt files path data version = .ok files' ∧
        loadVerified rt files' path expected migrate = .error (.integrity message) := by
  refine ⟨_, s!"Integrity check failed for {safePath} (hash mismatch)",
    saveVerified_of_text hpath ht files version, ?_⟩
  rw [loadVerified_envelopeText hpath (Function.update_self ..), if_neg hne]

/-- What `save_verified` wrote is loaded as its JSON image exactly if in every dictionary of the
data the sorted keys have ascending spellings. -/
theorem load_saved_iff {files files' : Files} {path : String} {data : Dict φ} {version : ℤ}
    (hsave : saveVerified rt files path data version = .ok files')
    (hapart : HashesApart rt (.dict data)) (expected : ℤ) (migrate : Bool) :
    (∃ image, Json.loads rt.floats.read (Json.dumps rt.floats.repr Json.Separators.standard
          (spell rt.floats.repr (.dict data))) = some image ∧
        loadVerified rt files' path expected migrate = .ok image) ↔
      KeysAscend rt.floats.repr rt.order (.dict data) := by
  constructor
  · rintro ⟨image, _, hload⟩
    obtain ⟨safePath, t, hpath, ht, _⟩ := saveVerified_eq_ok hsave
    have himage := dumpsCanonical?_toPy rt.floats rt.order (jsonImage rt.floats (.dict data))
    by_contra hascend
    have hne : rt.sha256 (utf8 t) ≠ rt.sha256 (utf8 (Json.dumpsSorted rt.floats.repr
        Json.Separators.compact (jsonImage rt.floats (.dict data)))) := by
      intro hsame
      rw [← hapart _ _ ht himage hsame] at himage
      exact hascend ((dumpsCanonical?_image_iff ht).mp himage)
    obtain ⟨files'', message, hsave', hrefused⟩ :=
      saved_refused hpath ht hne files version expected migrate
    cases hsave.symm.trans hsave'
    rw [hrefused] at hload
    cases hload
  · intro hascend
    exact ⟨_, jsonImage_eq rt.floats Json.Separators.standard (.dict data),
      load_saved_of_ascend hsave hascend expected migrate⟩

/-- State that was loaded once can be saved and loaded again. -/
theorem load_saved_loaded {files files' : Files} {path : String} {fields : List (PyStr × Json φ)}
    (hvalid : Json.Valid (.obj fields)) {version : ℤ}
    (hsave : saveVerified rt files path (Json.toPyFields fields) version = .ok files')
    (expected : ℤ) (migrate : Bool) : loadVerified rt files' path expected migrate =
      .ok (jsonImage rt.floats (.dict (Json.toPyFields fields))) :=
  load_saved_of_ascend hsave (keysAscend_toPy hvalid) expected migrate

end RoundTrip

/-! ## Numbers as keys -/

/-- A hash function of which some values are known. No other value is as short as these. -/
def tabulated (known : List (List Char × List UInt8)) (bytes : List UInt8) : List UInt8 :=
  match known.find? fun row => utf8 row.1 = bytes with
  | some row => row.2
  | none => List.replicate 33 0 ++ bytes

theorem tabulated_injective {known : List (List Char × List UInt8)}
    (hlen : ∀ row ∈ known, row.2.length = 32) (hdistinct : (known.map Prod.snd).Nodup) :
    Function.Injective (tabulated known) := by
  have hlong : ∀ bytes, ∀ row ∈ known, row.2 ≠ List.replicate 33 0 ++ bytes := by
    intro bytes row hrow h
    have := hlen row hrow
    rw [h, List.length_append, List.length_replicate] at this
    omega
  intro bytes bytes' h
  cases hrow : known.find? fun row => utf8 row.1 = bytes with
  | none =>
    cases hrow' : known.find? fun row => utf8 row.1 = bytes' with
    | none =>
      simp only [tabulated, hrow, hrow'] at h
      exact List.append_cancel_left h
    | some row' =>
      simp only [tabulated, hrow, hrow'] at h
      exact absurd h.symm (hlong _ row' (List.mem_of_find?_eq_some hrow'))
  | some row =>
    cases hrow' : known.find? fun row => utf8 row.1 = bytes' with
    | none =>
      simp only [tabulated, hrow, hrow'] at h
      exact absurd h (hlong _ row (List.mem_of_find?_eq_some hrow))
    | some row' =>
      simp only [tabulated, hrow, hrow'] at h
      obtain rfl : row = row' := List.inj_on_of_nodup_map hdistinct
        (List.mem_of_find?_eq_some hrow) (List.mem_of_find?_eq_some hrow') h
      have hbytes := List.find?_some hrow
      have hbytes' := List.find?_some hrow'
      simp only [decide_eq_true_eq] at hbytes hbytes'
      rw [← hbytes, hbytes']

def plainText : List Char := "\x7b\"a\":1\x7d".toList
def numbersText : List Char := "\x7b\"runs\":\x7b\"2\":0,\"10\":1\x7d\x7d".toList
def numbersTextRead : List Char := "\x7b\"runs\":\x7b\"10\":1,\"2\":0\x7d\x7d".toList

/-- SHA-256 of the texts above. -/
def knownDigests : List (List Char × List UInt8) :=
  [(plainText,
    [0x01, 0x5a, 0xbd, 0x7f, 0x5c, 0xc5, 0x7a, 0x2d, 0xd9, 0x4b, 0x75, 0x90, 0xf0, 0x4a, 0xd8, 0x08,
      0x42, 0x73, 0x90, 0x5e, 0xe3, 0x3e, 0xc5, 0xce, 0xbe, 0xae, 0x62, 0x27, 0x6a, 0x97, 0xf8,
      0x62]),
    (numbersText,
      [0x7e, 0xcc, 0xad, 0x57, 0xa9, 0x63, 0x30, 0x99, 0xc0, 0xa8, 0xa9, 0xf4, 0x64, 0x92, 0xcd,
        0x60, 0x9f, 0x24, 0x5c, 0x02, 0xc5, 0x22, 0xa4, 0x1d, 0x4e, 0x85, 0xae, 0x6b, 0x0e, 0xea,
        0x01, 0xd5]),
    (numbersTextRead,
      [0xd7, 0x4c, 0x20, 0xd3, 0xdb, 0xd0, 0x6a, 0xe0, 0x09, 0x10, 0x8c, 0xd0, 0x4d, 0xb5, 0x9e,
        0x8b, 0x14, 0x53, 0x0d, 0x0e, 0x10, 0xb1, 0x55, 0xfb, 0xe0, 0xb2, 0xcc, 0xd0, 0xdc, 0xe3,
        0xbe, 0x51])]

def demoRuntime : Runtime Unit where
  floats := Json.nanOnly
  order := ⟨fun keys => List.range keys.length, fun _ => List.Perm.refl _⟩
  floatEq _ _ := false
  decodeError _ := "Expecting value: line 1 column 1 (char 0)"
  sha256 := tabulated knownDigests
  normalizeVerifiedPath path := .ok path

theorem demoRuntime_injective : Function.Injective demoRuntime.sha256 :=
  tabulated_injective (by decide) (by decide)

/-- `{"a": 1}`. -/
def plainData : Dict Unit := [(strKey "a", .int 1)]

theorem plainData_text :
    dumpsCanonical? demoRuntime.floats demoRuntime.order (.dict plainData) = some plainText := by
  decide +kernel

/-- `{"runs": {2: 0, 10: 1}}`. -/
def numbersData : Dict Unit := [(strKey "runs", .dict [(.int 2, .int 0), (.int 10, .int 1)])]

theorem numbersData_text :
    dumpsCanonical? demoRuntime.floats demoRuntime.order (.dict numbersData) =
      some numbersText := by
  decide +kernel

theorem load_saved_iff_plain :
    (∃ image, Json.loads demoRuntime.floats.read (Json.dumps demoRuntime.floats.repr
          Json.Separators.standard (spell demoRuntime.floats.repr (.dict plainData))) = some image ∧
        loadVerified demoRuntime (Function.update (fun _ => none) "state.json" (some (envelopeText
          demoRuntime plainData 1 (PyStr.ofList (hex (demoRuntime.sha256 (utf8 plainText)))))))
            "state.json" 1 true = .ok image) ↔
      KeysAscend demoRuntime.floats.repr demoRuntime.order (.dict plainData) :=
  load_saved_iff (saveVerified_of_text rfl plainData_text (fun _ => none) 1)
    (hashesApart_of_injective demoRuntime_injective _) 1 true

/-- A file with the numbers 2 and 10 as keys is written, and refused when it is loaded. -/
theorem saved_numbers_refused : ∃ files message,
    saveVerified demoRuntime (fun _ => none) "state.json" numbersData 1 = .ok files ∧
      loadVerified demoRuntime files "state.json" 1 true = .error (.integrity message) := by
  have htexts : numbersText ≠ Json.dumpsSorted demoRuntime.floats.repr Json.Separators.compact
      (jsonImage demoRuntime.floats (.dict numbersData)) := by
    decide +kernel
  exact saved_refused rfl numbersData_text
    (fun hsame => htexts (utf8_injective (demoRuntime_injective hsame))) (fun _ => none) 1 1 true

end OpenClaw.Integrity
