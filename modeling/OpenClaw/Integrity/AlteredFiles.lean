import OpenClaw.Integrity.EnvelopeRoundTrip

/-!
# Altered files

Whatever stands in the file: if it is an envelope whose hash is checked, and that hash is not the
hash of other data, then the data that is loaded are the data that were saved. The version is not
checked.
-/

namespace OpenClaw.Integrity

open Foundation
set_option autoImplicit false

section Altered
variable {φ : Type} (rt : Runtime φ)

/-- The envelope that `load_verified` finds. -/
def envelopeAt (files : Files) (path : String) : Option (Stored φ) :=
  match rt.normalizeVerifiedPath path with
  | .error _ => none
  | .ok safePath => ((files safePath).bind (Json.loads rt.floats.read)).bind stored?

/-- The stored hash is the hash of the stored data. -/
def HashMatches (stored : Stored φ) : Prop :=
  ∃ h, calculateHash rt stored.data.toPy "sha256" = .ok h ∧ isHash h stored.hash = true

/-- The stored hash is not the hash of data that hash in another way than `data`. -/
def Unforged (data : Dict φ) (stored : Stored φ) : Prop :=
  ∀ x h, calculateHash rt x "sha256" = .ok h → isHash h stored.hash = true →
    calculateHash rt (.dict data) "sha256" = .ok h

/-- `version == stored`, where truth values and floats compare as numbers. -/
def versionIs (version : ℤ) : Json φ → Bool
  | .int i => i = version
  | .bool b => (if b then 1 else 0) = version
  | .float x => rt.floatEq x version
  | _ => false

variable {rt}

theorem stored?_valid {raw : Json φ} {stored : Stored φ} (hv : Json.Valid raw)
    (h : stored? raw = some stored) : Json.Valid stored.data := by
  cases hv with
  | @obj fields _ hvalid =>
    simp only [stored?] at h
    split at h
    · rename_i hdata _
      cases h
      obtain ⟨f, hf, rfl⟩ := Option.map_eq_some_iff.mp hdata
      exact hvalid f (List.mem_of_find?_eq_some hf)
    · cases h
  | _ => cases h

theorem envelopeAt_valid {files : Files} {path : String} {stored : Stored φ}
    (h : envelopeAt rt files path = some stored) : Json.Valid stored.data := by
  unfold envelopeAt at h
  split at h
  · cases h
  · obtain ⟨raw, hraw, hstored⟩ := Option.bind_eq_some_iff.mp h
    obtain ⟨text, _, hloads⟩ := Option.bind_eq_some_iff.mp hraw
    exact stored?_valid (Json.loads_valid rt.floats.read hloads) hstored

/-- On an envelope `load_verified` checks the hash and nothing else. -/
theorem loadVerified_envelope {files : Files} {path : String} {stored : Stored φ}
    (h : envelopeAt rt files path = some stored) (expected : ℤ) (migrate : Bool) :
    (HashMatches rt stored ∧ loadVerified rt files path expected migrate = .ok stored.data) ∨
      (¬ HashMatches rt stored ∧
        ∃ message, loadVerified rt files path expected migrate = .error (.integrity message)) := by
  unfold envelopeAt at h
  split at h
  · cases h
  rename_i safePath hpath
  obtain ⟨raw, hraw, hstored⟩ := Option.bind_eq_some_iff.mp h
  obtain ⟨text, htext, hloads⟩ := Option.bind_eq_some_iff.mp hraw
  simp only [loadVerified, hpath, htext, hloads, hstored, calculateHash_toPy]
  split
  · rename_i hsame
    exact Or.inl ⟨⟨_, calculateHash_toPy stored.data, hsame⟩, rfl⟩
  · rename_i hdiffer
    refine Or.inr ⟨?_, _, rfl⟩
    rintro ⟨h, hhash, hsame⟩
    cases hhash.symm.trans (calculateHash_toPy stored.data)
    exact hdiffer hsame

/-- What is no envelope is accepted only by migrating. -/
theorem loadVerified_legacy {files : Files} {path : String} (h : envelopeAt rt files path = none)
    {expected : ℤ} {migrate : Bool} {j : Json φ}
    (hload : loadVerified rt files path expected migrate = .ok j) : migrate = true := by
  unfold loadVerified at hload
  split at hload
  · cases hload
  rename_i safePath hpath
  split at hload
  · cases hload
  rename_i text htext
  split at hload
  · cases hload
  rename_i raw hloads
  split at hload
  · rename_i stored hstored
    simp [envelopeAt, hpath, htext, hloads, hstored] at h
  · split at hload
    · assumption
    · cases hload

/-- Data behind a hash that was not forged are the saved data, up to the order of keys. -/
theorem data_of_hashMatches (hsha : Function.Injective rt.sha256) {data : Dict φ}
    {stored : Stored φ} (hvalid : Json.Valid stored.data) (hforge : Unforged rt data stored)
    (hmatch : HashMatches rt stored) :
    stored.data.sortKeys = (jsonImage rt.floats (.dict data)).sortKeys := by
  obtain ⟨h, hhash, hsame⟩ := hmatch
  obtain ⟨t, ht, rfl⟩ := calculateHash_eq_ok.mp hhash
  obtain ⟨t', ht', hdigest⟩ := calculateHash_eq_ok.mp (hforge _ _ hhash hsame)
  have htexts : t' = t := utf8_injective (hsha (digest_of_hash hdigest))
  rw [htexts] at ht'
  exact (read_of_dumpsCanonical? hvalid (ht.trans ht'.symm)).2

/-- What is accepted without migrating is the saved data, and an envelope of another version is
rejected, exactly if no envelope of another version has the right hash. -/
theorem altered_file_iff (hsha : Function.Injective rt.sha256) {altered : Files} {path : String}
    {data : Dict φ} (version : ℤ)
    (hforge : ∀ stored, envelopeAt rt altered path = some stored → Unforged rt data stored)
    (migrate : Bool) :
    ((∀ j, loadVerified rt altered path version migrate = .ok j →
        ((envelopeAt rt altered path).isSome ∨ migrate = false) →
          ∃ image, Json.loads rt.floats.read (Json.dumps rt.floats.repr Json.Separators.standard
            (spell rt.floats.repr (.dict data))) = some image ∧ j.sortKeys = image.sortKeys) ∧
      ∀ stored, envelopeAt rt altered path = some stored →
        versionIs rt version stored.version = false →
          ∃ e, loadVerified rt altered path version migrate = .error e) ↔
      ∀ stored, envelopeAt rt altered path = some stored →
        versionIs rt version stored.version = true ∨ ¬ HashMatches rt stored := by
  constructor
  · rintro ⟨_, hversion⟩ stored hstored
    by_cases hv : versionIs rt version stored.version = true
    · exact Or.inl hv
    refine Or.inr fun hmatch => ?_
    obtain ⟨e, he⟩ := hversion stored hstored (by simpa using hv)
    rcases loadVerified_envelope hstored version migrate with ⟨_, hok⟩ | ⟨hno, _⟩
    · rw [hok] at he
      cases he
    · exact hno hmatch
  · intro hversion
    constructor
    · intro j hload hkept
      cases hstored : envelopeAt rt altered path with
      | none =>
        rw [hstored] at hkept
        have hmigrate := loadVerified_legacy hstored hload
        simp [hmigrate] at hkept
      | some stored =>
        rcases loadVerified_envelope hstored version migrate with ⟨hmatch, hok⟩ | ⟨_, message, he⟩
        · cases hload.symm.trans hok
          exact ⟨_, jsonImage_eq rt.floats Json.Separators.standard (.dict data),
            data_of_hashMatches hsha (envelopeAt_valid hstored) (hforge stored hstored) hmatch⟩
        · rw [he] at hload
          cases hload
    · intro stored hstored hother
      rcases loadVerified_envelope hstored version migrate with ⟨hmatch, _⟩ | ⟨_, message, he⟩
      · rcases hversion stored hstored with hsame | hno
        · rw [hsame] at hother
          cases hother
        · exact absurd hmatch hno
      · exact ⟨_, he⟩

/-- The envelope of a file that was written. -/
theorem envelopeAt_saved {path safePath : String} {data : Dict φ} {t : List Char}
    (hpath : rt.normalizeVerifiedPath path = .ok safePath) (files : Files) (version : ℤ) :
    envelopeAt rt (Function.update files safePath (some (envelopeText rt data version
        (PyStr.ofList (hex (rt.sha256 (utf8 t))))))) path =
      some ⟨.int version, .str (PyStr.ofList (hex (rt.sha256 (utf8 t)))),
        jsonImage rt.floats (.dict data)⟩ := by
  obtain ⟨raw, hraw, hstored⟩ := stored?_envelopeText rt data version
    (PyStr.ofList (hex (rt.sha256 (utf8 t))))
  simp only [envelopeAt, hpath, Function.update_self, Option.bind_some, hraw, hstored]

theorem unforged_of_text {data : Dict φ} {t : List Char}
    (ht : dumpsCanonical? rt.floats rt.order (.dict data) = some t) {stored : Stored φ}
    (hstored : stored.hash = .str (PyStr.ofList (hex (rt.sha256 (utf8 t))))) :
    Unforged rt data stored := by
  intro x h _ hsame
  rw [isHash_iff, hstored, Json.str.injEq] at hsame
  exact calculateHash_eq_ok.mpr ⟨t, ht, hsame⟩

/-- A file of any version is accepted, whatever version is expected. -/
theorem saved_version_ignored {path safePath : String} {data : Dict φ} {t : List Char}
    (hpath : rt.normalizeVerifiedPath path = .ok safePath)
    (ht : dumpsCanonical? rt.floats rt.order (.dict data) = some t)
    (hascend : KeysAscend rt.floats.repr rt.order (.dict data)) (files : Files)
    (version expected : ℤ) (migrate : Bool) : ∃ files' stored,
      saveVerified rt files path data version = .ok files' ∧
        envelopeAt rt files' path = some stored ∧ stored.version = .int version ∧
          loadVerified rt files' path expected migrate = .ok stored.data :=
  ⟨_, _, saveVerified_of_text hpath ht files version, envelopeAt_saved hpath files version, rfl,
    load_saved_of_ascend (saveVerified_of_text hpath ht files version) hascend expected migrate⟩

end Altered

/-! ## Another version -/

def plainHash : PyStr := PyStr.ofList (hex (demoRuntime.sha256 (utf8 plainText)))

def plainFiles : Files :=
  Function.update (fun _ => none) "state.json" (some (envelopeText demoRuntime plainData 1 plainHash))

theorem plainFiles_unforged (stored : Stored Unit)
    (h : envelopeAt demoRuntime plainFiles "state.json" = some stored) :
    Unforged demoRuntime plainData stored := by
  have hsaved : envelopeAt demoRuntime plainFiles "state.json" = _ :=
    envelopeAt_saved (t := plainText) rfl (fun _ => none) 1
  cases h.symm.trans hsaved
  exact unforged_of_text plainData_text rfl

theorem altered_file_iff_plain :
    ((∀ j, loadVerified demoRuntime plainFiles "state.json" 1 false = .ok j →
        ((envelopeAt demoRuntime plainFiles "state.json").isSome ∨ false = false) →
          ∃ image, Json.loads demoRuntime.floats.read (Json.dumps demoRuntime.floats.repr
            Json.Separators.standard (spell demoRuntime.floats.repr (.dict plainData))) =
              some image ∧ j.sortKeys = image.sortKeys) ∧
      ∀ stored, envelopeAt demoRuntime plainFiles "state.json" = some stored →
        versionIs demoRuntime 1 stored.version = false →
          ∃ e, loadVerified demoRuntime plainFiles "state.json" 1 false = .error e) ↔
      ∀ stored, envelopeAt demoRuntime plainFiles "state.json" = some stored →
        versionIs demoRuntime 1 stored.version = true ∨ ¬ HashMatches demoRuntime stored :=
  altered_file_iff demoRuntime_injective 1 plainFiles_unforged false

/-- An envelope of version 2 is accepted where version 1 is expected. -/
theorem other_version_accepted : ∃ files stored,
    saveVerified demoRuntime (fun _ => none) "state.json" plainData 2 = .ok files ∧
      envelopeAt demoRuntime files "state.json" = some stored ∧
        versionIs demoRuntime 1 stored.version = false ∧
          loadVerified demoRuntime files "state.json" 1 false = .ok stored.data := by
  have hascend : KeysAscend demoRuntime.floats.repr demoRuntime.order (.dict plainData) :=
    (dumpsCanonical?_image_iff plainData_text).mp (by decide +kernel)
  obtain ⟨files, stored, hsave, hstored, hversion, hload⟩ :=
    saved_version_ignored rfl plainData_text hascend (fun _ => none) 2 1 false
  refine ⟨files, stored, hsave, hstored, ?_, hload⟩
  rw [hversion]
  decide

end OpenClaw.Integrity
