import OpenClaw.Foundation.CodePoints
import OpenClaw.Foundation.PosixPath

/-!
# Where a model is installed

`_sanitize_subdir` and `_sanitize_filename` of `services/model_manager.py`. Both look at the text
before they have made all of their changes: traversal segments are looked for before characters are
left out, and the extension is checked before the name is cut.
-/

namespace OpenClaw.ModelManager

open Foundation
set_option autoImplicit false

def dot : CodePoint := 0x2e
def separator : CodePoint := 0x2f
def backslash : CodePoint := 0x5c
def underscore : CodePoint := 0x5f

/-- `str.isalnum` of one character, `str.lower` and `repr`. What is alphanumeric is neither a blank
nor one of the separators. -/
structure CharClasses where
  isAlnum : CodePoint → Bool
  lower : CodePoints → CodePoints
  repr : CodePoints → CodePoints
  alnum_space : ∀ c, PyText.isSpaceCode c.val = true → isAlnum c = false
  alnum_separator : isAlnum separator = false
  alnum_backslash : isAlnum backslash = false

inductive DestinationError where
  | traversal
  | required
  | segment (part : CodePoints)
  | filename
  | extension
  deriving DecidableEq

def allowedModelExtensions : List CodePoints :=
  [".bin", ".ckpt", ".onnx", ".pt", ".pth", ".safetensors"].map CodePoints.ofString

section Sanitize
variable (chars : CharClasses)

def DestinationError.code : DestinationError → String
  | .filename => "invalid_filename"
  | .extension => "invalid_filename"
  | _ => "invalid_destination"

def DestinationError.detail : DestinationError → CodePoints
  | .traversal => CodePoints.ofString "destination_subdir must not contain traversal segments"
  | .required => CodePoints.ofString "destination_subdir is required"
  | .segment part => CodePoints.ofString "invalid destination segment: " ++ chars.repr part
  | .filename => CodePoints.ofString "filename is invalid"
  | .extension => CodePoints.ofString "filename extension must be one of " ++
      List.intercalate (CodePoints.ofString ", ") allowedModelExtensions

/-! ## The directory -/

def inSegment (c : CodePoint) : Bool := chars.isAlnum c || decide (c ∈ [underscore, 0x2d, dot])

def cleanSegment (part : CodePoints) : CodePoints := part.filter (inSegment chars)

def rawParts (text : CodePoints) : List CodePoints :=
  (text.map fun c => if c = backslash then separator else c).splitOn separator

def isDots (part : CodePoints) : Bool := decide (part = [dot] ∨ part = [dot, dot])

/-- The parts in order, up to the first of which nothing is left. -/
def cleanSegments : List CodePoints → Except DestinationError (List CodePoints)
  | [] => .ok []
  | part :: parts =>
    if cleanSegment chars part = [] then .error (.segment part)
    else (cleanSegments parts).map (cleanSegment chars part :: ·)

def joinSegments (segments : List CodePoints) : CodePoints :=
  List.intercalate [separator] segments

def subdirParts (text : CodePoints) : List CodePoints := (rawParts text).filter (· ≠ [])

def sanitizeSubdir (text : CodePoints) : Except DestinationError CodePoints :=
  if (rawParts text).any isDots then .error .traversal
  else if subdirParts text = [] then .error .required
  else (cleanSegments chars (subdirParts text)).map joinSegments

/-! ## The file -/

def inFilename (c : CodePoint) : Bool :=
  chars.isAlnum c || decide (c ∈ [underscore, 0x2d, dot, 0x28, 0x29, 0x5b, 0x5d])

def cleanName (text : CodePoints) : CodePoints :=
  (text.strip.map fun c => if c ∈ [backslash, separator, 0x20] then underscore else c).filter
    (inFilename chars)

/-- `Path(name).suffix` of a single segment. -/
def suffix (name : CodePoints) : CodePoints :=
  match name.rfind dot with
  | some i => if 0 < i ∧ i < name.length - 1 then name.drop i else []
  | none => []

def hasAllowedExtension (name : CodePoints) : Bool :=
  decide (chars.lower (suffix name) ∈ allowedModelExtensions)

def maxFilename : ℕ := 180

def sanitizeFilename (text : CodePoints) : Except DestinationError CodePoints :=
  let clean := cleanName chars text
  if clean = [] ∨ isDots clean then .error .filename
  else if hasAllowedExtension chars clean = false then .error .extension
  else .ok (clean.take maxFilename)

end Sanitize

/-- One component of a path, where the components before it have led. -/
def enter (stack : List CodePoints) (segment : CodePoints) : List CodePoints :=
  if segment = [] ∨ segment = [dot] then stack
  else if segment = [dot, dot] then stack.dropLast
  else stack ++ [segment]

/-- The components of the normal form of `root / subdir / filename`. -/
def installPath (root : List CodePoints) (subdir filename : CodePoints) : List CodePoints :=
  ((subdir ++ separator :: filename).splitOn separator).foldl enter root

/-! ## Segments -/

section Segments
variable {chars : CharClasses} {text : CodePoints}

/-- A component that leads one step down. -/
def Proper (segment : CodePoints) : Prop := segment ≠ [] ∧ isDots segment = false

theorem Proper.enter {segment : CodePoints} (h : Proper segment) (stack : List CodePoints) :
    enter stack segment = stack ++ [segment] := by
  obtain ⟨hne, hdots⟩ := h
  rw [isDots, decide_eq_false_iff_not, not_or] at hdots
  rw [ModelManager.enter, if_neg (not_or.mpr ⟨hne, hdots.1⟩), if_neg hdots.2]

theorem foldl_enter {segments : List CodePoints} (h : ∀ s ∈ segments, Proper s)
    (stack : List CodePoints) : segments.foldl enter stack = stack ++ segments := by
  induction segments generalizing stack with
  | nil => exact (List.append_nil stack).symm
  | cons s segments ih =>
    rw [List.foldl_cons, (h s List.mem_cons_self).enter,
      ih fun s' hs' => h s' (List.mem_cons_of_mem _ hs'), List.append_assoc]
    rfl

theorem separator_not_inSegment : inSegment chars separator = false := by
  rw [inSegment, chars.alnum_separator]
  decide

theorem backslash_not_inSegment : inSegment chars backslash = false := by
  rw [inSegment, chars.alnum_backslash]
  decide

theorem of_mem_cleanSegment {part : CodePoints} {c : CodePoint} (h : c ∈ cleanSegment chars part) :
    inSegment chars c = true := (List.mem_filter.mp h).2

theorem separator_not_mem_cleanSegment (part : CodePoints) :
    separator ∉ cleanSegment chars part := by
  intro h
  have hin := of_mem_cleanSegment h
  rw [separator_not_inSegment] at hin
  cases hin

theorem cleanSegment_cleanSegment (part : CodePoints) :
    cleanSegment chars (cleanSegment chars part) = cleanSegment chars part :=
  List.filter_eq_self.mpr fun _ hc => of_mem_cleanSegment hc

theorem cleanSegments_eq {parts : List CodePoints}
    (h : ∀ part ∈ parts, cleanSegment chars part ≠ []) :
    cleanSegments chars parts = .ok (parts.map (cleanSegment chars)) := by
  induction parts with
  | nil => rfl
  | cons part parts ih =>
    rw [cleanSegments, if_neg (h part List.mem_cons_self),
      ih fun p hp => h p (List.mem_cons_of_mem _ hp)]
    rfl

theorem cleanSegments_ok {parts segments : List CodePoints}
    (h : cleanSegments chars parts = .ok segments) :
    ∀ part ∈ parts, cleanSegment chars part ≠ [] := by
  induction parts generalizing segments with
  | nil => exact fun part hp => absurd hp List.not_mem_nil
  | cons part parts ih =>
    rw [cleanSegments] at h
    split at h
    · cases h
    · rename_i hne
      cases hrest : cleanSegments chars parts with
      | error e =>
        rw [hrest] at h
        cases h
      | ok rest =>
        intro p hp
        rcases List.mem_cons.mp hp with rfl | hp
        · exact hne
        · exact ih hrest p hp

/-- The segments a directory is made of. -/
def segmentsOf (chars : CharClasses) (text : CodePoints) : List CodePoints :=
  (subdirParts text).map (cleanSegment chars)

/-- The texts that are turned away: a traversal segment, no segment, or one of which nothing is
left. -/
structure SubdirTaken (chars : CharClasses) (text : CodePoints) : Prop where
  no_dots : (rawParts text).any isDots = false
  some_part : subdirParts text ≠ []
  no_empty : ∀ part ∈ subdirParts text, cleanSegment chars part ≠ []

theorem sanitizeSubdir_ok_iff {r : CodePoints} : sanitizeSubdir chars text = .ok r ↔
    SubdirTaken chars text ∧ r = joinSegments (segmentsOf chars text) := by
  unfold sanitizeSubdir
  constructor
  · intro h
    split at h
    · cases h
    · rename_i hdots
      split at h
      · cases h
      · rename_i hparts
        cases hsegments : cleanSegments chars (subdirParts text) with
        | error e =>
          rw [hsegments] at h
          cases h
        | ok segments =>
          have hne := cleanSegments_ok hsegments
          rw [cleanSegments_eq hne] at h
          exact ⟨⟨Bool.eq_false_iff.mpr hdots, hparts, hne⟩, (Except.ok.inj h).symm⟩
  · rintro ⟨⟨hdots, hparts, hne⟩, rfl⟩
    rw [if_neg (Bool.eq_false_iff.mp hdots), if_neg hparts, cleanSegments_eq hne]
    rfl

theorem splitOn_joinSegments (h : subdirParts text ≠ []) :
    (joinSegments (segmentsOf chars text)).splitOn separator = segmentsOf chars text := by
  refine List.splitOn_intercalate separator (fun l hl => ?_) ?_
  · obtain ⟨part, -, rfl⟩ := List.mem_map.mp hl
    exact separator_not_mem_cleanSegment part
  · rwa [segmentsOf, Ne, List.map_eq_nil_iff]

/-- The result splits into the segments again. -/
theorem rawParts_joinSegments (h : subdirParts text ≠ []) :
    rawParts (joinSegments (segmentsOf chars text)) = segmentsOf chars text := by
  have hsame : (joinSegments (segmentsOf chars text)).map
      (fun c => if c = backslash then separator else c) = joinSegments (segmentsOf chars text) := by
    conv_rhs => rw [← List.map_id (joinSegments (segmentsOf chars text))]
    refine List.map_congr_left fun c hc => if_neg ?_
    rintro rfl
    rcases PosixPath.mem_intercalate hc with hc | ⟨s, hs, hc⟩
    · exact absurd (List.mem_singleton.mp hc) (by decide)
    · obtain ⟨part, -, rfl⟩ := List.mem_map.mp hs
      have hin := of_mem_cleanSegment hc
      rw [backslash_not_inSegment] at hin
      cases hin
  rw [rawParts, hsame, splitOn_joinSegments h]

/-- No segment becomes a traversal segment by what is left out of it. -/
def NoHiddenDots (chars : CharClasses) (text : CodePoints) : Prop :=
  ∀ segment ∈ segmentsOf chars text, isDots segment = false

theorem proper_segments (h : SubdirTaken chars text) (hdots : NoHiddenDots chars text) :
    ∀ segment ∈ segmentsOf chars text, Proper segment := by
  intro segment hs
  obtain ⟨part, hpart, rfl⟩ := List.mem_map.mp hs
  exact ⟨h.no_empty part hpart, hdots _ hs⟩

theorem sanitizeSubdir_again (h : SubdirTaken chars text) (hdots : NoHiddenDots chars text) :
    sanitizeSubdir chars (joinSegments (segmentsOf chars text)) =
      .ok (joinSegments (segmentsOf chars text)) := by
  have hraw : rawParts (joinSegments (segmentsOf chars text)) = segmentsOf chars text :=
    rawParts_joinSegments h.some_part
  have hparts : subdirParts (joinSegments (segmentsOf chars text)) = segmentsOf chars text := by
    rw [subdirParts, hraw, List.filter_eq_self]
    exact fun segment hs => decide_eq_true (proper_segments h hdots segment hs).1
  have hclean : (segmentsOf chars text).map (cleanSegment chars) = segmentsOf chars text := by
    rw [segmentsOf, List.map_map]
    exact List.map_congr_left fun part _ => cleanSegment_cleanSegment part
  refine sanitizeSubdir_ok_iff.mpr ⟨⟨?_, ?_, ?_⟩, ?_⟩
  · rw [hraw, List.any_eq_false]
    exact fun segment hs => Bool.eq_false_iff.mp (hdots segment hs)
  · rw [hparts, segmentsOf, Ne, List.map_eq_nil_iff]
    exact h.some_part
  · intro part hpart
    rw [hparts] at hpart
    obtain ⟨own, hown, rfl⟩ := List.mem_map.mp hpart
    rw [cleanSegment_cleanSegment]
    exact h.no_empty own hown
  · change _ = joinSegments ((subdirParts _).map (cleanSegment chars))
    rw [hparts, hclean]

/-- What a directory has to be when it is not turned away. -/
def SubdirSafe (chars : CharClasses) (text : CodePoints) : Prop :=
  ∀ r, sanitizeSubdir chars text = .ok r →
    (∀ segment ∈ r.splitOn separator, Proper segment) ∧ sanitizeSubdir chars r = .ok r

theorem subdirSafe_iff : SubdirSafe chars text ↔
    (SubdirTaken chars text → NoHiddenDots chars text) := by
  constructor
  · intro h htaken segment hs
    have hproper := (h _ (sanitizeSubdir_ok_iff.mpr ⟨htaken, rfl⟩)).1
    rw [splitOn_joinSegments htaken.some_part] at hproper
    exact (hproper segment hs).2
  · intro h r hr
    obtain ⟨htaken, rfl⟩ := sanitizeSubdir_ok_iff.mp hr
    rw [splitOn_joinSegments htaken.some_part]
    exact ⟨proper_segments htaken (h htaken), sanitizeSubdir_again htaken (h htaken)⟩

end Segments

/-! ## Names -/

section Names
variable {chars : CharClasses} {text r : CodePoints}

structure FilenameTaken (chars : CharClasses) (text : CodePoints) : Prop where
  not_empty : cleanName chars text ≠ []
  no_dots : isDots (cleanName chars text) = false
  allowed : hasAllowedExtension chars (cleanName chars text) = true

theorem sanitizeFilename_ok_iff : sanitizeFilename chars text = .ok r ↔
    FilenameTaken chars text ∧ r = (cleanName chars text).take maxFilename := by
  unfold sanitizeFilename
  dsimp only
  constructor
  · intro h
    split at h
    · cases h
    · rename_i hname
      rw [not_or] at hname
      split at h
      · cases h
      · rename_i hext
        exact ⟨⟨hname.1, Bool.eq_false_iff.mpr hname.2, Bool.eq_true_of_not_eq_false hext⟩,
          (Except.ok.inj h).symm⟩
  · rintro ⟨⟨hne, hdots, hext⟩, rfl⟩
    rw [if_neg (not_or.mpr ⟨hne, Bool.eq_false_iff.mp hdots⟩), if_neg (by simp [hext])]

/-- A character that stays is no blank and no separator. -/
theorem inFilename_facts {c : CodePoint} (h : inFilename chars c = true) :
    PyText.isSpaceCode c.val = false ∧ c ∉ [backslash, separator, 0x20] := by
  rw [inFilename, Bool.or_eq_true, decide_eq_true_iff] at h
  rcases h with halnum | hmem
  · constructor
    · by_contra hspace
      rw [Bool.not_eq_false] at hspace
      rw [chars.alnum_space c hspace] at halnum
      cases halnum
    · intro hmem
      simp only [List.mem_cons, List.not_mem_nil, or_false] at hmem
      rcases hmem with rfl | rfl | rfl
      · rw [chars.alnum_backslash] at halnum
        cases halnum
      · rw [chars.alnum_separator] at halnum
        cases halnum
      · rw [chars.alnum_space _ (by decide)] at halnum
        cases halnum
  · simp only [List.mem_cons, List.not_mem_nil, or_false] at hmem
    rcases hmem with rfl | rfl | rfl | rfl | rfl | rfl | rfl <;> decide

theorem mem_cut {c : CodePoint} (h : c ∈ (cleanName chars text).take maxFilename) :
    inFilename chars c = true := (List.mem_filter.mp (List.mem_of_mem_take h)).2

theorem cleanName_cut : cleanName chars ((cleanName chars text).take maxFilename) =
    (cleanName chars text).take maxFilename := by
  generalize hcut : (cleanName chars text).take maxFilename = name
  have hname : ∀ c ∈ name, inFilename chars c = true := by
    subst hcut
    exact fun c hc => mem_cut hc
  have hstrip : CodePoints.strip name = name :=
    PyText.stripWhere_eq_self fun c hc => (inFilename_facts (hname c hc)).1
  have hmap : name.map (fun c => if c ∈ [backslash, separator, 0x20] then underscore else c) =
      name := by
    conv_rhs => rw [← List.map_id name]
    exact List.map_congr_left fun c hc => if_neg (inFilename_facts (hname c hc)).2
  rw [cleanName, hstrip, hmap]
  exact List.filter_eq_self.mpr hname

/-- The part of a name that is kept keeps an allowed extension. -/
def KeepsExtension (chars : CharClasses) (text : CodePoints) : Prop :=
  hasAllowedExtension chars ((cleanName chars text).take maxFilename) = true

theorem proper_cut (h : FilenameTaken chars text) :
    Proper ((cleanName chars text).take maxFilename) := by
  by_cases hlen : (cleanName chars text).length ≤ maxFilename
  · rw [List.take_of_length_le hlen]
    exact ⟨h.not_empty, h.no_dots⟩
  · have hcut : ((cleanName chars text).take maxFilename).length = maxFilename :=
      List.length_take_of_le (not_le.mp hlen).le
    refine ⟨List.ne_nil_of_length_pos (by rw [hcut]; decide), decide_eq_false ?_⟩
    rintro (hdots | hdots) <;> rw [hdots] at hcut <;> exact absurd hcut (by decide)

theorem sanitizeFilename_again (h : FilenameTaken chars text) (hkeeps : KeepsExtension chars text) :
    sanitizeFilename chars ((cleanName chars text).take maxFilename) =
      .ok ((cleanName chars text).take maxFilename) := by
  obtain ⟨hne, hdots⟩ := proper_cut h
  refine sanitizeFilename_ok_iff.mpr ⟨⟨?_, ?_, ?_⟩, ?_⟩ <;> rw [cleanName_cut]
  · exact hne
  · exact hdots
  · exact hkeeps
  · rw [List.take_take, min_self]

/-- What a name has to be when it is not turned away. -/
def FilenameSafe (chars : CharClasses) (text : CodePoints) : Prop :=
  ∀ r, sanitizeFilename chars text = .ok r →
    r ≠ [] ∧ separator ∉ r ∧ hasAllowedExtension chars r = true ∧ sanitizeFilename chars r = .ok r

theorem filenameSafe_iff : FilenameSafe chars text ↔
    (FilenameTaken chars text → KeepsExtension chars text) := by
  constructor
  · exact fun h htaken => (h _ (sanitizeFilename_ok_iff.mpr ⟨htaken, rfl⟩)).2.2.1
  · intro h r hr
    obtain ⟨htaken, rfl⟩ := sanitizeFilename_ok_iff.mp hr
    refine ⟨(proper_cut htaken).1, fun hsep => ?_, h htaken,
      sanitizeFilename_again htaken (h htaken)⟩
    exact (inFilename_facts (mem_cut hsep)).2 (by decide)

end Names

/-! ## The place of a file -/

/-- The path goes down from the root through every segment to a file of an allowed kind. -/
def InstalledBelow (chars : CharClasses) (subdir filename : CodePoints) : Prop :=
  ∀ d f, sanitizeSubdir chars subdir = .ok d → sanitizeFilename chars filename = .ok f →
    (∀ root, installPath root d f = root ++ d.splitOn separator ++ [f]) ∧
      hasAllowedExtension chars f = true

theorem installPath_eq {chars : CharClasses} {subdir filename : CodePoints} (root : List CodePoints)
    (hsub : SubdirTaken chars subdir) (hdots : NoHiddenDots chars subdir)
    (hname : FilenameTaken chars filename) :
    installPath root (joinSegments (segmentsOf chars subdir))
        ((cleanName chars filename).take maxFilename) =
      root ++ segmentsOf chars subdir ++ [(cleanName chars filename).take maxFilename] := by
  have hsep : separator ∉ (cleanName chars filename).take maxFilename :=
    fun hin => (inFilename_facts (mem_cut hin)).2 (by decide)
  rw [installPath, List.splitOn_append_cons_self, splitOn_joinSegments hsub.some_part,
    List.splitOn_eq_singleton hsep, foldl_enter, List.append_assoc]
  intro segment hs
  rcases List.mem_append.mp hs with hs | hs
  · exact proper_segments hsub hdots segment hs
  · rw [List.mem_singleton.mp hs]
    exact proper_cut hname

/-- A directory and a name are sanitised for good, and lead to a file below the root, unless a
segment turns into dots or the cut takes the extension away. -/
theorem destination_safe_iff (chars : CharClasses) (subdir filename : CodePoints) :
    (SubdirSafe chars subdir ∧ FilenameSafe chars filename ∧ InstalledBelow chars subdir filename) ↔
      (SubdirTaken chars subdir → NoHiddenDots chars subdir) ∧
        (FilenameTaken chars filename → KeepsExtension chars filename) := by
  rw [subdirSafe_iff, filenameSafe_iff]
  constructor
  · exact fun h => ⟨h.1, h.2.1⟩
  · rintro ⟨hsub, hname⟩
    refine ⟨hsub, hname, fun d f hd hf => ?_⟩
    obtain ⟨htaken, rfl⟩ := sanitizeSubdir_ok_iff.mp hd
    obtain ⟨htaken', rfl⟩ := sanitizeFilename_ok_iff.mp hf
    rw [splitOn_joinSegments htaken.some_part]
    exact ⟨fun root => installPath_eq root htaken (hsub htaken) htaken', hname htaken'⟩

/-! ## What is left out -/

/-- Letters and digits of ASCII. -/
def asciiClasses : CharClasses where
  isAlnum c := decide (48 ≤ c.val ∧ c.val ≤ 57 ∨ 65 ≤ c.val ∧ c.val ≤ 90 ∨ 97 ≤ c.val ∧ c.val ≤ 122)
  lower t := t.lower
  repr t := t
  alnum_space c hc := by
    have hcodes : ∀ n ∈ PyText.spaceCodes,
        ¬(48 ≤ n ∧ n ≤ 57 ∨ 65 ≤ n ∧ n ≤ 90 ∨ 97 ≤ n ∧ n ≤ 122) := by decide
    exact decide_eq_false (hcodes c.val (List.contains_iff_mem.mp hc))
  alnum_separator := by decide
  alnum_backslash := by decide

/-- `. .` becomes `..`, which leads out of the root, and 180 characters of a longer name have no
extension any more. -/
theorem dots_are_hidden :
    sanitizeSubdir asciiClasses (CodePoints.ofString ". .") = .ok (CodePoints.ofString "..") ∧
      installPath [CodePoints.ofString "models"] (CodePoints.ofString "..")
        (CodePoints.ofString "m.ckpt") = [CodePoints.ofString "m.ckpt"] ∧
      ¬SubdirSafe asciiClasses (CodePoints.ofString ". .") ∧
      ¬FilenameSafe asciiClasses (List.replicate 180 0x61 ++ CodePoints.ofString ".ckpt") := by
  have hdots : sanitizeSubdir asciiClasses (CodePoints.ofString ". .") =
      .ok (CodePoints.ofString "..") := by decide +kernel
  have hcut : sanitizeFilename asciiClasses
      (List.replicate 180 0x61 ++ CodePoints.ofString ".ckpt") =
        .ok (List.replicate 180 0x61) := by decide +kernel
  refine ⟨hdots, by decide +kernel, fun h => ?_, fun h => ?_⟩
  · have hproper := (h _ hdots).1 (CodePoints.ofString "..") (by decide +kernel)
    exact absurd hproper.2 (by decide)
  · exact absurd (h _ hcut).2.2.1 (by decide +kernel)

end OpenClaw.ModelManager
