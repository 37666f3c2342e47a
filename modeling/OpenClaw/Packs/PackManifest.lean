import OpenClaw.Foundation.FileTree
import OpenClaw.Foundation.JsonLayout
import OpenClaw.Foundation.PosixPath

/-!
# Pack manifests

`services/packs/pack_manifest.py`: the schema of `pack.json`, the check of a tree against its
manifest, and the making of a manifest.
-/

namespace OpenClaw.Packs

open Foundation FileTree

set_option autoImplicit false

def maxManifestFiles : ℕ := 1000
def maxFileSizeMb : ℕ := 100

def slash : CodeUnit := 0x2f
def backslash : CodeUnit := 0x5c
def period : CodeUnit := 0x2e

/-- What the standard library does: SHA-256 in hexadecimal, NFKC, the size of deflated data, and the
texts of floats. NFKC keeps ASCII as it is, and dots and backslashes compose with nothing. -/
structure PackEnv (φ : Type) where
  sha256 : Bytes → PyStr
  nfkc : PyStr → PyStr
  deflated : Bytes → ℕ
  floats : Json.FloatFormat φ
  nfkc_ascii : ∀ s : PyStr, (∀ u ∈ s, u.val < 0x80) → nfkc s = s
  nfkc_backslash : ∀ s, backslash ∈ s → backslash ∈ nfkc s
  nfkc_dots : ∀ s, [period, period] <:+: s → [period, period] <:+: nfkc s

inductive IntegrityError where
  | tooManyFiles
  | invalidPath (path : PyStr)
  | missingFile (path : PyStr)
  | notAFile (path : PyStr)
  | hashMismatch (path : PyStr)
  | unlistedFile (path : PyStr)
  deriving DecidableEq

/-- Why a pack is refused. `raised` is an exception of the interpreter at data of another shape than
the code expects. -/
inductive PackFailure where
  | raised
  | missingField (field : String)
  | missingMinimumVersion
  | invalidType
  | archiveNotFound
  | tooManyFiles (count : ℕ)
  | contentTooLarge (size : ℕ)
  | ratioTooHigh
  | unsafeFilename (filename : PyStr)
  | symlink (filename : PyStr)
  | codeSafety (filename : PyStr)
  | missingManifest
  | missingPackJson
  | invalidJson
  | integrity (errors : List IntegrityError)
  | emptySegment (label : String)
  | invalidSegment (label : String)
  | dotSegment (label : String)
  | alreadyInstalled
  deriving DecidableEq

def manifestName : PyStr := PyStr.ofString "manifest.json"
def packJsonName : PyStr := PyStr.ofString "pack.json"

variable {φ : Type}

/-- `value.get(key)` of a dictionary that has the key. -/
def get? (fields : List (PyStr × Json φ)) (key : String) : Option (Json φ) :=
  (fields.find? fun f => f.1 = PyStr.ofString key).map Prod.snd

/-- The path from the base directory, as `os.path.relpath` spells it. -/
def pathText (p : Path) : PyStr := List.intercalate [slash] p

/-- `.replace("\\", "/")`. -/
def forwardSlashes (s : PyStr) : PyStr := s.map fun u => if u = backslash then slash else u

/-! ## `pack.json` -/

def packTypes : List PyStr := ["preset", "template", "profile"].map PyStr.ofString

def requiredFields : List String := ["name", "version", "type", "author"]

def isPackType : Option (Json φ) → Bool
  | some (.str s) => s ∈ packTypes
  | _ => false

/-- `key in data`; of what holds nothing, the question raises. -/
def contains? (data : Json φ) (key : String) : Option Bool :=
  match data with
  | .obj fields => some (get? fields key).isSome
  | .arr items => some (items.any fun item =>
      match item with
      | .str s => s = PyStr.ofString key
      | _ => false)
  | .str s => some (decide (PyStr.ofString key <:+: s))
  | _ => none

def requireField (data : Json φ) (field : String) : Except PackFailure Unit :=
  match contains? data field with
  | none => .error .raised
  | some false => .error (.missingField field)
  | some true => .ok ()

def checkMinimumVersion (data : Json φ) : Except PackFailure Unit :=
  if contains? data "min_openclaw_version" = some false ∧
      contains? data "min_moltbot_version" = some false then
    .error .missingMinimumVersion
  else .ok ()

def checkPackType : Json φ → Except PackFailure Unit
  | .obj fields => if isPackType (get? fields "type") then .ok () else .error .invalidType
  | _ => .error .raised

def validatePackMetadata (data : Json φ) : Except PackFailure Unit := do
  requiredFields.forM (requireField data)
  checkMinimumVersion data
  checkPackType data

/-! ## Integrity -/

structure ManifestItem (φ : Type) where
  path : PyStr
  sha256 : Option (Json φ)

/-- An item with a path; the loop raises at every other one. -/
def manifestItem? : Json φ → Option (ManifestItem φ)
  | .obj fields =>
    match get? fields "path" with
    | some (.str path) => some ⟨path, get? fields "sha256"⟩
    | _ => none
  | _ => none

/-- `manifest.get("files", [])`, where its length and its elements can be taken. -/
def listedFiles? : Json φ → Option (List (Json φ))
  | .obj fields =>
    match get? fields "files" with
    | none => some []
    | some (.arr items) => some items
    | some (.str []) => some []
    | some (.obj []) => some []
    | _ => none
  | _ => none

def isTraversal (path : PyStr) : Bool :=
  [period, period] <:+: path ∨ path.head? = some slash ∨ backslash ∈ path

/-- What the text leads to from the base directory. A text that ends in a slash or in the directory
itself names no file. -/
def nodeAt (tree : Tree) (path : PyStr) : Option Node :=
  let parts := path.splitOn slash
  let node := if PosixPath.components path = [] then some .dir
    else node? tree (PosixPath.components path)
  match node with
  | some (.file content) =>
    if parts.getLast? = some [] ∨ parts.getLast? = some [period] then none else some (.file content)
  | other => other

def checkItem (env : PackEnv φ) (tree : Tree) (item : ManifestItem φ) : Option IntegrityError :=
  if isTraversal item.path then some (.invalidPath item.path)
  else
    match nodeAt tree item.path with
    | none => some (.missingFile item.path)
    | some .dir => some (.notAFile item.path)
    | some (.file content) =>
      match item.sha256 with
      | some (.str expected) =>
        if env.sha256 content = expected then none else some (.hashMismatch item.path)
      | _ => some (.hashMismatch item.path)

def allowedExtras : List PyStr := [manifestName, packJsonName]

/-- The files of the tree that the manifest does not list. -/
def unlistedFiles (tree : Tree) (listed : List PyStr) : List IntegrityError :=
  (files tree).filterMap fun f =>
    let relPath := forwardSlashes (pathText f.1)
    if relPath ∈ allowedExtras then none
    else if relPath ∈ listed then none
    else some (.unlistedFile relPath)

/-- `validate_manifest_integrity`; the error is an exception. -/
def validateManifestIntegrity (env : PackEnv φ) (tree : Tree) (manifest : Json φ) :
    Except PackFailure (List IntegrityError) :=
  match listedFiles? manifest with
  | none => .error .raised
  | some listed =>
    if maxManifestFiles < listed.length then .ok [.tooManyFiles]
    else
      match listed.mapM manifestItem? with
      | none => .error .raised
      | some items =>
        .ok (items.filterMap (checkItem env tree) ++
          unlistedFiles tree (items.map ManifestItem.path))

/-! ## Making a manifest -/

/-- The entry of a file; a manifest is in no manifest. -/
def manifestEntry (env : PackEnv φ) (f : Path × Bytes) : Option (PyStr × Json φ) :=
  if f.1.getLast? = some manifestName then none
  else
    let relPath := forwardSlashes (pathText f.1)
    some (relPath, .obj [(PyStr.ofString "path", .str relPath),
      (PyStr.ofString "sha256", .str (env.sha256 f.2)),
      (PyStr.ofString "size", .int f.2.length)])

def filesList (env : PackEnv φ) (tree : Tree) : List (Json φ) :=
  (sortedBy (fun e => e.1.codePoints) ((files tree).filterMap (manifestEntry env))).map Prod.snd

/-- The manifest: the keys of the metadata come behind the list of files. -/
def manifestOf (env : PackEnv φ) (tree : Tree) (metadata : List (PyStr × Json φ)) : Json φ :=
  .obj (Json.dict (
    [(PyStr.ofString "version",
        (get? metadata "version").getD (.str (PyStr.ofString "0.0.0"))),
      (PyStr.ofString "files", .arr (filesList env tree))] ++
    (Json.sortFields metadata).filter fun f => f.1 ≠ PyStr.ofString "version"))

/-- `json.dump(manifest, f, indent=2, sort_keys=True)` and a line feed. -/
def manifestText (env : PackEnv φ) (manifest : Json φ) : List Char :=
  Json.dumpsIndent env.floats.repr manifest.sortKeys ++ ['\n']

/-- `create_manifest`: the tree with its manifest; `none` is an `OSError`. -/
def createManifest (env : PackEnv φ) (tree : Tree) (metadata : List (PyStr × Json φ)) :
    Option Tree :=
  write tree [manifestName] (utf8 (manifestText env (manifestOf env tree metadata)))

/-!
## Pack archives

`services/packs/pack_archive.py`: the archive of a tree, and the extraction of an archive with the
checks before it. What is verified lies in a temporary directory; the last steps delete what was at
the target and copy.
-/

section Archive

variable {φ : Type} (env : PackEnv φ)

def maxCompressionRatio : ℕ := 100

/-- A member as `zipfile` reads it; `none` is content that cannot be read. -/
structure ZipInfo where
  filename : PyStr
  fileSize : ℕ
  compressSize : ℕ
  externalAttr : ℕ
  content : Option Bytes

/-! ## Making an archive -/

/-- `0o100644 << 16`. -/
def regularFileAttr : ℕ := 0x81a40000

def zipInfo (f : Path × Bytes) : ZipInfo where
  filename := pathText f.1
  fileSize := f.2.length
  compressSize := env.deflated f.2
  externalAttr := regularFileAttr
  content := some f.2

/-- The members of the archive, as they are read again. -/
def archiveMembers (sourceDir : Tree) : List ZipInfo :=
  (sortedBy (fun f => (pathText f.1).codePoints) (files sourceDir)).map (zipInfo env)

/-- The name has an encoding. -/
def checkEncoding (info : ZipInfo) : Except PackFailure Unit :=
  if info.filename.chars?.isSome then .ok () else .error .raised

def createPackArchive (sourceDir : Tree) : Except PackFailure (List ZipInfo) := do
  (archiveMembers env sourceDir).forM checkEncoding
  .ok (archiveMembers env sourceDir)

/-! ## Checks -/

def totalSize (infos : List ZipInfo) : ℕ := (infos.map ZipInfo.fileSize).sum

def compressedSize (infos : List ZipInfo) : ℕ := (infos.map ZipInfo.compressSize).sum

def checkLimits (infos : List ZipInfo) : Except PackFailure Unit :=
  if maxManifestFiles < infos.length then .error (.tooManyFiles infos.length)
  else if maxFileSizeMb * 1024 * 1024 < totalSize infos then
    .error (.contentTooLarge (totalSize infos))
  else if 0 < compressedSize infos ∧ maxCompressionRatio * compressedSize infos < totalSize infos then
    .error .ratioTooHigh
  else .ok ()

def isUnsafeName (name : PyStr) : Bool :=
  name.head? = some slash ∨ [period, period] <:+: name ∨ backslash ∈ name ∨ (0x3a : CodeUnit) ∈ name ∨
    name.any fun u => u.val < 0x20

def isSymlink (info : ZipInfo) : Bool := info.externalAttr / 0x10000 % 0x10000 / 0x1000 = 0xa

def checkName (info : ZipInfo) : Except PackFailure Unit :=
  if isUnsafeName (env.nfkc info.filename) then .error (.unsafeFilename info.filename)
  else if isSymlink info then .error (.symlink info.filename)
  else .ok ()

def bytesOf (s : String) : Bytes := utf8 s.toList

/-- The patterns that refuse a pack; the others are looked for to no effect. -/
def blockedPatterns : List Bytes := [bytesOf "exec(", bytesOf "eval("]

def checkCode (info : ZipInfo) : Except PackFailure Unit :=
  if (PyStr.ofString ".py").isSuffixOf info.filename then
    match info.content with
    | none => .error .raised
    | some content =>
      if blockedPatterns.any fun pattern => pattern <:+: content then
        .error (.codeSafety info.filename)
      else .ok ()
  else .ok ()

/-! ## Extraction -/

/-- Where `zipfile` puts a member: empty components and dots are left out. -/
def memberPath (filename : PyStr) : Path :=
  (filename.splitOn slash).filter fun part => part ≠ [] ∧ part ≠ [period] ∧ part ≠ [period, period]

def isDirectoryName (filename : PyStr) : Bool := filename.getLast? = some slash

/-- The member with its name, as `extractall` finds it again: the last one. -/
def contentOf (infos : List ZipInfo) (filename : PyStr) : Option Bytes :=
  (infos.reverse.find? fun info => info.filename = filename).bind ZipInfo.content

def extractMember (infos : List ZipInfo) (tree : Tree) (info : ZipInfo) :
    Except PackFailure Tree :=
  let extracted :=
    if isDirectoryName info.filename then makedirs tree (memberPath info.filename)
    else (contentOf infos info.filename).bind (write tree (memberPath info.filename))
  match extracted with
  | some tree => .ok tree
  | none => .error .raised

def extractAll (infos : List ZipInfo) : Except PackFailure Tree :=
  infos.foldlM (extractMember infos) Table.empty

/-- `json.load` of a text file. -/
def loadJson (content : Bytes) : Except PackFailure (Json φ) :=
  match utf8Decode content with
  | none => .error .raised
  | some text =>
    match Json.loads env.floats.read text with
    | none => .error .invalidJson
    | some j => .ok j

def checkPresent (tree : Tree) (name : PyStr) (missing : PackFailure) : Except PackFailure Unit :=
  if node? tree [name] = none then .error missing else .ok ()

def readFile (tree : Tree) (name : PyStr) : Except PackFailure Bytes :=
  match file? tree [name] with
  | none => .error .raised
  | some content => .ok content

/-- Everything that `extract_pack` checks, with the temporary tree and the metadata. -/
def verifyArchive (archive : Except PackFailure (List ZipInfo)) :
    Except PackFailure (Tree × Json φ) := do
  let infos ← archive
  checkLimits infos
  infos.forM (checkName env)
  infos.forM checkCode
  let tree ← extractAll infos
  checkPresent tree manifestName .missingManifest
  checkPresent tree packJsonName .missingPackJson
  let manifestBytes ← readFile tree manifestName
  let manifest ← loadJson env manifestBytes
  let packBytes ← readFile tree packJsonName
  let packMeta ← loadJson env packBytes
  validatePackMetadata packMeta
  let errors ← validateManifestIntegrity env tree manifest
  if errors = [] then .ok (tree, packMeta) else .error (.integrity errors)

/-! ## Moving into place -/

/-- What fails in the file system: something in the temporary directory, `rmtree` (with what it has
removed by then), `makedirs`, the copying of some entries, or the removal of the temporary
directory at the end. -/
structure Faults where
  temp : Bool
  removal : Option (Path → Bool)
  makedirs : Bool
  copies : Path → Bool
  cleanup : Bool

def noFaults : Faults := ⟨false, none, false, fun _ => false, false⟩

/-- The tree without the entries at certain paths. -/
def without (tree : Tree) (gone : Path → Bool) : Tree :=
  tree.filterMap (fun r => if gone r.1 then none else some r) (by
    intro r r' h
    split at h <;> cases h
    rfl)

/-- `rmtree` of what is at the target, `makedirs` and `copytree`: what is at the target afterwards,
and whether all of it went well. -/
def moveInto (faults : Faults) (source : Tree) (target : Option Tree) : Option Tree × Bool :=
  match target, faults.removal with
  | some old, some removed => (some (without old removed), false)
  | _, _ =>
    if faults.makedirs then (none, false)
    else (some (without source faults.copies),
      !(source.rows.any fun r => faults.copies r.1) && !faults.cleanup)

/-- `extract_pack`, with what is at the target before and after. -/
def extractPack (faults : Faults) (archive : Except PackFailure (List ZipInfo))
    (target : Option Tree) : Except PackFailure (Json φ) × Option Tree :=
  if faults.temp then (.error .raised, target)
  else
    match verifyArchive env archive with
    | .error e => (.error e, target)
    | .ok (tree, packMeta) =>
      let moved := moveInto faults tree target
      (if moved.2 then .ok packMeta else .error .raised, moved.1)

end Archive

end OpenClaw.Packs
