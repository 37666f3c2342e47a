import OpenClaw.Foundation.Checks
import OpenClaw.Packs.PackManifest

/-!
# Installed packs

What is installed is exactly what the manifest lists, and other packs are left alone. Deleting
before copying loses the earlier pack where a step after the deletion fails.
-/

namespace OpenClaw.Packs

open Foundation FileTree

set_option autoImplicit false

/-!
## The pack registry

`services/packs/pack_registry.py` over `resolve_under_root` of `services/safe_io.py`. The registry
is a directory tree of packs, by name and version; nothing in it makes links. A directory of a name
that holds no version holds nothing.
-/

section Registry

variable {φ : Type} (env : PackEnv φ)

/-- The packs by their directory. -/
structure Registry where
  /-- the components of `realpath(packs_dir)` -/
  root : Path
  packs : Table (Prod.fst : Path × Tree → Path)

/-! ## Paths -/

/-- A letter, a digit, a dot, an underscore or a dash. -/
def isSafeUnit (u : CodeUnit) : Bool :=
  (0x61 ≤ u.val ∧ u.val ≤ 0x7a) ∨ (0x41 ≤ u.val ∧ u.val ≤ 0x5a) ∨ (0x30 ≤ u.val ∧ u.val ≤ 0x39) ∨
    u.val ∈ [0x2d, 0x2e, 0x5f]

/-- `_SAFE_SEGMENT_RE.match`, whose `$` also stands before a line feed at the end. -/
def safeSegment (value : PyStr) : Bool :=
  let body := if value.getLast? = some 0x0a then value.dropLast else value
  body ≠ [] ∧ body.all isSafeUnit

/-- `_validate_pack_segment`. What is no string is refused in one way or the other. -/
def validatePackSegment (value : Option (Json φ)) (label : String) : Except PackFailure PyStr :=
  match value with
  | some (.str segment) =>
    if segment = [] then .error (.emptySegment label)
    else if safeSegment segment = false then .error (.invalidSegment label)
    else if segment = [period] ∨ segment = [period, period] then .error (.dotSegment label)
    else .ok segment
  | _ => .error .raised

/-- One component of a path that is being normalized. -/
def pushComponent (stack : Path) (component : PyStr) : Path :=
  if component = [] ∨ component = [period] then stack
  else if component = [period, period] then stack.dropLast
  else stack ++ [component]

/-- `resolve_under_root`. -/
def resolveUnderRoot (root : Path) (relPath : PyStr) : Except PackFailure Path :=
  if PosixPath.isabs relPath then .error .raised
  else if relPath.codePoints[1]? = some 0x3a then .error .raised
  else
    let fullPath := (relPath.splitOn slash).foldl pushComponent root
    if root <+: fullPath then .ok fullPath else .error .raised

/-- The directory of a name and a version. -/
def packDir (root : Path) (name version : Option (Json φ)) : Except PackFailure Path := do
  let name ← validatePackSegment name "name"
  let version ← validatePackSegment version "version"
  resolveUnderRoot root (PosixPath.join name version)

/-! ## Operations -/

def metaField (packMeta : Json φ) (key : String) : Option (Json φ) :=
  match packMeta with
  | .obj fields => get? fields key
  | _ => none

/-- The registry with another tree, or none, at a directory. -/
def Registry.set (reg : Registry) (dir : Path) (tree : Option Tree) : Registry :=
  match tree with
  | some tree => { reg with packs := reg.packs.put (dir, tree) }
  | none => { reg with packs := reg.packs.drop dir }

def Registry.treeAt (reg : Registry) (dir : Path) : Option Tree := (reg.packs.get? dir).map Prod.snd

/-- `install_pack`; `staging` are the faults of `extract_pack` into the staging directory. -/
def installPack (staging faults : Faults) (reg : Registry)
    (archive : Except PackFailure (List ZipInfo)) (overwrite : Bool) :
    Except PackFailure (Json φ) × Registry :=
  match extractPack env staging archive (some Table.empty) with
  | (.error e, _) => (.error e, reg)
  | (.ok _, none) => (.error .raised, reg)
  | (.ok packMeta, some stage) =>
    match packDir reg.root (metaField packMeta "name") (metaField packMeta "version") with
    | .error e => (.error e, reg)
    | .ok dir =>
      if (reg.treeAt dir).isSome ∧ overwrite = false then (.error .alreadyInstalled, reg)
      else
        let moved := moveInto faults stage (reg.treeAt dir)
        (if moved.2 then .ok packMeta else .error .raised, reg.set dir moved.1)

/-- `uninstall_pack`. -/
def uninstallPack (faults : Faults) (reg : Registry) (name version : PyStr) :
    Except PackFailure Bool × Registry :=
  match packDir reg.root (some (.str name : Json φ)) (some (.str version)) with
  | .error e => (.error e, reg)
  | .ok dir =>
    match reg.treeAt dir, faults.removal with
    | none, _ => (.ok false, reg)
    | some old, some removed => (.error .raised, reg.set dir (some (without old removed)))
    | some _, none => (.ok true, reg.set dir none)

/-- The metadata of a pack that `list_packs` finds at a directory. -/
def listedPack (reg : Registry) (dir : Path) : Option (Json φ) :=
  (reg.treeAt dir).bind fun tree =>
    (file? tree [packJsonName]).bind fun content => (loadJson env content).toOption

end Registry

variable {φ : Type} {env : PackEnv φ}

/-! ## Directories -/

/-- A text that stays one component of a path. -/
structure PlainSegment (s : PyStr) : Prop where
  ne_nil : s ≠ []
  ne_dot : s ≠ [period]
  ne_dots : s ≠ [period, period]
  slash_free : slash ∉ s

theorem validatePackSegment_ok {value : Option (Json φ)} {label : String} {s : PyStr}
    (h : validatePackSegment value label = .ok s) : value = some (.str s) ∧ PlainSegment s := by
  unfold validatePackSegment at h
  split at h
  · rename_i segment
    split at h
    · cases h
    rename_i hne
    split at h
    · cases h
    rename_i hsafe
    split at h
    · cases h
    rename_i hdots
    cases h
    obtain ⟨hdot, hdots⟩ := not_or.mp hdots
    refine ⟨rfl, hne, hdot, hdots, fun hslash => ?_⟩
    rw [Bool.not_eq_false, safeSegment, decide_eq_true_eq] at hsafe
    have hall := List.all_eq_true.mp hsafe.2
    have hunsafe : isSafeUnit slash = false := by decide
    split at hall
    · rename_i hlast
      have hsplit := List.dropLast_append_getLast? _ hlast
      rw [← hsplit, List.mem_append] at hslash
      rcases hslash with hslash | hslash
      · rw [hall _ hslash] at hunsafe
        cases hunsafe
      · revert hslash
        decide
    · rw [hall _ hslash] at hunsafe
      cases hunsafe
  · cases h

theorem join_plain {n v : PyStr} (hn : PlainSegment n) (hv : PlainSegment v) :
    PosixPath.join n v = pathText [n, v] := by
  have hv' : PosixPath.isabs v = false := by
    unfold PosixPath.isabs
    refine decide_eq_false fun hhead => hv.slash_free ?_
    exact List.mem_of_mem_head? hhead
  have hn' : ¬(n = [] ∨ n.getLast? = some PosixPath.slash) := by
    rintro (hnil | hlast)
    · exact hn.ne_nil hnil
    · exact hn.slash_free (List.mem_of_getLast? hlast)
  rw [PosixPath.join, if_neg (by simp [hv']), if_neg hn']
  simp [pathText, List.intercalate, PosixPath.slash, slash]

theorem resolveUnderRoot_plain {root dir : Path} {n v : PyStr} (hn : PlainSegment n)
    (hv : PlainSegment v) (h : resolveUnderRoot root (PosixPath.join n v) = .ok dir) :
    dir = root ++ [n, v] := by
  have hsplit : (PosixPath.join n v).splitOn slash = [n, v] := by
    rw [join_plain hn hv]
    refine List.splitOn_intercalate slash (fun c hc => ?_) (by simp)
    rcases List.mem_pair.mp hc with rfl | rfl
    · exact hn.slash_free
    · exact hv.slash_free
  have hpush : ∀ (stack : Path) {c : PyStr}, PlainSegment c → pushComponent stack c = stack ++ [c] := by
    intro stack c hc
    rw [pushComponent, if_neg (not_or.mpr ⟨hc.ne_nil, hc.ne_dot⟩), if_neg hc.ne_dots]
  unfold resolveUnderRoot at h
  split at h
  · cases h
  split at h
  · cases h
  simp only [hsplit, List.foldl_cons, List.foldl_nil, hpush _ hn, hpush _ hv] at h
  split at h
  · cases h
    simp
  · cases h

/-- The directory has the name and the version as its last two components. -/
theorem packDir_ok {root dir : Path} {name version : Option (Json φ)}
    (h : packDir root name version = .ok dir) :
    ∃ n v, name = some (.str n) ∧ version = some (.str v) ∧ dir = root ++ [n, v] := by
  obtain ⟨n, hname, hrest⟩ := bind_eq_ok h
  obtain ⟨v, hversion, hdir⟩ := bind_eq_ok hrest
  obtain ⟨hn, hplainN⟩ := validatePackSegment_ok hname
  obtain ⟨hv, hplainV⟩ := validatePackSegment_ok hversion
  exact ⟨n, v, hn, hv, resolveUnderRoot_plain hplainN hplainV hdir⟩

theorem treeAt_set (reg : Registry) (dir dir' : Path) (tree : Option Tree) :
    (reg.set dir tree).treeAt dir' = if dir = dir' then tree else reg.treeAt dir' := by
  unfold Registry.treeAt Registry.set
  cases tree with
  | none =>
    rw [Table.get?_drop]
    split <;> rfl
  | some tree =>
    rw [Table.get?_put]
    split <;> rfl

/-! ## What was verified -/

/-- The files of the extracted tree are those of members. -/
theorem extractAll_ok {infos : List ZipInfo} {tree : Tree} (h : extractAll infos = .ok tree) :
    ∀ p content, file? tree p = some content → ∃ info ∈ infos, p = memberPath info.filename := by
  refine foldlM_invariant (P := fun front (t : Tree) => ∀ p content, file? t p = some content →
    ∃ info ∈ front, p = memberPath info.filename) ?_ ?_ h
  · intro p content hp
    cases hp
  · intro front info t t' ht hstep p content hp
    have hextracted : ∃ info' ∈ front ++ [info], p = memberPath info'.filename := by
      have hold : file? t p = some content →
          ∃ info' ∈ front ++ [info], p = memberPath info'.filename := by
        intro hp
        obtain ⟨info', hmem, heq⟩ := ht p content hp
        exact ⟨info', List.mem_append_left _ hmem, heq⟩
      unfold extractMember at hstep
      simp only at hstep
      split at hstep
      · rename_i u hu
        cases hstep
        split at hu
        · rw [file?_mkdirs hu] at hp
          exact hold hp
        · obtain ⟨bytes, -, hwrite⟩ := Option.bind_eq_some_iff.mp hu
          rw [file?_write hwrite] at hp
          split at hp
          · exact ⟨info, List.mem_append_right _ (List.mem_singleton_self info), by assumption⟩
          · exact hold hp
      · cases hstep
    exact hextracted

/-- Names with a backslash are refused. -/
theorem checkName_ok {info : ZipInfo} (h : checkName env info = .ok ()) :
    backslash ∉ info.filename := by
  intro hmem
  have hnorm : backslash ∈ env.nfkc info.filename := env.nfkc_backslash _ hmem
  have hunsafe : isUnsafeName (env.nfkc info.filename) = true := by
    unfold isUnsafeName
    exact decide_eq_true (.inr (.inr (.inl hnorm)))
  rw [checkName, if_pos hunsafe] at h
  cases h

theorem backslash_free_pathText {filename : PyStr} (h : backslash ∉ filename) :
    backslash ∉ pathText (memberPath filename) := by
  intro hmem
  rcases PosixPath.mem_intercalate hmem with hslash | ⟨part, hpart, hmem⟩
  · revert hslash
    decide
  · exact h (PosixPath.mem_of_mem_splitOn (List.mem_filter.mp hpart).1 hmem)

theorem forwardSlashes_eq_self {s : PyStr} (h : backslash ∉ s) : forwardSlashes s = s := by
  unfold forwardSlashes
  conv_rhs => rw [← List.map_id s]
  refine List.map_congr_left fun u hu => if_neg ?_
  rintro rfl
  exact h hu

/-- The tree has exactly the files that its manifest lists, with their hashes, and at most the
manifest and `pack.json` besides. -/
structure ExactlyListed (env : PackEnv φ) (tree : Tree) (manifest : Json φ)
    (items : List (ManifestItem φ)) : Prop where
  manifestFile : ∃ content, file? tree [manifestName] = some content ∧ loadJson env content = .ok manifest
  listing : ∃ listed, listedFiles? manifest = some listed ∧ listed.mapM manifestItem? = some items
  present : ∀ item ∈ items, ∃ content, nodeAt tree item.path = some (.file content) ∧
    item.sha256 = some (.str (env.sha256 content))
  nothingElse : ∀ p content, file? tree p = some content → pathText p ∈ allowedExtras ∨
    ∃ item ∈ items, item.path = pathText p

theorem checkItem_none {tree : Tree} {item : ManifestItem φ} (h : checkItem env tree item = none) :
    ∃ content, nodeAt tree item.path = some (.file content) ∧
      item.sha256 = some (.str (env.sha256 content)) := by
  unfold checkItem at h
  split at h
  · cases h
  split at h
  · cases h
  · cases h
  · rename_i content hnode
    split at h
    · rename_i expected hexpected
      split at h
      · rename_i hhash
        exact ⟨content, hnode, by rw [hexpected, hhash]⟩
      · cases h
    · cases h

theorem unlistedFiles_nil {tree : Tree} {listed : List PyStr} (h : unlistedFiles tree listed = [])
    {p : Path} {content : Bytes} (hp : file? tree p = some content)
    (hplain : backslash ∉ pathText p) : pathText p ∈ allowedExtras ∨ pathText p ∈ listed := by
  have hnone := List.filterMap_eq_nil_iff.mp h (p, content) (mem_files.mpr hp)
  simp only [forwardSlashes_eq_self hplain] at hnone
  split at hnone
  · exact .inl (by assumption)
  · split at hnone
    · exact .inr (by assumption)
    · cases hnone

theorem exactlyListed_of_integrity {tree : Tree} {manifest : Json φ} {content : Bytes}
    (hfile : file? tree [manifestName] = some content) (hload : loadJson env content = .ok manifest)
    (hplain : ∀ p content, file? tree p = some content → backslash ∉ pathText p)
    (h : validateManifestIntegrity env tree manifest = .ok []) :
    ∃ items, ExactlyListed env tree manifest items := by
  unfold validateManifestIntegrity at h
  split at h
  · cases h
  rename_i listed hlisted
  split at h
  · cases h
  split at h
  · cases h
  rename_i items hitems
  rw [Except.ok.injEq, List.append_eq_nil_iff] at h
  refine ⟨items, ⟨content, hfile, hload⟩, ⟨listed, hlisted, hitems⟩, ?_, ?_⟩
  · intro item hitem
    exact checkItem_none (List.filterMap_eq_nil_iff.mp h.1 item hitem)
  · intro p content hp
    rcases unlistedFiles_nil h.2 hp (hplain p content hp) with hextra | hlisted
    · exact .inl hextra
    · exact .inr (List.mem_map.mp hlisted)

theorem readFile_ok {tree : Tree} {name : PyStr} {content : Bytes}
    (h : readFile tree name = .ok content) : file? tree [name] = some content := by
  unfold readFile at h
  split at h
  · cases h
  · cases h
    assumption

theorem verifyArchive_ok {archive : Except PackFailure (List ZipInfo)} {tree : Tree}
    {packMeta : Json φ} (h : verifyArchive env archive = .ok (tree, packMeta)) :
    ∃ manifest items, ExactlyListed env tree manifest items := by
  obtain ⟨infos, -, h⟩ := bind_eq_ok h
  obtain ⟨⟨⟩, -, h⟩ := bind_eq_ok h
  obtain ⟨⟨⟩, hnames, h⟩ := bind_eq_ok h
  obtain ⟨⟨⟩, -, h⟩ := bind_eq_ok h
  obtain ⟨tree', htree, h⟩ := bind_eq_ok h
  obtain ⟨⟨⟩, -, h⟩ := bind_eq_ok h
  obtain ⟨⟨⟩, -, h⟩ := bind_eq_ok h
  obtain ⟨manifestBytes, hbytes, h⟩ := bind_eq_ok h
  obtain ⟨manifest, hmanifest, h⟩ := bind_eq_ok h
  obtain ⟨packBytes, -, h⟩ := bind_eq_ok h
  obtain ⟨packMeta', -, h⟩ := bind_eq_ok h
  obtain ⟨⟨⟩, -, h⟩ := bind_eq_ok h
  obtain ⟨errors, herrors, h⟩ := bind_eq_ok h
  have hplain : ∀ p content, file? tree' p = some content → backslash ∉ pathText p := by
    intro p content hp
    obtain ⟨info, hmem, rfl⟩ := extractAll_ok htree p content hp
    exact backslash_free_pathText (checkName_ok (forM_ok hnames info hmem))
  split at h
  · rename_i hnone
    subst hnone
    cases h
    exact ⟨manifest, exactlyListed_of_integrity (readFile_ok hbytes) hmanifest hplain herrors⟩
  · cases h

/-! ## Into place -/

theorem without_eq_self {tree : Tree} {gone : Path → Bool}
    (h : tree.rows.any (fun r => gone r.1) = false) : without tree gone = tree := by
  refine Table.ext ?_
  have hnone : ∀ r ∈ tree.rows, (if gone r.1 then none else some r) = some r := by
    intro r hr
    exact if_neg (List.any_eq_false.mp h r hr)
  exact (List.filterMap_congr hnone).trans List.filterMap_some

/-- What went well left all of the source. -/
theorem moveInto_ok {faults : Faults} {source : Tree} {target : Option Tree}
    (h : (moveInto faults source target).2 = true) :
    (moveInto faults source target).1 = some source := by
  unfold moveInto at h ⊢
  split at h
  · cases h
  split at h
  · cases h
  rename_i hmake
  rw [Bool.and_eq_true, Bool.not_eq_true', Bool.not_eq_true'] at h
  rw [if_neg hmake]
  exact congrArg some (without_eq_self h.1)

theorem extractPack_ok {faults : Faults} {archive : Except PackFailure (List ZipInfo)}
    {target after : Option Tree} {packMeta : Json φ}
    (h : extractPack env faults archive target = (.ok packMeta, after)) :
    ∃ tree, verifyArchive env archive = .ok (tree, packMeta) ∧ after = some tree := by
  unfold extractPack at h
  split at h
  · cases h
  split at h
  · cases h
  rename_i tree packMeta' hverified
  simp only [Prod.mk.injEq] at h
  obtain ⟨hresult, rfl⟩ := h
  split at hresult
  · rename_i hmoved
    cases hresult
    exact ⟨tree, hverified, moveInto_ok hmoved⟩
  · cases hresult

/-! ## The registry -/

/-- The archive passes every check and is of a pack with this name and version. -/
def IsPack (env : PackEnv φ) (archive : Except PackFailure (List ZipInfo)) (n v : PyStr) : Prop :=
  ∃ tree packMeta, verifyArchive env archive = .ok (tree, packMeta) ∧
    metaField packMeta "name" = some (.str n) ∧ metaField packMeta "version" = some (.str v)

/-- All that an installation can do. -/
theorem installPack_cases (staging faults : Faults) (reg : Registry)
    (archive : Except PackFailure (List ZipInfo)) (overwrite : Bool) :
    (∃ e, installPack env staging faults reg archive overwrite = (.error e, reg)) ∨
    ∃ tree packMeta n v, verifyArchive env archive = .ok (tree, packMeta) ∧
      metaField packMeta "name" = some (.str n) ∧ metaField packMeta "version" = some (.str v) ∧
      let moved := moveInto faults tree (reg.treeAt (reg.root ++ [n, v]))
      installPack env staging faults reg archive overwrite =
        (if moved.2 then .ok packMeta else .error .raised, reg.set (reg.root ++ [n, v]) moved.1) := by
  unfold installPack
  split
  · exact .inl ⟨_, rfl⟩
  · exact .inl ⟨_, rfl⟩
  rename_i packMeta stage hextract
  obtain ⟨tree, hverified, hstage⟩ := extractPack_ok hextract
  cases hstage
  split
  · exact .inl ⟨_, rfl⟩
  rename_i dir hdir
  obtain ⟨n, v, hname, hversion, rfl⟩ := packDir_ok hdir
  split
  · exact .inl ⟨_, rfl⟩
  · exact .inr ⟨stage, packMeta, n, v, hverified, hname, hversion, rfl⟩

theorem uninstallPack_cases (faults : Faults) (reg : Registry) (n v : PyStr) :
    (uninstallPack (φ := φ) faults reg n v).2 = reg ∨
    ∃ left, (uninstallPack (φ := φ) faults reg n v).2 = reg.set (reg.root ++ [n, v]) left := by
  unfold uninstallPack
  split
  · exact .inl rfl
  rename_i dir hdir
  obtain ⟨n', v', hn, hv, rfl⟩ := packDir_ok hdir
  cases hn
  cases hv
  split
  · exact .inl rfl
  · rename_i old removed _ _
    exact .inr ⟨some (without old removed), rfl⟩
  · exact .inr ⟨none, rfl⟩

/-- The files at the directory of a pack and what is listed of it are the same in both. -/
structure Undisturbed (env : PackEnv φ) (reg reg' : Registry) (dir : Path) : Prop where
  filesKept : reg'.treeAt dir = reg.treeAt dir
  listedKept : listedPack env reg' dir = listedPack env reg dir

theorem undisturbed_set (env : PackEnv φ) (reg : Registry) (left : Option Tree) {n v n' v' : PyStr}
    (h : (n', v') ≠ (n, v)) :
    Undisturbed env reg (reg.set (reg.root ++ [n, v]) left) (reg.root ++ [n', v']) := by
  have hne : reg.root ++ [n, v] ≠ reg.root ++ [n', v'] := by
    intro heq
    have hpair := List.append_cancel_left heq
    simp only [List.cons.injEq, and_true] at hpair
    exact h (Prod.ext hpair.1.symm hpair.2.symm)
  have hsame : (reg.set (reg.root ++ [n, v]) left).treeAt (reg.root ++ [n', v']) =
      reg.treeAt (reg.root ++ [n', v']) := by
    rw [treeAt_set, if_neg hne]
  exact ⟨hsame, by rw [listedPack, hsame, listedPack]⟩

/-- What is at the target survives every failure of `extract_pack`. -/
def Survives (env : PackEnv φ) (archive : Except PackFailure (List ZipInfo))
    (target : Option Tree) : Prop :=
  ∀ faults e old, (extractPack env faults archive target).1 = .error e → target = some old →
    (extractPack env faults archive target).2 = some old

/-- Installed packs are what was verified, survive a failure, and are left alone by the others. -/
structure PacksSound (env : PackEnv φ) (reg : Registry)
    (archive : Except PackFailure (List ZipInfo)) (target : Option Tree) : Prop where
  verified : ∀ staging faults overwrite packMeta reg',
    installPack env staging faults reg archive overwrite = (.ok packMeta, reg') →
      ∃ n v tree manifest items, metaField packMeta "name" = some (.str n) ∧
        metaField packMeta "version" = some (.str v) ∧
        reg'.treeAt (reg.root ++ [n, v]) = some tree ∧ ExactlyListed env tree manifest items
  survives : Survives env archive target
  installIsolated : ∀ staging faults overwrite n v, ¬IsPack env archive n v →
    Undisturbed env reg (installPack env staging faults reg archive overwrite).2 (reg.root ++ [n, v])
  uninstallIsolated : ∀ faults n v n' v', (n', v') ≠ (n, v) →
    Undisturbed env reg (uninstallPack (φ := φ) faults reg n v).2 (reg.root ++ [n', v'])

theorem install_verified {staging faults : Faults} {reg reg' : Registry}
    {archive : Except PackFailure (List ZipInfo)} {overwrite : Bool} {packMeta : Json φ}
    (h : installPack env staging faults reg archive overwrite = (.ok packMeta, reg')) :
    ∃ n v tree manifest items, metaField packMeta "name" = some (.str n) ∧
      metaField packMeta "version" = some (.str v) ∧
      reg'.treeAt (reg.root ++ [n, v]) = some tree ∧ ExactlyListed env tree manifest items := by
  rcases installPack_cases staging faults reg archive overwrite with
    ⟨e, he⟩ | ⟨tree, packMeta', n, v, hverified, hname, hversion, hinstall⟩
  · rw [he] at h
    cases h
  rw [hinstall] at h
  simp only [Prod.mk.injEq] at h
  obtain ⟨hresult, rfl⟩ := h
  split at hresult
  · rename_i hmoved
    cases hresult
    obtain ⟨manifest, items, hexact⟩ := verifyArchive_ok hverified
    refine ⟨n, v, tree, manifest, items, hname, hversion, ?_, hexact⟩
    rw [treeAt_set, if_pos rfl, moveInto_ok hmoved]
  · cases hresult

theorem install_isolated (staging faults : Faults) (reg : Registry)
    (archive : Except PackFailure (List ZipInfo)) (overwrite : Bool) {n v : PyStr}
    (h : ¬IsPack env archive n v) :
    Undisturbed env reg (installPack env staging faults reg archive overwrite).2
      (reg.root ++ [n, v]) := by
  rcases installPack_cases staging faults reg archive overwrite with
    ⟨e, he⟩ | ⟨tree, packMeta, n', v', hverified, hname, hversion, hinstall⟩
  · rw [he]
    exact ⟨rfl, rfl⟩
  rw [hinstall]
  refine undisturbed_set env reg _ fun heq => h ?_
  cases heq
  exact ⟨tree, packMeta, hverified, hname, hversion⟩

theorem uninstall_isolated (env : PackEnv φ) (faults : Faults) (reg : Registry) {n v n' v' : PyStr}
    (h : (n', v') ≠ (n, v)) :
    Undisturbed env reg (uninstallPack (φ := φ) faults reg n v).2 (reg.root ++ [n', v']) := by
  rcases uninstallPack_cases (φ := φ) faults reg n v with heq | ⟨left, heq⟩
  · rw [heq]
    exact ⟨rfl, rfl⟩
  · rw [heq]
    exact undisturbed_set env reg left h

/-- `makedirs` fails when the earlier pack has been deleted. -/
def noDirectory : Faults := { noFaults with makedirs := true }

theorem survives_iff {archive : Except PackFailure (List ZipInfo)} {target : Option Tree} :
    Survives env archive target ↔ target = none ∨ ∃ e, verifyArchive env archive = .error e := by
  constructor
  · intro h
    cases htarget : target with
    | none => exact .inl rfl
    | some old =>
      refine .inr ?_
      cases hverified : verifyArchive env archive with
      | error e => exact ⟨e, rfl⟩
      | ok result =>
        have hlost : extractPack env noDirectory archive target = (.error .raised, none) := by
          rw [extractPack, hverified, htarget]
          rfl
        have hkept := h noDirectory .raised old (by rw [hlost]) htarget
        rw [hlost] at hkept
        cases hkept
  · rintro (rfl | ⟨e, he⟩) faults e' old - hold
    · cases hold
    · unfold extractPack
      split
      · exact hold
      · rw [he]
        exact hold

/-- Deleting before copying loses an earlier pack exactly where the archive passes every check. -/
theorem packs_sound_iff (env : PackEnv φ) (reg : Registry)
    (archive : Except PackFailure (List ZipInfo)) (target : Option Tree) :
    PacksSound env reg archive target ↔
      target = none ∨ ∃ e, verifyArchive env archive = .error e := by
  rw [← survives_iff]
  constructor
  · intro h
    exact h.survives
  · intro h
    exact {
      verified := fun _ _ _ _ _ hinstall => install_verified hinstall
      survives := h
      installIsolated := fun staging faults overwrite _ _ hother =>
        install_isolated staging faults reg archive overwrite hother
      uninstallIsolated := fun faults _ _ _ _ hother => uninstall_isolated env faults reg hother }

/-! ## A pack that is lost -/

/-- For texts in ASCII and values without floats. -/
def asciiPackEnv : PackEnv Unit where
  sha256 := fun _ => []
  nfkc := id
  deflated := List.length
  floats := Json.nanOnly
  nfkc_ascii := fun _ _ => rfl
  nfkc_backslash := fun _ h => h
  nfkc_dots := fun _ h => h

def storedMember (name content : String) : ZipInfo where
  filename := PyStr.ofString name
  fileSize := (bytesOf content).length
  compressSize := (bytesOf content).length
  externalAttr := regularFileAttr
  content := some (bytesOf content)

/-- A pack without files of its own. -/
def bareArchive : List ZipInfo :=
  [storedMember "manifest.json" "\x7b\x7d",
   storedMember "pack.json"
     "\x7b\"name\":\"a\",\"version\":\"1\",\"type\":\"preset\",\"author\":\"\",\"min_openclaw_version\":\"1\"\x7d"]

/-- What is there once the pack has been extracted. -/
def bareTarget : Option Tree := (extractPack asciiPackEnv noFaults (.ok bareArchive) none).2

/-- Extracting it again loses it where the directory cannot be made. -/
theorem bareArchive_lost :
    ¬PacksSound asciiPackEnv ⟨[], Table.empty⟩ (.ok bareArchive) bareTarget := by
  intro h
  obtain ⟨old, hold⟩ : ∃ old, bareTarget = some old :=
    Option.isSome_iff_exists.mp (by decide +kernel)
  have hlost : (extractPack asciiPackEnv noDirectory (.ok bareArchive) bareTarget).2 = none :=
    Option.isNone_iff_eq_none.mp (by decide +kernel)
  have hraised : (extractPack asciiPackEnv noDirectory (.ok bareArchive) bareTarget).1.toOption =
      none :=
    Option.isNone_iff_eq_none.mp (by decide +kernel)
  obtain ⟨e, he⟩ : ∃ e, (extractPack asciiPackEnv noDirectory (.ok bareArchive) bareTarget).1 =
      .error e := by
    cases hresult : (extractPack asciiPackEnv noDirectory (.ok bareArchive) bareTarget).1 with
    | error e => exact ⟨e, rfl⟩
    | ok packMeta =>
      rw [hresult] at hraised
      cases hraised
  have hkept := h.survives noDirectory e old he hold
  rw [hlost] at hkept
  cases hkept

end OpenClaw.Packs
