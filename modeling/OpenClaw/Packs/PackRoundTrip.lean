import OpenClaw.Foundation.JsonSorted
import OpenClaw.Packs.InstalledPacks

/-!
# Packing and unpacking

What `create_manifest` lists, `create_pack_archive` packs and `extract_pack` tolerates agree on a
source directory whose only manifest is at its root.
-/

namespace OpenClaw.Packs

open Foundation FileTree

set_option autoImplicit false

variable {φ : Type} {env : PackEnv φ}

/-! ## Names -/

/-- A path below a directory. -/
structure PlainPath (p : Path) : Prop where
  ne_nil : p ≠ []
  plain : ∀ c ∈ p, PlainSegment c

section Names
variable {p q : Path} (hp : PlainPath p)
include hp

theorem splitOn_pathText : (pathText p).splitOn slash = p :=
  List.splitOn_intercalate slash (fun c hc => (hp.plain c hc).slash_free) hp.ne_nil

theorem pathText_injective (hq : PlainPath q) (h : pathText p = pathText q) : p = q := by
  rw [← splitOn_pathText hp, h, splitOn_pathText hq]

theorem memberPath_pathText : memberPath (pathText p) = p := by
  rw [memberPath, splitOn_pathText hp, List.filter_eq_self]
  intro c hc
  have hplain := hp.plain c hc
  exact decide_eq_true ⟨hplain.ne_nil, hplain.ne_dot, hplain.ne_dots⟩

theorem components_pathText : PosixPath.components (pathText p) = p := by
  have hsplit : (pathText p).splitOn PosixPath.slash = p := splitOn_pathText hp
  rw [PosixPath.components, hsplit, List.filter_eq_self]
  intro c hc
  have hplain := hp.plain c hc
  exact decide_eq_true ⟨hplain.ne_nil, hplain.ne_dot⟩

theorem nil_notMem : ([] : PyStr) ∉ p := fun hmem => (hp.plain [] hmem).ne_nil rfl

theorem isDirectoryName_pathText : isDirectoryName (pathText p) = false := by
  refine decide_eq_false fun hlast => ?_
  have hfront := List.dropLast_append_getLast? _ hlast
  have hsplit := splitOn_pathText hp
  rw [← hfront, List.splitOn, List.splitOnP_append_cons _ _ (by simp)] at hsplit
  apply nil_notMem hp
  rw [← hsplit]
  simp

theorem isabs_pathText : PosixPath.isabs (pathText p) = false := by
  refine decide_eq_false fun hhead => ?_
  have hfront := List.eq_cons_of_mem_head? hhead
  have hsplit := splitOn_pathText hp
  rw [hfront, List.splitOn, List.splitOnP_cons_eq_if_modifyHead, if_pos (by decide)] at hsplit
  apply nil_notMem hp
  rw [← hsplit]
  exact List.mem_cons_self

theorem nodeAt_pathText (t : Tree) : nodeAt t (pathText p) = node? t p := by
  have hlast : ∀ c, p.getLast? = some c → c ≠ [] ∧ c ≠ [period] := by
    intro c hc
    have hplain := hp.plain c (List.mem_of_getLast? hc)
    exact ⟨hplain.ne_nil, hplain.ne_dot⟩
  have hplain : ¬(p.getLast? = some [] ∨ p.getLast? = some [period]) := by
    rintro (h | h)
    · exact (hlast _ h).1 rfl
    · exact (hlast _ h).2 rfl
  simp only [nodeAt, components_pathText hp, splitOn_pathText hp, if_neg hp.ne_nil, if_neg hplain]
  split
  · rename_i hfile
    exact hfile.symm
  · rfl

end Names

/-! ## The manifest, written and read -/

/-- The value that is read where a value has been written with its keys sorted. -/
def reread (j : Json φ) : Json φ := j.sortKeys.collapse

theorem loadJson_manifestText (env : PackEnv φ) (manifest : Json φ) :
    loadJson env (utf8 (manifestText env manifest)) = .ok (reread manifest) := by
  have hfeed : ∀ c ∈ ['\n'], Json.isSpace c = true := by
    intro c hc
    rw [List.mem_singleton.mp hc]
    decide
  have hloads : Json.loads env.floats.read (manifestText env manifest) = some (reread manifest) :=
    Json.loads_renderAt_blanks env.floats Json.Layout.indented manifest.sortKeys hfeed
  rw [loadJson, utf8Decode_utf8]
  simp only [hloads]

theorem get?_reread {fields : List (PyStr × Json φ)} (hk : (fields.map Prod.fst).Nodup) :
    ∃ fields', reread (.obj fields) = .obj fields' ∧ ∀ {key v}, get? fields key = some v →
      get? fields' key = some (reread v) := by
  have hkeys : (((Json.sortFields (fields.map Json.sortField)).map Json.collapseField).map
      Prod.fst).Nodup := by
    rw [List.map_map]
    exact Json.nodup_sortFields hk
  refine ⟨(Json.sortFields (fields.map Json.sortField)).map Json.collapseField, ?_, ?_⟩
  · rw [reread, Json.sortKeys_obj, Json.collapse, Json.collapseFields_eq, Json.dict,
      Table.rows_ofRows hkeys]
  · intro key v hv
    obtain ⟨f, hf, rfl⟩ := Option.map_eq_some_iff.mp hv
    have hkey : f.1 = PyStr.ofString key := by simpa using List.find?_some hf
    have hfind := Json.find?_sortFields hk (List.mem_of_find?_eq_some hf)
    rw [hkey] at hfind
    have hcollapsed : (fun g : PyStr × Json φ => decide (g.1 = PyStr.ofString key)) ∘
        Json.collapseField = fun g => decide (g.1 = PyStr.ofString key) := rfl
    rw [get?, List.find?_map, hcollapsed, hfind]
    rfl

theorem reread_arr (items : List (Json φ)) : reread (.arr items) = .arr (items.map reread) := by
  rw [reread, Json.sortKeys_arr, Json.collapse, Json.collapseItems_eq, List.map_map]
  rfl

@[simp] theorem reread_str (s : PyStr) : reread (.str s : Json φ) = .str s := by
  simp [reread, Json.sortKeys, Json.collapse]

/-! ## What a manifest lists -/

/-- Metadata are a dictionary. -/
abbrev Metadata (φ : Type) := Table (Prod.fst : PyStr × Json φ → PyStr)

theorem get?_files (env : PackEnv φ) (tree : Tree) {metadata : Metadata φ}
    (h : metadata.get? (PyStr.ofString "files") = none) :
    ∃ fields, manifestOf env tree metadata.rows = .obj fields ∧ (fields.map Prod.fst).Nodup ∧
      get? fields "files" = some (.arr (filesList env tree)) := by
  refine ⟨_, rfl, Table.nodup _, ?_⟩
  have hrest : ∀ f ∈ (Json.sortFields metadata.rows).filter fun f => f.1 ≠ PyStr.ofString "version",
      f.1 ≠ PyStr.ofString "version" ∧ f.1 ≠ PyStr.ofString "files" := by
    intro f hf
    obtain ⟨hmem, hversion⟩ := List.mem_filter.mp hf
    exact ⟨of_decide_eq_true hversion,
      Table.get?_eq_none_iff.mp h f ((mem_sortedBy _ _ f).mp hmem)⟩
  have hnodup : (((Json.sortFields metadata.rows).filter fun f =>
      f.1 ≠ PyStr.ofString "version").map Prod.fst).Nodup := by
    refine (List.filter_sublist.map Prod.fst).nodup ?_
    exact ((sortedBy_perm _ metadata.rows).map Prod.fst).nodup_iff.mpr metadata.nodup
  have hne : PyStr.ofString "version" ≠ PyStr.ofString "files" := by decide
  rw [get?, Json.dict, Table.rows_ofRows]
  · rw [List.cons_append, List.find?_cons_of_neg (by simp [hne]), List.cons_append,
      List.find?_cons_of_pos (by simp)]
    rfl
  · simp only [List.cons_append, List.nil_append, List.map_cons, List.nodup_cons, List.mem_cons]
    refine ⟨?_, ?_, hnodup⟩
    · rintro (heq | hmem)
      · exact hne heq
      · obtain ⟨f, hf, heq⟩ := List.mem_map.mp hmem
        exact (hrest f hf).1 heq
    · intro hmem
      obtain ⟨f, hf, heq⟩ := List.mem_map.mp hmem
      exact (hrest f hf).2 heq

theorem listedFiles?_manifestOf (env : PackEnv φ) (tree : Tree) {metadata : Metadata φ}
    (h : metadata.get? (PyStr.ofString "files") = none) :
    listedFiles? (reread (manifestOf env tree metadata.rows)) =
      some ((filesList env tree).map reread) := by
  obtain ⟨fields, hfields, hk, hfiles⟩ := get?_files env tree h
  obtain ⟨fields', hreread, hget⟩ := get?_reread hk
  rw [hfields, hreread, listedFiles?, hget hfiles, reread_arr]

/-- The entry of a file as the check reads it. -/
def itemOf (env : PackEnv φ) (f : Path × Bytes) : ManifestItem φ :=
  ⟨forwardSlashes (pathText f.1), some (.str (env.sha256 f.2))⟩

theorem manifestItem?_entry (path : PyStr) (sha256 : PyStr) (size : ℤ) :
    manifestItem? (reread (.obj [(PyStr.ofString "path", .str path),
      (PyStr.ofString "sha256", .str sha256), (PyStr.ofString "size", .int size)] : Json φ)) =
      some ⟨path, some (.str sha256)⟩ := by
  have hk : ([(PyStr.ofString "path", (.str path : Json φ)), (PyStr.ofString "sha256", .str sha256),
      (PyStr.ofString "size", .int size)].map Prod.fst).Nodup := by
    simp only [List.map_cons, List.map_nil]
    decide
  obtain ⟨fields', hreread, hget⟩ := get?_reread hk
  have hpath := @hget "path" (.str path) (by
    rw [get?, List.find?_cons_of_pos (by simp)]
    rfl)
  have hne : PyStr.ofString "path" ≠ PyStr.ofString "sha256" := by decide
  have hsha := @hget "sha256" (.str sha256) (by
    rw [get?, List.find?_cons_of_neg (by simp [hne]), List.find?_cons_of_pos (by simp)]
    rfl)
  rw [hreread, manifestItem?, hpath, hsha, reread_str, reread_str]

/-- The manifest lists the files that are no manifests. -/
theorem mem_filesList {tree : Tree} {j : Json φ} : j ∈ filesList env tree ↔
    ∃ f ∈ files tree, ∃ path, manifestEntry env f = some (path, j) := by
  rw [filesList, List.mem_map]
  constructor
  · rintro ⟨e, he, rfl⟩
    obtain ⟨f, hf, hentry⟩ := List.mem_filterMap.mp ((mem_sortedBy _ _ e).mp he)
    exact ⟨f, hf, e.1, hentry⟩
  · rintro ⟨f, hf, path, hentry⟩
    exact ⟨(path, j), (mem_sortedBy _ _ _).mpr (List.mem_filterMap.mpr ⟨f, hf, hentry⟩), rfl⟩

theorem manifestItem?_manifestEntry {f : Path × Bytes} {path : PyStr} {j : Json φ}
    (h : manifestEntry env f = some (path, j)) :
    f.1.getLast? ≠ some manifestName ∧ manifestItem? (reread j) = some (itemOf env f) := by
  unfold manifestEntry at h
  split at h
  · cases h
  · rename_i hlast
    cases h
    exact ⟨hlast, manifestItem?_entry _ _ _⟩

/-- The items of the manifest are those of the files that are no manifests. -/
theorem mapM_manifestItem? (env : PackEnv φ) (tree : Tree) :
    ∃ items, ((filesList env tree).map reread).mapM manifestItem? = some items ∧
      ∀ item, item ∈ items ↔
        ∃ f ∈ files tree, f.1.getLast? ≠ some manifestName ∧ item = itemOf env f := by
  have hitems : ∀ x ∈ (filesList env tree).map reread, ∃ item, manifestItem? x = some item ∧
      manifestItem? x = some item := by
    intro x hx
    obtain ⟨j, hj, rfl⟩ := List.mem_map.mp hx
    obtain ⟨f, hf, path, hentry⟩ := mem_filesList.mp hj
    have hitem := (manifestItem?_manifestEntry hentry).2
    exact ⟨_, hitem, hitem⟩
  obtain ⟨items, hmap, hpairs⟩ := mapM_some_of_forall hitems
  refine ⟨items, hmap, fun item => ⟨fun hitem => ?_, ?_⟩⟩
  · obtain ⟨x, hx, hread⟩ := forall₂_exists_left hpairs hitem
    obtain ⟨j, hj, rfl⟩ := List.mem_map.mp hx
    obtain ⟨f, hf, path, hentry⟩ := mem_filesList.mp hj
    obtain ⟨hlast, hread'⟩ := manifestItem?_manifestEntry hentry
    exact ⟨f, hf, hlast, Option.some.inj (hread.symm.trans hread')⟩
  · rintro ⟨f, hf, hlast, rfl⟩
    have hentry : manifestEntry env f = some (forwardSlashes (pathText f.1), _) := if_neg hlast
    have hj := mem_filesList.mpr ⟨f, hf, _, hentry⟩
    obtain ⟨item, hitem, hread⟩ := forall₂_exists_left hpairs.flip (List.mem_map_of_mem hj)
    have hread' := (manifestItem?_manifestEntry hentry).2
    rwa [← Option.some.inj (hread.symm.trans hread')]

theorem ascii_manifestName : ∀ u ∈ manifestName, u.val < 0x80 := by
  have hall : manifestName.all (fun u => decide (u.val < 0x80)) = true := by decide
  exact fun u hu => of_decide_eq_true (List.all_eq_true.mp hall u hu)

/-! ## The archive of a tree -/

/-- A directory of regular files. -/
structure SourceDir where
  tree : Tree
  closed : Closed tree
  plain : ∀ {p content}, file? tree p = some content → PlainPath p

/-- What is extracted from the members of a list of files is these files. -/
theorem extractAll_members {fs : List (Path × Bytes)} (hplain : ∀ f ∈ fs, PlainPath f.1)
    (hfree : fs.Pairwise fun f g => ¬f.1 <+: g.1 ∧ ¬g.1 <+: f.1) :
    ∃ tree, extractAll (fs.map (zipInfo env)) = .ok tree ∧ Written fs tree := by
  obtain ⟨tree, hwrite, hwritten⟩ := writeAll_some (fun f hf => (hplain f hf).ne_nil) hfree
  refine ⟨tree, ?_, hwritten⟩
  have hcontent : ∀ f ∈ fs, contentOf (fs.map (zipInfo env)) (pathText f.1) = some f.2 := by
    intro f hf
    have hmem : zipInfo env f ∈ (fs.map (zipInfo env)).reverse :=
      List.mem_reverse.mpr (List.mem_map_of_mem hf)
    unfold contentOf
    cases hfind : (fs.map (zipInfo env)).reverse.find? fun info => info.filename = pathText f.1 with
    | none =>
      have hnone := List.find?_eq_none.mp hfind _ hmem
      exact absurd rfl (of_decide_eq_false (Bool.not_eq_true _ ▸ hnone))
    | some info =>
      have hname : info.filename = pathText f.1 := by simpa using List.find?_some hfind
      obtain ⟨g, hg, rfl⟩ :=
        List.mem_map.mp (List.mem_reverse.mp (List.mem_of_find?_eq_some hfind))
      have hpath : g.1 = f.1 := pathText_injective (hplain g hg) (hplain f hf) hname
      have hgot := (hwritten.files g.1 g.2).mpr hg
      rw [hpath, (hwritten.files f.1 f.2).mpr hf] at hgot
      exact hgot.symm
  rw [extractAll, List.foldlM_map]
  refine foldlM_ok_of_some (fun f hf t t' ht => ?_) hwrite
  have hp := hplain f hf
  have hname : (zipInfo env f).filename = pathText f.1 := rfl
  simp only [extractMember, hname, isDirectoryName_pathText hp, memberPath_pathText hp,
    hcontent f hf, Option.bind_some, ht]
  rfl

/-! ## Integrity of what is extracted -/

section Exported
variable {source extracted : Tree} {metadata : Metadata φ}

theorem checkItem_itemOf {f : Path × Bytes} (hplain : PlainPath f.1)
    (hback : backslash ∉ pathText f.1) (hdots : ¬[period, period] <:+: pathText f.1)
    (hfile : file? extracted f.1 = some f.2) : checkItem env extracted (itemOf env f) = none := by
  have hpath : (itemOf env f).path = pathText f.1 := forwardSlashes_eq_self hback
  have hhead : (pathText f.1).head? ≠ some slash := of_decide_eq_false (isabs_pathText hplain)
  have htraversal : isTraversal (pathText f.1) = false := by
    refine decide_eq_false ?_
    rintro (h | h | h)
    · exact hdots h
    · exact hhead h
    · exact hback h
  rw [checkItem, hpath, htraversal, if_neg (by simp), nodeAt_pathText hplain,
    file?_eq_some.mp hfile]
  simp [itemOf]

/-- A tree with the files of the source and with a manifest passes the check against it. -/
theorem validateManifestIntegrity_manifestOf
    (hplain : ∀ f ∈ files source, PlainPath f.1 ∧ backslash ∉ pathText f.1 ∧
      ¬[period, period] <:+: pathText f.1 ∧ (f.1.getLast? = some manifestName → f.1 = [manifestName]))
    (hkey : metadata.get? (PyStr.ofString "files") = none)
    (hcount : (filesList env source).length ≤ maxManifestFiles)
    (hfiles : ∀ p content, p ≠ [manifestName] →
      (file? extracted p = some content ↔ file? source p = some content)) :
    validateManifestIntegrity env extracted (reread (manifestOf env source metadata.rows)) =
      .ok [] := by
  obtain ⟨items, hitems, hmem⟩ := mapM_manifestItem? env source
  have hlength : ¬maxManifestFiles < ((filesList env source).map reread).length := by
    rw [List.length_map]
    omega
  have hchecked : items.filterMap (checkItem env extracted) = [] := by
    refine List.filterMap_eq_nil_iff.mpr fun item hitem => ?_
    obtain ⟨f, hf, hlast, rfl⟩ := (hmem item).mp hitem
    obtain ⟨hplain, hback, hdots, -⟩ := hplain f hf
    refine checkItem_itemOf hplain hback hdots ((hfiles f.1 f.2 ?_).mpr (mem_files.mp hf))
    intro heq
    rw [heq] at hlast
    exact hlast rfl
  have hlisted : unlistedFiles extracted (items.map ManifestItem.path) = [] := by
    refine List.filterMap_eq_nil_iff.mpr fun f hf => ?_
    by_cases hmanifest : f.1 = [manifestName]
    · have htext : forwardSlashes (pathText f.1) ∈ allowedExtras := by
        rw [hmanifest]
        decide
      exact if_pos htext
    · have hsource := mem_files.mpr ((hfiles f.1 f.2 hmanifest).mp (mem_files.mp hf))
      obtain ⟨-, -, -, hroot⟩ := hplain f hsource
      have hitem := (hmem (itemOf env f)).mpr ⟨f, hsource, fun h => hmanifest (hroot h), rfl⟩
      have hpath : forwardSlashes (pathText f.1) ∈ items.map ManifestItem.path :=
        List.mem_map_of_mem hitem
      simp only [if_pos hpath, ite_self]
  rw [validateManifestIntegrity, listedFiles?_manifestOf env source hkey]
  simp only [if_neg hlength, hitems, hchecked, hlisted, List.append_nil]

end Exported

/-! ## Export and import -/

theorem moveInto_noFaults (source : Tree) (target : Option Tree) :
    moveInto noFaults source target = (some source, true) := by
  have hcopied : (source.rows.any fun r => noFaults.copies r.1) = false :=
    List.any_eq_false.mpr fun _ _ => Bool.false_ne_true
  have hok : (moveInto noFaults source target).2 = true := by
    unfold moveInto
    rw [hcopied]
    split
    · rename_i hremoval
      cases hremoval
    · rfl
  exact Prod.ext (moveInto_ok hok) hok

/-- The directory is a pack within the limits, whose names pass the rules for members. -/
structure WithinRules (env : PackEnv φ) (source : SourceDir) (metadata : Metadata φ) : Prop where
  names : ∀ f ∈ files source.tree, isUnsafeName (env.nfkc (pathText f.1)) = false
  limits : ∀ packed, createManifest env source.tree metadata.rows = some packed →
    checkLimits (archiveMembers env packed) = .ok ()
  packJson : ∃ content packMeta, file? source.tree [packJsonName] = some content ∧
    loadJson env content = .ok packMeta ∧ validatePackMetadata packMeta = .ok ()

/-- Besides, the names have an encoding, no code is blocked, the one manifest is at the root, and
the metadata do not replace the list of files. -/
structure Exportable (env : PackEnv φ) (source : SourceDir) (metadata : Metadata φ) : Prop
    extends WithinRules env source metadata where
  encoded : ∀ f ∈ files source.tree, (pathText f.1).chars?.isSome
  harmless : ∀ f ∈ files source.tree, (PyStr.ofString ".py").isSuffixOf (pathText f.1) →
    ∀ pattern ∈ blockedPatterns, ¬pattern <:+: f.2
  manifestAtRoot : ∀ f ∈ files source.tree, f.1.getLast? = some manifestName → f.1 = [manifestName]
  noManifestDir : node? source.tree [manifestName] ≠ some .dir
  noFilesKey : metadata.get? (PyStr.ofString "files") = none

/-- The steps succeed, and what is installed has the files of the source and a manifest. -/
def RoundTrips (env : PackEnv φ) (source : SourceDir) (metadata : Metadata φ)
    (target : Option Tree) : Prop :=
  ∃ packed archive packMeta installed,
    createManifest env source.tree metadata.rows = some packed ∧
    createPackArchive env packed = .ok archive ∧
    extractPack env noFaults (.ok archive) target = (.ok packMeta, some installed) ∧
    (∀ p content, p ≠ [manifestName] →
      (file? installed p = some content ↔ file? source.tree p = some content)) ∧
    (file? installed [manifestName]).isSome

section RoundTrip
variable {source : SourceDir} {metadata : Metadata φ} (h : Exportable env source metadata)
include h

/-- The source with its manifest. -/
theorem createManifest_some : ∃ packed, createManifest env source.tree metadata.rows = some packed ∧
    Closed packed ∧
    ∀ p, file? packed p = if p = [manifestName] then
      some (utf8 (manifestText env (manifestOf env source.tree metadata.rows)))
      else file? source.tree p := by
  have hdir : isDir source.tree [manifestName] = false := by
    refine decide_eq_false ?_
    rintro (hnil | hdir)
    · cases hnil
    · exact h.noManifestDir hdir
  have hwrite : createManifest env source.tree metadata.rows = some (source.tree.put
      ([manifestName], .file (utf8 (manifestText env (manifestOf env source.tree metadata.rows))))) := by
    have hmake : makedirs source.tree [] = some source.tree := rfl
    rw [createManifest, write, List.dropLast_singleton, hmake, Option.bind_some, hdir]
    rfl
  exact ⟨_, hwrite, source.closed.put_root _ h.noManifestDir, file?_write hwrite⟩

theorem source_names {f : Path × Bytes} (hf : f ∈ files source.tree) :
    PlainPath f.1 ∧ backslash ∉ pathText f.1 ∧ ¬[period, period] <:+: pathText f.1 ∧
      (f.1.getLast? = some manifestName → f.1 = [manifestName]) := by
  have hsafe := of_decide_eq_false (h.names f hf)
  simp only [not_or] at hsafe
  refine ⟨source.plain (mem_files.mp hf), ?_, ?_, h.manifestAtRoot f hf⟩
  · exact fun hback => hsafe.2.2.1 (env.nfkc_backslash _ hback)
  · exact fun hdots => hsafe.2.1 (env.nfkc_dots _ hdots)

/-- What every member of the archive is checked for. -/
theorem member_ok {f : Path × Bytes} (hf : f.1 = [manifestName] ∨ f ∈ files source.tree) :
    PlainPath f.1 ∧ checkEncoding (zipInfo env f) = .ok () ∧
      checkName env (zipInfo env f) = .ok () ∧ checkCode (zipInfo env f) = .ok () := by
  have hmode : isSymlink (zipInfo env f) = false := by
    change decide (regularFileAttr / 0x10000 % 0x10000 / 0x1000 = 0xa) = false
    decide
  have hname : (zipInfo env f).filename = pathText f.1 := rfl
  rcases hf with hmanifest | hf
  · have htext : pathText f.1 = manifestName := by rw [hmanifest]; rfl
    have hsafe : isUnsafeName (env.nfkc manifestName) = false := by
      rw [env.nfkc_ascii manifestName ascii_manifestName]
      decide
    refine ⟨?_, ?_, ?_, ?_⟩
    · rw [hmanifest]
      refine ⟨by simp, fun c hc => ?_⟩
      rw [List.mem_singleton] at hc
      subst hc
      exact ⟨by decide, by decide, by decide, by decide⟩
    · rw [checkEncoding, hname, htext]
      decide
    · rw [checkName, hname, htext, hsafe, hmode]
      rfl
    · rw [checkCode, hname, htext]
      exact if_neg (by decide)
  · refine ⟨source.plain (mem_files.mp hf), ?_, ?_, ?_⟩
    · rw [checkEncoding, hname]
      exact if_pos (h.encoded f hf)
    · rw [checkName, hname, h.names f hf, hmode]
      rfl
    · rw [checkCode, hname]
      split
      · rename_i hpy
        have hnone : ¬(blockedPatterns.any fun pattern => pattern <:+: f.2) := by
          intro hany
          obtain ⟨pattern, hmem, hinfix⟩ := List.any_eq_true.mp hany
          exact h.harmless f hf hpy pattern hmem (of_decide_eq_true hinfix)
        exact if_neg hnone
      · rfl

omit h in
theorem checkLimits_length {infos : List ZipInfo} (hlimits : checkLimits infos = .ok ()) :
    infos.length ≤ maxManifestFiles := by
  unfold checkLimits at hlimits
  split at hlimits
  · cases hlimits
  · omega

omit h in
/-- No more files are listed than packed. -/
theorem length_filesList {packed : Tree}
    (hfiles : ∀ p, p ≠ [manifestName] → file? packed p = file? source.tree p) :
    (filesList env source.tree).length ≤ (files packed).length := by
  have hlisted : (filesList env source.tree).length =
      ((files source.tree).filter fun f => (manifestEntry env f).isSome).length := by
    rw [filesList, List.length_map, (sortedBy_perm _ _).length_eq, List.length_filterMap_eq_countP,
      List.countP_eq_length_filter]
  rw [hlisted]
  refine (((files_nodup source.tree).filter _).subperm fun f hf => ?_).length_le
  obtain ⟨hmem, hentry⟩ := List.mem_filter.mp hf
  refine mem_files.mpr ((hfiles f.1 ?_).trans (mem_files.mp hmem))
  intro heq
  have hnone : manifestEntry env f = none := by
    rw [manifestEntry, heq]
    exact if_pos rfl
  rw [hnone] at hentry
  cases hentry

omit h in
/-- The members are those of the source, and the manifest. -/
theorem packed_member {packed : Tree}
    (hother : ∀ p, p ≠ [manifestName] → file? packed p = file? source.tree p) {f : Path × Bytes}
    (hf : f ∈ files packed) : f.1 = [manifestName] ∨ f ∈ files source.tree := by
  by_cases hmanifest : f.1 = [manifestName]
  · exact .inl hmanifest
  · refine .inr (mem_files.mpr ?_)
    rw [← hother f.1 hmanifest]
    exact mem_files.mp hf

omit h in
theorem members_pass {packed : Tree} {check : ZipInfo → Except PackFailure Unit}
    (hcheck : ∀ f ∈ files packed, check (zipInfo env f) = .ok ()) :
    (archiveMembers env packed).forM check = .ok () := by
  refine forM_of_forall fun info hinfo => ?_
  obtain ⟨f, hf, rfl⟩ := List.mem_map.mp hinfo
  exact hcheck f ((mem_sortedBy _ _ f).mp hf)

/-- The extracted files are the packed ones. -/
theorem extractAll_packed {packed : Tree} (hclosed : Closed packed)
    (hother : ∀ p, p ≠ [manifestName] → file? packed p = file? source.tree p) :
    ∃ extracted, extractAll (archiveMembers env packed) = .ok extracted ∧
      ∀ p, file? extracted p = file? packed p := by
  have hnodup : (sortedBy (fun f => (pathText f.1).codePoints) (files packed)).Nodup :=
    (sortedBy_perm _ _).nodup_iff.mpr (files_nodup packed)
  obtain ⟨extracted, hextract, hwritten⟩ := extractAll_members
    (fun f hf => (member_ok h (packed_member hother ((mem_sortedBy _ _ f).mp hf))).1)
    (hclosed.files_pairwise hnodup fun f hf => (mem_sortedBy _ _ f).mp hf)
  refine ⟨extracted, hextract, fun p => Option.ext fun content => ?_⟩
  rw [hwritten.files, mem_sortedBy, mem_files]

theorem verifyArchive_members {packed : Tree}
    (hpacked : createManifest env source.tree metadata.rows = some packed) (hclosed : Closed packed)
    (hmanifest : file? packed [manifestName] =
      some (utf8 (manifestText env (manifestOf env source.tree metadata.rows))))
    (hother : ∀ p, p ≠ [manifestName] → file? packed p = file? source.tree p) :
    ∃ extracted packMeta,
      verifyArchive env (.ok (archiveMembers env packed)) = .ok (extracted, packMeta) ∧
      ∀ p, file? extracted p = file? packed p := by
  have hmember := fun f hf => member_ok h (@packed_member _ packed hother f hf)
  have hlimits := h.limits packed hpacked
  have hnames := members_pass fun f hf => (hmember f hf).2.2.1
  have hcode := members_pass fun f hf => (hmember f hf).2.2.2
  obtain ⟨extracted, hextract, hsame⟩ := extractAll_packed h hclosed hother
  obtain ⟨packBytes, packMeta, hpackFile, hpackJson, hmetadata⟩ := h.packJson
  rw [← hsame] at hmanifest
  rw [← hother [packJsonName] (by decide), ← hsame] at hpackFile
  have hpresent : ∀ {name missing content}, file? extracted [name] = some content →
      checkPresent extracted name missing = .ok () := by
    intro name missing content hfile
    rw [checkPresent, file?_eq_some.mp hfile]
    rfl
  have hread : ∀ {name content}, file? extracted [name] = some content →
      readFile extracted name = .ok content := by
    intro name content hfile
    rw [readFile, hfile]
  have hjson := loadJson_manifestText env (manifestOf env source.tree metadata.rows)
  have hcount : (filesList env source.tree).length ≤ maxManifestFiles := by
    have hlength : (archiveMembers env packed).length = (files packed).length := by
      rw [archiveMembers, List.length_map, (sortedBy_perm _ _).length_eq]
    have hlisted := @length_filesList _ env source packed hother
    have hinfos := checkLimits_length hlimits
    omega
  have hintegrity := validateManifestIntegrity_manifestOf (fun f hf => source_names h hf)
    h.noFilesKey hcount (fun p content hp => by rw [hsame, hother p hp])
  refine ⟨extracted, packMeta, ?_, hsame⟩
  simp only [verifyArchive, bind, Except.bind, hlimits, hnames, hcode, hextract, hpresent hmanifest,
    hpresent hpackFile, hread hmanifest, hread hpackFile, hjson, hpackJson, hmetadata, hintegrity,
    if_true]

/-- An exportable directory survives its export and import. -/
theorem roundTrips (target : Option Tree) : RoundTrips env source metadata target := by
  obtain ⟨packed, hpacked, hclosed, hfiles⟩ := createManifest_some h
  have hmanifest := (hfiles [manifestName]).trans (if_pos rfl)
  have hother : ∀ p, p ≠ [manifestName] → file? packed p = file? source.tree p :=
    fun p hp => (hfiles p).trans (if_neg hp)
  obtain ⟨extracted, packMeta, hverified, hsame⟩ :=
    verifyArchive_members h hpacked hclosed hmanifest hother
  have hencoded := members_pass fun f hf => (member_ok h (packed_member hother hf)).2.1
  have harchive : createPackArchive env packed = .ok (archiveMembers env packed) := by
    rw [createPackArchive, hencoded]
    rfl
  refine ⟨packed, archiveMembers env packed, packMeta, extracted, hpacked, harchive, ?_, ?_, ?_⟩
  · rw [extractPack, if_neg (by decide), hverified]
    have hmoved := moveInto_noFaults extracted target
    simp only [hmoved, if_true]
  · intro p content hp
    rw [hsame, hother p hp]
  · rw [hsame, hmanifest]
    rfl

end RoundTrip

/-! ## Two directories -/

/-- The digests and the deflated sizes of the contents below. -/
def demoPackEnv : PackEnv Unit :=
  { asciiPackEnv with
    sha256 := fun content =>
      if content.length = 7 then
        PyStr.ofString "3f22095641508576e91dc7c6c7f7e08a093985d53ea998043c6619ad240dc92c"
      else if content.length = 9 then
        PyStr.ofString "46f9907d7b6d7f7c932b2cdff5b5d764aabbaacc46c417cc6e07c448104d79bf"
      else
        PyStr.ofString "153e891e53f26c1cc9aae438a27cec424e8bde7b7496278b92a40c5a597200f5"
    deflated := fun content =>
      if content.length ≤ 9 then content.length + 2
      else if content.length = 81 then 65
      else if content.length = 334 then 202
      else 205 }

def demoMetadata : Metadata Unit := Table.ofRows [(PyStr.ofString "name", .str (PyStr.ofString "a"))]

/-- A pack of one file. -/
def demoTree (name content : String) : Tree :=
  Table.ofRows [([packJsonName], .file (bytesOf
      "\x7b\"name\":\"a\",\"version\":\"1\",\"type\":\"preset\",\"author\":\"\",\"min_openclaw_version\":\"1\"\x7d")),
    ([PyStr.ofString name], .file (bytesOf content))]

/-- A directory without directories. -/
def flatDir (tree : Tree) (h : ∀ r ∈ tree.rows, r.1.length = 1 ∧ r.1.all fun c =>
    c ≠ [] ∧ c ≠ [period] ∧ c ≠ [period, period] ∧ slash ∉ c) : SourceDir where
  tree := tree
  closed := by
    constructor
    · rintro p n hn rfl
      cases (h _ (mem_rows_of_node? hn)).1
    · intro p c n hn hp
      have hlength := (h _ (mem_rows_of_node? hn)).1
      have hpos := List.length_pos_iff.mpr hp
      simp only [List.length_append, List.length_singleton] at hlength
      omega
  plain := by
    intro p content hfile
    obtain ⟨hlength, hplain⟩ := h _ (mem_rows_of_node? (file?_eq_some.mp hfile))
    refine ⟨?_, fun c hc => ?_⟩
    · rintro rfl
      cases hlength
    · obtain ⟨hnil, hdot, hdots, hslash⟩ := of_decide_eq_true (List.all_eq_true.mp hplain c hc)
      exact ⟨hnil, hdot, hdots, hslash⟩

def textDir : SourceDir := flatDir (demoTree "a.txt" "read me") (by decide +kernel)

def codeDir : SourceDir := flatDir (demoTree "run.py" "eval(\"1\")") (by decide +kernel)

theorem withinRules_of_checks {env : PackEnv φ} {source : SourceDir} {metadata : Metadata φ}
    (hnames : ((files source.tree).all fun f => !isUnsafeName (env.nfkc (pathText f.1))) = true)
    (hlimits : ((createManifest env source.tree metadata.rows).all fun packed =>
      decide (checkLimits (archiveMembers env packed) = .ok ())) = true)
    (hpack : ((file? source.tree [packJsonName]).any fun content =>
      ((loadJson env content).bind validatePackMetadata).toBool) = true) :
    WithinRules env source metadata where
  names := fun f hf => by simpa using List.all_eq_true.mp hnames f hf
  limits := fun packed hpacked => by simpa [hpacked] using hlimits
  packJson := by
    obtain ⟨content, hfile, hcontent⟩ := (Option.any_eq_true _ _).mp hpack
    cases hload : loadJson env content with
    | error e =>
      rw [hload] at hcontent
      cases hcontent
    | ok packMeta =>
      refine ⟨content, packMeta, hfile, hload, ?_⟩
      rw [hload] at hcontent
      cases hvalid : validatePackMetadata packMeta with
      | error e =>
        rw [Except.bind, hvalid] at hcontent
        cases hcontent
      | ok u => rfl

theorem roundTrips_textDir : RoundTrips demoPackEnv textDir demoMetadata none := by
  have hrules : WithinRules demoPackEnv textDir demoMetadata :=
    withinRules_of_checks (by decide +kernel) (by decide +kernel) (by decide +kernel)
  have hsource : Exportable demoPackEnv textDir demoMetadata := by
    refine ⟨hrules, ?_, ?_, ?_, ?_, ?_⟩
    · decide +kernel
    · decide +kernel
    · decide +kernel
    · decide +kernel
    · rfl
  exact roundTrips hsource none

/-- Code that calls `eval` does not come through. -/
theorem codeDir_refused : ¬∀ source metadata, WithinRules demoPackEnv source metadata →
    RoundTrips demoPackEnv source metadata none := by
  intro hall
  have hrules : WithinRules demoPackEnv codeDir demoMetadata :=
    withinRules_of_checks (by decide +kernel) (by decide +kernel) (by decide +kernel)
  obtain ⟨packed, archive, packMeta, installed, hpacked, harchive, hextracted, -⟩ :=
    hall codeDir demoMetadata hrules
  have hrefused : ((createManifest demoPackEnv codeDir.tree demoMetadata.rows).any fun packed =>
      ((createPackArchive demoPackEnv packed).bind fun archive =>
        (extractPack demoPackEnv noFaults (.ok archive) none).1).toBool) = false := by
    decide +kernel
  rw [hpacked, Option.any_some, harchive, Except.bind, hextracted] at hrefused
  cases hrefused

end OpenClaw.Packs
