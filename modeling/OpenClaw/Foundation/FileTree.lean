import Mathlib.Data.List.Infix
import OpenClaw.Foundation.TextBytes

/-!
# Directory trees

The files and directories below a directory, by their path from it. Writing a file makes the
directories on its way; it fails where a file is in the way or a directory in its place.
-/

namespace Foundation.FileTree

set_option autoImplicit false

abbrev Bytes := List UInt8

abbrev Path := List PyStr

inductive Node where
  | dir
  | file (content : Bytes)
  deriving DecidableEq

abbrev Tree := Table (Prod.fst : Path × Node → Path)

def node? (t : Tree) (p : Path) : Option Node := (t.get? p).map Prod.snd

def file? (t : Tree) (p : Path) : Option Bytes :=
  match node? t p with
  | some (.file content) => some content
  | _ => none

/-- The root is a directory. -/
def isDir (t : Tree) (p : Path) : Bool := p = [] ∨ node? t p = some .dir

/-- The files with their paths, as a walk through the tree finds them. -/
def files (t : Tree) : List (Path × Bytes) :=
  t.rows.filterMap fun r =>
    match r.2 with
    | .file content => some (r.1, content)
    | .dir => none

def mkdir (t : Tree) (p : Path) : Option Tree :=
  match node? t p with
  | some (.file _) => none
  | some .dir => some t
  | none => some (t.put (p, .dir))

/-- The directory with everything above it. -/
def makedirs (t : Tree) (p : Path) : Option Tree := (p.inits.filter (· ≠ [])).foldlM mkdir t

def write (t : Tree) (p : Path) (content : Bytes) : Option Tree :=
  (makedirs t p.dropLast).bind fun t =>
    if isDir t p then none else some (t.put (p, .file content))

theorem node?_put (t : Tree) (p q : Path) (n : Node) :
    node? (t.put (p, n)) q = if p = q then some n else node? t q := by
  unfold node?
  rw [Table.get?_put]
  split <;> rfl

theorem mem_rows_of_node? {t : Tree} {p : Path} {n : Node} (h : node? t p = some n) :
    (p, n) ∈ t.rows := by
  obtain ⟨⟨q, m⟩, hget, rfl⟩ := Option.map_eq_some_iff.mp h
  have hq := Table.key_of_get? hget
  cases hq
  exact Table.mem_of_get? hget

theorem file?_eq_some {t : Tree} {p : Path} {content : Bytes} :
    file? t p = some content ↔ node? t p = some (.file content) := by
  unfold file?
  cases node? t p with
  | none => simp
  | some n => cases n <;> simp

theorem mem_files {t : Tree} {p : Path} {content : Bytes} :
    (p, content) ∈ files t ↔ file? t p = some content := by
  rw [file?_eq_some, node?, Option.map_eq_some_iff, files, List.mem_filterMap]
  constructor
  · rintro ⟨⟨q, n⟩, hmem, h⟩
    cases n with
    | dir => cases h
    | file content' =>
      cases h
      exact ⟨_, Table.get?_key hmem, rfl⟩
  · rintro ⟨⟨q, n⟩, hget, rfl⟩
    have hq := Table.key_of_get? hget
    cases hq
    exact ⟨_, Table.mem_of_get? hget, rfl⟩

theorem files_nodup (t : Tree) : (files t).Nodup := by
  refine (List.Nodup.of_map _ t.nodup).filterMap ?_
  rintro ⟨p, n⟩ ⟨q, m⟩ f hf hg
  cases n with
  | dir => cases hf
  | file a =>
    cases m with
    | dir => cases hg
    | file b =>
      cases hf
      cases hg
      rfl

/-- Only directories come in. -/
theorem mkdir_spec {t t' : Tree} {p : Path} (h : mkdir t p = some t') (q : Path) :
    node? t' q = node? t q ∨ (q = p ∧ node? t q = none ∧ node? t' q = some .dir) := by
  unfold mkdir at h
  split at h
  · cases h
  · cases h
    exact .inl rfl
  · rename_i hnone
    cases h
    rw [node?_put]
    by_cases hpq : p = q
    · subst hpq
      exact .inr ⟨rfl, hnone, if_pos rfl⟩
    · exact .inl (if_neg hpq)

theorem file?_mkdir {t t' : Tree} {p : Path} (h : mkdir t p = some t') (q : Path) :
    file? t' q = file? t q := by
  unfold file?
  rcases mkdir_spec h q with heq | ⟨-, hnone, hdir⟩
  · rw [heq]
  · rw [hnone, hdir]

theorem file?_mkdirs {t t' : Tree} {ps : List Path} (h : ps.foldlM mkdir t = some t') (q : Path) :
    file? t' q = file? t q := by
  induction ps generalizing t with
  | nil =>
    cases h
    rfl
  | cons p ps ih =>
    rw [List.foldlM_cons] at h
    obtain ⟨u, hu, h⟩ := Option.bind_eq_some_iff.mp h
    rw [ih h, file?_mkdir hu]

theorem file?_write {t t' : Tree} {p : Path} {content : Bytes} (h : write t p content = some t')
    (q : Path) : file? t' q = if q = p then some content else file? t q := by
  obtain ⟨u, hu, h⟩ := Option.bind_eq_some_iff.mp h
  split at h <;> cases h
  rw [← file?_mkdirs hu q, file?, node?_put]
  by_cases hqp : q = p
  · rw [if_pos hqp.symm, if_pos hqp]
  · rw [if_neg (Ne.symm hqp), if_neg hqp, file?]

theorem file?_eq_none_of_dir {t : Tree} {p : Path} (h : node? t p = some .dir) :
    file? t p = none := by
  rw [file?, h]

/-! ## Whole trees -/

/-- A tree as a file system has it: every entry is below directories. -/
structure Closed (t : Tree) : Prop where
  named : ∀ {p n}, node? t p = some n → p ≠ []
  parent : ∀ {p c n}, node? t (p ++ [c]) = some n → p ≠ [] → node? t p = some .dir

theorem Closed.above {t : Tree} (hc : Closed t) {p s : Path} {n : Node}
    (h : node? t (p ++ s) = some n) (hp : p ≠ []) (hs : s ≠ []) : node? t p = some .dir := by
  induction s using List.reverseRecOn generalizing n with
  | nil => exact absurd rfl hs
  | append_singleton s c ih =>
    rw [← List.append_assoc] at h
    have hdir := hc.parent h (by simp [hp])
    by_cases hnil : s = []
    · rwa [hnil, List.append_nil] at hdir
    · exact ih hdir hnil

/-- No file is below a file. -/
theorem Closed.file_below {t : Tree} (hc : Closed t) {p q : Path} {a b : Bytes}
    (hp : file? t p = some a) (hq : file? t q = some b) (h : p <+: q) : p = q := by
  obtain ⟨s, rfl⟩ := h
  by_cases hs : s = []
  · rw [hs, List.append_nil]
  · have hdir := hc.above (file?_eq_some.mp hq) (hc.named (file?_eq_some.mp hp)) hs
    rw [file?_eq_none_of_dir hdir] at hp
    cases hp

theorem Closed.files_pairwise {t : Tree} (hc : Closed t) {fs : List (Path × Bytes)}
    (hnodup : fs.Nodup) (hfiles : ∀ f ∈ fs, f ∈ files t) :
    fs.Pairwise fun f g => ¬f.1 <+: g.1 ∧ ¬g.1 <+: f.1 := by
  have hsame : ∀ f ∈ fs, ∀ g ∈ fs, f.1 <+: g.1 → f = g := by
    rintro ⟨p, a⟩ hf ⟨q, b⟩ hg hpre
    have ha := mem_files.mp (hfiles _ hf)
    have hb := mem_files.mp (hfiles _ hg)
    obtain rfl : p = q := hc.file_below ha hb hpre
    rw [Option.some.inj (ha.symm.trans hb)]
  refine hnodup.pairwise_of_forall_ne fun f hf g hg hne => ⟨?_, ?_⟩
  · exact fun hpre => hne (hsame f hf g hg hpre)
  · exact fun hpre => hne (hsame g hg f hf hpre).symm

/-- A file beside the others in the root keeps the tree closed. -/
theorem Closed.put_root {t : Tree} (hc : Closed t) {c : PyStr} (content : Bytes)
    (hdir : node? t [c] ≠ some .dir) : Closed (t.put ([c], .file content)) := by
  have hput : ∀ p, p ≠ [c] → node? (t.put ([c], .file content)) p = node? t p := by
    intro p hp
    rw [node?_put, if_neg (Ne.symm hp)]
  constructor
  · rintro p n hn rfl
    rw [hput [] (by simp)] at hn
    exact hc.named hn rfl
  · intro p d n hn hp
    have hlong : p ++ [d] ≠ [c] := by
      intro heq
      have hlen := congrArg List.length heq
      have hpos := List.length_pos_iff.mpr hp
      simp only [List.length_append, List.length_singleton] at hlen
      omega
    rw [hput _ hlong] at hn
    have hparent := hc.parent hn hp
    have hne : p ≠ [c] := by
      rintro rfl
      exact hdir hparent
    rw [hput p hne, hparent]

/-- The files of the list one after the other. -/
def writeAll (t : Tree) (fs : List (Path × Bytes)) : Option Tree :=
  fs.foldlM (fun t f => write t f.1 f.2) t

theorem mkdirs_some {t : Tree} {ps : List Path} (h : ∀ q ∈ ps, file? t q = none) :
    ∃ t', ps.foldlM mkdir t = some t' ∧
      ∀ q, node? t' q = some .dir → node? t q = some .dir ∨ q ∈ ps := by
  induction ps generalizing t with
  | nil => exact ⟨t, rfl, fun q hq => .inl hq⟩
  | cons p ps ih =>
    obtain ⟨u, hu⟩ : ∃ u, mkdir t p = some u := by
      have hnone := h p List.mem_cons_self
      unfold mkdir
      unfold file? at hnone
      split
      · rename_i hfile
        rw [hfile] at hnone
        cases hnone
      · exact ⟨t, rfl⟩
      · exact ⟨_, rfl⟩
    have hrest : ∀ q ∈ ps, file? u q = none := by
      intro q hq
      rw [file?_mkdir hu]
      exact h q (List.mem_cons_of_mem p hq)
    obtain ⟨t', ht', hdirs⟩ := ih hrest
    refine ⟨t', ?_, fun q hq => ?_⟩
    · rw [List.foldlM_cons, hu]
      exact ht'
    · rcases hdirs q hq with hdir | hmem
      · rcases mkdir_spec hu q with heq | ⟨rfl, -, -⟩
        · exact .inl (heq ▸ hdir)
        · exact .inr List.mem_cons_self
      · exact .inr (List.mem_cons_of_mem p hmem)

/-- The tree has the files of the list, and directories only on the way to them. -/
structure Written (fs : List (Path × Bytes)) (t : Tree) : Prop where
  files : ∀ p content, file? t p = some content ↔ (p, content) ∈ fs
  dirs : ∀ p, node? t p = some .dir → ∃ f ∈ fs, p <+: f.1 ∧ p ≠ f.1

theorem written_empty : Written [] Table.empty where
  files := fun _ _ => by simp [file?, node?]
  dirs := fun _ h => by cases h

/-- A file beside the others can be written. -/
theorem write_some {fs : List (Path × Bytes)} {t : Tree} (ht : Written fs t) {p : Path}
    (content : Bytes) (hp : p ≠ []) (hfree : ∀ f ∈ fs, ¬f.1 <+: p ∧ ¬p <+: f.1) :
    ∃ t', write t p content = some t' ∧ Written (fs ++ [(p, content)]) t' := by
  have habove : ∀ q ∈ p.dropLast.inits.filter (· ≠ []), q <+: p ∧ q ≠ p := by
    intro q hq
    have hpre := (List.mem_inits q p.dropLast).mp (List.mem_filter.mp hq).1
    refine ⟨hpre.trans (List.dropLast_prefix p), ?_⟩
    rintro rfl
    have hlen := hpre.length_le
    have hpos := List.length_pos_iff.mpr hp
    rw [List.length_dropLast] at hlen
    omega
  have hnofile : ∀ q ∈ p.dropLast.inits.filter (· ≠ []), file? t q = none := by
    intro q hq
    cases hfile : file? t q with
    | none => rfl
    | some c => exact absurd (habove q hq).1 (hfree _ ((ht.files q c).mp hfile)).1
  obtain ⟨u, hu, hdirs⟩ := mkdirs_some hnofile
  have hnodir : isDir u p = false := by
    refine decide_eq_false ?_
    rintro (hnil | hdir)
    · exact hp hnil
    rcases hdirs p hdir with hdir | hmem
    · obtain ⟨f, hf, hpre, -⟩ := ht.dirs p hdir
      exact (hfree f hf).2 hpre
    · exact (habove p hmem).2 rfl
  have hwrite : write t p content = some (u.put (p, .file content)) := by
    rw [write, makedirs, hu, Option.bind_some, hnodir]
    rfl
  refine ⟨_, hwrite, ⟨fun q c => ?_, fun q hq => ?_⟩⟩
  · rw [file?_write hwrite, List.mem_append, List.mem_singleton, Prod.mk.injEq]
    by_cases hqp : q = p
    · subst hqp
      have hold : (q, c) ∉ fs := fun hmem => (hfree _ hmem).1 (List.prefix_refl q)
      simp [hold, eq_comm]
    · rw [if_neg hqp, ht.files]
      simp [hqp]
  · rw [node?_put] at hq
    split at hq
    · cases hq
    rcases hdirs q hq with hdir | hmem
    · obtain ⟨f, hf, hpre⟩ := ht.dirs q hdir
      exact ⟨f, List.mem_append_left _ hf, hpre⟩
    · exact ⟨(p, content), List.mem_append_right _ (List.mem_singleton_self _), habove q hmem⟩

/-- Files none of which is at or below another can all be written, in any order. -/
theorem writeAll_some {fs : List (Path × Bytes)} (hnil : ∀ f ∈ fs, f.1 ≠ [])
    (hfree : fs.Pairwise fun f g => ¬f.1 <+: g.1 ∧ ¬g.1 <+: f.1) :
    ∃ t, writeAll Table.empty fs = some t ∧ Written fs t := by
  induction fs using List.reverseRecOn with
  | nil => exact ⟨_, rfl, written_empty⟩
  | append_singleton fs f ih =>
    obtain ⟨hfront, -, hlast⟩ := List.pairwise_append.mp hfree
    obtain ⟨t, ht, hwritten⟩ := ih (fun g hg => hnil g (List.mem_append_left _ hg)) hfront
    have hpath := hnil f (List.mem_append_right _ (List.mem_singleton_self f))
    have hbeside := fun g hg => hlast g hg f (List.mem_singleton_self f)
    obtain ⟨t', ht', hwritten'⟩ := write_some hwritten f.2 hpath hbeside
    refine ⟨t', ?_, hwritten'⟩
    rw [writeAll, List.foldlM_append, ← writeAll, ht]
    simpa using ht'

end Foundation.FileTree
