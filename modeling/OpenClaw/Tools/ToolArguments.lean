import OpenClaw.Tools.ToolRunner

/-!
# What the arguments of a tool can do

What is known of a process that was started: its program comes from the definition alone, every
element of its command line from one template element, and no value turns into an option.
-/

namespace OpenClaw.Tools

open Foundation FormatString

set_option autoImplicit false

variable {V : Type} {host : Host} {py : Values V} {tool : ToolDefinition} {arguments : Arguments V}
  {spawn : Spawn}

/-- The checks that a call has passed when the process starts. -/
structure Started (host : Host) (py : Values V) (tool : ToolDefinition) (arguments : Arguments V)
    (spawn : Spawn) (cmd : List PyStr) (executable : PyStr) : Prop where
  template : commandTemplateProblem host tool.commandTemplate = none
  built : buildCommand py tool.commandTemplate arguments = .ok cmd
  checked : checkArgumentValues py tool.commandTemplate arguments cmd = .ok ()
  inside : fsViolations host py tool arguments = []
  resolved : findExecutable host (cmd.headD []) = .ok executable
  spawned : spawn = ⟨executable :: cmd.tail, host.sandboxWorkspace⟩

theorem executeTool_ok (h : executeTool host py tool arguments = .ok spawn) :
    ∃ cmd executable, Started host py tool arguments spawn cmd executable := by
  obtain ⟨⟨⟩, -, h⟩ := bind_eq_ok h
  obtain ⟨⟨⟩, hdefinition, h⟩ := bind_eq_ok h
  obtain ⟨⟨⟩, -, h⟩ := bind_eq_ok h
  obtain ⟨cmd, hcmd, h⟩ := bind_eq_ok h
  obtain ⟨⟨⟩, hchecked, h⟩ := bind_eq_ok h
  obtain ⟨⟨⟩, hinside, h⟩ := bind_eq_ok h
  obtain ⟨executable, hexecutable, h⟩ := bind_eq_ok h
  refine ⟨cmd, executable, ?_, hcmd, hchecked, ?_, hexecutable, (Except.ok.inj h).symm⟩
  · unfold checkDefinition at hdefinition
    split at hdefinition
    · cases hdefinition
    · assumption
  · unfold checkFilesystem at hinside
    split at hinside
    · assumption
    · cases hinside

namespace Started
variable {cmd : List PyStr} {executable : PyStr}

/-- Each element of the command is rendered from its own template element. -/
theorem rendered (h : Started host py tool arguments spawn cmd executable) :
    List.Forall₂ (fun part out => format (fieldValue py arguments) part = some out)
      tool.commandTemplate cmd := by
  refine (mapM_ok h.built).imp fun part out hpart => ?_
  split at hpart
  · rename_i heq
    rw [heq, Except.ok.inj hpart]
  · cases hpart

/-- The program is an element of the definition, and its text has no braces. -/
theorem program (h : Started host py tool arguments spawn cmd executable) :
    ∃ name parts outs, tool.commandTemplate = name :: parts ∧ cmd = name :: outs ∧
      openBrace ∉ name ∧ closeBrace ∉ name := by
  have htemplate := h.template
  have hrendered := h.rendered
  cases hparts : tool.commandTemplate with
  | nil =>
    rw [hparts] at htemplate
    cases htemplate
  | cons name parts =>
    rw [hparts, commandTemplateProblem] at htemplate
    rw [hparts] at hrendered
    split at htemplate
    · cases htemplate
    split at htemplate
    · cases htemplate
    rename_i hbraces
    obtain ⟨hopen, hclose⟩ := not_or.mp hbraces
    cases hrendered with
    | cons hname houts =>
      rw [format_plain ⟨hopen, hclose⟩] at hname
      cases hname
      exact ⟨_, parts, _, rfl, rfl, hopen, hclose⟩

theorem argv (h : Started host py tool arguments spawn cmd executable) :
    spawn.argv = executable :: cmd.tail := by
  rw [h.spawned]

end Started

/-- What holds of a started process and its arguments. -/
structure Harmless (py : Values V) (tool : ToolDefinition) (arguments : Arguments V)
    (spawn : Spawn) : Prop where
  oneEach : spawn.argv.length = tool.commandTemplate.length
  noControl : ∀ f ∈ arguments, ∀ u ∈ py.str f.2, isControl u = false
  noOption : ∀ (i : ℕ) (element out : PyStr) (field : Field) (rest : List Part),
    tool.commandTemplate[i]? = some element → spawn.argv[i]? = some out →
      parse element = .ok (⟨[], some field⟩ :: rest) → out.head? ≠ some dash

theorem Started.harmless {cmd : List PyStr} {executable : PyStr}
    (h : Started host py tool arguments spawn cmd executable) : Harmless py tool arguments spawn := by
  obtain ⟨name, parts, outs, hparts, houts, hopen, hclose⟩ := h.program
  have hlength : cmd.length = tool.commandTemplate.length := h.rendered.length_eq.symm
  obtain ⟨⟨⟩, hcontrol, hpositions⟩ := bind_eq_ok h.checked
  refine ⟨?_, fun f hf u hu => ?_, fun i element out field rest helement hout hparse => ?_⟩
  · rw [h.argv, ← hlength, houts]
    rfl
  · have hcheck := forM_ok hcontrol f hf
    split at hcheck
    · cases hcheck
    · rename_i hnone
      rw [List.any_eq_true] at hnone
      by_contra hu'
      exact hnone ⟨u, hu, by simpa using hu'⟩
  · rw [h.argv, houts] at hout
    rw [hparts] at helement
    cases i with
    | zero =>
      cases helement
      rw [parse, parseFrom_plain ⟨hopen, hclose⟩] at hparse
      cases name with
      | nil => cases hparse
      | cons c name => cases hparse
    | succ i =>
      have hzip : (element, out) ∈ tool.commandTemplate.tail.zip cmd.tail := by
        rw [hparts, houts]
        apply List.mem_of_getElem? (i := i)
        rw [List.getElem?_zip_eq_some]
        exact ⟨helement, hout⟩
      have hcheck := forM_ok hpositions _ hzip
      have hleading : leadingPlaceholder element = some field.name := by
        rw [leadingPlaceholder, hparse]
        rfl
      simp only [hleading] at hcheck
      intro hdash
      rw [if_pos hdash] at hcheck
      cases hcheck

/-- A process that is started is harmless, and its program is the same for all arguments. -/
theorem executeTool_harmless (h : executeTool host py tool arguments = .ok spawn) :
    Harmless py tool arguments spawn ∧ ∀ (arguments' : Arguments V) (spawn' : Spawn),
      executeTool host py tool arguments' = .ok spawn' → spawn'.argv.head? = spawn.argv.head? := by
  obtain ⟨cmd, executable, hstarted⟩ := executeTool_ok h
  refine ⟨hstarted.harmless, fun arguments' spawn' h' => ?_⟩
  obtain ⟨cmd', executable', hstarted'⟩ := executeTool_ok h'
  obtain ⟨name, parts, outs, hparts, houts, -⟩ := hstarted.program
  obtain ⟨name', parts', outs', hparts', houts', -⟩ := hstarted'.program
  have hname : name' = name := by
    rw [hparts] at hparts'
    exact (List.cons.inj hparts').1.symm
  have hresolved := hstarted.resolved
  have hresolved' := hstarted'.resolved
  rw [houts] at hresolved
  rw [houts', hname] at hresolved'
  have hexecutable : executable' = executable := Except.ok.inj (hresolved'.symm.trans hresolved)
  rw [hstarted.argv, hstarted'.argv, hexecutable]
  rfl

/-! ## The filesystem allowlist -/

def allowlist (tool : ToolDefinition) : List PyStr :=
  tool.sandbox.allowFsRead ++ tool.sandbox.allowFsWrite

/-- The path, resolved against the working directory of the process, is below an allowed one. -/
def Allowed (host : Host) (tool : ToolDefinition) (path : PyStr) : Prop :=
  ∃ allowed ∈ allowlist tool,
    isWithin host (host.path.join host.sandboxWorkspace path) allowed = true

/-- The elements rendered from certain template elements are allowed paths. -/
def Bounded (host : Host) (tool : ToolDefinition) (spawn : Spawn) (P : PyStr → Prop) : Prop :=
  ∀ (i : ℕ) (element out : PyStr), tool.commandTemplate[i]? = some element →
    spawn.argv[i]? = some out → P element → Allowed host tool out

/-- The element is one placeholder that is looked up by its name. -/
def OnePlaceholder (element : PyStr) : Prop :=
  ∃ field, parse element = .ok [⟨[], some field⟩] ∧ isPlain field = true

/-- Some part of the element is a placeholder. -/
def HasPlaceholder (element : PyStr) : Prop :=
  ∃ parts, parse element = .ok parts ∧ ∃ part ∈ parts, part.field.isSome

/-- A path separator or a character of file names. -/
def isPathUnit (u : CodeUnit) : Bool :=
  (PyStr.ofString "/._-abcdefghijklmnopqrstuvwxyzABCDEFGHIJKLMNOPQRSTUVWXYZ0123456789").contains u

def PathLiterals (template : List PyStr) : Prop :=
  ∀ element ∈ template, ∀ parts, parse element = .ok parts →
    ∀ part ∈ parts, part.literal.all isPathUnit

/-- On a POSIX host a path is below another one exactly where the components of its resolved form
begin with those of the other's. -/
theorem isWithin_iff (hpath : host.path = posixOps) {path root : PyStr} {cs ds : List PyStr}
    (hcs : ∀ c ∈ cs, PosixPath.Segment c) (hds : ∀ d ∈ ds, PosixPath.Segment d)
    (hc : host.canonicalPath path = PosixPath.render cs)
    (hd : host.canonicalPath root = PosixPath.render ds) :
    isWithin host path root = true ↔ ds <+: cs := by
  unfold isWithin
  rw [hc, hd, hpath, decide_eq_true_eq]
  exact PosixPath.commonpath_render_iff hcs hds

theorem mem_fsViolations {f : PyStr × V} (hallow : allowlist tool ≠ []) (hf : f ∈ arguments)
    (hout : ¬Allowed host tool (py.str f.2)) : f.1 ∈ fsViolations host py tool arguments := by
  have hne : tool.sandbox.allowFsRead ++ tool.sandbox.allowFsWrite ≠ [] := hallow
  rw [fsViolations, if_neg hne, mem_sortedBy]
  refine List.mem_map_of_mem (List.mem_filter.mpr ⟨hf, ?_⟩)
  rw [Bool.not_eq_true', List.any_eq_false]
  intro allowed hmem hwithin
  exact hout ⟨allowed, hmem, hwithin⟩

theorem Started.allowed {cmd : List PyStr} {executable : PyStr}
    (h : Started host py tool arguments spawn cmd executable) (hallow : allowlist tool ≠ [])
    {f : PyStr × V} (hf : f ∈ arguments) : Allowed host tool (py.str f.2) := by
  by_contra hout
  have hmem := mem_fsViolations hallow hf hout
  rw [h.inside] at hmem
  cases hmem

/-- One placeholder is rendered to the text of an argument. -/
theorem format_onePlaceholder {element out : PyStr} (h : OnePlaceholder element)
    (hout : format (fieldValue py arguments) element = some out) :
    ∃ f ∈ arguments, out = py.str f.2 := by
  obtain ⟨field, hparse, hplain⟩ := h
  rw [format, hparse] at hout
  simp only [List.mapM_cons, List.mapM_nil, renderPart, fieldValue, hplain, if_pos] at hout
  cases hfind : arguments.find? fun f => f.1 = field.name with
  | none =>
    rw [hfind] at hout
    cases hout
  | some f =>
    rw [hfind] at hout
    refine ⟨f, List.mem_of_find?_eq_some hfind, ?_⟩
    simpa using hout.symm

/-- With an allowlist every value is an allowed path, and so is every element that is one value. -/
theorem executeTool_allowed (h : executeTool host py tool arguments = .ok spawn)
    (hallow : allowlist tool ≠ []) :
    (∀ f ∈ arguments, Allowed host tool (py.str f.2)) ∧
      Bounded host tool spawn OnePlaceholder := by
  obtain ⟨cmd, executable, hstarted⟩ := executeTool_ok h
  obtain ⟨name, parts, outs, hparts, houts, hopen, hclose⟩ := hstarted.program
  refine ⟨fun f hf => hstarted.allowed hallow hf, fun i element out helement hout hone => ?_⟩
  have hrendered := hstarted.rendered
  rw [hstarted.argv, houts] at hout
  rw [hparts] at helement
  rw [hparts, houts] at hrendered
  cases i with
  | zero =>
    cases helement
    obtain ⟨field, hparse, -⟩ := hone
    rw [parse, parseFrom_plain ⟨hopen, hclose⟩] at hparse
    cases name <;> cases hparse
  | succ i =>
    cases hrendered with
    | cons _ hrest =>
      have hzip : (element, out) ∈ parts.zip outs := by
        apply List.mem_of_getElem? (i := i)
        rw [List.getElem?_zip_eq_some]
        exact ⟨helement, hout⟩
      obtain ⟨f, hf, rfl⟩ := format_onePlaceholder hone (List.forall₂_zip hrest hzip)
      exact hstarted.allowed hallow hf

/-! ## A host with one program -/

def catHost : Host where
  windows := false
  path := posixOps
  canonicalPath path := path
  executableFile path := path = PyStr.ofString "/bin/cat"
  lower s := s
  hardened := false
  sandboxRuntimeAvailable := true
  searchPath := PyStr.ofString "/bin"
  sandboxWorkspace := PyStr.ofString "/sandbox"

/-- Text values that match every pattern. -/
def textValues : Values PyStr where
  str s := s
  special _ _ := none
  fullmatch _ _ := some true

/-- A tool that prints a file, below the sandbox workspace only. -/
def catTool (part : String) : ToolDefinition where
  name := PyStr.ofString "cat"
  commandTemplate := [PyStr.ofString "cat", PyStr.ofString part]
  allowedArgs := [(PyStr.ofString "name", PyStr.ofString ".+")]
  sandbox := ⟨false, [PyStr.ofString "/sandbox"], [], []⟩
  sandboxDeclared := true

def named (value : String) : Arguments PyStr := [(PyStr.ofString "name", PyStr.ofString value)]

theorem catTool_starts : executeTool catHost textValues (catTool "\x7bname\x7d") (named "a") =
    .ok ⟨[PyStr.ofString "/bin/cat", PyStr.ofString "a"], PyStr.ofString "/sandbox"⟩ := by
  decide

theorem catTool_harmless : Harmless textValues (catTool "\x7bname\x7d") (named "a")
    ⟨[PyStr.ofString "/bin/cat", PyStr.ofString "a"], PyStr.ofString "/sandbox"⟩ :=
  (executeTool_harmless catTool_starts).1

theorem catTool_allowed : Allowed catHost (catTool "\x7bname\x7d") (PyStr.ofString "a") :=
  (executeTool_allowed catTool_starts (by decide)).1 _ List.mem_cons_self

/-- A literal directory before the value is not in what is checked. -/
theorem literal_directory_escapes : ¬∀ (tool : ToolDefinition) (arguments : Arguments PyStr)
    (spawn : Spawn), executeTool catHost textValues tool arguments = .ok spawn →
      allowlist tool ≠ [] → PathLiterals tool.commandTemplate →
        Bounded catHost tool spawn HasPlaceholder := by
  intro h
  have hstart : executeTool catHost textValues (catTool "/etc/\x7bname\x7d") (named "passwd") =
      .ok ⟨[PyStr.ofString "/bin/cat", PyStr.ofString "/etc/passwd"], PyStr.ofString "/sandbox"⟩ := by
    decide
  have hparse : parse (PyStr.ofString "/etc/\x7bname\x7d") =
      .ok [⟨PyStr.ofString "/etc/", some ⟨PyStr.ofString "name", none, []⟩⟩] := by
    decide
  have hcat : parse (PyStr.ofString "cat") = .ok [⟨PyStr.ofString "cat", none⟩] := by
    decide
  have hliterals : PathLiterals (catTool "/etc/\x7bname\x7d").commandTemplate := by
    intro element helement parts hparts part hpart
    simp only [catTool, List.mem_cons, List.not_mem_nil, or_false] at helement
    rcases helement with rfl | rfl
    · cases hcat.symm.trans hparts
      rw [List.mem_singleton.mp hpart]
      decide
    · cases hparse.symm.trans hparts
      rw [List.mem_singleton.mp hpart]
      decide
  obtain ⟨allowed, hmem, hwithin⟩ := h _ _ _ hstart (by decide) hliterals 1 _ _ rfl rfl
    ⟨_, hparse, _, List.mem_cons_self, rfl⟩
  have hallowed : allowed = PyStr.ofString "/sandbox" := by
    simpa [allowlist, catTool] using hmem
  rw [hallowed] at hwithin
  revert hwithin
  decide

end OpenClaw.Tools
