import OpenClaw.Foundation.Checks
import OpenClaw.Foundation.FormatString
import OpenClaw.Foundation.PosixPath

/-!
# The tool runner

`services/tool_runner.py`: the checks of a tool definition and of the arguments of a call, in the
order in which `execute_tool` makes them, up to the start of the process.
-/

namespace OpenClaw.Tools

open Foundation FormatString

set_option autoImplicit false

/-! ## Surroundings -/

/-- The functions of `os.path` on the host. -/
structure PathOps where
  isabs : PyStr → Bool
  dirname : PyStr → PyStr
  join : PyStr → PyStr → PyStr
  extension : PyStr → PyStr
  commonpath : PyStr → PyStr → Option PyStr
  pathsep : CodeUnit

def posixOps : PathOps where
  isabs := PosixPath.isabs
  dirname := PosixPath.dirname
  join := PosixPath.join
  extension := PosixPath.extension
  commonpath := PosixPath.commonpath
  pathsep := 0x3a

/-- What a call finds on the host: the paths, the files, the settings and the environment that
`_sanitize_env` leaves. -/
structure Host where
  windows : Bool
  path : PathOps
  /-- `normcase(realpath(path))` -/
  canonicalPath : PyStr → PyStr
  /-- whether the path is a file that may be executed -/
  executableFile : PyStr → Bool
  lower : PyStr → PyStr
  hardened : Bool
  sandboxRuntimeAvailable : Bool
  searchPath : PyStr
  sandboxWorkspace : PyStr

/-- What Python does with argument values: `str(value)`, which is also what a plain field stands
for, every other field, and `re.fullmatch`. `none` is an exception. -/
structure Values (V : Type) where
  str : V → PyStr
  special : Field → List (PyStr × V) → Option PyStr
  fullmatch : PyStr → PyStr → Option Bool

structure SandboxProfile where
  network : Bool
  allowFsRead : List PyStr
  allowFsWrite : List PyStr
  allowNetworkHosts : List PyStr

structure ToolDefinition where
  name : PyStr
  commandTemplate : List PyStr
  /-- the patterns of the arguments -/
  allowedArgs : List (PyStr × PyStr)
  sandbox : SandboxProfile
  sandboxDeclared : Bool

/-- Why a call ends before the process starts. -/
inductive Refusal where
  | toolNotAllowed
  | sandboxRuntimeUnavailable
  | sandboxPolicyMissing
  | networkHostsMissing
  | definitionRejected (problem : String)
  | unknownArguments (keys : List PyStr)
  | patternMismatch (key : PyStr)
  | patternError (key : PyStr)
  | notRendered (part : PyStr)
  | controlCharacters (key : PyStr)
  | leadingDash (field : PyStr)
  | workspaceViolation (keys : List PyStr)
  | interpreterMissing
  | batchFile (executable : PyStr)
  deriving DecidableEq

def Refusal.errorCode : Refusal → String
  | .toolNotAllowed => "tool_not_allowed"
  | .sandboxRuntimeUnavailable => "sandbox_runtime_unavailable"
  | .sandboxPolicyMissing => "sandbox_policy_missing"
  | .networkHostsMissing => "network_hosts_missing"
  | .workspaceViolation _ => "workspace_violation"
  | .interpreterMissing => "interpreter_missing"
  | _ => "execution_error"

/-- The process that `subprocess.run` starts. -/
structure Spawn where
  argv : List PyStr
  cwd : PyStr
  deriving DecidableEq

/-! ## Definitions -/

section Definitions
variable (host : Host)

def isWithin (path root : PyStr) : Bool :=
  host.path.commonpath (host.canonicalPath path) (host.canonicalPath root) =
    some (host.canonicalPath root)

/-- `_command_template_problem` of a list of strings. -/
def commandTemplateProblem : List PyStr → Option String
  | [] => some "command must be a non-empty list of strings"
  | executable :: _ =>
    if executable.strip = [] then some "command executable must not be empty"
    else if openBrace ∈ executable ∨ closeBrace ∈ executable then
      some "command executable must not contain placeholders"
    else if host.path.isabs executable = false ∧ host.path.dirname executable ≠ [] then
      some "command executable must be a program name or an absolute path"
    else none

def executableFileName (name : PyStr) : PyStr :=
  if host.windows ∧ host.path.extension name = [] then name ++ PyStr.ofString ".exe" else name

def resolveExecutable (name : PyStr) : Option PyStr :=
  let fileName := executableFileName host name
  let candidates :=
    if host.path.isabs fileName then [fileName]
    else
      ((host.searchPath.splitOn host.path.pathsep).filter fun directory =>
        directory ≠ [] ∧ host.path.isabs directory).map fun directory =>
          host.path.join directory fileName
  candidates.find? host.executableFile

def windowsBatchSuffixes : List PyStr := [".bat", ".cmd"].map PyStr.ofString

def isBatchFile (executable : PyStr) : Bool :=
  host.windows && host.lower (host.path.extension executable) ∈ windowsBatchSuffixes

end Definitions

/-! ## Arguments -/

section Arguments
variable {V : Type} (py : Values V)

abbrev Arguments (V : Type) := List (PyStr × V)

/-- A field that is looked up by its name alone: no attribute, index, conversion or specification,
and no number. -/
def isPlain (field : Field) : Bool :=
  field.conversion = none ∧ field.spec = [] ∧ field.name ≠ [] ∧ 0x2e ∉ field.name ∧
    openBracket ∉ field.name ∧
    (field.name.codePoints.all fun n => (PyText.decimalCode? n).isSome) = false

/-- What a field stands for in `part.format(**arguments)`. -/
def fieldValue (arguments : Arguments V) (field : Field) : Option PyStr :=
  if isPlain field then (arguments.find? fun f => f.1 = field.name).map fun f => py.str f.2
  else py.special field arguments

def validateArgs (tool : ToolDefinition) (arguments : Arguments V) : Except Refusal Unit :=
  let unknown := (arguments.map Prod.fst).filter fun key => key ∉ tool.allowedArgs.map Prod.fst
  if unknown ≠ [] then .error (.unknownArguments unknown)
  else
    tool.allowedArgs.forM fun allowed =>
      match arguments.find? fun f => f.1 = allowed.1 with
      | none => .ok ()
      | some f =>
        match py.fullmatch allowed.2 (py.str f.2) with
        | none => .error (.patternError allowed.1)
        | some true => .ok ()
        | some false => .error (.patternMismatch allowed.1)

/-- The command, element by element. -/
def buildCommand (template : List PyStr) (arguments : Arguments V) : Except Refusal (List PyStr) :=
  template.mapM fun part =>
    match format (fieldValue py arguments) part with
    | some rendered => .ok rendered
    | none => .error (.notRendered part)

def isControl (u : CodeUnit) : Bool := u.val < 0x20 || u.val = 0x7f

/-- The field that supplies the first character of a template element. -/
def leadingPlaceholder (element : PyStr) : Option PyStr :=
  match parse element with
  | .ok (part :: _) => if part.literal = [] then part.field.map Field.name else none
  | _ => none

def dash : CodeUnit := 0x2d

def checkArgumentValues (template : List PyStr) (arguments : Arguments V)
    (rendered : List PyStr) : Except Refusal Unit := do
  arguments.forM fun f =>
    if (py.str f.2).any isControl then .error (.controlCharacters f.1) else .ok ()
  (template.tail.zip rendered.tail).forM fun p =>
    match leadingPlaceholder p.1 with
    | none => .ok ()
    | some field => if p.2.head? = some dash then .error (.leadingDash field) else .ok ()

end Arguments

/-! ## Calls -/

section Execute
variable {V : Type} (host : Host) (py : Values V)

def checkPosture (tool : ToolDefinition) : Except Refusal Unit :=
  if host.hardened = false then .ok ()
  else if host.sandboxRuntimeAvailable = false then .error .sandboxRuntimeUnavailable
  else if tool.sandboxDeclared = false then .error .sandboxPolicyMissing
  else if tool.sandbox.network ∧ tool.sandbox.allowNetworkHosts = [] then
    .error .networkHostsMissing
  else .ok ()

/-- The arguments outside every allowed prefix. Relative values are resolved against the working
directory of the process. -/
def fsViolations (tool : ToolDefinition) (arguments : Arguments V) : List PyStr :=
  let allowlist := tool.sandbox.allowFsRead ++ tool.sandbox.allowFsWrite
  if allowlist = [] then []
  else
    sortedBy PyStr.codePoints ((arguments.filter fun f => !allowlist.any fun allowed =>
      isWithin host (host.path.join host.sandboxWorkspace (py.str f.2)) allowed).map Prod.fst)

/-- Definitions that were not read from the configuration get the same check. -/
def checkDefinition (tool : ToolDefinition) : Except Refusal Unit :=
  match commandTemplateProblem host tool.commandTemplate with
  | some problem => .error (.definitionRejected problem)
  | none => .ok ()

def checkFilesystem (tool : ToolDefinition) (arguments : Arguments V) : Except Refusal Unit :=
  match fsViolations host py tool arguments with
  | [] => .ok ()
  | key :: keys => .error (.workspaceViolation (key :: keys))

def findExecutable (name : PyStr) : Except Refusal PyStr :=
  match resolveExecutable host name with
  | none => .error .interpreterMissing
  | some executable =>
    if isBatchFile host executable then .error (.batchFile executable) else .ok executable

/-- `execute_tool` of a tool of the allowlist, up to `subprocess.run`. -/
def executeTool (tool : ToolDefinition) (arguments : Arguments V) : Except Refusal Spawn := do
  checkPosture host tool
  checkDefinition host tool
  validateArgs py tool arguments
  let cmd ← buildCommand py tool.commandTemplate arguments
  checkArgumentValues py tool.commandTemplate arguments cmd
  checkFilesystem host py tool arguments
  let executable ← findExecutable host (cmd.headD [])
  .ok ⟨executable :: cmd.tail, host.sandboxWorkspace⟩

/-- `execute_tool` by name. -/
def execute (tools : List ToolDefinition) (name : PyStr) (arguments : Arguments V) :
    Except Refusal Spawn :=
  match tools.find? fun tool => tool.name = name with
  | none => .error .toolNotAllowed
  | some tool => executeTool host py tool arguments

end Execute

end OpenClaw.Tools
