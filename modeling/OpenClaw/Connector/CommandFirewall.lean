import Mathlib.Data.List.Lex
import OpenClaw.Foundation.Checks
import OpenClaw.Foundation.CodePoints
import OpenClaw.Foundation.Delimited
import OpenClaw.Foundation.Shlex
import OpenClaw.Foundation.Table

/-!
# The command firewall

`CommandFirewall` and `NormalizedCommand` of `connector/command_firewall.py`, and how
`RouterDispatchMixin.handle` of `connector/router_dispatch.py` splits a command. The rendering
puts quotes around the value of a flag that is empty or has a space in it, and around nothing else.
-/

namespace OpenClaw.Connector.Firewall

open Foundation Shlex
set_option autoImplicit false

/-- `str.lower`, which is known on ASCII texts. -/
structure LowerCase where
  apply : CodePoints → CodePoints
  ascii : ∀ t : CodePoints, t.isAscii = true → apply t = t.lower

def text (s : String) : CodePoints := CodePoints.ofString s

/-! ## The two lexers -/

def blankSign : CodePoint := 32
def quoteSign : CodePoint := 34
def equalsSign : CodePoint := 61
def newlineSign : CodePoint := 10

/-- `shlex.shlex(text, posix=True)` with `whitespace_split` and double quotes only: a number sign
opens a comment. -/
def lexer : Signs CodePoint where
  blank c := decide (c.val ∈ [32, 9, 13, 10])
  comment c := decide (c.val = 35)
  space := blankSign
  newline := newlineSign
  quote := quoteSign
  escape := 92
  space_blank := rfl
  quote_inner := rfl
  escape_comment := rfl

/-- The router sets `commenters` to the empty text. -/
def routerLexer : Signs CodePoint := lexer.uncommented

/-! ## Commands -/

abbrev Flag := CodePoints × CodePoints

abbrev Flags := Table (Prod.fst : Flag → CodePoints)

structure NormalizedCommand where
  command : CodePoints
  args : List CodePoints
  flags : Flags
  isSafe : Bool
  safetyReason : CodePoints
  code : String
  severity : String
  action : String

def flagText (f : Flag) : CodePoints :=
  let v := if blankSign ∈ f.2 ∨ f.2 = [] then quoteSign :: (f.2 ++ [quoteSign]) else f.2
  f.1 ++ equalsSign :: v

/-- The flags in the order of their keys, and the arguments behind them. -/
def NormalizedCommand.toString (c : NormalizedCommand) : CodePoints :=
  List.intercalate [blankSign] (c.command :: ((sortedBy Prod.fst c.flags.rows).map flagText ++ c.args))

/-- The fields of `to_contract`. -/
structure Contract where
  code : String
  severity : String
  action : String
  reason : CodePoints

def NormalizedCommand.toContract (c : NormalizedCommand) : Contract :=
  ⟨c.code, c.severity, c.action, c.safetyReason⟩

inductive DenyPattern where
  | semicolon
  | backtick
  | substitution
  | pipe
  deriving DecidableEq

/-- The regular expression, as the reason of a refusal shows it. -/
def DenyPattern.regex : DenyPattern → String
  | .semicolon => ";"
  | .backtick => "`"
  | .substitution => "\\$\\("
  | .pipe => "\\|"

/-- What the regular expression finds. -/
def DenyPattern.literal : DenyPattern → CodePoints
  | .semicolon => [59]
  | .backtick => [96]
  | .substitution => [36, 40]
  | .pipe => [124]

def DenyPattern.found (p : DenyPattern) (t : CodePoints) : Bool := decide (p.literal <:+: t)

/-- The set of the patterns in the order in which it is gone through. -/
structure DenySet where
  order : List DenyPattern
  all : ∀ p, p ∈ order

def allowedCommands : List CodePoints := [text "/run", text "/status", text "/help", text "/jobs"]

def isKeyStart (c : CodePoint) : Bool :=
  decide ((65 ≤ c.val ∧ c.val ≤ 90) ∨ (97 ≤ c.val ∧ c.val ≤ 122) ∨ c.val = 95)

def isKeyChar (c : CodePoint) : Bool := isKeyStart c || decide (48 ≤ c.val ∧ c.val ≤ 57)

def isIdentifier : CodePoints → Bool
  | [] => false
  | c :: t => isKeyStart c && t.all isKeyChar

/-- `_VALID_KEY_RE.match`: its end is also in front of a last newline. -/
def validKey (k : CodePoints) : Bool :=
  isIdentifier k || (decide (k.getLast? = some newlineSign) && isIdentifier k.dropLast)

def maxValueLength : ℕ := 1000

def refused (command reason : CodePoints) (code severity : String) : NormalizedCommand :=
  ⟨command, [], Table.empty, false, reason, code, severity, "deny"⟩

abbrev Parsed := List CodePoints × Flags

def takeFlag (cmd : CodePoints) (acc : Parsed) (k v : CodePoints) :
    Except NormalizedCommand Parsed :=
  if validKey k = false then
    .error (refused cmd (text "invalid_key: " ++ k) "firewall_invalid_key" "medium")
  else if maxValueLength < v.length then
    .error (refused cmd (text "value_too_long: " ++ k) "firewall_value_too_long" "medium")
  else .ok (acc.1, acc.2.put (k, v))

/-- One round of the loop over the arguments. -/
def takeArg (cmd : CodePoints) (acc : Parsed) (arg : CodePoints) :
    Except NormalizedCommand Parsed :=
  if text "-" <+: arg then
    match splitFirst? equalsSign arg with
    | some (k, v) =>
      if text "--" <+: arg then .ok (acc.1 ++ [arg], acc.2) else takeFlag cmd acc k v
    | none => .ok (acc.1 ++ [arg], acc.2)
  else
    match splitFirst? equalsSign arg with
    | some (k, v) => takeFlag cmd acc k v
    | none => .ok (acc.1 ++ [arg], acc.2)

def lexErrorText : LexError → String
  | .quotation => "No closing quotation"
  | .escaped => "No escaped character"

section Firewall
variable (lower : LowerCase) (deny : DenySet)

def validateSuggestion (raw : CodePoints) : NormalizedCommand :=
  let clean := CodePoints.strip raw
  match deny.order.find? fun p => p.found clean with
  | some p =>
    refused (text "error") (text "unsafe_pattern_detected: " ++ text p.regex)
      "firewall_unsafe_pattern" "high"
  | none =>
    match split lexer clean with
    | .error e =>
      refused (text "error") (text "parse_error: " ++ text (lexErrorText e))
        "firewall_parse_error" "medium"
    | .ok [] => refused [] (text "empty_command") "firewall_empty_command" "medium"
    | .ok (first :: args) =>
      let cmd := lower.apply first
      if cmd ∉ allowedCommands then
        refused cmd (text "command_not_allowed: " ++ cmd) "firewall_command_not_allowed" "high"
      else
        match args.foldlM (takeArg cmd) ([], Table.empty) with
        | .error refusal => refusal
        | .ok parsed =>
          ⟨cmd, parsed.1, parsed.2, true, text "valid", "firewall_allow", "info", "allow"⟩

/-- The command and the arguments as the router splits them, or its answer. -/
def routerParts (message : CodePoints) : Except String (CodePoints × List CodePoints) :=
  match split routerLexer (CodePoints.strip message) with
  | .error _ => .error "[Error] Parsing command arguments failed (unbalanced quotes?)."
  | .ok [] => .error "Empty command."
  | .ok (first :: args) => .ok (lower.apply first, args)

end Firewall

/-! ## The loop over the arguments -/

/-- The key and the value of a word that is taken for a flag. -/
def flag? (w : CodePoints) : Option Flag :=
  if text "--" <+: w then none else splitFirst? equalsSign w

/-- The loop does not stop at the word. -/
def Passes (w : CodePoints) : Prop :=
  ∀ f, flag? w = some f → validKey f.1 = true ∧ f.2.length ≤ maxValueLength

def argsOf (ws : List CodePoints) : List CodePoints := ws.filter fun w => (flag? w).isNone

def flagsOf (ws : List CodePoints) : Flags := Table.ofRows (ws.filterMap flag?)

theorem takeArg_eq (cmd : CodePoints) (acc : Parsed) (w : CodePoints) :
    takeArg cmd acc w =
      match flag? w with
      | some f => takeFlag cmd acc f.1 f.2
      | none => .ok (acc.1 ++ [w], acc.2) := by
  rw [takeArg, flag?]
  by_cases htwo : text "--" <+: w
  · have hone : text "-" <+: w := List.IsPrefix.trans ⟨[45], rfl⟩ htwo
    rw [if_pos hone, if_pos htwo]
    cases splitFirst? equalsSign w with
    | none => rfl
    | some f => exact if_pos htwo
  · rw [if_neg htwo]
    split <;> cases splitFirst? equalsSign w <;> rfl

theorem takeFlag_eq_ok {cmd k v : CodePoints} {acc acc' : Parsed} :
    takeFlag cmd acc k v = .ok acc' ↔
      (validKey k = true ∧ v.length ≤ maxValueLength) ∧ acc' = (acc.1, acc.2.put (k, v)) := by
  rw [takeFlag]
  split
  · rename_i hk
    simp [hk]
  · rename_i hk
    split
    · rename_i hv
      simp only [reduceCtorEq, false_iff]
      omega
    · rename_i hv
      rw [Bool.not_eq_false] at hk
      simp only [Except.ok.injEq, hk, true_and, Nat.not_lt.mp hv]
      exact eq_comm

theorem flagsOf_concat (ws : List CodePoints) (w : CodePoints) :
    flagsOf (ws ++ [w]) = (flag? w).elim (flagsOf ws) (flagsOf ws).put := by
  rw [flagsOf, List.filterMap_append]
  cases hf : flag? w with
  | none => simp [hf, flagsOf]
  | some f =>
    have hone : [w].filterMap flag? = [f] := by simp [hf]
    rw [hone, Table.ofRows_concat]
    rfl

theorem argsOf_concat (ws : List CodePoints) (w : CodePoints) :
    argsOf (ws ++ [w]) = (flag? w).elim (argsOf ws ++ [w]) fun _ => argsOf ws := by
  rw [argsOf, List.filter_append]
  cases hf : flag? w <;> simp [hf, argsOf]

theorem takeArg_eq_ok {cmd w : CodePoints} {acc acc' : Parsed} :
    takeArg cmd acc w = .ok acc' ↔ Passes w ∧
      acc' = (flag? w).elim (acc.1 ++ [w], acc.2) fun f => (acc.1, acc.2.put f) := by
  rw [takeArg_eq]
  cases hf : flag? w with
  | none =>
    have hpasses : Passes w := by
      intro f h
      rw [hf] at h
      cases h
    simp only [hpasses, true_and, Option.elim_none, Except.ok.injEq]
    exact eq_comm
  | some f =>
    have hpasses : Passes w ↔ validKey f.1 = true ∧ f.2.length ≤ maxValueLength := by
      constructor
      · exact fun h => h f hf
      · intro h g hg
        rw [hf] at hg
        cases hg
        exact h
    rw [hpasses]
    exact takeFlag_eq_ok

/-- The loop ends without a refusal if and only if it stops at no word, and it sorts the words into
flags and arguments. -/
theorem foldlM_takeArg {cmd : CodePoints} {ws : List CodePoints} {parsed : Parsed} :
    ws.foldlM (takeArg cmd) ([], Table.empty) = .ok parsed ↔
      (∀ w ∈ ws, Passes w) ∧ parsed = (argsOf ws, flagsOf ws) := by
  induction ws using List.reverseRecOn generalizing parsed with
  | nil =>
    simp only [List.foldlM_nil, pure, Except.pure, Except.ok.injEq, List.not_mem_nil, false_imp_iff,
      implies_true, true_and]
    exact eq_comm
  | append_singleton ws w ih =>
    rw [List.foldlM_append, flagsOf_concat, argsOf_concat]
    have hsplit : (∀ x ∈ ws ++ [w], Passes x) ↔ (∀ x ∈ ws, Passes x) ∧ Passes w := by
      simp [or_imp, forall_and]
    rw [hsplit]
    constructor
    · intro h
      obtain ⟨before, hbefore, hlast⟩ := bind_eq_ok h
      obtain ⟨hws, rfl⟩ := ih.mp hbefore
      rw [List.foldlM_cons] at hlast
      obtain ⟨after, hafter, hpure⟩ := bind_eq_ok hlast
      cases hpure
      obtain ⟨hw, rfl⟩ := takeArg_eq_ok.mp hafter
      refine ⟨⟨hws, hw⟩, ?_⟩
      cases flag? w <;> rfl
    · rintro ⟨⟨hws, hw⟩, rfl⟩
      rw [ih.mpr ⟨hws, rfl⟩]
      have hlast : takeArg cmd (argsOf ws, flagsOf ws) w = _ := takeArg_eq_ok.mpr ⟨hw, rfl⟩
      change (List.foldlM (takeArg cmd) (argsOf ws, flagsOf ws) [w]) = _
      rw [foldlM_cons_ok hlast]
      cases flag? w <;> rfl

theorem takeArg_refused {cmd w : CodePoints} {acc : Parsed} {refusal : NormalizedCommand}
    (h : takeArg cmd acc w = .error refusal) : refusal.isSafe = false := by
  rw [takeArg_eq] at h
  split at h
  · rw [takeFlag] at h
    split at h
    · cases h
      rfl
    · split at h
      · cases h
        rfl
      · cases h
  · cases h

section Safe
variable {lower : LowerCase} {deny : DenySet} {raw : CodePoints}

/-- What a suggestion is that is marked safe. -/
structure Safe (lower : LowerCase) (deny : DenySet) (raw first : CodePoints)
    (ws : List CodePoints) : Prop where
  clean : ∀ p : DenyPattern, p.found (CodePoints.strip raw) = false
  words : split lexer (CodePoints.strip raw) = .ok (first :: ws)
  allowed : lower.apply first ∈ allowedCommands
  passes : ∀ w ∈ ws, Passes w

theorem validate_of_safe {first : CodePoints} {ws : List CodePoints}
    (h : Safe lower deny raw first ws) : validateSuggestion lower deny raw =
      ⟨lower.apply first, argsOf ws, flagsOf ws, true, text "valid", "firewall_allow", "info",
        "allow"⟩ := by
  have hnone : (deny.order.find? fun p => p.found (CodePoints.strip raw)) = none := by
    rw [List.find?_eq_none]
    intro p _
    simp [h.clean p]
  rw [validateSuggestion, hnone, h.words]
  simp only
  rw [if_neg (not_not.mpr h.allowed), foldlM_takeArg.mpr ⟨h.passes, rfl⟩]

theorem validate_isSafe : (validateSuggestion lower deny raw).isSafe = true ↔
    ∃ first ws, Safe lower deny raw first ws := by
  constructor
  · intro h
    rw [validateSuggestion] at h
    simp only at h
    split at h
    · cases h
    rename_i hnone
    split at h
    · cases h
    · cases h
    rename_i first ws hwords
    split at h
    · cases h
    rename_i hallowed
    split at h
    · rename_i refusal hrefusal
      obtain ⟨_, _, _, _, _, _, hlast⟩ := foldlM_error_iff.mp hrefusal
      rw [takeArg_refused hlast] at h
      cases h
    rename_i parsed hparsed
    refine ⟨first, ws, ?_, hwords, not_not.mp hallowed, (foldlM_takeArg.mp hparsed).1⟩
    intro p
    simpa using List.find?_eq_none.mp hnone p (deny.all p)
  · rintro ⟨first, ws, h⟩
    rw [validate_of_safe h]

end Safe

end OpenClaw.Connector.Firewall
