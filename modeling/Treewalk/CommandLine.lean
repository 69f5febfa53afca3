import Treewalk.Text.Quoted

/-! Command lines: flags, and the script behind them. Flags start with one or two dashes and end
with the first argument that is none. -/

namespace Treewalk

structure CommandLine where
  settingsPath : Bytes
  trace : Bool := false
  /-- Show the syntax trees of the script instead of running it. -/
  showTrees : Bool := false
  /-- What stands behind the flags. -/
  scripts : List Bytes := []
  deriving DecidableEq, Repr

namespace CommandLine

/-- Why a command line is answered with the usage text. -/
inductive Refusal where
  /-- The user asked for it. -/
  | help
  | malformedFlag (argument : Bytes)
  | unknownFlag (name : Bytes)
  | badSwitch (name value : Bytes)
  | missingValue (name : Bytes)
  | severalScripts
  deriving DecidableEq, Repr

/-- The first line of the answer, if there is anything to say. -/
def Refusal.message? : Refusal → Option Bytes
  | help | severalScripts => none
  | malformedFlag argument => some (.ofString "bad flag syntax: " ++ argument)
  | unknownFlag name => some (.ofString "flag provided but not defined: -" ++ name)
  | badSwitch name value =>
    some (.ofString "invalid boolean value " ++ Text.quote value ++ .ofString " for -" ++ name
      ++ .ofString ": parse error")
  | missingValue name => some (.ofString "flag needs an argument: -" ++ name)

/-- How the program is used. The default settings file is mentioned if there is one. -/
def usage (defaultPath : Bytes) : Bytes :=
  let mention : Bytes :=
    if defaultPath.isEmpty then []
    else .ofString " (default " ++ Text.quote defaultPath ++ .ofString ")"
  .ofString "Usage: plam [flags] [script]\n"
    ++ .ofString "  -ast\n    \tprint the syntax tree of the script instead of running it\n"
    ++ .ofString "  -config string\n    \tYAML settings file" ++ mention
    ++ .ofString "\n  -trace\n    \tlog function calls to stderr\n"

def dash : UInt8 := 0x2D

def equals : UInt8 := 0x3D

inductive Argument where
  | flag (name : Bytes) (value : Option Bytes)
  /-- Two dashes alone: no flag stands behind them. -/
  | endOfFlags
  | malformed
  | other
  deriving DecidableEq, Repr

/-- A name, and perhaps a value behind an equals sign, after the dashes. -/
def Argument.ofBody : Bytes → Argument
  | [] => malformed
  | first :: rest =>
    if first = dash ∨ first = equals then malformed
    else
      match rest.dropWhile (· != equals) with
      | [] => flag (first :: rest) none
      | _ :: value => flag (first :: rest.takeWhile (· != equals)) (some value)

/-- A dash alone is no flag. -/
def Argument.read : Bytes → Argument
  | first :: second :: rest =>
    if first ≠ dash then other
    else if second ≠ dash then ofBody (second :: rest)
    else if rest.isEmpty then endOfFlags
    else ofBody rest
  | _ => other

def switch? (value : Bytes) : Option Bool :=
  let isOneOf (words : List String) := (words.map Bytes.ofString).contains value
  if isOneOf ["1", "t", "T", "true", "TRUE", "True"] then some true
  else if isOneOf ["0", "f", "F", "false", "FALSE", "False"] then some false
  else none

def readSwitch (name : Bytes) : Option Bytes → Except Refusal Bool
  | none => .ok true
  | some value =>
    match switch? value with
    | some on => .ok on
    | none => .error (.badSwitch name value)

inductive FlagName where
  | ast | config | trace | help
  deriving DecidableEq, Repr

def FlagName.ofBytes? (name : Bytes) : Option FlagName :=
  if name = .ofString "ast" then some ast
  else if name = .ofString "config" then some config
  else if name = .ofString "trace" then some trace
  else if name = .ofString "help" ∨ name = .ofString "h" then some help
  else none

/-- Reads the arguments into a command line; later flags override earlier ones. -/
def readArguments (line : CommandLine) : List Bytes → Except Refusal CommandLine
  | [] => .ok line
  | argument :: rest =>
    match Argument.read argument with
    | .other => .ok { line with scripts := argument :: rest }
    | .endOfFlags => .ok { line with scripts := rest }
    | .malformed => .error (.malformedFlag argument)
    | .flag name value =>
      match FlagName.ofBytes? name with
      | none => .error (.unknownFlag name)
      | some .help => .error .help
      | some .ast => do
        let showTrees ← readSwitch name value
        readArguments { line with showTrees } rest
      | some .trace => do
        let trace ← readSwitch name value
        readArguments { line with trace } rest
      | some .config =>
        match value, rest with
        | some settingsPath, rest => readArguments { line with settingsPath } rest
        | none, settingsPath :: rest => readArguments { line with settingsPath } rest
        | none, [] => .error (.missingValue name)

def parse (defaultPath : Bytes) (arguments : List Bytes) : Except Refusal CommandLine := do
  let line ← readArguments { settingsPath := defaultPath } arguments
  if line.scripts.length > 1 then throw .severalScripts
  return line

end CommandLine
end Treewalk
