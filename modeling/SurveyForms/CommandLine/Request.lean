import SurveyForms.CommandLine.Flags
import SurveyForms.Diagnostic
import SurveyForms.Text.Case
import SurveyForms.Text.Distance

/-! What a command line asks for. The first word that is not the value of a flag names the
command; flags may stand in front of it. -/
namespace SurveyForms.CommandLine

inductive Subcommand where
  | compile
  | history
  | init
  | lint
  /-- Prints the outline of a source. -/
  | outline
  deriving DecidableEq, Repr

namespace Subcommand

def all : List Subcommand := [.compile, .history, .init, .lint, .outline]

def name : Subcommand → String
  | .compile => "compile"
  | .history => "history"
  | .init => "init"
  | .lint => "lint"
  | .outline => "show"

/-- Whether a command works on exactly one file; the others do not look at words. -/
def takesFile : Subcommand → Bool
  | .compile | .lint | .outline => true
  | .history | .init => false

end Subcommand

def helpFlag : Flag := ⟨"help", some 'h', true⟩

def sharedFlags : List Flag := [⟨"log-level", none, false⟩, ⟨"registry", none, false⟩]

def Subcommand.flags : Subcommand → List Flag
  | .compile => [⟨"output", some 'o', false⟩, ⟨"lint", none, true⟩]
  | .history => [⟨"form", none, false⟩]
  | .init | .lint | .outline => []

inductive UsageError where
  | unknownCommand (typed : String)
  | flag (cause : FlagError)
  /-- Not exactly one file. -/
  | fileCount (count : Nat)
  deriving DecidableEq, Repr

def suggestible : List String := Subcommand.all.map Subcommand.name ++ ["completion"]

def suggestionDistance : Nat := 2

/-- The names that a typed one is close to or begins. Case does not count. -/
def suggestions (typed : String) : List String :=
  let typed := Text.lower typed
  suggestible.filter fun name =>
    Text.distance (Position.bytes typed) (Position.bytes name) ≤ suggestionDistance ||
      typed.toList.isPrefixOf name.toList

namespace UsageError

def message : UsageError → String
  | .unknownCommand typed =>
    let close := suggestions typed
    "unknown command " ++ Text.quote typed ++ " for \"comb\"" ++
      if close.isEmpty then ""
      else "\n\nDid you mean this?\n" ++ String.join (close.map fun name => "\t" ++ name ++ "\n")
  | .flag cause => cause.message
  | .fileCount count => s!"accepts 1 arg(s), received {count}"

end UsageError

inductive Request where
  | help
  | run (command : Subcommand) (arguments : Arguments)
  deriving DecidableEq, Repr

/-- Whether an argument in front of the command is a flag that takes the next argument along: a
long name or a single letter without an equals sign. -/
def takesNext (argument : String) : Bool :=
  match argument.toList with
  | '-' :: '-' :: text => !text.contains '='
  | ['-', c] => c != '=' && c.toNat < 0x80
  | _ => false

/-- The arguments in front of the command's name, the name, and those behind it. A flag that
takes an argument along ends the search if fewer than two arguments follow it. -/
def splitAtName : List String → Option (List String × String × List String)
  | [] => none
  | argument :: rest =>
    if argument = "--" then none
    else if takesNext argument then
      match rest with
      | value :: next :: rest =>
        (splitAtName (next :: rest)).map fun (front, name, back) =>
          (argument :: value :: front, name, back)
      | _ => none
    else if argument = "" ∨ argument.toList.head? = some '-' then
      (splitAtName rest).map fun (front, name, back) => (argument :: front, name, back)
    else some ([], argument, rest)

namespace Request

/-- Names of commands that only explain the others. -/
def helpNames : List String := ["help", "completion"]

/-- A request to a command with the other arguments of the command line. Flags are read before
files are counted. -/
def toCommand (command : Subcommand) (arguments : List String) : Except UsageError Request := do
  let a ← (parse (helpFlag :: sharedFlags ++ command.flags) arguments).mapError .flag
  if a.isOn helpFlag.name then return .help
  if command.takesFile && a.words.length ≠ 1 then throw (.fileCount a.words.length)
  return .run command a

/-- Reads a command line. One without a command asks for help, if its flags are right. -/
def ofArguments (arguments : List String) : Except UsageError Request :=
  match splitAtName arguments with
  | none => do
    let _ ← (parse (helpFlag :: sharedFlags) arguments).mapError .flag
    return .help
  | some (front, name, back) =>
    match Subcommand.all.find? (·.name = name) with
    | some command => toCommand command (front ++ back)
    | none => if name ∈ helpNames then .ok .help else .error (.unknownCommand name)

end Request
end SurveyForms.CommandLine
