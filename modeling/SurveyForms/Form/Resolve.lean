import SurveyForms.Files.Sources
import SurveyForms.Form.Tree
import SurveyForms.Log
import SurveyForms.Source.Substitution
import SurveyForms.Statement.Block

/-! Builds the tree of a form: files are read where commands name them, and every command is
checked. Faults are met in source order, with included files in their places. -/
namespace SurveyForms

inductive CompileError where
  | located (diagnostic : Diagnostic)
  | unreadable (path : String) (cause : FileError)
  /-- An error inside the file that a command names. -/
  | within (command : Command) (inner : CompileError)
  deriving DecidableEq, Repr

namespace CompileError

def message : CompileError → String
  | .located d => d.message
  | .unreadable path cause => "reading " ++ path ++ ": " ++ cause.message
  | .within c inner =>
    c.pos.toString ++ ": @" ++ c.name ++ " " ++ c.first ++ ": " ++ inner.message

def diagnostic? : CompileError → Option Diagnostic
  | .located d => some d
  | .unreadable _ _ => none
  | .within _ inner => inner.diagnostic?

/-- Whether a file is missing at the bottom of the error. -/
def isMissing : CompileError → Bool
  | .located _ => false
  | .unreadable _ cause => cause.isMissing
  | .within _ inner => inner.isMissing

end CompileError

abbrev Compiling (α : Type) := Logged CompileError α

namespace Compiling

def fault (pos : Position) (fault : Fault) : Compiling α := .fail (.located ⟨pos, fault⟩)

def diagnose (x : Except Diagnostic α) : Compiling α := .ofExcept (x.mapError .located)

end Compiling

def Command.pairs (c : Command) : List String → Except Diagnostic (List (String × String))
  | [] => .ok []
  | [last] => .error ⟨c.pos, .missingValue c.name last⟩
  | key :: value :: rest => return (key, value) :: (← c.pairs rest)

/-- The row of pairs among the arguments of a command. A missing value is noticed first. -/
def Command.bindings (c : Command) (args : List String) : Except Diagnostic Row :=
  return Row.ofList (← c.pairs args)

def Command.formSettings (c : Command) : Except Diagnostic FormSettings :=
  match c.args with
  | id :: version :: title :: extra => return ⟨id, version, title, ← c.bindings extra⟩
  | _ => .error ⟨c.pos, .formArguments⟩

namespace Sources

/-- Reads a file with its line breaks made plain. -/
def text (s : Sources) (path : String) : Except FileError String :=
  (s.read path).map fun src => String.ofList (Text.unixBreaks src.toList)

theorem known_of_text {s : Sources} {path src : String} (h : s.text path = .ok src) :
    s.canonical path ∈ s.known := by
  unfold text at h
  cases hr : s.read path with
  | error e => simp [hr, Except.map] at h
  | ok src => exact s.known_of_read path src hr

/-- Reads the file that a command names, puts in the command's bindings and hands the text on.
`chain` holds the open files, innermost first; a file that is open must not be opened again. -/
def inclusion (s : Sources) (chain : List String) (c : Command) (bindings : Row)
    (next : (path src : String) → (opened : List String) →
      s.unopened opened < s.unopened chain → Compiling α) : Compiling α := do
  let path := Path.resolve (Path.directory c.pos.file) c.first
  Logged.write .debug "including"
    [("command", c.name), ("path", path), ("from", c.pos.toString)]
  if hopen : s.canonical path ∈ chain then
    let between := (chain.takeWhile (· ≠ s.canonical path)).reverse
    Compiling.fault c.pos (.cycle (s.canonical path :: between ++ [s.canonical path]))
  else
    Logged.mapError (.within c) do
      Logged.write .debug "reading source" [("path", path)]
      match hread : s.text path with
      | .error cause => Logged.fail (.unreadable path cause)
      | .ok text =>
        let src ← Compiling.diagnose (Source.substitute path text bindings)
        next path src (s.canonical path :: chain) (unopened_cons_lt (known_of_text hread) hopen)

end Sources

def Choices.resolve (command : Command → Compiling ChoiceTree) : Choices → Compiling ChoiceTree
  | .nil => return .nil
  | .leaf (.comment _ _) rest => Choices.resolve command rest
  | .leaf (.command c) rest => do
    let tree ← command c
    return tree ++ (← Choices.resolve command rest)
  | .leaf (.choice c) rest => return .leaf c (← Choices.resolve command rest)
  | .block l body rest => do
    let body ← Choices.resolve command body
    return .block l body (← Choices.resolve command rest)

def SurveyHeader.part : SurveyHeader → FormSection
  | .conditional _ condition => .conditional condition
  | .group g => .group g

def Survey.resolve (command : Command → Compiling FormTree) : Survey → Compiling FormTree
  | .nil => return .nil
  | .leaf (.comment _ _) rest => Survey.resolve command rest
  | .leaf (.command c) rest => do
    let tree ← command c
    return tree ++ (← Survey.resolve command rest)
  | .leaf (.question q) rest => return .leaf (.question q) (← Survey.resolve command rest)
  | .block h body rest => do
    let body ← Survey.resolve command body
    return .block h.part body (← Survey.resolve command rest)

/-- The tree of a choices source. It may include further choices files and knows no other
command. -/
def ChoiceTree.ofChoices (s : Sources) (chain : List String) (choices : Choices) :
    Compiling ChoiceTree :=
  choices.resolve fun c => do
    if c.name = "include" then
      let bindings ← Compiling.diagnose (c.bindings c.others)
      s.inclusion chain c bindings fun path src opened _smaller => do
        ChoiceTree.ofChoices s opened (← Compiling.diagnose (Choices.ofText path src))
    else Compiling.fault c.pos (.unknownCommand c.name)
termination_by s.unopened chain

def FormTree.ofSurvey (s : Sources) (chain : List String) (survey : Survey) :
    Compiling FormTree :=
  survey.resolve fun c => do
    match c.name with
    | "form" => return .leaf (.settings (← Compiling.diagnose c.formSettings)) .nil
    | "choices" =>
      let bindings ← Compiling.diagnose (c.bindings c.others)
      s.inclusion chain c bindings fun path src opened _ => do
        let choices ← Compiling.diagnose (Choices.ofText path src)
        return .leaf (.choices (← ChoiceTree.ofChoices s opened choices)) .nil
    | "include" =>
      let bindings ← Compiling.diagnose (c.bindings c.others)
      s.inclusion chain c bindings fun path src opened _smaller => do
        let survey ← Compiling.diagnose (Survey.ofSource path src)
        return .block .included (← FormTree.ofSurvey s opened survey) .nil
    | "required" =>
      if c.others.isEmpty then return .leaf (.required c.first) .nil
      else Compiling.fault c.pos (.requiredArguments c.args.length)
    | _ => Compiling.fault c.pos (.unknownCommand c.name)
termination_by s.unopened chain

namespace Form

/-- Compiles survey text. Files that it names are found from the directory of `name`. -/
def ofText (s : Sources) (now : Moment) (name src : String) : Compiling Form := do
  let survey ← Compiling.diagnose (Survey.ofSource name src)
  let tree ← FormTree.ofSurvey s [s.canonical name] survey
  let form := tree.expand now ∅
  Logged.write .debug "compiled"
    [("file", name), ("survey", toString form.survey.length),
      ("choices", toString form.choices.length)]
  return form

def ofFile (s : Sources) (now : Moment) (path : String) : Compiling Form := do
  Logged.write .debug "reading source" [("path", path)]
  match s.text path with
  | .error cause => Logged.fail (.unreadable path cause)
  | .ok src => ofText s now path src

end Form
end SurveyForms
