import SurveyForms.Form.Resolve
import SurveyForms.Log
import SurveyForms.Registry.File
import SurveyForms.Workbook.File

/-! What commands work on: the files of a project, the text printed so far and the log. What a
command did before it failed stays done. -/
namespace SurveyForms

inductive Failure where
  | compile (cause : CompileError)
  | noSettings (source : String)
  | save (cause : SaveError)
  | load (cause : LoadError)
  /-- The workbook was checked, and something is wrong with it. -/
  | lint
  | noRegistry (path : String)
  | makeDirectory (path : String) (cause : FileError)
  | openRegistry (cause : Registry.OpenError)
  | insert (cause : RegistryFault)
  | list (cause : Registry.ListError)
  | ignore (cause : FileError)
  deriving DecidableEq, Repr

namespace Failure

def message : Failure → String
  | .compile cause => cause.message
  | .noSettings source => source ++ ": " ++ noSettingsText
  | .save cause => cause.message
  | .load cause => cause.message
  | .lint => "lint found errors"
  | .noRegistry path => "no registry at " ++ path ++ ", run `comb init` first"
  | .makeDirectory path cause => "creating " ++ path ++ " directory: " ++ cause.message
  | .openRegistry cause => "opening database: " ++ cause.message
  | .insert cause => "inserting build: " ++ cause.message
  | .list cause => cause.message
  | .ignore cause => "updating .gitignore: " ++ cause.message

/-- The fault in a source that the failure comes from. -/
def diagnostic? : Failure → Option Diagnostic
  | .compile cause => cause.diagnostic?
  | _ => none

/-- Whether a form without settings is what failed. -/
def lacksSettings : Failure → Bool
  | .noSettings _ | .save .noSettings => true
  | _ => false

/-- Whether a missing file is at the bottom of the failure. -/
def isMissing : Failure → Bool
  | .compile cause => cause.isMissing
  | .save cause => cause.isMissing
  | .load cause => cause.isMissing
  | .makeDirectory _ cause | .ignore cause => cause.isMissing
  | _ => false

end Failure

structure World where
  files : FileTree
  out : String
  log : List LogEntry

/-- A command at work. -/
abbrev Job (α : Type) := EStateM Failure World α

namespace Job

def print (text : String) : Job Unit := modify fun w => { w with out := w.out ++ text }

def log (level : LogLevel) (message : String) (fields : List (String × String)) : Job Unit :=
  modify fun w => { w with log := w.log ++ [⟨level, message, fields⟩] }

def files : Job FileTree := return (← get).files

def setFiles (t : FileTree) : Job Unit := modify fun w => { w with files := t }

def check (wrap : ε → Failure) : Except ε α → Job α
  | .ok a => pure a
  | .error e => throw (wrap e)

/-- Compiles a source of the project. -/
def compile (now : Moment) (source : String) : Job Form := do
  let run := Form.ofFile (← files).sources now source
  modify fun w => { w with log := w.log ++ run.log }
  check .compile run.result

def openRegistry (path : String) : Job Registry := do
  let (t, result) := Registry.openAt (← files) path
  setFiles t
  check .openRegistry result

end Job
end SurveyForms
