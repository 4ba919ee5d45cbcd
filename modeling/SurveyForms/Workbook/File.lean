import SurveyForms.Diagnostic
import SurveyForms.Files.Tree
import SurveyForms.Workbook.Package

/-! Workbooks saved to and loaded from a file tree. -/
namespace SurveyForms

inductive SaveError where
  | noSettings
  | creating (path : String) (cause : FileError)
  | writing (path sheet : String) (fault : SheetFault)
  deriving DecidableEq, Repr

def noSettingsText : String := "form has no settings; add an @form command"

namespace SaveError

def message : SaveError → String
  | .noSettings => noSettingsText
  | .creating path cause => "creating " ++ path ++ ": " ++ cause.message
  | .writing path sheet fault => "writing " ++ path ++ ": " ++ fault.message sheet

def isMissing : SaveError → Bool
  | .creating _ cause => cause.isMissing
  | _ => false

end SaveError

inductive LoadError where
  | opening (path : String) (cause : FileError)
  | reading (path : String) (cause : FileError)
  | notWorkbook (path : String) (fault : PackageFault)
  | noSurvey (path : String)
  deriving DecidableEq, Repr

namespace LoadError

def message : LoadError → String
  | .opening path cause => "opening " ++ path ++ ": " ++ cause.message
  | .reading path cause => "reading " ++ path ++ ": " ++ cause.message
  | .notWorkbook path fault => "reading " ++ path ++ ": " ++ fault.message
  | .noSurvey path => "reading " ++ path ++ ": no " ++ Workbook.surveyName ++ " sheet"

def isMissing : LoadError → Bool
  | .opening _ cause | .reading _ cause => cause.isMissing
  | _ => false

end LoadError

namespace Workbook

/-- Saves a workbook. The file is created empty before its sheets are looked at, so a sheet that
cannot be written leaves an empty file behind. -/
def save (t : FileTree) (path : String) (w : Workbook) : FileTree × Option SaveError :=
  if w.settings.rows.isEmpty then (t, some .noSettings)
  else match t.writeFile path (.text "") with
    | .error cause => (t, some (.creating path cause))
    | .ok created =>
      match Book.ofSheets w.sheets with
      | .error (sheet, fault) => (created, some (.writing path sheet fault))
      | .ok book => (created.put (created.locate path) (.book book), none)

/-- The workbook in the content of a file, if the file could be opened. -/
def ofContent (path : String) : Except FileError Content → Except LoadError Workbook
  | .error cause => .error (.opening path cause)
  | .ok .directory => .error (.reading path (.failed "read" path .isDirectory))
  | .ok (.book book) =>
    match book.workbook? with
    | some w => .ok w
    | none => .error (.noSurvey path)
  | .ok (.text text) =>
    .error (.notWorkbook path (Package.fault ((Position.bytes text).map UInt8.toNat)))
  | .ok (.registry _) => .error (.notWorkbook path .notArchive)

def load (t : FileTree) (path : String) : Except LoadError Workbook :=
  ofContent path (t.openFile path)

end Workbook
end SurveyForms
