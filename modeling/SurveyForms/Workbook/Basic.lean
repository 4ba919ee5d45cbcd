import SurveyForms.Form.Tree

/-! Worksheets and the workbook of a form. -/
namespace SurveyForms

/-- One worksheet. Row 1 of the sheet holds the column names, and `rows` start at row 2. Cells
of columns that are not named are not part of the written sheet. -/
structure Sheet where
  name : String
  columns : List String
  rows : List Row
  deriving DecidableEq, Repr

structure Workbook where
  survey : Sheet
  choices : Sheet
  settings : Sheet
  deriving DecidableEq, Repr

namespace Sheet

/-- The row number of the sheet's first row below the column names. -/
def firstRow : Nat := 2

def usedKeys (rows : List Row) : List String := (rows.foldl Row.overlay ∅).keys

/-- The columns of some rows: of the leading ones those that occur, in their order, then all
others in increasing order. -/
def columnOrder (leading : List String) (rows : List Row) : List String :=
  let used := usedKeys rows
  leading.filter used.contains ++ used.filter (!leading.contains ·)

def ofRows (name : String) (leading : List String) (rows : List Row) : Sheet :=
  ⟨name, columnOrder leading rows, rows⟩

end Sheet

namespace Workbook

def surveyName : String := "survey"
def choicesName : String := "choices"
def settingsName : String := "settings"

def surveyColumns : List String :=
  ["type", "name", "label", "hint", "appearance", "constraint", "constraint_message",
    "calculation", "required", "required_message", "repeat_count", "relevance"]

def choicesColumns : List String := ["list_name", "value", "label", "filter"]

def settingsColumns : List String := ["form_title", "form_id", "version"]

def sheets (w : Workbook) : List Sheet := [w.survey, w.choices, w.settings]

def ofRows (survey choices : List Row) (settings : Row) : Workbook :=
  ⟨.ofRows surveyName surveyColumns survey, .ofRows choicesName choicesColumns choices,
    .ofRows settingsName settingsColumns [settings]⟩

/-- The workbook of a form; a form without settings has none. -/
def ofForm? (f : Form) : Option Workbook := f.settings.map (ofRows f.survey f.choices)

end Workbook
end SurveyForms
