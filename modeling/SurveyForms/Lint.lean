import SurveyForms.Text.Braced
import SurveyForms.Text.Blank
import SurveyForms.Workbook.Basic

/-! Checks of a workbook for mistakes that compile: names defined twice, references and lists
that do not exist, questions nobody has to answer. -/
namespace SurveyForms.Lint

inductive Severity where
  | error
  | warning
  deriving DecidableEq, Repr

def Severity.text : Severity → String
  | .error => "error"
  | .warning => "warning"

inductive Problem where
  | noSettings
  | missingColumns (columns : List String)
  /-- The entries of a list are not next to each other. -/
  | splitList
  | duplicate
  | undefinedLists (lists : List String)
  | notRequired
  | emptyCalculation
  | undefinedReferences (names : List String)
  deriving DecidableEq, Repr

def Problem.severity : Problem → Severity
  | .splitList | .duplicate | .notRequired => .warning
  | _ => .error

/-- A problem and where it is. `row` is a row number of the sheet, 0 for the sheet as a whole;
`name` is that of the list or question. -/
structure Finding where
  sheet : String
  row : Nat
  name : String
  problem : Problem
  deriving DecidableEq, Repr

namespace Finding

def severity (f : Finding) : Severity := f.problem.severity

def message (f : Finding) : String :=
  match f.problem with
  | .noSettings => "the form has no settings row"
  | .missingColumns columns =>
    "the survey worksheet is missing core columns " ++ String.intercalate ", " columns
  | .splitList => "choice list " ++ f.name ++ " is defined in multiple places"
  | .duplicate => f.name ++ " is defined more than once"
  | .undefinedLists lists =>
    f.name ++ " refers to undefined choice lists: " ++ String.intercalate ", " lists
  | .notRequired => f.name ++ " is not required"
  | .emptyCalculation => f.name ++ " has empty calculation"
  | .undefinedReferences names =>
    f.name ++ " has undefined references: " ++ String.intercalate ", " names

def location (f : Finding) : String := if f.row = 0 then f.sheet else s!"{f.sheet}:{f.row}"

def toString (f : Finding) : String := f.location ++ ": " ++ f.message

end Finding

def hasErrors (findings : List Finding) : Bool := findings.any (·.severity = .error)

def counts (findings : List Finding) : Nat × Nat :=
  (findings.countP (·.severity = .error), findings.countP (·.severity ≠ .error))

/-- The names that a text refers to, in order and as often as it does. -/
def references (s : String) : List String :=
  (Text.pieces ['$', '\x7b'] s.toList).filterMap fun
    | .reference name => some (String.ofList name)
    | .plain _ => none

def checkSettings (s : Sheet) : List Finding :=
  if s.rows.isEmpty then [⟨s.name, 0, "", .noSettings⟩] else []

/-- Reports each list once, at the first entry that stands apart from an earlier one. `seen` are
the lists met so far, `reported` those of them that are reported, `last` is that of the row
before. -/
def splitLists (sheet : String) (seen reported : List String) (last : String) (number : Nat) :
    List Row → List Finding
  | [] => []
  | row :: rows =>
    let name := row.text "list_name"
    if name ≠ last ∧ name ∈ seen ∧ name ∉ reported then
      ⟨sheet, number, name, .splitList⟩ ::
        splitLists sheet (name :: seen) (name :: reported) name (number + 1) rows
    else splitLists sheet (name :: seen) reported name (number + 1) rows

def checkChoices (s : Sheet) : List Finding := splitLists s.name [] [] "" Sheet.firstRow s.rows

def coreColumns : List String := ["name", "type", "label"]

def structuralTypes : List String :=
  ["begin group", "end group", "begin repeat", "end repeat", "note"]

def optionalTypes : List String :=
  ["calculate", "calculate_here", "start", "end", "today", "deviceid", "subscriberid", "text audit"]

/-- Whether a row asks for or computes a value. -/
def definesVariable (row : Row) : Bool :=
  !Text.allBlank (row.text "type").toList && !structuralTypes.contains (row.text "type")

/-- Whether a row defines a name that later rows may refer to. -/
def definesName (row : Row) : Bool := definesVariable row || row.text "type" == "begin repeat"

def isSelect (row : Row) : Bool :=
  "select_one ".toList.isPrefixOf (row.text "type").toList ||
    "select_multiple ".toList.isPrefixOf (row.text "type").toList

def selectLists (row : Row) : List String :=
  (((Text.cut ' ' (row.text "type").toList).drop 1).map String.ofList).filter
    fun word => word ≠ "" ∧ word ≠ "or_other"

def isCalculate (row : Row) : Bool :=
  row.text "type" == "calculate" || row.text "type" == "calculate_here"

/-- The names that are not in `seen`, each once, at its first place. -/
def distinct : List String → List String → List String
  | _, [] => []
  | seen, name :: names =>
    if name ∈ seen then distinct seen names else name :: distinct (name :: seen) names

/-- The names a row refers to that are not among `defined`, each once, in the order of the
row's keys. -/
def undefinedReferences (defined : List String) (row : Row) : List String :=
  distinct [] ((row.cells.flatMap fun (_, cell) => references cell).filter (!defined.contains ·))

/-- The problems of one survey row. `before` are the names defined above it. -/
def rowProblems (lists before : List String) (row : Row) : List Problem :=
  let name := row.text "name"
  let defined := if definesName row then name :: before else before
  let missing := if isSelect row then (selectLists row).filter (!lists.contains ·) else []
  let dangling := undefinedReferences defined row
  (if definesName row ∧ name ∈ before then [.duplicate] else []) ++
  (if missing.isEmpty then [] else [.undefinedLists missing]) ++
  (if definesVariable row ∧ row.text "type" ∉ optionalTypes ∧ row.text "required" ≠ "yes" then
    [.notRequired] else []) ++
  (if isCalculate row ∧ Text.allBlank (row.text "calculation").toList then
    [.emptyCalculation] else []) ++
  (if dangling.isEmpty then [] else [.undefinedReferences dangling])

/-- Checks rows from row number `number` on. -/
def checkRows (sheet : String) (lists before : List String) (number : Nat) :
    List Row → List Finding
  | [] => []
  | row :: rows =>
    let name := row.text "name"
    (rowProblems lists before row).map (⟨sheet, number, name, ·⟩) ++
      checkRows sheet lists (if definesName row then name :: before else before) (number + 1) rows

/-- Checks a survey sheet. Rows are looked at only if no core column is missing. -/
def checkSurvey (lists : List String) (s : Sheet) : List Finding :=
  let missing := coreColumns.filter (!s.columns.contains ·)
  if missing.isEmpty then checkRows s.name lists [] Sheet.firstRow s.rows
  else [⟨s.name, 0, "", .missingColumns missing⟩]

/-- All findings: choices, then survey in row order, then settings. -/
def check (w : Workbook) : List Finding :=
  checkChoices w.choices ++
    checkSurvey (w.choices.rows.map (·.text "list_name")) w.survey ++
    checkSettings w.settings

end SurveyForms.Lint
