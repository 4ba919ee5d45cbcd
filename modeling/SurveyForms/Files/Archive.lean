import SurveyForms.Files.Table
import SurveyForms.Files.Tree

/-! Workbooks and registries as the text that a disk keeps. The text is a table of this library's
own, which spreadsheet and database programs do not read. -/
namespace SurveyForms

namespace Book

def heading : List String := ["workbook"]

def toRows (b : Book) : List (List String) :=
  heading :: b.sheets.flatMap fun s =>
    ("sheet" :: s.name :: toString s.bold :: s.widths.map toString) ::
      s.cells.map fun cells => "row" :: cells

/-- Adds the next row of a table: a sheet without cells, or cells at the end of the last sheet. -/
def addRow (sheets : List BookSheet) : List String → List BookSheet
  | "sheet" :: name :: bold :: widths =>
    sheets ++ [⟨name, [], widths.map fun w => w.toNat?.getD 0, bold.toNat?.getD 0⟩]
  | "row" :: cells =>
    match sheets.getLast? with
    | some s => sheets.dropLast ++ [{ s with cells := s.cells ++ [cells] }]
    | none => sheets
  | _ => sheets

def ofRows (rows : List (List String)) : Book := ⟨rows.foldl addRow []⟩

end Book

namespace Registry

def heading : String := "registry"

def boolText (b : Bool) : String := if b then "1" else "0"

def recordRow (r : BuildRecord) : List String :=
  let b := r.build
  [toString r.id, b.source, b.output, b.form, b.version, toString b.surveyRows,
    toString b.choiceRows, toString b.lintErrors, toString b.lintWarnings, toString b.compiledAt,
    r.stamp]

def versionCells : VersionTable → List String
  | .missing => []
  | .empty => [""]
  | .row n => [toString n]

def versionOf? : List String → Option VersionTable
  | [] => some .missing
  | [""] => some .empty
  | [n] => n.toNat?.map .row
  | _ => none

/-- Two rows for the version and the layout, then one for each record. -/
def toRows (r : Registry) : List (List String) :=
  (heading :: versionCells r.versions) ::
    match r.data with
    | none => []
    | some t => [boolText t.hasErrors, boolText t.hasWarnings] :: t.records.map recordRow

def record? : List String → Option BuildRecord
  | [id, source, output, form, version, survey, choices, errors, warnings, time, stamp] => do
    return ⟨← id.toNat?, ⟨source, output, form, version, ← survey.toInt?, ← choices.toInt?,
      ← errors.toInt?, ← warnings.toInt?, ← time.toInt?⟩, stamp⟩
  | _ => none

def ofRows? : List (List String) → Option Registry
  | [_ :: version] => return ⟨← versionOf? version, none⟩
  | (_ :: version) :: [errors, warnings] :: records => do
    return ⟨← versionOf? version, some ⟨errors == "1", warnings == "1", ← records.mapM record?⟩⟩
  | _ => none

end Registry

namespace Content

def encode : Content → String
  | .directory => ""
  | .text s => s
  | .book b => Table.encode b.toRows
  | .registry r => Table.encode (Registry.toRows r)

/-- The content that a kept text stands for. A text that is no table stands for itself. -/
def decode (s : String) : Content :=
  match Table.decode s with
  | first :: rows =>
    if first = Book.heading then .book (.ofRows rows)
    else if first.head? = some Registry.heading then
      match Registry.ofRows? (first :: rows) with
      | some r => .registry r
      | none => .text s
    else .text s
  | [] => .text s

end Content
end SurveyForms
