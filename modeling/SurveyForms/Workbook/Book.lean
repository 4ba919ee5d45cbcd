import SurveyForms.Text.Case
import SurveyForms.Workbook.Basic
import SurveyForms.Workbook.Cell

/-! Workbook files as named grids of cell texts. Writing and reading back keeps every cell with a
plain text that is not empty and drops empty ones at the end of a row and of a sheet. -/
namespace SurveyForms

/-- Rows of cells; an empty text is an empty cell. -/
abbrev Grid := List (List String)

/-- Rows of cells that are written over others. Where there is none, nothing is written. -/
abbrev Patch := List (List (Option String))

namespace Grid

def dropLastWhile (test : α → Bool) (xs : List α) : List α := (xs.reverse.dropWhile test).reverse

/-- What reading a sheet shows: no empty cells at the end of a row, no empty rows at the end. -/
def trimmed (g : Grid) : Grid :=
  dropLastWhile List.isEmpty (g.map (dropLastWhile String.isEmpty))

def patchRow : List (Option String) → List String → List String
  | [], old => old
  | new :: news, old => new.getD (old.headD "") :: patchRow news old.tail

def patch : Patch → Grid → Grid
  | [], old => old
  | new :: news, old => patchRow new (old.headD []) :: patch news old.tail

def shown (g : Grid) : Grid := g.map (·.map Cell.shown)

end Grid

/-- A sheet of a workbook file. `widths` are those of the first columns; the other columns have
the standard width. The first `bold` cells of the first row are in bold type. -/
structure BookSheet where
  name : String
  cells : Grid
  widths : List Nat
  bold : Nat
  deriving DecidableEq, Repr

structure Book where
  sheets : List BookSheet
  deriving DecidableEq, Repr

inductive SheetNameFault where
  | blank
  | long
  | quote
  | character
  deriving DecidableEq, Repr

namespace SheetNameFault

def message : SheetNameFault → String
  | .blank => "the sheet name can not be blank"
  | .long => "the sheet name length exceeds the 31 characters limit"
  | .quote => "the first or last character of the sheet name can not be a single quote"
  | .character => "the sheet can not contain any of the characters :\\/?*[or]"

/-- The first fault of a name, in the order of the cases above. -/
def ofName? (name : String) : Option SheetNameFault :=
  let cs := name.toList
  if cs.isEmpty then some .blank
  else if cs.length > 31 then some .long
  else if cs.head? = some '\'' ∨ cs.getLast? = some '\'' then some .quote
  else if cs.any ":\\/?*[]".toList.contains then some .character
  else none

end SheetNameFault

namespace Sheet

/-- The cells of a sheet as they are written. A sheet without columns is written empty. -/
def grid (s : Sheet) : Grid :=
  if s.columns.isEmpty then []
  else s.columns :: s.rows.map fun row => s.columns.map row.text

def minWidth : Nat := 8
def maxWidth : Nat := 60

/-- The width of a column: two more than its longest text, within bounds. Texts are measured in
code points. -/
def columnWidth (s : Sheet) (column : String) : Nat :=
  let longest := (s.rows.map fun row => (row.text column).length).foldl max column.length
  min (max (longest + 2) minWidth) maxWidth

def widths (s : Sheet) : List Nat := s.columns.map s.columnWidth

/-- Reads a row of cells under column names. Empty cells and columns without a name are left
out; of several columns of one name the last that is not empty counts. -/
def rowOfCells (columns cells : List String) : Row :=
  Row.ofList ((columns.zip cells).filter fun (column, cell) => column ≠ "" ∧ cell ≠ "")

/-- Reads a sheet: column names first, then rows. -/
def ofGrid (name : String) (g : Grid) : Sheet :=
  match g.shown.trimmed with
  | [] => ⟨name, [], []⟩
  | columns :: rows => ⟨name, columns, rows.map (rowOfCells columns)⟩

end Sheet

namespace BookSheet

def empty (name : String) : BookSheet := ⟨name, [], [], 0⟩

def shownName (s : BookSheet) : String := String.ofList (Cell.kept s.name.toList)

/-- The width of a column in characters of the standard font, as a decimal number. -/
def widthText (s : BookSheet) (column : Nat) : String :=
  match s.widths[column]? with
  | some width => toString width
  | none => "9.140625"

def isBold (s : BookSheet) (column : Nat) : Bool := column < s.bold

def write (s : BookSheet) (p : Patch) : BookSheet := { s with cells := s.cells.patch p }

/-- Sets up the first columns of a sheet: their widths and their names in bold type. -/
def layOut (s : BookSheet) (widths : List Nat) : BookSheet :=
  { s with
    widths := widths ++ s.widths.drop widths.length
    bold := max s.bold widths.length }

end BookSheet

/-- A workbook that is being written. A text is written once for all cells that have it: it is
found again by its escaped form. Hence a cell with the escaped form of an earlier text gets that
text. -/
structure Draft where
  sheets : List BookSheet
  /-- Escaped forms that differ from their texts, with the texts; later ones first. -/
  escaped : List (String × String)

namespace Draft

def empty : Draft := ⟨[], []⟩

/-- The text that a cell gets, and the escaped forms known after that. -/
def text (escaped : List (String × String)) (s : String) : String × List (String × String) :=
  let s := Cell.limited s
  match escaped.lookup s with
  | some earlier => (earlier, escaped)
  | none =>
    let form := String.ofList (Cell.escape s.toList)
    (s, if form = s then escaped else (form, s) :: escaped)

def textRow (escaped : List (String × String)) :
    List (Option String) → List (Option String) × List (String × String)
  | [] => ([], escaped)
  | none :: cells =>
    let (cells, escaped) := textRow escaped cells
    (none :: cells, escaped)
  | some s :: cells =>
    let (s, escaped) := text escaped s
    let (cells, escaped) := textRow escaped cells
    (some s :: cells, escaped)

def textRows (escaped : List (String × String)) : Patch → Patch × List (String × String)
  | [] => ([], escaped)
  | row :: rows =>
    let (row, escaped) := textRow escaped row
    let (rows, escaped) := textRows escaped rows
    (row :: rows, escaped)

def add (d : Draft) (name : String) : Draft :=
  if d.sheets.any (Text.sameFold ·.name name) then d
  else { d with sheets := d.sheets ++ [.empty name] }

def modify (d : Draft) (name : String) (change : BookSheet → BookSheet) : Draft :=
  { d with sheets := d.sheets.map fun s => if Text.sameFold s.name name then change s else s }

def write (d : Draft) (name : String) (p : Patch) : Draft :=
  let (p, escaped) := textRows d.escaped p
  { (d.add name).modify name (·.write p) with escaped }

def writeSheet (d : Draft) (s : Sheet) : Draft :=
  (d.write s.name (s.grid.map (·.map some))).modify s.name (·.layOut s.widths)

def book (d : Draft) : Book := ⟨d.sheets⟩

end Draft

inductive SheetFault where
  | name (fault : SheetNameFault)
  | columns
  | rows
  deriving DecidableEq, Repr

namespace SheetFault

def maxColumns : Nat := 16384

def maxRows : Nat := 1048576

def message (sheet : String) : SheetFault → String
  | .name fault => "adding sheet " ++ sheet ++ ": " ++ fault.message
  | .columns => "sheet " ++ sheet ++
    ": the column number must be greater than or equal to 1 and less than or equal to " ++
      toString maxColumns
  | .rows => "sheet " ++ sheet ++ ": row number exceeds maximum limit"

def ofSheet? (s : Sheet) : Option SheetFault :=
  match SheetNameFault.ofName? s.name with
  | some fault => some (.name fault)
  | none =>
    if s.columns.length > maxColumns then some .columns
    else if s.grid.length > maxRows then some .rows
    else none

end SheetFault

namespace Book

/-- The book of some sheets. The error is the first sheet that cannot be written. -/
def ofSheets (sheets : List Sheet) : Except (String × SheetFault) Book :=
  match sheets.findSome? fun s => (SheetFault.ofSheet? s).map ((s.name, ·)) with
  | some fault => .error fault
  | none => .ok (sheets.foldl Draft.writeSheet .empty).book

def sheet? (b : Book) (name : String) : Option BookSheet :=
  b.sheets.reverse.find? (·.shownName = name)

def sheet (b : Book) (name : String) : Sheet :=
  .ofGrid name (((b.sheet? name).map (·.cells)).getD [])

/-- The workbook of a book; there has to be a survey sheet. -/
def workbook? (b : Book) : Option Workbook :=
  (b.sheet? Workbook.surveyName).map fun _ =>
    ⟨b.sheet Workbook.surveyName, b.sheet Workbook.choicesName, b.sheet Workbook.settingsName⟩

end Book
end SurveyForms
