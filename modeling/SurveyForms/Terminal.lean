import SurveyForms.Diagnostic
import SurveyForms.Text.Cells
import SurveyForms.Text.Lines

/-! Lines that the commands print, plain or with the colours of a terminal. -/
namespace SurveyForms

inductive Style where
  | ok
  | error
  | warning
  | faint
  deriving DecidableEq, Repr

def Style.code : Style → String
  | .ok => "32"
  | .error => "1;31"
  | .warning => "33"
  | .faint => "2"

structure Terminal where
  colour : Bool
  deriving DecidableEq, Repr

namespace Terminal

/-- Tabs become four spaces, and a line break is `\n` alone. -/
def flatten : List Char → List Char
  | [] => []
  | '\t' :: cs => ' ' :: ' ' :: ' ' :: ' ' :: flatten cs
  | '\r' :: '\n' :: cs => '\n' :: flatten cs
  | c :: cs => c :: flatten cs

/-- A styled text. Each of several lines has the style of its own and is filled up to the widest
one, by the cells that it takes. -/
def styled (t : Terminal) (style : Style) (s : String) : String :=
  let lines := Text.lines (flatten s.toList)
  let widest := (lines.map Text.cells).foldl max 0
  let paint (l : List Char) : String :=
    if t.colour then "\x1b[" ++ style.code ++ "m" ++ String.ofList l ++ "\x1b[0m"
    else String.ofList l
  String.intercalate "\n" <| lines.map fun l =>
    paint l ++ String.ofList (List.replicate (widest - Text.cells l) ' ')

def wrote (t : Terminal) (path : String) (survey choices : Int) : String :=
  t.styled .ok "wrote" ++ "  " ++ path ++ " " ++
    t.styled .faint s!"({survey} survey rows, {choices} choices)" ++ "\n"

/-- One finding. Any severity but `error` counts as a warning. -/
def finding (t : Terminal) (severity location message : String) : String :=
  t.styled (if severity = "error" then .error else .warning) (Text.padRight 7 severity) ++ "  " ++
    t.styled .faint location ++ "  " ++ message ++ "\n"

def summary (t : Terminal) (errors warnings : Int) : String :=
  if errors = 0 ∧ warnings = 0 then t.styled .ok "no problems found" ++ "\n"
  else s!"{errors} errors, {warnings} warnings\n"

def maxColumn : Nat := 1000000

/-- A text filled up to the width of its column, whose sign does not count. A width that is out of
bounds is reported in front of the bare text. -/
def column (width : Int) (s : String) : String :=
  if width.natAbs > maxColumn then "%!(BADWIDTH)" ++ s else Text.padRight width.natAbs s

/-- One recorded build. Form and version are filled up to the given widths. -/
def history (t : Terminal) (time form version output : String) (survey choices : Int)
    (formWidth versionWidth : Int) : String :=
  t.styled .faint time ++ "  " ++ column formWidth form ++ "  " ++
    column versionWidth version ++ "  " ++ output ++ " " ++
    t.styled .faint s!"{survey}/{choices}" ++ "\n"

def error (t : Terminal) (message : String) : String :=
  t.styled .error "error" ++ "  " ++ message ++ "\n"

def numbered (number : Nat) (line : List Char) : String :=
  Text.padLeft ' ' 4 (toString number) ++ " | " ++ String.ofList line ++ "\n"

/-- A source line with its neighbours and a caret under the column. A line behind the last one
counts as the last; nothing is shown for an unknown line or an empty source. -/
def snippet (t : Terminal) (line : Nat) (col : Int) (src : String) : String :=
  if line = 0 ∨ src = "" then ""
  else
    let lines := Text.lines src.toList
    let line := min line lines.length
    let show? (n : Nat) : String := (lines[n - 1]?.map (numbered n)).getD ""
    "\n" ++ (if line > 1 then show? (line - 1) else "") ++ show? line ++
      "     | " ++ String.ofList (List.replicate (col - 1).toNat ' ') ++
      t.styled .error "^" ++ "\n" ++
      show? (line + 1)

/-- A row of an outline, two spaces for each level of depth. -/
def outline (t : Terminal) (depth : Nat) (type name label : String) : String :=
  String.ofList (List.replicate (2 * depth) ' ') ++ t.styled .faint type ++ " " ++ name ++
    (if label = "" then "" else "  " ++ label) ++ "\n"

def choiceList (t : Terminal) (name : String) (count : Int) : String :=
  t.styled .faint "list" ++ " " ++ name ++ " " ++ t.styled .faint s!"({count} choices)" ++ "\n"

end Terminal
end SurveyForms
