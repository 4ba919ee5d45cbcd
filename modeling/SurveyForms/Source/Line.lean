import SurveyForms.Text.Blank
import SurveyForms.Text.Lines

/-! The lines of a source that carry something: number, start column and text. -/
namespace SurveyForms.Source

/-- A line that is not blank. The column is that of the first character that is neither space
nor tab, with tabs expanded; the text is the whole line with its indentation. -/
structure Line where
  number : Nat
  col : Nat
  text : List Char
  deriving DecidableEq, Repr

/-- Tab stops are this many columns apart. -/
def tabWidth : Nat := 8

/-- The column reached behind leading spaces and tabs, from `width` columns on. -/
def indentColumn (width : Nat) : List Char → Nat
  | ' ' :: cs => indentColumn (width + 1) cs
  | '\t' :: cs => indentColumn ((width / tabWidth + 1) * tabWidth) cs
  | _ => width + 1

namespace Line

def isComment (l : Line) : Bool := (Text.trim l.text).head? == some '#'

/-- The text of a comment line without its mark and the white space around it. -/
def commentText (l : Line) : String :=
  String.ofList (Text.trim ((Text.trim l.text).drop 1))

/-- A line of the source, unless it is blank. One carriage return at its end does not belong to
it. -/
def ofText? (number : Nat) (raw : List Char) : Option Line :=
  let text := if raw.getLast? == some '\r' then raw.dropLast else raw
  if Text.allBlank text then none else some ⟨number, indentColumn 0 text, text⟩

def ofSource (src : String) : List Line :=
  ((Text.lines src.toList).zipIdx 1).filterMap fun (raw, number) => ofText? number raw

end Line
end SurveyForms.Source
