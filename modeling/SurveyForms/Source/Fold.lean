import SurveyForms.Text.Blank
import SurveyForms.Text.Lines
import SurveyForms.Text.Word

/-! Hand-wrapped statements: a question head or a command, followed by deeper lines, is joined
onto one line. Each joined line leaves an empty line behind, so that the lines after it keep
their numbers. -/
namespace SurveyForms.Source

open Text

def isIndent (c : Char) : Bool := c == ' ' || c == '\t'

def indentOf (line : List Char) : List Char := line.takeWhile isIndent

def contentOf (line : List Char) : List Char := line.dropWhile isIndent

/-- The words that open a block rather than a question, if white space follows. -/
def blockWords : List (List Char) := ["if".toList, "group".toList, "repeat".toList]

def startsBlock (content : List Char) : Bool :=
  blockWords.any fun word =>
    word.isPrefixOf content && ((content.drop word.length).head?.map isBlank).getD false

/-- A content without its trailing spaces. Tabs and carriage returns stay. -/
def dropSpaces (content : List Char) : List Char :=
  (content.reverse.dropWhile (· == ' ')).reverse

/-- The part of a content that further lines can be joined to: all of a command, or a question
head, which starts with a word character and ends in a colon, without its trailing spaces. -/
def head? (content : List Char) : Option (List Char) :=
  match content with
  | [] => none
  | c :: _ =>
    if c == '@' then some content
    else if isWord c && !startsBlock content && (dropSpaces content).getLast? == some ':' then
      some (dropSpaces content)
    else none

/-- A line that is indented like the header and deeper, and goes on with a double quote or a
word character. Deeper means the header's very characters and at least one more. -/
def continues (indent line : List Char) : Bool :=
  indent.isPrefixOf line &&
    match line.drop indent.length with
    | c :: rest =>
      isIndent c && (((contentOf rest).head?.map fun d => d == '"' || isWord d).getD false)
    | [] => false

/-- A run of spaces, tabs and line breaks becomes one space. -/
def collapse : List Char → List Char
  | [] => []
  | c :: cs =>
    if isIndent c || c == '\n' then
      match collapse cs with
      | ' ' :: rest => ' ' :: rest
      | rest => ' ' :: rest
    else c :: collapse cs

/-- The text that joined lines add to their header. -/
def joined (continuation : List (List Char)) : List Char :=
  trim (collapse (unlines continuation))

def foldLines : List (List Char) → List (List Char)
  | [] => []
  | line :: rest =>
    match head? (contentOf line) with
    | none => line :: foldLines rest
    | some header =>
      let run := rest.takeWhile (continues (indentOf line))
      if run.isEmpty then line :: foldLines rest
      else
        (indentOf line ++ header ++ ' ' :: joined run) :: run.map (fun _ => []) ++
          foldLines (rest.dropWhile (continues (indentOf line)))
termination_by ls => ls.length
decreasing_by
  all_goals simp only [List.length_cons]
  · omega
  · omega
  · have := (List.dropWhile_suffix (l := rest) (continues (indentOf line))).length_le
    omega

def foldContinuations (src : String) : String :=
  String.ofList (unlines (foldLines (lines src.toList)))

end SurveyForms.Source
