/-! A place in a configuration file: the characters that are left, and where they stand. The end
of the text counts as a place where words and lines end. -/
namespace SurveyForms.Config.Yaml

def isGap (c : Char) : Bool := c == ' ' || c == '\t'

def isBreak (c : Char) : Bool :=
  c == '\n' || c == '\r' || c == '\u0085' || c == '\u2028' || c == '\u2029'

def isNameChar (c : Char) : Bool := c.isAlphanum || c == '_' || c == '-'

/-- Lines and columns count from zero. `breaks` counts the line breaks since the last character
that is neither white space nor a line break. -/
structure Cursor where
  rest : List Char
  index : Nat
  line : Nat
  column : Nat
  breaks : Nat

namespace Cursor

def start (text : List Char) : Cursor := ⟨text, 0, 0, 0, 0⟩

def atEnd (c : Cursor) : Bool := c.rest.isEmpty

def peek (c : Cursor) (n : Nat) : Option Char := c.rest[n]?

def isAt (c : Cursor) (d : Char) : Bool := c.rest.head? == some d

def gapAt (c : Cursor) (n : Nat) : Bool := ((c.peek n).map isGap).getD false

def breakAt (c : Cursor) (n : Nat) : Bool := ((c.peek n).map isBreak).getD false

def endAt (c : Cursor) (n : Nat) : Bool := ((c.peek n).map isBreak).getD true

def stopAt (c : Cursor) (n : Nat) : Bool := c.gapAt n || c.endAt n

/-- Steps over a character of a line. -/
def skip (c : Cursor) : Cursor :=
  match c.rest with
  | [] => c
  | d :: rest =>
    ⟨rest, c.index + 1, c.line, c.column + 1, if isGap d then c.breaks else 0⟩

def skips (c : Cursor) : Nat → Cursor
  | 0 => c
  | n + 1 => c.skip.skips n

/-- Steps over a line break, if there is one, and tells what it stands for: most line breaks are
as good as `\n`. -/
def breakLine (c : Cursor) : List Char × Cursor :=
  match c.rest with
  | '\r' :: '\n' :: rest => (['\n'], ⟨rest, c.index + 2, c.line + 1, 0, c.breaks + 1⟩)
  | d :: rest =>
    if isBreak d then
      ([if d == '\u2028' || d == '\u2029' then d else '\n'],
        ⟨rest, c.index + 1, c.line + 1, 0, c.breaks + 1⟩)
    else ([], c)
  | [] => ([], c)

/-- Steps over the characters that pass a test, which no line break passes. -/
def takeWhile (c : Cursor) (test : Char → Bool) : List Char × Cursor :=
  let taken := c.rest.takeWhile fun d => test d && !isBreak d
  (taken, c.skips taken.length)

def dropGaps (c : Cursor) : Cursor := (c.takeWhile isGap).2

def dropLine (c : Cursor) : Cursor := (c.takeWhile fun _ => true).2

def isMarker (c : Cursor) (mark : List Char) : Bool :=
  c.column == 0 && mark.isPrefixOf c.rest && c.stopAt 3

def startMark : List Char := ['-', '-', '-']
def endMark : List Char := ['.', '.', '.']

def atMarker (c : Cursor) : Bool := c.isMarker startMark || c.isMarker endMark

/-- A comment is looked for no further ahead than this. -/
def lookAhead : Nat := 512

def dropLineComment (c : Cursor) : Cursor :=
  let gaps := (c.rest.takeWhile isGap).length
  if c.breaks = 0 ∧ gaps < lookAhead ∧ c.peek gaps = some '#' then (c.skips gaps).dropLine else c

/-- How far ahead the next comment starts, if only white space and line breaks lie between. -/
def nextComment? (c : Cursor) : Option Nat :=
  let between := (c.rest.takeWhile fun d => isGap d || d == '\n' || d == '\r').length
  if between < lookAhead ∧ c.peek between = some '#' then some between else none

def advance (c : Cursor) (index : Nat) : Nat → Cursor
  | 0 => c
  | n + 1 =>
    if index ≤ c.index then c
    else advance (if c.breakAt 0 then c.breakLine.2 else c.skip) index n

/-- Steps over a comment and all comments below it, whatever white space is in front of them. -/
def dropComments (c : Cursor) : Nat → Cursor
  | 0 => c
  | n + 1 =>
    let next := c.dropLine
    match next.nextComment? with
    | some between => (next.advance (next.index + between) between).dropComments n
    | none => next

end Cursor
end SurveyForms.Config.Yaml
