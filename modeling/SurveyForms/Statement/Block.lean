import SurveyForms.Grammar.Lines
import SurveyForms.Source.Fold
import SurveyForms.Source.Line

/-! Blocks by indentation. The statements of a block share one column, the lines below a header
that are deeper than it are its body, and comment lines may stand at any column. -/
namespace SurveyForms

open Source (Line)

/-- What one line contributes to a forest. -/
inductive Entry (α β : Type) where
  | leaf (statement : α)
  /-- A header, what its line means without a body, if anything, and what messages call it. -/
  | header (header : β) (bodiless : Option α) (name : String)

/-- How the lines of a source language are read. -/
structure LineReader (α β : Type) where
  comment : Line → α
  isComment : α → Bool
  entry : Line → Except Diagnostic (Entry α β)

namespace LineReader

/-- The lines of the body of a header at column `col`. -/
def inBody (col : Nat) (l : Line) : Bool := l.isComment || col < l.col

/-- The column of the first line that is not a comment. -/
def firstColumn (ls : List Line) : Nat := ((ls.find? (!·.isComment)).map (·.col)).getD 0

/-- Reads the lines of one block, whose statements stand at column `col`. -/
def block (reader : LineReader α β) (file : String) (col : Nat) :
    List Line → Except Diagnostic (Forest α β)
  | [] => .ok .nil
  | l :: ls =>
    let pos : Position := ⟨file, l.number, l.col⟩
    if l.isComment then do
      return .leaf (reader.comment l) (← block reader file col ls)
    else if l.col < col then .error ⟨pos, .unmatchedUnindent⟩
    else if col < l.col then .error ⟨pos, .unexpectedIndent⟩
    else do
      match ← reader.entry l with
      | .leaf a => return .leaf a (← block reader file col ls)
      | .header h bodiless name =>
        let inner := ls.takeWhile (inBody l.col)
        let body ← block reader file (firstColumn inner) inner
        let after := ls.dropWhile (inBody l.col)
        if body.anyStatement (!reader.isComment ·) then
          return .block h body (← block reader file col after)
        else
          match bodiless with
          | some a => return .leaf a (← block reader file col after)
          | none => .error ⟨pos, .missingBody name⟩
termination_by ls => ls.length
decreasing_by
  all_goals simp only [List.length_cons]
  · omega
  · omega
  · have := (List.takeWhile_prefix (l := ls) (inBody l.col)).length_le
    omega
  · have := (List.dropWhile_suffix (l := ls) (inBody l.col)).length_le
    omega
  · have := (List.dropWhile_suffix (l := ls) (inBody l.col)).length_le
    omega

def forest (reader : LineReader α β) (file src : String) : Except Diagnostic (Forest α β) :=
  let ls := Line.ofSource src
  reader.block file (firstColumn ls) ls

end LineReader

def located (file : String) (l : Line) : Except (Nat × Fault) γ → Except Diagnostic γ
  | .ok a => .ok a
  | .error (col, fault) => .error ⟨⟨file, l.number, col⟩, fault⟩

/-- The question a header line is when nothing is indented below it: a group word and a name
alone read as name and type. -/
def bodilessQuestion (pos : Position) (l : Line) (label : Option String) (params : List Param)
    (condition : Option Condition) : Option SurveyLeaf :=
  if label.isNone && params.isEmpty && condition.isNone then
    match Grammar.parseLine Grammar.questionLine l.text with
    | .ok (.question name type label params) => some (.question ⟨pos, name, type, label, params⟩)
    | _ => none
  else none

def surveyReader (file : String) : LineReader SurveyLeaf SurveyHeader where
  comment l := .comment ⟨file, l.number, l.col⟩ l.commentText
  isComment := SurveyLeaf.isComment
  entry l := do
    let pos : Position := ⟨file, l.number, l.col⟩
    match ← located file l (Grammar.parseLine Grammar.surveyLine l.text) with
    | .command name first others => return .leaf (.command ⟨pos, name, first, others⟩)
    | .conditional condition => return .header (.conditional pos condition) none "if"
    | .group kind name label params condition =>
      return .header (.group ⟨pos, kind, name, label, params, condition⟩)
        (bodilessQuestion pos l label params condition) (kind.word ++ " " ++ name)
    | .question name type label params => return .leaf (.question ⟨pos, name, type, label, params⟩)

def choicesReader (file : String) : LineReader ChoicesLeaf ChoiceList where
  comment l := .comment ⟨file, l.number, l.col⟩ l.commentText
  isComment := ChoicesLeaf.isComment
  entry l := do
    let pos : Position := ⟨file, l.number, l.col⟩
    match ← located file l (Grammar.parseLine Grammar.choicesLine l.text) with
    | .command name first others => return .leaf (.command ⟨pos, name, first, others⟩)
    | .list name params => return .header ⟨pos, name, params⟩ none ("list " ++ name)
    | .choice value label params => return .leaf (.choice ⟨pos, value, label, params⟩)

namespace Survey

/-- Reads survey text as it stands, without joining wrapped lines. -/
def ofText (file src : String) : Except Diagnostic Survey := (surveyReader file).forest file src

/-- Reads survey text after joining its wrapped lines. -/
def ofSource (file src : String) : Except Diagnostic Survey :=
  ofText file (Source.foldContinuations src)

end Survey

/-- Reads choices text. Its lines are never joined. -/
def Choices.ofText (file src : String) : Except Diagnostic Choices :=
  (choicesReader file).forest file src

end SurveyForms
