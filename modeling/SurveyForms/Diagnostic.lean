import SurveyForms.Text.Quoted

/-! Places in source files and the faults found there. Lines and columns count from 1; 0 means
unknown. -/
namespace SurveyForms

structure Position where
  file : String
  line : Nat
  col : Nat
  deriving DecidableEq, Repr, Inhabited

namespace Position

/-- A place as messages show it. A line of 0 hides line and column, a column of 0 itself. -/
def label (file : String) (line col : Int) : String :=
  if line = 0 then file
  else if col = 0 then s!"{file}:{line}"
  else s!"{file}:{line}:{col}"

def toString (p : Position) : String := label p.file p.line p.col

def bytes (s : String) : List UInt8 := s.toList.flatMap String.utf8EncodeChar

/-- The place of a byte offset, with a column in bytes. An offset behind the end is the end. -/
def ofOffset (file src : String) (offset : Nat) : Position :=
  let before := (bytes src).take offset
  ⟨file, before.count 10 + 1, (before.reverse.takeWhile (· ≠ 10)).length + 1⟩

end Position

inductive FaultKind where
  | grammar
  | indentation
  | unknownCommand
  | unknownName
  | cycle
  deriving DecidableEq, Repr

def FaultKind.text : FaultKind → String
  | .grammar => "syntax error"
  | .indentation => "indentation error"
  | .unknownCommand => "unknown command"
  | .unknownName => "unknown macro"
  | .cycle => "cyclic include"

inductive Fault where
  /-- No token starts with this rest of a line. -/
  | unreadable (rest : List Char)
  /-- A token, or the end of the line, where the grammar wants something else. -/
  | unexpected (found : Option String) (wanted : Option String)
  | unexpectedIndent
  | unmatchedUnindent
  /-- A header without an indented block. -/
  | missingBody (header : String)
  | unknownCommand (name : String)
  /-- A reference to a name that the including command does not bind. -/
  | unboundName (name : String)
  /-- A last argument that should be the key of a pair. -/
  | missingValue (command argument : String)
  | formArguments
  | requiredArguments (count : Nat)
  /-- A file that includes itself, with the files open in between and itself at both ends. -/
  | cycle (files : List String)
  deriving DecidableEq, Repr

namespace Fault

def kind : Fault → FaultKind
  | .unreadable _ | .unexpected _ _ | .missingValue _ _ | .formArguments | .requiredArguments _ =>
    .grammar
  | .unexpectedIndent | .unmatchedUnindent | .missingBody _ => .indentation
  | .unknownCommand _ => .unknownCommand
  | .unboundName _ => .unknownName
  | .cycle _ => .cycle

/-- At most this many characters of an unreadable rest are shown. -/
def excerptLength : Nat := 16

def excerpt (rest : List Char) : String :=
  if rest.length > excerptLength then String.ofList (rest.take excerptLength) ++ "..."
  else String.ofList rest

def detail : Fault → String
  | .unreadable rest => "lexer: invalid input text " ++ Text.quote (excerpt rest)
  | .unexpected found wanted =>
    "unexpected token " ++ Text.quote (found.getD "<EOF>") ++
      match wanted with
      | none => ""
      | some text => " (expected " ++ text ++ ")"
  | .unexpectedIndent => "unexpected indent"
  | .unmatchedUnindent => "unindent does not match any outer indentation level"
  | .missingBody header => "expected an indented block after " ++ header
  | .unknownCommand name => "@" ++ name
  | .unboundName name => name ++ " is not defined at the include site"
  | .missingValue command argument =>
    "@" ++ command ++ ": argument " ++ Text.quote argument ++ " has no value"
  | .formArguments => "@form needs an id, a version and a title"
  | .requiredArguments count => s!"@required takes one argument, got {count}"
  | .cycle files => String.intercalate " -> " files

end Fault

structure Diagnostic where
  pos : Position
  fault : Fault
  deriving DecidableEq, Repr

namespace Diagnostic

def report (place : String) (kind : FaultKind) (detail : String) : String :=
  place ++ ": " ++ kind.text ++ ": " ++ detail

def message (d : Diagnostic) : String := report d.pos.toString d.fault.kind d.fault.detail

end Diagnostic
end SurveyForms
