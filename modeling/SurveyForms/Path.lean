import SurveyForms.Text.Lines

/-! Slash-separated file paths, compared by their text alone: no file system is consulted, so a
step up undoes the step before it whether or not that directory exists. -/
namespace SurveyForms

/-- A normal path: no empty names, no `.`, and `..` only at the front of a path that is not
rooted. -/
structure Path where
  rooted : Bool
  names : List String
  deriving DecidableEq, Repr

namespace Path

/-- Takes one more step, from the names already walked, innermost first. -/
def step (rooted : Bool) (walked : List String) (name : String) : List String :=
  if name = "" ∨ name = "." then walked
  else if name = ".." then
    match walked with
    | [] => if rooted then [] else [".."]
    | last :: outer => if last = ".." then ".." :: walked else outer
  else name :: walked

/-- The names of a path text as written, empty ones and dots included. -/
def rawNames (s : String) : List String := (Text.cut '/' s.toList).map String.ofList

def isAbsolute (s : String) : Bool := s.toList.head? == some '/'

def ofString (s : String) : Path :=
  let rooted := isAbsolute s
  ⟨rooted, ((rawNames s).foldl (step rooted) []).reverse⟩

/-- The path as text; the empty relative path is `.`. -/
def toString (p : Path) : String :=
  let text := String.intercalate "/" p.names
  if p.rooted then "/" ++ text else if p.names.isEmpty then "." else text

def clean (s : String) : String := (ofString s).toString

/-- Everything up to the last slash, normalised. -/
def directory (s : String) : String :=
  clean (String.ofList (s.toList.reverse.dropWhile (· ≠ '/')).reverse)

/-- A path below a directory. An empty name is the directory itself. -/
def join (dir name : String) : String :=
  if name = "" then clean dir else clean (dir ++ "/" ++ name)

/-- The path a name stands for in a file of directory `dir`. -/
def resolve (dir name : String) : String :=
  if isAbsolute name then clean name else join dir name

/-- The last name's ending from its last dot on, dot included; empty if it has no dot. -/
def extension (s : String) : String :=
  let last := s.toList.reverse.takeWhile (· ≠ '/')
  if last.contains '.' then String.ofList (last.takeWhile (· ≠ '.') ++ ['.']).reverse else ""

def withoutExtension (s : String) : String :=
  String.ofList (s.toList.take (s.length - (extension s).length))

end Path
end SurveyForms
