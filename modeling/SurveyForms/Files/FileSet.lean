import SurveyForms.Files.Sources

/-! A set of source files held in memory. Relative and absolute paths name different files, and
the directories that hold files read as empty texts. -/
namespace SurveyForms

/-- Where a path points: the normal path, by which files are told apart, and the canonical one,
by which a chain of open files is checked. -/
structure Location where
  normal : String
  canonical : String
  deriving DecidableEq, Repr

namespace Location

def ofPath (path : String) : Location :=
  let normal := Path.clean path
  ⟨if normal = "." ∨ normal = ".." then "/" else normal, Path.resolve "/" normal⟩

end Location

structure FileSet where
  files : List (Location × String)

namespace FileSet

/-- The directories above a path, innermost first. -/
def ancestors (path : String) : List String :=
  let p := Path.ofString path
  (List.range p.names.length).reverse.map fun n => Path.toString ⟨p.rooted, p.names.take n⟩

/-- The set of the given files. A later text of the same file counts. -/
def ofList (files : List (String × String)) : FileSet :=
  ⟨(files.reverse.map fun (path, text) => (Location.ofPath path, text)) ++
    (files.flatMap fun (path, _) => (ancestors path).map fun dir => (Location.ofPath dir, "")) ++
    [(Location.ofPath "/", "")]⟩

def find? (s : FileSet) (l : Location) : Option String := (s.files.find? (·.1 = l)).map (·.2)

def read (s : FileSet) (path : String) : Except FileError String :=
  match s.find? (Location.ofPath path) with
  | some text => .ok text
  | none => .error (.unknownFile (Location.ofPath path).normal)

def sources (s : FileSet) : Sources where
  canonical path := (Location.ofPath path).canonical
  read := s.read
  known := s.files.map (·.1.canonical)
  known_of_read path text h := by
    unfold read find? at h
    cases hf : s.files.find? (·.1 = Location.ofPath path) with
    | none => simp [hf] at h
    | some entry =>
      have hm := List.mem_of_find?_eq_some hf
      have he := List.find?_some hf
      simp only [decide_eq_true_eq] at he
      exact List.mem_map.2 ⟨entry, hm, by rw [he]⟩

end FileSet
end SurveyForms
