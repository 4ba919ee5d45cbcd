import SurveyForms.Files.Sources
import SurveyForms.Registry.Builds
import SurveyForms.Workbook.Book

/-! A tree of directories and files with a working directory. Every directory on a path has to
exist, also one that the path leaves again. There are no links, so a path reaches the same file
as its normal form. Workbooks and registries are kept as what they hold, not as bytes. -/
namespace SurveyForms

inductive Content where
  | directory
  | text (text : String)
  | book (book : Book)
  | registry (registry : Registry)
  deriving DecidableEq, Repr

/-- Entries by their names from the root on; the root itself has no entry. -/
structure FileTree where
  entries : List (List String × Content)
  home : List String
  readOnly : Bool

namespace FileTree

def ofHome (home : List String) : FileTree :=
  ⟨(List.range home.length).map fun n => (home.take (n + 1), .directory), home, false⟩

def find? (t : FileTree) (names : List String) : Option Content :=
  if names.isEmpty then some .directory else (t.entries.find? (·.1 = names)).map (·.2)

/-- The names that a path leads to, by its text alone. -/
def locate (t : FileTree) (path : String) : List String :=
  let start := if Path.isAbsolute path then [] else t.home.reverse
  ((Path.rawNames path).foldl (Path.step true) start).reverse

def canonicalOf (names : List String) : String := "/" ++ String.intercalate "/" names

def canonical (t : FileTree) (path : String) : String := canonicalOf (t.locate path)

/-- The bytes that a name and a path have room for. -/
def maxName : Nat := 255
def maxPath : Nat := 4095

/-- Whether all directories on the way exist and no name is too long. `walked` are the names so
far, innermost first; nothing need stand at the last name. -/
def passable (t : FileTree) (walked : List String) : List String → Except FileCause Unit
  | [] => .ok ()
  | name :: rest =>
    if name.utf8ByteSize > maxName then .error .longName
    else if rest.isEmpty then .ok ()
    else
      let next := Path.step true walked name
      match t.find? next.reverse with
      | some .directory => passable t next rest
      | some _ => .error .notDirectory
      | none => .error .noEntry

def admissible (path : String) : Except FileCause Unit :=
  if path.toList.contains '\x00' then .error .invalid
  else if path = "" then .error .noEntry
  else if path.utf8ByteSize > maxPath then .error .longName
  else .ok ()

def reach (t : FileTree) (path : String) : Except FileCause Unit := do
  admissible path
  t.passable (if Path.isAbsolute path then [] else t.home.reverse) (Path.rawNames path)

/-- Like `reach`, for a path where something is to be made that is no directory: it may not end
with a slash. Before that the way to its directory counts. -/
def reachNew (t : FileTree) (path : String) : Except FileCause Unit := do
  let names := Path.rawNames path
  let given := (names.reverse.dropWhile String.isEmpty).reverse
  let last := given.getLastD "."
  if names.getLastD "" ≠ "" ∨ last = "." ∨ last = ".." then t.reach path
  else
    admissible path
    t.passable (if Path.isAbsolute path then [] else t.home.reverse) (given.dropLast ++ [""])
    throw .isDirectory

def stat (t : FileTree) (path : String) : Except FileCause Content :=
  match t.reach path, t.find? (t.locate path) with
  | .ok (), some content => .ok content
  | .ok (), none => .error .noEntry
  | .error cause, _ => .error cause

def openFile (t : FileTree) (path : String) : Except FileError Content :=
  match t.stat path with
  | .ok content => .ok content
  | .error cause => .error (.failed "open" path cause)

/-- Reads a text file. The bytes of other files are not known here and read as an empty text. -/
def readText (t : FileTree) (path : String) : Except FileError String :=
  match t.openFile path with
  | .ok .directory => .error (.failed "read" path .isDirectory)
  | .ok (.text text) => .ok text
  | .ok (.book _) | .ok (.registry _) => .ok ""
  | .error cause => .error cause

def put (t : FileTree) (names : List String) (content : Content) : FileTree :=
  { t with entries := t.entries.filter (·.1 ≠ names) ++ [(names, content)] }

/-- Writes a file, over what stands there. Its directory has to exist. -/
def writeFile (t : FileTree) (path : String) (content : Content) : Except FileError FileTree :=
  if t.readOnly then .error .readOnly
  else do
    (t.reachNew path).mapError (.failed "open" path)
    match t.find? (t.locate path) with
    | some .directory => .error (.failed "open" path .isDirectory)
    | _ => .ok (t.put (t.locate path) content)

/-- Makes a directory at a normal path, which may have a slash behind it. -/
def makeDirectory (t : FileTree) (path : String) : Except FileError FileTree :=
  match t.reach (Path.clean path), t.find? (t.locate path) with
  | .error cause, _ => .error (.failed "mkdir" path cause)
  | .ok (), some _ => .error (.failed "mkdir" path .exists)
  | .ok (), none => .ok (t.put (t.locate path) .directory)

/-- The texts of a path and of all that lead to it, outermost first. Those that lead to it end
with a slash. -/
def steps (path : String) : List String :=
  let p := Path.ofString path
  (List.range p.names.length).map fun n =>
    let text := Path.toString ⟨p.rooted, p.names.take (n + 1)⟩
    if n + 1 < p.names.length then text ++ "/" else text

/-- Makes a directory and all that lead to it. What was made before a failure stays. -/
def makeDirectories (t : FileTree) (path : String) : FileTree × Option FileError :=
  (steps path).foldl (fun (t, failure) part =>
    match failure, t.stat part with
    | some _, _ | none, .ok .directory => (t, failure)
    | none, .ok _ => (t, some (.failed "mkdir" part .notDirectory))
    | none, .error _ =>
      match t.makeDirectory part with
      | .ok made => (made, none)
      | .error cause => (t, some cause)) (t, none)

/-- The paths of all files below the working directory, seen from there, in order. -/
def files (t : FileTree) : List String :=
  let found := t.entries.filterMap fun (names, content) =>
    if content = .directory ∨ ¬ t.home.isPrefixOf names then none
    else some (String.intercalate "/" (names.drop t.home.length))
  found.mergeSort fun a b => decide (a ≤ b)

theorem stat_eq_ok {t : FileTree} {path : String} {content : Content}
    (h : t.stat path = .ok content) : t.find? (t.locate path) = some content := by
  unfold stat at h
  split at h
  · next hf => rw [hf, Except.ok.inj h]
  · cases h
  · cases h

private theorem exists_of_readText {t : FileTree} {path text : String}
    (h : t.readText path = .ok text) : ∃ c, t.find? (t.locate path) = some c ∧ c ≠ .directory := by
  cases hs : t.stat path with
  | error cause => simp [readText, openFile, hs] at h
  | ok c =>
    refine ⟨c, stat_eq_ok hs, ?_⟩
    rintro rfl
    simp [readText, openFile, hs] at h

def sources (t : FileTree) : Sources where
  canonical := t.canonical
  read := t.readText
  known := t.entries.map fun e => canonicalOf e.1
  known_of_read path text h := by
    obtain ⟨c, hc, hd⟩ := exists_of_readText h
    unfold find? at hc
    split at hc
    · exact absurd (Option.some.inj hc).symm hd
    · obtain ⟨e, he, _⟩ := Option.map_eq_some_iff.1 hc
      have hm := List.mem_of_find?_eq_some he
      have hn : e.1 = t.locate path := by simpa using List.find?_some he
      exact List.mem_map.2 ⟨e, hm, by rw [hn]; rfl⟩

end FileTree
end SurveyForms
