import SurveyForms.Path

/-! Where source texts come from: finitely many files that can be read by path. -/
namespace SurveyForms

inductive FileCause where
  | noEntry
  | isDirectory
  | notDirectory
  | exists
  | longName
  /-- A path with a character that no path may have. -/
  | invalid
  deriving DecidableEq, Repr

def FileCause.text : FileCause → String
  | .noEntry => "no such file or directory"
  | .isDirectory => "is a directory"
  | .notDirectory => "not a directory"
  | .exists => "file exists"
  | .longName => "file name too long"
  | .invalid => "invalid argument"

inductive FileError where
  /-- Not in a set of files. -/
  | unknownFile (path : String)
  /-- An action on a path of a file tree, and what is wrong with the path. -/
  | failed (action path : String) (cause : FileCause)
  /-- A write to files that may only be read. -/
  | readOnly
  deriving DecidableEq, Repr

namespace FileError

def isMissing : FileError → Bool
  | .unknownFile _ | .failed _ _ .noEntry => true
  | _ => false

def message : FileError → String
  | .unknownFile path => "open " ++ path ++ ": file does not exist"
  | .failed action path cause => action ++ " " ++ path ++ ": " ++ cause.text
  | .readOnly => "operation not permitted"

end FileError

/-- Files to read from. Two paths name the same file if they have the same canonical path; all
files that can be read have a canonical path in the finite list `known`. -/
structure Sources where
  canonical : String → String
  read : String → Except FileError String
  known : List String
  known_of_read : ∀ path text, read path = .ok text → canonical path ∈ known

namespace Sources

/-- How many known files are not open. -/
def unopened (s : Sources) (chain : List String) : Nat :=
  (s.known.filter (fun path => !chain.contains path)).length

private theorem length_filter_lt {p q : α → Bool} {l : List α} {a : α}
    (hqp : ∀ x, q x → p x) (ha : a ∈ l) (hp : p a) (hq : ¬ q a) :
    (l.filter q).length < (l.filter p).length := by
  induction l with
  | nil => simp at ha
  | cons b l ih =>
    have hle : (l.filter q).length ≤ (l.filter p).length := by
      have h : l.filter q = (l.filter p).filter q := by
        rw [List.filter_filter]
        exact List.filter_congr fun x _ => by
          by_cases hx : q x <;> simp [hx, hqp]
      rw [h]
      exact List.length_filter_le _ _
    rcases List.mem_cons.1 ha with rfl | ha
    · simp [hp, hq]
      omega
    · have := ih ha
      by_cases hb : q b
      · simp [hb, hqp b hb, this]
      · by_cases hpb : p b <;> simp [hb, hpb] <;> omega

/-- Opening a file that is not open leaves fewer files to open. -/
theorem unopened_cons_lt {s : Sources} {chain : List String} {path : String}
    (hknown : path ∈ s.known) (hopen : path ∉ chain) :
    s.unopened (path :: chain) < s.unopened chain := by
  refine length_filter_lt (a := path) ?_ hknown ?_ ?_
  · intro x hx
    simp_all
  · simpa using hopen
  · simp

end Sources
end SurveyForms
