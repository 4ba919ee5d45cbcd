/-! The edit distance of two words: the least number of insertions, deletions and replacements
that turn one into the other. It is computed row by row. -/
namespace SurveyForms.Text

variable {α : Type} [DecidableEq α]

/-- The distances of one more element `a` against the prefixes of a word, from the distances
without it. `left` is the distance just found. -/
def distanceScan (a : α) (left : Nat) : List α → List Nat → List Nat
  | b :: bs, diagonal :: above :: row =>
    let here := if a = b then diagonal else 1 + min diagonal (min above left)
    here :: distanceScan a here bs (above :: row)
  | _, _ => []

def distanceRow (target : List α) (row : List Nat) (a : α) : List Nat :=
  let first := row.headD 0 + 1
  first :: distanceScan a first target row

def distance (source target : List α) : Nat :=
  (source.foldl (distanceRow target) (List.range (target.length + 1))).getLastD 0

end SurveyForms.Text
