import SurveyForms.Text.Joining

/-! Visible signs: a character with all that joins it. Signs are found from the left, and a text
is cut into them without rest. -/
namespace SurveyForms.Text

/-- What is known about the sign read so far, as far as it decides what may join it. -/
inductive ClusterState where
  | plain
  | afterReturn
  | afterControl
  | afterLeader
  | afterConsonant
  | afterVowel
  | afterFinal
  | afterPictograph
  /-- A pictograph with a joiner behind it. -/
  | joined
  /-- One half of a flag without the other. -/
  | halfFlag
  deriving DecidableEq, Repr

namespace ClusterState

/-- The state after a character that nothing stands in front of. -/
def first : Joining → ClusterState
  | .carriageReturn => .afterReturn
  | .lineFeed | .control => .afterControl
  | .leader => .afterLeader
  | .flag => .halfFlag
  | .pictograph => .afterPictograph
  | .consonant => .afterConsonant
  | .vowel | .syllable => .afterVowel
  | .final | .closedSyllable => .afterFinal
  | .other | .mark | .joiner | .spacing => .plain

/-- The state after one more character, if it belongs to the same sign. -/
def next? : ClusterState → Joining → Option ClusterState
  | .afterReturn, .lineFeed => some .afterControl
  | .afterReturn, _ => none
  | .afterControl, _ => none
  | _, .carriageReturn => none
  | _, .lineFeed => none
  | _, .control => none
  | .afterLeader, j => some (first j)
  | .afterConsonant, .consonant => some .afterConsonant
  | .afterConsonant, .vowel => some .afterVowel
  | .afterConsonant, .syllable => some .afterVowel
  | .afterConsonant, .closedSyllable => some .afterFinal
  | .afterVowel, .vowel => some .afterVowel
  | .afterVowel, .final => some .afterFinal
  | .afterFinal, .final => some .afterFinal
  | .afterPictograph, .mark => some .afterPictograph
  | .afterPictograph, .joiner => some .joined
  | .joined, .pictograph => some .afterPictograph
  | .halfFlag, .flag => some .plain
  | _, .mark => some .plain
  | _, .joiner => some .plain
  | _, .spacing => some .plain
  | _, _ => none

/-- The characters that still belong to the sign, and those behind it. -/
def split (s : ClusterState) : List Char → List Char × List Char
  | [] => ([], [])
  | c :: cs =>
    match s.next? (.ofChar c) with
    | some t => (c :: (split t cs).1, (split t cs).2)
    | none => ([], c :: cs)

theorem split_append (s : ClusterState) (cs : List Char) :
    (s.split cs).1 ++ (s.split cs).2 = cs := by
  induction cs generalizing s with
  | nil => rfl
  | cons c cs ih =>
    unfold split
    split <;> simp [ih]

theorem length_split_le (s : ClusterState) (cs : List Char) :
    (s.split cs).2.length ≤ cs.length := by
  have h := congrArg List.length (s.split_append cs)
  rw [List.length_append] at h
  omega

end ClusterState

/-- The first sign of a text that starts with `c`, without `c`, and the text behind the sign. -/
def splitCluster (c : Char) (cs : List Char) : List Char × List Char :=
  (ClusterState.first (.ofChar c)).split cs

/-- The cells that a sign takes. A pictograph may say whether it is shown as text or as a picture;
flags and Hangul syllables are as wide as their first part; else the parts add up. -/
def clusterWidth (c : Char) (cs : List Char) : Nat :=
  match Joining.ofChar c with
  | .pictograph =>
    cs.foldl (fun w d => if d = '\ufe0e' then 1 else if d = '\ufe0f' then 2 else w) (charWidth c)
  | .flag | .consonant => charWidth c
  | _ => (cs.map charWidth).foldl (· + ·) (charWidth c)

end SurveyForms.Text
