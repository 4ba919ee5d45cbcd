/-! Braced references in running text: an opening, a name of one or more characters other than
the closing brace, and the closing brace. The name may span lines and hold further openings. -/
namespace SurveyForms.Text

/-- A stretch of running text: one plain character, or a reference with its name. -/
inductive Piece where
  | plain (c : Char)
  | reference (name : List Char)
  deriving DecidableEq, Repr

/-- The name and the remaining text, if the text continues an opening to a full reference. -/
def closeBrace? (cs : List Char) : Option (List Char × List Char) :=
  match cs.dropWhile (· ≠ '\x7d') with
  | _ :: rest =>
    if cs.takeWhile (· ≠ '\x7d') = [] then none else some (cs.takeWhile (· ≠ '\x7d'), rest)
  | [] => none

/-- The reference that stands at the start of the text. -/
def reference? (opening cs : List Char) : Option (List Char × List Char) :=
  if opening.isPrefixOf cs then closeBrace? (cs.drop opening.length) else none

theorem length_closeBrace? {cs name rest : List Char} (h : closeBrace? cs = some (name, rest)) :
    rest.length < cs.length := by
  unfold closeBrace? at h
  split at h
  · next c r hd =>
    split at h
    · simp at h
    · simp only [Option.some.injEq, Prod.mk.injEq] at h
      have hl := (List.dropWhile_suffix (l := cs) (· ≠ '\x7d')).length_le
      rw [hd] at hl
      simp only [List.length_cons] at hl
      rw [← h.2]
      omega
  · simp at h

theorem length_reference? {opening cs name rest : List Char}
    (h : reference? opening cs = some (name, rest)) : rest.length < cs.length := by
  unfold reference? at h
  split at h
  · have := length_closeBrace? h
    simp only [List.length_drop] at this
    omega
  · simp at h

/-- Reads a text from left to right. A reference is taken where it starts first, and reading
goes on behind it, so references never overlap. -/
def pieces (opening cs : List Char) : List Piece :=
  match _h : reference? opening cs with
  | some (name, rest) => .reference name :: pieces opening rest
  | none =>
    match cs with
    | [] => []
    | c :: rest => .plain c :: pieces opening rest
termination_by cs.length
decreasing_by
  · exact length_reference? _h
  · simp

def Piece.source (opening : List Char) : Piece → List Char
  | .plain c => [c]
  | .reference name => opening ++ name ++ ['\x7d']

end SurveyForms.Text
