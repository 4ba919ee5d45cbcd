import SurveyForms.Diagnostic
import SurveyForms.Row
import SurveyForms.Text.Braced

/-! Text references: an including command binds names, and the included text refers to them as
a dollar sign, an opening brace, an exclamation mark, the name and a closing brace. Replacement
is one pass from left to right; the text put in is not read again. -/
namespace SurveyForms.Source

open Text (Piece)

/-- How a reference to a bound name starts. -/
def opening : List Char := ['$', '\x7b', '!']

/-- The byte length of a text. -/
def byteLength : List Char → Nat
  | [] => 0
  | c :: cs => c.utf8Size + byteLength cs

/-- Replaces the references of a list of pieces that starts at byte `offset`. The error is the
offset and the name of the first reference that is not bound. -/
def replace (bindings : Row) : Nat → List Piece → Except (Nat × String) (List Char)
  | _, [] => .ok []
  | offset, piece :: rest => do
    let text ← match piece with
      | .plain c => .ok [c]
      | .reference name =>
        match bindings.get? (String.ofList name) with
        | some value => .ok value.toList
        | none => .error (offset, String.ofList name)
    let tail ← replace bindings (offset + byteLength (piece.source opening)) rest
    .ok (text ++ tail)

/-- Puts the bound texts into a source. An unbound name is reported where its reference starts,
with a column in bytes. -/
def substitute (file src : String) (bindings : Row) : Except Diagnostic String :=
  match replace bindings 0 (Text.pieces opening src.toList) with
  | .ok cs => .ok (String.ofList cs)
  | .error (offset, name) => .error ⟨Position.ofOffset file src offset, .unboundName name⟩

end SurveyForms.Source
