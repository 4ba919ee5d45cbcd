import SurveyForms.Row
import SurveyForms.Statement.Basic

/-! Parameters in force at a place of a source. A scope is a row; operations give a new one, so
that nothing done in a block is seen outside it. -/
namespace SurveyForms

def Condition.expression : Condition → String
  | .comparison left operator value => left ++ " " ++ operator ++ " " ++ value
  | .literal value => value

abbrev Scope := Row

namespace Scope

def relevanceKey : String := "relevance"

/-- Both conditions at once. -/
def both (outer inner : String) : String := "(" ++ outer ++ ") and (" ++ inner ++ ")"

/-- Puts `inner` over `outer`. Only relevance adds up: if both have it, both are required. -/
def merge (outer inner : Scope) : Scope :=
  let merged := outer.overlay inner
  match outer.get? relevanceKey, inner.get? relevanceKey with
  | some a, some b => merged.insert relevanceKey (both a b)
  | _, _ => merged

/-- Moves an `if` cell to relevance, over what stands there. -/
def renameIf (r : Row) : Row :=
  match r.get? "if" with
  | some condition => (r.insert relevanceKey condition).erase "if"
  | none => r

/-- The scope of a statement's own pairs, where a later pair with the same key wins. -/
def ofParams (params : List Param) : Scope :=
  renameIf (Row.ofList (params.map fun p => (p.key, p.value)))

/-- Keys of a group that stay on its opening row and are not passed on to its body. -/
def markerKeys : List String := [relevanceKey, "appearance"]

end Scope
end SurveyForms
