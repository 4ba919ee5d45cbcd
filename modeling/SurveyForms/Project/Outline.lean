import SurveyForms.Form.Tree
import SurveyForms.Terminal

/-! The outline of a compiled form: its rows indented by groups, and its choice lists. -/
namespace SurveyForms.Outline

structure Line where
  depth : Nat
  type : String
  name : String
  label : String
  deriving DecidableEq, Repr

def starts (word text : String) : Bool := word.toList.isPrefixOf text.toList

/-- The lines of survey rows. A type that begins with `begin ` goes one level deeper behind its
own line; one that begins with `end ` comes back, as far as there is a level, and has no line. -/
def rows (depth : Nat) : List Row → List Line
  | [] => []
  | row :: rest =>
    let type := row.text "type"
    if starts "end " type then rows (depth - 1) rest
    else
      let label := if row.text "label" = "" then row.text "calculation" else row.text "label"
      ⟨depth, type, row.text "name", label⟩ ::
        rows (if starts "begin " type then depth + 1 else depth) rest

/-- The lists of choice rows in the order of their first entries, with their numbers of
entries. -/
def lists (choices : List Row) : List (String × Nat) :=
  let names := choices.map (·.text "list_name")
  names.eraseDups.map fun name => (name, names.count name)

def render (t : Terminal) (f : Form) : String :=
  let title := match f.settings with
    | some settings => settings.text "form_id" ++ " " ++ settings.text "version" ++ "\n\n"
    | none => ""
  let body := (rows 0 f.survey).map fun l => t.outline l.depth l.type l.name l.label
  let names := (lists f.choices).map fun (name, count) => t.choiceList name count
  title ++ String.join body ++ (if names.isEmpty then "" else "\n") ++ String.join names

end SurveyForms.Outline
