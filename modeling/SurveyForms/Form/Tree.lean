import SurveyForms.Calendar
import SurveyForms.Scope

/-! Forms with every included file in its place, and their expansion into rows. Nothing here can
fail: all that can be wrong with a source is found while its tree is built. -/
namespace SurveyForms

/-- What a form command gives: identity, version, title and further settings. -/
structure FormSettings where
  id : String
  version : String
  title : String
  extra : Row
  deriving DecidableEq, Repr

/-- The version that stands for the moment of compilation. -/
def FormSettings.autoVersion : String := "auto"

/-- The settings row. Further settings may replace identity and title, never the version. -/
def FormSettings.row (now : Moment) (f : FormSettings) : Row :=
  let named := (Row.ofList [("form_id", f.id), ("form_title", f.title)]).overlay f.extra
  (Scope.renameIf named).insert "version"
    (if f.version = autoVersion then now.utc.version else f.version)

/-- Lists and their entries. An included choices file stands open in its place: it sees the
scope of its command and adds none of its own. -/
abbrev ChoiceTree := Forest Choice ChoiceList

inductive FormItem where
  | question (question : Question)
  /-- Sets the `required` cell for the statements behind it in the same block. -/
  | required (value : String)
  | settings (settings : FormSettings)
  | choices (choices : ChoiceTree)
  deriving DecidableEq, Repr

inductive FormSection where
  | conditional (condition : Condition)
  | group (group : Group)
  /-- A file put in its place. Its settings are not those of the form. -/
  | included
  deriving DecidableEq, Repr

abbrev FormTree := Forest FormItem FormSection

/-- The rows of a compiled form. There are no settings if no form command gives them. -/
structure Form where
  survey : List Row
  choices : List Row
  settings : Option Row
  deriving DecidableEq, Repr

namespace Form

def empty : Form := ⟨[], [], none⟩

/-- One part after another; later settings replace earlier ones. -/
def append (a b : Form) : Form :=
  ⟨a.survey ++ b.survey, a.choices ++ b.choices, b.settings <|> a.settings⟩

instance : Append Form := ⟨append⟩

end Form

namespace Choice

def row (scope : Scope) (c : Choice) : Row :=
  (Row.ofList [("value", c.value), ("label", c.label)]).overlay
    (scope.merge (Scope.ofParams c.params))

end Choice

/-- The scope inside a list. Its own pairs replace inherited ones outright, relevance too. -/
def ChoiceList.scope (outer : Scope) (l : ChoiceList) : Scope :=
  (outer.merge (Row.ofList [("list_name", l.name)])).overlay (Scope.ofParams l.params)

def ChoiceTree.rows (scope : Scope) : ChoiceTree → List Row
  | .nil => []
  | .leaf c rest => c.row scope :: rows scope rest
  | .block l body rest => rows (l.scope scope) body ++ rows scope rest

namespace Question

/-- The row of a question. The text after the colon is the calculation of a `calculate`
question and the label of any other. -/
def row (scope : Scope) (q : Question) : Row :=
  let type := String.intercalate " " q.type
  let plain := Row.ofList [("name", q.name), ("type", type)]
  let labelled := match q.label with
    | none => plain
    | some label => plain.insert (if type = "calculate" then "calculation" else "label") label
  labelled.overlay (scope.merge (Scope.ofParams q.params))

end Question

namespace Group

/-- The group's own scope. A condition in front of the colon counts before its pairs. -/
def ownScope (g : Group) : Scope :=
  match g.condition with
  | some condition => (Scope.ofParams g.params).insert Scope.relevanceKey condition.expression
  | none => Scope.ofParams g.params

def openingRow (scope : Scope) (g : Group) : Row :=
  let plain := Row.ofList [("type", "begin " ++ g.kind.word), ("name", g.name)]
  let labelled := match g.label with
    | none => plain
    | some label => plain.insert "label" label
  labelled.overlay (scope.merge g.ownScope)

def bodyScope (scope : Scope) (g : Group) : Scope :=
  (scope.merge g.ownScope).eraseAll Scope.markerKeys

def closingRow (g : Group) : Row := Row.ofList [("type", "end " ++ g.kind.word), ("name", g.name)]

end Group

/-- Expands a tree into rows, with `scope` in force at its start. -/
def FormTree.expand (now : Moment) (scope : Scope) : FormTree → Form
  | .nil => .empty
  | .leaf (.question q) rest => Form.append ⟨[q.row scope], [], none⟩ (expand now scope rest)
  | .leaf (.required value) rest => expand now (scope.insert "required" value) rest
  | .leaf (.settings f) rest => Form.append ⟨[], [], some (f.row now)⟩ (expand now scope rest)
  | .leaf (.choices c) rest => Form.append ⟨[], c.rows ∅, none⟩ (expand now scope rest)
  | .block (.conditional condition) body rest =>
    let inner := scope.merge (Row.ofList [(Scope.relevanceKey, condition.expression)])
    (expand now inner body).append (expand now scope rest)
  | .block (.group g) body rest =>
    Form.append ⟨[g.openingRow scope], [], none⟩ <|
      (expand now (g.bodyScope scope) body).append <|
        Form.append ⟨[g.closingRow], [], none⟩ (expand now scope rest)
  | .block .included body rest =>
    Form.append { expand now scope body with settings := none } (expand now scope rest)

end SurveyForms
