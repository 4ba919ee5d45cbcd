import SurveyForms.Diagnostic

/-! Statements of survey and choices sources, and forests of them. A forest keeps a statement
without a body as a leaf and one with a body as a block, each in front of the statements that
follow it. -/
namespace SurveyForms

/-- Statements in source order, blocks with their bodies. -/
inductive Forest (α β : Type) where
  | nil
  | leaf (statement : α) (rest : Forest α β)
  | block (header : β) (body rest : Forest α β)
  deriving DecidableEq, Repr

namespace Forest

def append : Forest α β → Forest α β → Forest α β
  | .nil, g => g
  | .leaf a f, g => .leaf a (append f g)
  | .block h b f, g => .block h b (append f g)

instance : Append (Forest α β) := ⟨append⟩

/-- Whether some statement of the forest itself, bodies apart, passes a test. A block always
counts. -/
def anyStatement (test : α → Bool) : Forest α β → Bool
  | .nil => false
  | .leaf a f => test a || anyStatement test f
  | .block _ _ _ => true

end Forest

structure Param where
  key : String
  value : String
  deriving DecidableEq, Repr

/-- The test of a conditional block. -/
inductive Condition where
  | comparison (left operator value : String)
  /-- An expression carried as it is. -/
  | literal (value : String)
  deriving DecidableEq, Repr

/-- A command line. There is always a first argument. -/
structure Command where
  pos : Position
  name : String
  first : String
  others : List String
  deriving DecidableEq, Repr

def Command.args (c : Command) : List String := c.first :: c.others

structure Question where
  pos : Position
  name : String
  /-- The words of the type; a selection names its lists here. -/
  type : List String
  /-- The calculation when the type is `calculate`. -/
  label : Option String
  params : List Param
  deriving DecidableEq, Repr

inductive GroupKind where
  | group
  | repetition
  deriving DecidableEq, Repr

def GroupKind.word : GroupKind → String
  | .group => "group"
  | .repetition => "repeat"

structure Group where
  pos : Position
  kind : GroupKind
  name : String
  label : Option String
  params : List Param
  /-- The condition written in front of the colon. -/
  condition : Option Condition
  deriving DecidableEq, Repr

structure ChoiceList where
  pos : Position
  name : String
  params : List Param
  deriving DecidableEq, Repr

structure Choice where
  pos : Position
  value : String
  label : String
  params : List Param
  deriving DecidableEq, Repr

inductive SurveyLeaf where
  | comment (pos : Position) (text : String)
  | command (command : Command)
  | question (question : Question)
  deriving DecidableEq, Repr

inductive SurveyHeader where
  | conditional (pos : Position) (condition : Condition)
  | group (group : Group)
  deriving DecidableEq, Repr

inductive ChoicesLeaf where
  | comment (pos : Position) (text : String)
  | command (command : Command)
  | choice (choice : Choice)
  deriving DecidableEq, Repr

abbrev Survey := Forest SurveyLeaf SurveyHeader

abbrev Choices := Forest ChoicesLeaf ChoiceList

def SurveyLeaf.isComment : SurveyLeaf → Bool
  | .comment _ _ => true
  | _ => false

def ChoicesLeaf.isComment : ChoicesLeaf → Bool
  | .comment _ _ => true
  | _ => false

end SurveyForms
