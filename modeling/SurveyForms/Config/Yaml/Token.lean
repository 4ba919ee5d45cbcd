/-! The tokens of a configuration file. -/
namespace SurveyForms.Config.Yaml

inductive Token where
  | streamEnd
  | version (major minor : Nat)
  /-- What a tag handle stands for. -/
  | handle (name value : String)
  | documentStart
  | documentEnd
  | blockSequence
  | blockMapping
  /-- The end of a block sequence or mapping. -/
  | blockEnd
  | openSequence
  | closeSequence
  | openMapping
  | closeMapping
  /-- The dash in front of an item. -/
  | item
  /-- The comma between items. -/
  | comma
  | key
  | value
  | reference (name : String)
  | anchor (name : String)
  | tag (handle suffix : String)
  /-- A text; a plain one may stand for something else than itself. -/
  | scalar (isPlain : Bool) (text : String)
  deriving DecidableEq, Repr

end SurveyForms.Config.Yaml
