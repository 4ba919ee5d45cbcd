import SurveyForms.Grammar.Rule
import SurveyForms.Statement.Basic

/-! The grammar of one line of a survey or choices source. Nothing here spans lines: blocks are
told by indentation. -/
namespace SurveyForms.Grammar

/-- What a survey line says. Headers still lack their bodies. -/
inductive SurveyLine where
  | command (name first : String) (others : List String)
  | conditional (condition : Condition)
  | group (kind : GroupKind) (name : String) (label : Option String) (params : List Param)
      (condition : Option Condition)
  | question (name : String) (type : List String) (label : Option String) (params : List Param)
  deriving DecidableEq, Repr

inductive ChoicesLine where
  | command (name first : String) (others : List String)
  | list (name : String) (params : List Param)
  | choice (value label : String) (params : List Param)
  deriving DecidableEq, Repr

def ident : Rule String := .token .ident "<ident>"
def number : Rule String := .token .number "<number>"
def text : Rule String := .token .text "<string>"
def varRef : Rule String := .token .varRef "<varref>"
def operator : Rule String := .token .operator "<operator>"

def numberOrText : Rule String := .choice [number, text]

def word : Rule String := .choice [ident, number, text]

def param : Rule Param :=
  .named "Param" <| (Rule.seq ident (.last word)).map fun (key, value) => ⟨key, value⟩

def comparison : Rule Condition :=
  (Rule.seq (.choice [varRef, .literal "."]) (.next operator (.last numberOrText))).map
    fun (left, operator, value) => .comparison left operator value

def condition : Rule Condition :=
  .named "Condition" <| .choice [comparison, numberOrText.map .literal]

/-- The arguments of a command: the first and the others. -/
def arguments : Rule (String × List String) :=
  (Rule.atLeastOnce word).map fun args => (args.headD "", args.tail)

def commandLine : Rule (String × String × List String) :=
  .named "CommandLine" <| .seq ident (.last arguments)

def ifLine : Rule Condition :=
  .named "IfLine" <| (Rule.seq condition (.last (.literal ":"))).map (·.1)

def groupWord : Rule GroupKind :=
  .choice [(Rule.literal "group").map fun _ => .group,
    (Rule.literal "repeat").map fun _ => .repetition]

def inlineCondition : Rule Condition :=
  (Rule.seq (.literal "if") (.last condition)).map (·.2)

def groupLine : Rule SurveyLine :=
  .named "GroupLine" <|
    (Rule.seq groupWord (.next ident (.next (.optional text) (.next (.many param)
      (.next (.optional inlineCondition) (.last (.literal ":"))))))).map
    fun (kind, name, label, params, condition, _) => .group kind name label params condition

def questionLine : Rule SurveyLine :=
  .named "QuestionLine" <|
    (Rule.seq ident (.next (.atLeastOnce ident) (.next (.literal ":")
      (.next (.optional (.choice [text, number])) (.last (.many param)))))).map
    fun (name, type, _, label, params) => .question name type label params

def listLine : Rule ChoicesLine :=
  .named "ListLine" <|
    (Rule.seq ident (.next (.many param) (.last (.literal ":")))).map
    fun (name, params, _) => .list name params

def choiceLine : Rule ChoicesLine :=
  .named "ChoiceLine" <|
    (Rule.seq numberOrText (.next numberOrText (.last (.many param)))).map
    fun (value, label, params) => .choice value label params

def surveyLine : Rule SurveyLine :=
  .named "SurveyLine" <| .choice [
    (Rule.seq (.literal "@") (.last commandLine)).map
      fun (_, name, first, others) => .command name first others,
    (Rule.seq (.literal "if") (.last ifLine)).map fun (_, condition) => .conditional condition,
    groupLine,
    questionLine]

def choicesLine : Rule ChoicesLine :=
  .named "ChoicesLine" <| .choice [
    (Rule.seq (.literal "@") (.last commandLine)).map
      fun (_, name, first, others) => .command name first others,
    (Rule.seq (.literal "list") (.last listLine)).map (·.2),
    choiceLine]

/-- Reads a whole line by a rule. The error is a fault and its column; text that no token starts
counts before any other fault, wherever it stands. -/
def parseLine (rule : Rule α) (line : List Char) : Except (Nat × Fault) α :=
  match Source.scan line with
  | (lexemes, []) =>
    match rule.parse (Source.tokensFrom 1 lexemes) with
    | .ok a => .ok a
    | .error o =>
      .error ((o.found.map (·.col)).getD (line.length + 1),
        .unexpected (o.found.map (·.value)) o.wanted)
  | (_, rest) => .error (line.length - rest.length + 1, .unreadable rest)

end SurveyForms.Grammar
