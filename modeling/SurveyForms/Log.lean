import SurveyForms.Text.Blank
import SurveyForms.Text.Case
import SurveyForms.Text.Lines
import SurveyForms.Text.Quoted

/-! Log lines, and computations that leave log lines behind. What is logged before a failure
stays logged. -/
namespace SurveyForms

inductive LogLevel where
  | debug
  | info
  | warn
  | error
  | fatal
  deriving DecidableEq, Repr

namespace LogLevel

def severity : LogLevel → Nat
  | .debug => 0
  | .info => 1
  | .warn => 2
  | .error => 3
  | .fatal => 4

def tag : LogLevel → String
  | .debug => "DEBU"
  | .info => "INFO"
  | .warn => "WARN"
  | .error => "ERRO"
  | .fatal => "FATA"

/-- The level of a name; letters may be in either case. -/
def ofName? (name : String) : Option LogLevel :=
  match Text.lower name with
  | "debug" => some .debug
  | "info" => some .info
  | "warn" => some .warn
  | "error" => some .error
  | "fatal" => some .fatal
  | _ => none

end LogLevel

structure LogEntry where
  level : LogLevel
  message : String
  fields : List (String × String)
  deriving DecidableEq, Repr

namespace LogEntry

/-- Whether a character may stand in a value without quotes around it. -/
def isBare (c : Char) : Bool :=
  Text.isPrintable c && !Text.isBlank c && c != '"' && c != '=' && c != '\ufffd'

/-- A character of a value, escaped if it is not printable. A backslash stands for itself. -/
def escape (c : Char) : List Char :=
  if Text.isPrintable c then [c]
  else if c = '\x7f' then ['\\', 'u', '0', '0', '7', 'f']
  else Text.quoteChar c

/-- A value of one line; in quotes if it is empty or has a character that needs them. -/
def inline (value : List Char) : List Char :=
  if !value.isEmpty && value.all isBare then value
  else '"' :: value.flatMap (fun c => if c = '"' then ['\\', '"'] else escape c) ++ ['"']

def margin : List Char := "  │ ".toList

/-- The lines of a value. Nothing is written for an empty last line; `more` says whether other
fields follow. -/
def block (more : Bool) : List (List Char) → List Char
  | [] => []
  | [last] =>
    if last.isEmpty then []
    else margin ++ last.flatMap escape ++ (if more then ['\n'] else [])
  | line :: rest => margin ++ line.flatMap escape ++ '\n' :: block more rest

/-- Fields behind a message. A value of several lines stands below its key. -/
def fieldText : List (String × String) → String
  | [] => ""
  | (key, value) :: rest =>
    let cs := value.toList
    if cs.contains '\n' then
      "\n  " ++ key ++ "=\n" ++ String.ofList (block (!rest.isEmpty) (Text.lines cs)) ++
        fieldText rest
    else " " ++ key ++ "=" ++ String.ofList (inline cs) ++ fieldText rest

def render (e : LogEntry) : String :=
  e.level.tag ++ " comb: " ++ e.message ++ fieldText e.fields ++ "\n"

def renderAll (threshold : LogLevel) (entries : List LogEntry) : String :=
  String.join ((entries.filter (threshold.severity ≤ ·.level.severity)).map render)

end LogEntry

/-- A result or an error, with the log of the way there. -/
structure Logged (ε α : Type) where
  log : List LogEntry
  result : Except ε α

namespace Logged

def bind (x : Logged ε α) (f : α → Logged ε β) : Logged ε β :=
  match x.result with
  | .error e => ⟨x.log, .error e⟩
  | .ok a => ⟨x.log ++ (f a).log, (f a).result⟩

instance : Monad (Logged ε) where
  pure a := ⟨[], .ok a⟩
  bind := bind

def fail (e : ε) : Logged ε α := ⟨[], .error e⟩

def write (level : LogLevel) (message : String) (fields : List (String × String)) :
    Logged ε Unit :=
  ⟨[⟨level, message, fields⟩], .ok ()⟩

def ofExcept (x : Except ε α) : Logged ε α := ⟨[], x⟩

def mapError (f : ε → δ) (x : Logged ε α) : Logged δ α := ⟨x.log, x.result.mapError f⟩

@[simp] theorem result_pure (a : α) : (pure a : Logged ε α).result = .ok a := rfl

@[simp] theorem result_bind (x : Logged ε α) (f : α → Logged ε β) :
    (x >>= f).result = x.result.bind fun a => (f a).result := by
  change (Logged.bind x f).result = _
  unfold Logged.bind
  cases x.result <;> rfl

end Logged
end SurveyForms
