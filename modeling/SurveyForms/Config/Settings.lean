import SurveyForms.Config.Yaml.Value
import SurveyForms.Files.Tree
import SurveyForms.Text.Case

/-! The settings of the commands. A flag that was given wins over an environment variable that is
not empty, that over the configuration file, and that over the default. -/
namespace SurveyForms.Config

structure Settings where
  logLevel : String
  registry : String
  lint : Bool
  output : String
  deriving DecidableEq, Repr

inductive Key where
  | logLevel
  | registry
  | lint
  | output
  deriving DecidableEq, Repr

namespace Key

def name : Key → String
  | .logLevel => "log_level"
  | .registry => "registry"
  | .lint => "lint"
  | .output => "output"

def flag : Key → String
  | .logLevel => "log-level"
  | .registry => "registry"
  | .lint => "lint"
  | .output => "output"

def environment : Key → String
  | .logLevel => "COMB_LOG_LEVEL"
  | .registry => "COMB_REGISTRY"
  | .lint => "COMB_LINT"
  | .output => "COMB_OUTPUT"

end Key

def defaultRegistry : String := ".comb/comb.db"

def defaults : Settings := ⟨"warn", defaultRegistry, false, ""⟩

inductive ConfigError where
  /-- The file is broken or not a mapping. -/
  | unreadable
  /-- A value is not of the kind that its key wants. -/
  | undecodable
  deriving DecidableEq, Repr

def ConfigError.message : ConfigError → String
  | .unreadable => "reading config"
  | .undecodable => "decoding config"

/-- What settings are taken from: flags that were given, environment variables, the entries of
the file. -/
structure Origins where
  flag? : String → Option String
  env? : String → Option String
  file : List (String × Yaml.Value)

namespace Origins

/-- The entry of a key in the file. The case of letters does not count, but a key with capitals
wins over one without. -/
def entry? (o : Origins) (name : String) : Option Yaml.Value :=
  let same := o.file.filter (Text.lower ·.1 = name)
  ((same.find? (·.1 ≠ name)).or same.head?).map (·.2)

/-- The value that counts for a key, if any is given. A null in the file is not a value. -/
def value? (o : Origins) (key : Key) : Option Yaml.Value :=
  match o.flag? key.flag with
  | some text => some (.scalar (.text text))
  | none =>
    match (o.env? key.environment).filter (· ≠ "") with
    | some text => some (.scalar (.text text))
    | none => (o.entry? key.name).filter (· ≠ .scalar .null)

def text (o : Origins) (key : Key) (default : String) : Except ConfigError String :=
  match o.value? key with
  | none => .ok default
  | some .collection => .error .undecodable
  | some (.scalar s) =>
    match s.asText? with
    | some text => .ok text
    | none => .error .undecodable

def switch (o : Origins) (key : Key) (default : Bool) : Except ConfigError Bool :=
  match o.value? key with
  | none => .ok default
  | some .collection => .error .undecodable
  | some (.scalar s) =>
    match s.asSwitch? with
    | some on => .ok on
    | none => .error .undecodable

def settings (o : Origins) : Except ConfigError Settings := do
  return ⟨← o.text .logLevel defaults.logLevel, ← o.text .registry defaults.registry,
    ← o.switch .lint defaults.lint, ← o.text .output defaults.output⟩

end Origins

/-- The endings of a configuration file in the order in which they are tried. Whatever its
ending, the file is read in one format. -/
def endings : List String :=
  ["json", "toml", "yaml", "yml", "properties", "props", "prop", "hcl", "tfvars", "dotenv", "env",
    "ini"]

def fileNames : List String := endings.map ("comb." ++ ·) ++ ["comb"]

def find? (t : FileTree) (dir : String) : Option Content :=
  fileNames.findSome? fun name =>
    match t.stat (Path.join dir name) with
    | .ok .directory | .error _ => none
    | .ok content => some content

def entries : Content → Except ConfigError (List (String × Yaml.Value))
  | .text text =>
    match Yaml.entries? text with
    | some entries => .ok entries
    | none => .error .unreadable
  | _ => .error .unreadable

def load (t : FileTree) (dir : String) (flag? env? : String → Option String) :
    Except ConfigError Settings := do
  let file ← match find? t dir with
    | some content => entries content
    | none => .ok []
  Origins.settings ⟨flag?, env?, file⟩

end SurveyForms.Config
