import SurveyForms.CommandLine.Request
import SurveyForms.Config.Settings
import SurveyForms.Project.Commands

/-! Running a command line in a project: settings first, then the command, then what is said
about a failure. -/
namespace SurveyForms.CommandLine

structure Outcome where
  files : FileTree
  out : String
  err : String
  code : UInt8

inductive RunError where
  | usage (cause : UsageError)
  | config (cause : Config.ConfigError)
  | level (name : String)
  | failed (cause : Failure)

namespace RunError

def message : RunError → String
  | .usage cause => cause.message
  | .config cause => cause.message
  | .level name => "log level " ++ Text.quote name ++ ": invalid level: " ++ Text.quote name
  | .failed cause => cause.message

def position? : RunError → Option Position
  | .failed cause => cause.diagnostic?.map (·.pos)
  | _ => none

/-- The error as it is printed, with the lines around its place if their file can be read. -/
def render (t : FileTree) (e : RunError) : String :=
  Project.terminal.error e.message ++
    match e.position? with
    | none => ""
    | some pos =>
      match t.readText pos.file with
      | .error _ => ""
      | .ok src =>
        Project.terminal.snippet pos.line pos.col (String.ofList (Text.unixBreaks src.toList))

end RunError

def usage : String :=
  "Usage:\n" ++ String.join (Subcommand.all.map fun c =>
    "  comb " ++ c.name ++ (if c.takesFile then " <file>" else "") ++ "\n")

def work (command : Subcommand) (a : Arguments) (s : Config.Settings) (now : Moment) : Job Unit :=
  let file := a.words.headD ""
  match command with
  | .compile => Project.compile ⟨file, s.output, s.registry, s.lint⟩ now
  | .history => Project.history s.registry ((a.value? "form").getD "")
  | .init => Project.init s.registry
  | .lint => Project.lint file
  | .outline => Project.outline file now

def configure (t : FileTree) (env? : String → Option String) (a : Arguments) :
    Except RunError (Config.Settings × LogLevel) := do
  let s ← (Config.load t "." a.value? env?).mapError .config
  match LogLevel.ofName? s.logLevel with
  | some level => return (s, level)
  | none => throw (.level s.logLevel)

def run (t : FileTree) (env? : String → Option String) (now : Moment)
    (arguments : List String) : Outcome :=
  let refuse (e : RunError) : Outcome := ⟨t, "", e.render t, 1⟩
  match Request.ofArguments arguments with
  | .error cause => refuse (.usage cause)
  | .ok .help => ⟨t, usage, "", 0⟩
  | .ok (.run command a) =>
    match configure t env? a with
    | .error e => refuse e
    | .ok (settings, level) =>
      match work command a settings now ⟨t, "", []⟩ with
      | .ok _ w => ⟨w.files, w.out, LogEntry.renderAll level w.log, 0⟩
      | .error cause w =>
        ⟨w.files, w.out, LogEntry.renderAll level w.log ++ RunError.render w.files (.failed cause),
          1⟩

end SurveyForms.CommandLine
