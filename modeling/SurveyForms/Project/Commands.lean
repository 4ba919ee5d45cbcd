import SurveyForms.Lint
import SurveyForms.Project.Basic
import SurveyForms.Project.Ignore
import SurveyForms.Project.Outline

/-! The commands of a project. -/
namespace SurveyForms.Project

open Job

/-- Commands print without colours. -/
def terminal : Terminal := ⟨false⟩

/-- Says whether something was there before. -/
def existence (path : String) (existed : Bool) : String :=
  path ++ (if existed then " already exists\n" else " created\n")

/-- Adds the registry to the ignore file. -/
def ignoreRegistry (registry : String) : Job Unit := do
  let t ← files
  let old ← match t.readText Ignore.fileName with
    | .ok content => pure (some content)
    | .error cause => if cause.isMissing then pure none else throw (.ignore cause)
  let (new, lines) := Ignore.update registry old
  if let some content := new then
    setFiles (← check .ignore (t.writeFile Ignore.fileName (.text content)))
  print (String.join (lines.map (· ++ "\n")))

/-- Sets up a registry: its directory, itself and its line in the ignore file. -/
def init (registry : String) : Job Unit := do
  let dir := Path.directory registry
  if dir ≠ "." then
    let t ← files
    let existed := (t.stat dir).isOk
    let (made, failure) := t.makeDirectories dir
    setFiles made
    if let some cause := failure then throw (.makeDirectory dir cause)
    print (existence (dir ++ "/") existed)
  let existed := ((← files).stat registry).isOk
  let _ ← openRegistry registry
  print (existence registry existed)
  ignoreRegistry registry

def printFindings (findings : List Lint.Finding) : Job Unit := do
  let (errors, warnings) := Lint.counts findings
  print (String.join (findings.map fun f =>
    terminal.finding f.severity.text f.location f.message))
  print (terminal.summary errors warnings)

/-- Loads and checks a workbook, and prints what was found. -/
def examine (path : String) : Job (List Lint.Finding) := do
  let w ← check .load (Workbook.load (← files) path)
  let findings := Lint.check w
  printFindings findings
  return findings

def lint (path : String) : Job Unit := do
  if Lint.hasErrors (← examine path) then throw .lint

structure CompileOptions where
  source : String
  /-- The workbook to write; if empty, the source with the extension of workbooks. -/
  output : String
  /-- Builds are recorded only in a registry that exists. -/
  registry : String
  lint : Bool

def CompileOptions.target (o : CompileOptions) : String :=
  if o.output = "" then Path.withoutExtension o.source ++ ".xlsx" else o.output

def isAbsent (t : FileTree) (path : String) : Bool :=
  match t.stat path with
  | .error .noEntry => true
  | _ => false

def addBuild (registry : String) (build : Build) : Job Nat := do
  let r ← openRegistry registry
  let (r, id) ← check .insert (r.record build)
  setFiles (Registry.keep (← files) registry r)
  return id

def recordBuild (o : CompileOptions) (now : Moment) (settings : Row) (form : Form)
    (findings : List Lint.Finding) : Job Unit := do
  if isAbsent (← files) o.registry then
    log .debug "no registry, build not recorded" [("registry", o.registry)]
  else
    let (errors, warnings) := Lint.counts findings
    let id ← addBuild o.registry
      ⟨o.source, o.target, settings.text "form_id", settings.text "version", form.survey.length,
        form.choices.length, errors, warnings, now.unix⟩
    log .debug "recorded build" [("id", toString id), ("registry", o.registry)]

/-- Compiles a source into a workbook, checks it if asked to, and records the build. -/
def compile (o : CompileOptions) (now : Moment) : Job Unit := do
  let form ← Job.compile now o.source
  match form.settings with
  | none => throw (.noSettings o.source)
  | some settings =>
    let (t, error) := (Workbook.ofRows form.survey form.choices settings).save (← files) o.target
    setFiles t
    if let some cause := error then throw (.save cause)
    print (terminal.wrote o.target form.survey.length form.choices.length)
    log .info "compiled"
      [("source", o.source), ("form", settings.text "form_id"),
        ("version", settings.text "version")]
    let findings ← if o.lint then examine o.target else pure []
    recordBuild o now settings form findings
    if Lint.hasErrors findings then throw .lint

def outline (source : String) (now : Moment) : Job Unit := do
  let form ← Job.compile now source
  print (Outline.render terminal form)

/-- The recorded builds of a form, or of all, newest first. -/
def builds (registry form : String) : Job (List (Nat × Build)) := do
  let r ← openRegistry registry
  check .list (r.list form)

/-- The longest of some texts in bytes. -/
def widest (texts : List String) : Nat := (texts.map String.utf8ByteSize).foldl max 0

/-- Prints the recorded builds. Columns are as wide as their longest text in bytes. -/
def history (registry form : String) : Job Unit := do
  if isAbsent (← files) registry then throw (.noRegistry registry)
  let builds ← builds registry form
  let formWidth := widest (builds.map (·.2.form))
  let versionWidth := widest (builds.map (·.2.version))
  print <| String.join <| builds.map fun (_, b) =>
    terminal.history (CivilTime.ofUnix b.compiledAt).minuteText b.form b.version b.output
      b.surveyRows b.choiceRows formWidth versionWidth

end SurveyForms.Project
