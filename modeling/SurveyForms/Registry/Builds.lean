import SurveyForms.Registry.Migration
import SurveyForms.Registry.Stamp

/-! The build registry: one record for each compiled workbook. Its table grew over time, so an
older registry may lack columns or the table itself until it is migrated. -/
namespace SurveyForms

/-- A build. `compiledAt` is in seconds since the start of 1970. -/
structure Build where
  source : String
  output : String
  form : String
  version : String
  surveyRows : Int
  choiceRows : Int
  lintErrors : Int
  lintWarnings : Int
  compiledAt : Int
  deriving DecidableEq, Repr

/-- A build as it is kept: with its number, and with its time as a stamp. -/
structure BuildRecord where
  id : Nat
  build : Build
  stamp : String
  deriving DecidableEq, Repr

/-- The table of builds. The two lint columns came later than the table. -/
structure BuildTable where
  hasErrors : Bool
  hasWarnings : Bool
  records : List BuildRecord
  deriving DecidableEq, Repr

inductive Migration where
  | createTable
  | createIndex
  | addErrors
  | addWarnings
  /-- A statement that cannot be read. -/
  | invalid
  deriving DecidableEq, Repr

inductive RegistryFault where
  | unreadable
  | tableExists
  | noTable
  | noIndexTable
  | duplicateColumn (name : String)
  | unknownColumn (name : String)
  | missingColumn (name : String)
  deriving DecidableEq, Repr

namespace RegistryFault

def message (f : RegistryFault) : String :=
  "SQL logic error: " ++ (match f with
    | .unreadable => "near \"INVALID\": syntax error"
    | .tableExists => "table builds already exists"
    | .noTable => "no such table: builds"
    | .noIndexTable => "no such table: main.builds"
    | .duplicateColumn name => "duplicate column name: " ++ name
    | .unknownColumn name => "no such column: " ++ name
    | .missingColumn name => "table builds has no column named " ++ name) ++ " (1)"

end RegistryFault

/-- A registry: its table, if it has one yet, and how far it is migrated. -/
abbrev Registry := Versioned (Option BuildTable)

namespace Registry

def empty : Registry := ⟨.missing, none⟩

def migrations : List Migration := [.createTable, .createIndex, .addErrors, .addWarnings]

def execute (m : Migration) (table : Option BuildTable) :
    Except RegistryFault (Option BuildTable) :=
  match m, table with
  | .createTable, none => .ok (some ⟨false, false, []⟩)
  | .createTable, some _ => .error .tableExists
  | .createIndex, none => .error .noIndexTable
  | .createIndex, some t => .ok (some t)
  | .addErrors, none | .addWarnings, none => .error .noTable
  | .addErrors, some t =>
    if t.hasErrors then .error (.duplicateColumn "lint_errors")
    else .ok (some { t with hasErrors := true })
  | .addWarnings, some t =>
    if t.hasWarnings then .error (.duplicateColumn "lint_warnings")
    else .ok (some { t with hasWarnings := true })
  | .invalid, _ => .error .unreadable

def engine : Engine Migration (Option BuildTable) RegistryFault := .onData execute

def migrate (ms : List Migration) (r : Registry) : Registry × Option (UpgradeError RegistryFault) :=
  Versioned.migrate engine ms r

/-- The table, if it has all columns; `absent` says what a missing column means. -/
def table (absent : String → RegistryFault) (r : Registry) : Except RegistryFault BuildTable :=
  match r.data with
  | none => .error .noTable
  | some t =>
    if !t.hasErrors then .error (absent "lint_errors")
    else if !t.hasWarnings then .error (absent "lint_warnings")
    else .ok t

def record (r : Registry) (b : Build) : Except RegistryFault (Registry × Nat) := do
  let t ← r.table .missingColumn
  let id := t.records.length + 1
  let kept : BuildRecord := ⟨id, b, (CivilTime.ofUnix b.compiledAt).stamp⟩
  return ({ r with data := some { t with records := t.records ++ [kept] } }, id)

/-- Whether a record comes in front of another: later stamps first, by their text, and of equal
stamps the higher number. -/
def newer (a b : BuildRecord) : Bool := b.stamp < a.stamp || (a.stamp == b.stamp && b.id ≤ a.id)

inductive ListError where
  | query (fault : RegistryFault)
  | stamp (id : Nat) (fault : StampFault)
  deriving DecidableEq, Repr

def ListError.message : ListError → String
  | .query fault => "querying builds: " ++ fault.message
  | .stamp id fault => s!"build {id}: " ++ fault.message

/-- A listed build: its time is read back from its stamp. -/
def reread (r : BuildRecord) : Except ListError (Nat × Build) :=
  match Stamp.parse r.stamp with
  | .ok unix => .ok (r.id, { r.build with compiledAt := unix })
  | .error fault => .error (.stamp r.id fault)

/-- The builds of a form, or of all forms if the name is empty, newest first. -/
def list (r : Registry) (form : String) : Except ListError (List (Nat × Build)) := do
  let t ← (r.table .unknownColumn).mapError .query
  let wanted := t.records.filter fun r => form = "" ∨ r.build.form = form
  (wanted.mergeSort newer).mapM reread

end Registry
end SurveyForms
