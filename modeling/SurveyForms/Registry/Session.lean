import SurveyForms.Registry.Builds

/-! One registry in use. It is open from an opening that succeeds to one that fails; what was
migrated before a failure stays. -/
namespace SurveyForms.Registry

structure Session where
  registry : Registry
  isOpen : Bool

inductive SessionError where
  /-- The registry is closed; the action says what was wanted. -/
  | closed (action : String)
  | upgrade (cause : UpgradeError RegistryFault)
  | insert (fault : RegistryFault)
  | list (cause : ListError)
  deriving DecidableEq, Repr

namespace SessionError

def message : SessionError → String
  | .closed action => action ++ ": sql: database is closed"
  | .upgrade cause => cause.message RegistryFault.message
  | .insert fault => "inserting build: " ++ fault.message
  | .list cause => cause.message

end SessionError

namespace Session

def start : Session := ⟨.empty, false⟩

/-- Migrates, whether open or not. The session is open afterwards if `stays` or on success. -/
def upgrade (stays : Bool) (ms : List Migration) (s : Session) :
    Session × Except SessionError Nat :=
  match migrate ms s.registry with
  | (r, none) => (⟨r, true⟩, .ok r.version)
  | (r, some cause) => (⟨r, stays⟩, .error (.upgrade cause))

/-- Opens a session with the migrations given, and gives the version reached. -/
def openWith : List Migration → Session → Session × Except SessionError Nat := upgrade false

def migrateWith (ms : List Migration) (s : Session) : Session × Except SessionError Nat :=
  if s.isOpen then s.upgrade true ms else (s, .error (.closed VersionStep.create.text))

def record (b : Build) (s : Session) : Session × Except SessionError Nat :=
  if s.isOpen then
    match s.registry.record b with
    | .ok (r, id) => (⟨r, true⟩, .ok id)
    | .error fault => (s, .error (.insert fault))
  else (s, .error (.closed "inserting build"))

def list (form : String) (s : Session) : Except SessionError (List (Nat × Build)) :=
  if s.isOpen then (s.registry.list form).mapError .list
  else .error (.closed "querying builds")

end Session
end SurveyForms.Registry
