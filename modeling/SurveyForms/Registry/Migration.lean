/-! Numbered migrations: a store keeps in a table of its own how many of a list of statements it has
run. An upgrade runs the others in order, each together with its number or not at all. -/
namespace SurveyForms

/-- The table of the number. Nothing gives it a second row. -/
inductive VersionTable where
  | missing
  | empty
  | row (version : Nat)
  deriving DecidableEq, Repr

inductive VersionFault where
  | noTable
  | noRow
  deriving DecidableEq, Repr

def VersionFault.message : VersionFault → String
  | .noTable => "SQL logic error: no such table: schema_version (1)"
  | .noRow => "sql: no rows in result set"

namespace VersionTable

def create : VersionTable → VersionTable
  | .missing => .empty
  | table => table

/-- Puts a 0 into a table without a row. -/
def fill : VersionTable → Except VersionFault VersionTable
  | .missing => .error .noTable
  | .empty => .ok (.row 0)
  | .row n => .ok (.row n)

def read : VersionTable → Except VersionFault Nat
  | .missing => .error .noTable
  | .empty => .error .noRow
  | .row n => .ok n

/-- Sets the number in the rows there are, which may be none. -/
def write (number : Nat) : VersionTable → Except VersionFault VersionTable
  | .missing => .error .noTable
  | .empty => .ok .empty
  | .row _ => .ok (.row number)

end VersionTable

inductive VersionStep where
  | create
  | fill
  | read
  | write (number : Nat)
  deriving DecidableEq, Repr

def VersionStep.text : VersionStep → String
  | .create => "creating schema_version table"
  | .fill => "initializing schema version"
  | .read => "reading schema version"
  | .write number => s!"updating schema version to {number}"

/-- The migration that failed, counted from 1, and why. -/
structure MigrationFailure (ε : Type) where
  number : Nat
  cause : ε
  deriving DecidableEq, Repr

inductive UpgradeError (ε : Type) where
  | table (step : VersionStep) (fault : VersionFault)
  | migration (failure : MigrationFailure ε)
  deriving DecidableEq, Repr

def UpgradeError.message (text : ε → String) : UpgradeError ε → String
  | .table step fault => step.text ++ ": " ++ fault.message
  | .migration failure => s!"migration {failure.number} failed: " ++ text failure.cause

structure Versioned (δ : Type) where
  versions : VersionTable
  data : δ
  deriving DecidableEq, Repr

/-- The number of migrations a store has been through; one without a number counts as new. -/
def Versioned.version (db : Versioned δ) : Nat :=
  match db.versions with
  | .row n => n
  | .missing | .empty => 0

/-- What carries out statements. A statement may read and change a whole store, the table of the
number too, but leaves this table its row. -/
structure Engine (μ δ ε : Type) where
  exec : μ → Versioned δ → Except ε (Versioned δ)
  keepsRow : ∀ {m db next}, exec m db = .ok next → (∃ n, db.versions = .row n) →
    ∃ n, next.versions = .row n

/-- Statements that leave the table of the number alone. -/
def Engine.onData (step : μ → δ → Except ε δ) : Engine μ δ ε where
  exec m db := (step m db.data).map ({ db with data := · })
  keepsRow {m db next} h hrow := by
    cases hstep : step m db.data with
    | error cause => rw [hstep] at h; cases h
    | ok data => rw [hstep] at h; cases h; exact hrow

namespace Versioned

/-- Works on a copy of a store. The copy takes the place of the store, or the store stays. -/
def transact (work : Versioned δ → Except ε (Versioned δ)) (db : Versioned δ) :
    Versioned δ × Option ε :=
  match work db with
  | .ok copy => (copy, none)
  | .error cause => (db, some cause)

/-- Runs a statement and sets its number in one transaction. -/
def apply (engine : Engine μ δ ε) (m : μ) (number : Nat) :
    Versioned δ → Versioned δ × Option (UpgradeError ε) :=
  transact fun copy => do
    let copy ← (engine.exec m copy).mapError (.migration ⟨number, ·⟩)
    let versions ← (copy.versions.write number).mapError (.table (.write number))
    return { copy with versions }

/-- Runs numbered statements one after the other up to the first that fails. -/
def run (engine : Engine μ δ ε) :
    List (μ × Nat) → Versioned δ → Versioned δ × Option (UpgradeError ε)
  | [], db => (db, none)
  | (m, number) :: rest, db =>
    match db.apply engine m number with
    | (db, none) => run engine rest db
    | (db, some e) => (db, some e)

/-- Sees to it that a store has its number, and then runs the migrations that it has not been
through, each under its place in the list. A store that has been through more than are listed stays
as it is. -/
def migrate (engine : Engine μ δ ε) (ms : List μ) (db : Versioned δ) :
    Versioned δ × Option (UpgradeError ε) :=
  let db := { db with versions := db.versions.create }
  match db.versions.fill with
  | .error fault => (db, some (.table .fill fault))
  | .ok versions =>
    let db := { db with versions }
    match db.versions.read with
    | .error fault => (db, some (.table .read fault))
    | .ok current => run engine ((ms.zipIdx 1).drop current) db

end Versioned
end SurveyForms
