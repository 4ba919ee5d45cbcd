import SurveyForms.Diagnostic
import SurveyForms.Source.Token

/-! Rules over the tokens of one line: ordered choice that tries every alternative, repetition
that never gives a match back, and a record of the deepest fault met on the way, which is what a
failed line reports. -/
namespace SurveyForms.Grammar

open Source (Token TokenClass)

/-- What stopped a rule: the token in its way, or none for the end of the line, and what was
wanted there. -/
structure Obstacle where
  found : Option Token
  wanted : Option String
  deriving DecidableEq, Repr

/-- A place in the line and the deepest obstacle so far. `depth` counts tokens passed. -/
structure State where
  rest : List Token
  passed : Nat
  depth : Nat
  deepest : Option Obstacle
  deriving Repr

namespace State

def start (tokens : List Token) : State := ⟨tokens, 0, 0, none⟩

def obstacle (s : State) (wanted : Option String) : Obstacle := ⟨s.rest.head?, wanted⟩

def accept (s trial : State) : State :=
  if s.depth ≤ trial.depth then trial
  else { trial with depth := s.depth, deepest := s.deepest }

/-- Notes an obstacle, unless a deeper one is known. -/
def note (s : State) (o : Obstacle) : State :=
  if s.depth ≤ s.passed then { s with depth := s.passed, deepest := some o } else s

/-- Notes the obstacle of a trial that failed, at the depth the trial came to. -/
def abandon (s trial : State) (o : Obstacle) : State :=
  if s.depth < trial.depth then { s with depth := trial.depth, deepest := trial.deepest }
  else if s.depth ≤ trial.passed then
    { s with depth := max trial.passed trial.depth, deepest := some o }
  else s

end State

/-- How a rule ends: with a value, without having begun, or stopped after it had begun. -/
inductive Outcome (α : Type) where
  | matched (value : α)
  | absent
  | stopped (obstacle : Obstacle)
  deriving Repr

def Outcome.map (f : α → β) : Outcome α → Outcome β
  | .matched a => .matched (f a)
  | .absent => .absent
  | .stopped o => .stopped o

structure Rule (α : Type) where
  shown : String
  run : State → Outcome α × State

/-- What has to follow once a sequence has begun. -/
structure Tail (α : Type) where
  shown : String
  run : State → Outcome α × State

namespace Rule

def map (f : α → β) (r : Rule α) : Rule β :=
  ⟨r.shown, fun s => let (o, s) := r.run s; (o.map f, s)⟩

def accepting (test : Token → Bool) (s : State) : Outcome String × State :=
  match s.rest with
  | t :: rest =>
    if test t then (.matched t.value, { s with rest, passed := s.passed + 1 }) else (.absent, s)
  | [] => (.absent, s)

def token (cls : TokenClass) (shown : String) : Rule String :=
  ⟨shown, accepting (·.cls = cls)⟩

/-- One token by its value, whatever its class: a quoted literal matches as well. -/
def literal (value : String) : Rule String :=
  ⟨"\"" ++ value ++ "\"", accepting (·.value = value)⟩

/-- Tries the alternatives from a place. `failed` is the deepest obstacle of those before, with
the number of tokens passed there; among equals the later one counts. -/
def tryAll (s : State) (failed : Option (Nat × Obstacle)) :
    List (Rule α) → Outcome α × State
  | [] =>
    match failed with
    | some (_, o) => (.stopped o, s.note o)
    | none => (.absent, s)
  | r :: rs =>
    let (outcome, trial) := r.run s
    match outcome with
    | .matched a => (.matched a, s.accept trial)
    | .absent => tryAll s failed rs
    | .stopped o =>
      let deeper : Bool := match failed with
        | some (depth, _) => decide (depth ≤ trial.passed)
        | none => true
      tryAll (s.abandon trial o) (if deeper then some (trial.passed, o) else failed) rs

def choice (rs : List (Rule α)) : Rule α :=
  ⟨"(" ++ String.intercalate " | " (rs.map (·.shown)) ++ ")", fun s => tryAll s none rs⟩

/-- Matches as often as possible. A trial that stops half-way ends the repetition in front of
it. -/
def repeated (r : Rule α) (s : State) : List α × State :=
  match r.run s with
  | (.stopped o, trial) => ([], (s.note o).abandon trial o)
  | (.absent, trial) => ([], s.accept trial)
  | (.matched a, trial) =>
    let next := s.accept trial
    if next.rest.length < s.rest.length then
      let (as, last) := repeated r next
      (a :: as, last)
    else ([a], next)
termination_by s.rest.length

def many (r : Rule α) : Rule (List α) :=
  ⟨r.shown ++ "*", fun s => let (as, s) := repeated r s; (.matched as, s)⟩

def atLeastOnce (r : Rule α) : Rule (List α) :=
  ⟨r.shown ++ "+", fun s =>
    let (as, s) := repeated r s
    (if as.isEmpty then .absent else .matched as, s)⟩

def optional (r : Rule α) : Rule (Option α) :=
  ⟨r.shown ++ "?", fun s =>
    match r.run s with
    | (.stopped o, trial) => (.matched none, (s.note o).abandon trial o)
    | (.absent, trial) => (.matched none, s.accept trial)
    | (.matched a, trial) => (.matched (some a), s.accept trial)⟩

def named (name : String) (r : Rule α) : Rule α :=
  ⟨name, fun s =>
    match r.run s with
    | (.stopped o, s) => (.stopped o, s.note o)
    | result => result⟩

end Rule

namespace Tail

def map (f : α → β) (t : Tail α) : Tail β :=
  ⟨t.shown, fun s => let (o, s) := t.run s; (o.map f, s)⟩

/-- A rule that must match here; `shown` is what is wanted otherwise. -/
def demand (shown : String) (r : Rule α) (s : State) : Outcome α × State :=
  match r.run s with
  | (.absent, s) => (.stopped (s.obstacle (some shown)), s)
  | result => result

def last (r : Rule α) : Tail α := ⟨r.shown, demand r.shown r⟩

def next (r : Rule α) (t : Tail β) : Tail (α × β) :=
  let shown := r.shown ++ " " ++ t.shown
  ⟨shown, fun s =>
    match demand shown r s with
    | (.matched a, s) => let (o, s) := t.run s; (o.map (a, ·), s)
    | (.absent, s) => (.absent, s)
    | (.stopped o, s) => (.stopped o, s)⟩

end Tail

/-- A sequence. It has begun once its first rule has matched; from then on a missing part is an
obstacle, reported with all parts still wanted. -/
def Rule.seq (r : Rule α) (t : Tail β) : Rule (α × β) :=
  ⟨"(" ++ r.shown ++ " " ++ t.shown ++ ")", fun s =>
    match r.run s with
    | (.matched a, s) => let (o, s) := t.run s; (o.map (a, ·), s)
    | (.absent, s) => (.absent, s)
    | (.stopped o, s) => (.stopped o, s)⟩

/-- Matches a rule against all tokens of a line. Of the obstacles the deepest is reported. -/
def Rule.parse (r : Rule α) (tokens : List Token) : Except Obstacle α :=
  match r.run (State.start tokens) with
  | (.stopped o, _) => .error o
  | (.matched a, s) => if s.rest.isEmpty then .ok a else .error (reported s)
  | (.absent, s) => .error (reported s)
where
  reported (s : State) : Obstacle :=
    let plain := s.obstacle none
    if s.depth ≤ s.passed then plain else s.deepest.getD plain

end SurveyForms.Grammar
