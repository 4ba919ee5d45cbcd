import SurveyForms.Text.Cluster

/-! The room that a line takes in a terminal. Control sequences in it take none, also those that
are not finished. -/
namespace SurveyForms.Text

/-- Where in a control sequence a terminal is. -/
inductive SequenceState where
  /-- In no sequence: characters are shown. -/
  | ground
  | escape
  | escapeMiddle
  /-- Sequences with parameters: before, in and behind these. -/
  | control
  | controlParameters
  | controlMiddle
  /-- Device control: before, in and behind the parameters, then its text. -/
  | device
  | deviceParameters
  | deviceMiddle
  | deviceText
  /-- The text of a command to the system. -/
  | command
  /-- Text that is not shown. -/
  | hidden
  deriving DecidableEq, Repr

namespace SequenceState

/-- Whether bytes beyond the basic range are read one by one, as part of the sequence's text. -/
def takesBytes : SequenceState → Bool
  | .deviceText | .command => true
  | _ => false

def ofHighByte (byte : Nat) : SequenceState :=
  if byte = 0x90 then .device
  else if byte = 0x98 || byte = 0x9e || byte = 0x9f then .hidden
  else if byte = 0x9b then .control
  else if byte = 0x9d then .command
  else .ground

def ofEscaped (byte : Nat) : SequenceState :=
  if byte = 'P'.toNat then .device
  else if byte = 'X'.toNat || byte = '^'.toNat || byte = '_'.toNat then .hidden
  else if byte = '['.toNat then .control
  else if byte = ']'.toNat then .command
  else .ground

/-- A step by a byte that is neither an escape nor one of the two bytes that cancel a sequence,
and lies in the basic range. Controls leave most states as they are. -/
def stepBasic (s : SequenceState) (byte : Nat) : SequenceState :=
  let isControl := byte < 0x20 || byte = 0x7f
  let isMiddle := 0x20 ≤ byte && byte < 0x30
  let isParameter := 0x30 ≤ byte && byte < 0x40
  match s with
  | .ground => .ground
  | .escape => if isControl then s else if isMiddle then .escapeMiddle else ofEscaped byte
  | .escapeMiddle => if isControl || isMiddle then s else .ground
  | .control | .controlParameters =>
    if isControl then s
    else if isMiddle then .controlMiddle
    else if isParameter then .controlParameters
    else .ground
  | .controlMiddle => if isControl || isMiddle then s else .ground
  | .device =>
    if 0x08 ≤ byte && byte ≤ 0x0d then .deviceText
    else if isControl then s
    else if isMiddle then .deviceMiddle
    else if isParameter then .deviceParameters
    else .deviceText
  | .deviceParameters =>
    if isControl || isParameter then s else if isMiddle then .deviceMiddle else .deviceText
  | .deviceMiddle => if isControl || isMiddle then s else .deviceText
  | .command => if byte = 0x07 then .ground else s
  | .deviceText | .hidden => s

def step (s : SequenceState) (byte : Nat) : SequenceState :=
  if byte = 0x18 || byte = 0x1a then .ground
  else if byte = 0x1b then if s = .device then .deviceText else .escape
  else if byte < 0x80 then s.stepBasic byte
  else if s.takesBytes then if byte = 0x9c then .ground else s
  else ofHighByte byte

end SequenceState

/-- The cells of the rest of a line. Basic characters are shown one by one; at any other one a
whole sign is taken, also out of a sequence that is not finished. -/
def cellsFrom (s : SequenceState) : List Char → Nat
  | [] => 0
  | c :: cs =>
    if c.toNat < 0x80 then
      (if s = .ground ∧ 0x20 ≤ c.toNat ∧ c.toNat < 0x7f then 1 else 0) +
        cellsFrom (s.step c.toNat) cs
    else if s.takesBytes then
      cellsFrom ((String.utf8EncodeChar c).foldl (fun s byte => s.step byte.toNat) s) cs
    else
      clusterWidth c (splitCluster c cs).1 + cellsFrom .ground (splitCluster c cs).2
termination_by cs => cs.length
decreasing_by
  all_goals simp_wf
  all_goals have := ClusterState.length_split_le (.first (.ofChar c)) cs
  all_goals simp only [splitCluster] at *
  all_goals omega

def cells (line : List Char) : Nat := cellsFrom .ground line

end SurveyForms.Text
