import SurveyForms.Text.Bytes
import SurveyForms.Text.Hex

/-! The texts of cells as a workbook file keeps them. A file has no room for most control
characters, it cuts long texts, and it reads an escape such as `_x0041_` as a character, also
where the text was never escaped. -/
namespace SurveyForms.Cell

/-- The number of an escape from the character behind its first underscore on. -/
def escapeCode? : List Char → Option Nat
  | 'x' :: a :: b :: c :: d :: '_' :: _ => Text.hexValue? [a, b, c, d]
  | _ => none

def escapeLength : Nat := 6

/-- Replaces every escape by its character. Half of a surrogate pair is no character and leaves
nothing behind. -/
def unescape : List Char → List Char
  | [] => []
  | c :: cs =>
    if c = '_' then
      match escapeCode? cs with
      | some code => (Text.charOf? code).toList ++ unescape (cs.drop escapeLength)
      | none => c :: unescape cs
    else c :: unescape cs
termination_by cs => cs.length
decreasing_by all_goals (simp only [List.length_cons, List.length_drop]; omega)

def escapedUnderscore : List Char := "x005F_".toList

/-- Whether an escape without its first underscore stands for a character. -/
def isEscape (cs : List Char) : Bool := ((escapeCode? cs).bind Text.charOf?).isSome

/-- Escapes the underscores that an escape begins with. The escape of an underscore is doubled,
and once more in front of what would be an escape with its last underscore. -/
def escape : List Char → List Char
  | [] => []
  | c :: cs =>
    if c = '_' ∧ (escapeCode? cs).isSome then
      let code := cs.take escapeLength
      let rest := cs.drop escapeLength
      if code = escapedUnderscore then
        '_' :: escapedUnderscore ++ escapedUnderscore ++
          (if isEscape rest then escapedUnderscore else []) ++ escape rest
      else (if isEscape cs then '_' :: escapedUnderscore else ['_']) ++ code ++ escape rest
    else c :: escape cs
termination_by cs => cs.length
decreasing_by all_goals (simp only [List.length_cons, List.length_drop]; omega)

def isKept (c : Char) : Bool :=
  if c.toNat < 0x20 then c = '\t' || c = '\n' || c = '\r' else c ≠ '\ufffe' && c ≠ '\uffff'

/-- What a file keeps of a text: other characters are replaced. -/
def kept (cs : List Char) : List Char := cs.map fun c => if isKept c then c else Text.replacement

def shown (s : String) : String := String.ofList (unescape (kept s.toList))

def maxLength : Nat := 32767

/-- A text cut to what a cell has room for. -/
def limited (s : String) : String :=
  if s.length ≤ maxLength then s else String.ofList (s.toList.take maxLength)

/-- Whether a text comes back from a file as it was written: its characters are kept, it is not
too long, and it has no escapes. -/
def isPlain (s : String) : Bool :=
  s.toList.all isKept && s.length ≤ maxLength && unescape s.toList == s.toList

theorem kept_of_all {cs : List Char} (h : cs.all isKept = true) : kept cs = cs := by
  induction cs with
  | nil => rfl
  | cons c cs ih =>
    simp only [List.all_cons, Bool.and_eq_true] at h
    have := ih h.2
    simp_all [kept]

theorem shown_of_isPlain {s : String} (h : isPlain s = true) : shown s = s := by
  simp only [isPlain, Bool.and_eq_true, beq_iff_eq] at h
  rw [shown, kept_of_all h.1.1, h.2, String.ofList_toList]

theorem limited_of_isPlain {s : String} (h : isPlain s = true) : limited s = s := by
  simp only [isPlain, Bool.and_eq_true, decide_eq_true_eq] at h
  simp [limited, h.1.2]

end SurveyForms.Cell
