import SurveyForms.Text.Blank

/-! Lexemes of a statement line. They tile the line from its start; blanks and comments are
lexemes too and are left out only when the grammar is asked. Letters and digits are those of the
basic range. -/
namespace SurveyForms.Source

inductive TokenClass where
  | comment
  | varRef
  | text
  | number
  | ident
  | operator
  | punct
  | blank
  deriving DecidableEq, Repr

structure Lexeme where
  cls : TokenClass
  raw : List Char
  deriving DecidableEq, Repr

def isIdentStart (c : Char) : Bool := c.isAlpha

def isIdentRest (c : Char) : Bool := c.isAlphanum || c == '_'

def isGap (c : Char) : Bool := c == ' ' || c == '\t' || c == '\r'

/-- Splits off everything up to the closing quote, which is left out, and what follows it. A
backslash takes the next character with it. -/
def closeQuote? (quote : Char) : List Char → Option (List Char × List Char)
  | [] => none
  | c :: cs =>
    if c = quote then some ([], cs)
    else if c = '\\' then
      match cs with
      | [] => none
      | d :: rest =>
        if d = '\n' then none
        else (closeQuote? quote rest).map fun (body, rest) => (c :: d :: body, rest)
    else (closeQuote? quote cs).map fun (body, rest) => (c :: body, rest)

/-- A name in braces, with blanks allowed on both sides of it, behind a dollar sign. -/
def braced? (cs : List Char) : Option (List Char) :=
  match cs with
  | '\x7b' :: rest =>
    let before := rest.takeWhile Text.isPlainBlank
    match rest.dropWhile Text.isPlainBlank with
    | c :: more =>
      if isIdentStart c then
        let name := c :: more.takeWhile isIdentRest
        let behind := more.dropWhile isIdentRest
        let after := behind.takeWhile Text.isPlainBlank
        if (behind.dropWhile Text.isPlainBlank).head? = some '\x7d' then
          some ('\x7b' :: before ++ name ++ after ++ ['\x7d'])
        else none
      else none
    | [] => none
  | _ => none

/-- A comparison sign, the longest one that fits. -/
def operator? : List Char → Option (List Char)
  | '!' :: '=' :: _ => some ['!', '=']
  | '>' :: '=' :: _ => some ['>', '=']
  | '<' :: '=' :: _ => some ['<', '=']
  | '=' :: _ => some ['=']
  | '>' :: _ => some ['>']
  | '<' :: _ => some ['<']
  | _ => none

/-- The lexeme at the start of a text. Each class has its own first characters, so at most one
fits. -/
def lexeme? (cs : List Char) : Option Lexeme :=
  match cs with
  | [] => none
  | c :: rest =>
    if c = '#' then some ⟨.comment, c :: rest.takeWhile (· ≠ '\n')⟩
    else if c = '$' then (braced? rest).map fun body => ⟨.varRef, c :: body⟩
    else if c = '"' ∨ c = '\'' then
      (closeQuote? c rest).map fun (body, _) => ⟨.text, c :: body ++ [c]⟩
    else if c.isDigit then some ⟨.number, c :: rest.takeWhile Char.isDigit⟩
    else if isIdentStart c then some ⟨.ident, c :: rest.takeWhile isIdentRest⟩
    else if c = '@' ∨ c = ':' ∨ c = '.' then some ⟨.punct, [c]⟩
    else if isGap c then some ⟨.blank, c :: rest.takeWhile isGap⟩
    else (operator? cs).map fun raw => ⟨.operator, raw⟩

private theorem operator?_ne_nil {cs raw : List Char} (h : operator? cs = some raw) : raw ≠ [] := by
  unfold operator? at h
  split at h <;> simp only [Option.some.injEq, reduceCtorEq] at h <;> simp [← h]

/-- A lexeme is never empty. -/
theorem raw_ne_nil_of_lexeme? {cs : List Char} {l : Lexeme} (h : lexeme? cs = some l) :
    l.raw ≠ [] := by
  cases cs with
  | nil => simp [lexeme?] at h
  | cons c rest =>
    simp only [lexeme?] at h
    split at h
    · cases h; simp
    split at h
    · obtain ⟨body, _, rfl⟩ := Option.map_eq_some_iff.1 h; simp
    split at h
    · obtain ⟨body, _, rfl⟩ := Option.map_eq_some_iff.1 h; simp
    split at h
    · cases h; simp
    split at h
    · cases h; simp
    split at h
    · cases h; simp
    split at h
    · cases h; simp
    obtain ⟨raw, hraw, rfl⟩ := Option.map_eq_some_iff.1 h
    exact operator?_ne_nil hraw

/-- Cuts a text into lexemes as far as they go. The second part is what no lexeme starts. -/
def scan (cs : List Char) : List Lexeme × List Char :=
  match _h : lexeme? cs with
  | none => ([], cs)
  | some l =>
    let tail := scan (cs.drop l.raw.length)
    (l :: tail.1, tail.2)
termination_by cs.length
decreasing_by
  have hl : 0 < l.raw.length := List.length_pos_iff.2 (raw_ne_nil_of_lexeme? _h)
  have hc : cs ≠ [] := by rintro rfl; simp [lexeme?] at _h
  have := List.length_pos_iff.2 hc
  simp only [List.length_drop]
  omega

/-- The text of a quoted literal. A backslash gives the next character, or the control character
that it names. -/
def unescape : List Char → List Char
  | '\\' :: c :: cs =>
    (match c with
      | 'n' => '\n'
      | 't' => '\t'
      | 'r' => '\r'
      | 'f' => '\x0c'
      | c => c) :: unescape cs
  | c :: cs => c :: unescape cs
  | [] => []

/-- What a lexeme stands for: a literal without its quotes, a reference without its blanks, any
other as it is written. -/
def Lexeme.value (l : Lexeme) : String :=
  String.ofList <| match l.cls with
    | .text => unescape (l.raw.drop 1).dropLast
    | .varRef => l.raw.filter (!Text.isBlank ·)
    | _ => l.raw

/-- A lexeme as the grammar sees it, with the column of its first character; a tab is one
column here. -/
structure Token where
  cls : TokenClass
  value : String
  col : Nat
  deriving DecidableEq, Repr

/-- The tokens of consecutive lexemes from column `col` on, without blanks and comments. -/
def tokensFrom (col : Nat) : List Lexeme → List Token
  | [] => []
  | l :: ls =>
    let rest := tokensFrom (col + l.raw.length) ls
    if l.cls = .blank ∨ l.cls = .comment then rest else ⟨l.cls, l.value, col⟩ :: rest

end SurveyForms.Source
