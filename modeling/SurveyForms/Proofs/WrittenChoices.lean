import SurveyForms.Proofs.Layout

/-! Choices written as text. A choice may begin with a text that looks like the mark of a command
or the word of a list; a text follows it there, where commands and lists have a name. Main
statement: every choices forest that can be written is read back from its text. -/
namespace SurveyForms

open Source

namespace Grammar

open Rule Tail

def ChoicesLine.lexemes : ChoicesLine → List Lexeme
  | .command name first others => (SurveyLine.command name first others).lexemes
  | .list name params => .word "list" :: .word name :: (params.flatMap (·.lexemes) ++ [.mark ':'])
  | .choice value label params => .quoted value :: .quoted label :: params.flatMap (·.lexemes)

/-- A line that can be written: its names are identifiers. -/
def ChoicesLine.Expressible : ChoicesLine → Prop
  | .command name _ _ => isIdentifier name
  | .list name params => isIdentifier name ∧ ∀ p ∈ params, isIdentifier p.key
  | .choice _ _ params => ∀ p ∈ params, isIdentifier p.key

instance : DecidablePred ChoicesLine.Expressible
  | .command name _ _ => inferInstanceAs (Decidable (isIdentifier name))
  | .list name params =>
    inferInstanceAs (Decidable (isIdentifier name ∧ ∀ p ∈ params, isIdentifier p.key))
  | .choice _ _ params => inferInstanceAs (Decidable (∀ p ∈ params, isIdentifier p.key))

theorem ChoicesLine.plain_lexemes {line : ChoicesLine} (h : line.Expressible) :
    ∀ l ∈ line.lexemes, l.Plain := by
  cases line with
  | command name first others =>
    have hline : (SurveyLine.command name first others).Expressible := h
    exact SurveyLine.plain_lexemes hline
  | list name params =>
    obtain ⟨hname, hparams⟩ := h
    have hcolon : (Lexeme.mark ':').Plain := Lexeme.plain_mark (.inr (.inl rfl))
    simp only [lexemes, List.forall_mem_cons, List.forall_mem_append]
    exact ⟨Lexeme.plain_word (by decide), Lexeme.plain_word hname, plain_params hparams, hcolon,
      by simp⟩
  | choice value label params =>
    simp only [lexemes, List.forall_mem_cons]
    exact ⟨Lexeme.plain_quoted _, Lexeme.plain_quoted _, plain_params h⟩

private theorem reads_listLine (name : String) (params : List Param) :
    listLine.Reads ((.ident, name) :: (params.flatMap paramSigns ++ [(.punct, ":")]))
      (.list name params) [] :=
  ((reads_seq_end (reads_token .ident "<ident>" name _) (reads_next_end
    (reads_params params (refuses_param (by simp)))
    (reads_last (reads_literal .punct ":" [])))).map _).named "ListLine"

private theorem reads_choiceLine (value label : String) (params : List Param) :
    choiceLine.Reads ((.text, value) :: (.text, label) :: params.flatMap paramSigns)
      (.choice value label params) [] :=
  ((reads_seq_end (reads_numberOrText value _) (reads_next_end (reads_numberOrText label _)
    (reads_last (reads_params params (refuses_param (by simp)))))).map _).named "ChoiceLine"

/-- A mark or a word in quotes opens no line of another kind: names are not quoted. -/
private theorem refuses_quoted {mark value label : String} {rule : Rule α} {more : List Sign}
    (h : ∀ more, rule.Refuses ((.text, label) :: more)) :
    (Rule.seq (literal mark) (last rule)).Refuses ((.text, value) :: (.text, label) :: more) := by
  by_cases hmark : value = mark
  · subst hmark
    exact refuses_seq_of_stops (reads_literal .text value _) (stops_last (h more))
  · exact refuses_seq (refuses_literal (by simpa using hmark)) _

/-- A line that can be written is read back from its tokens. -/
theorem ChoicesLine.reads {line : ChoicesLine} (h : line.Expressible) :
    choicesLine.Reads (line.lexemes.map Lexeme.sign) line [] := by
  refine Reads.named ?_ "ChoicesLine"
  cases line with
  | command name first others =>
    exact reads_choice [] [_, _] (by simp) ((reads_command name first others).map _)
  | list name params =>
    have hsigns : (ChoicesLine.list name params).lexemes.map Lexeme.sign =
        (.ident, "list") :: (.ident, name) :: (params.flatMap paramSigns ++ [(.punct, ":")]) := by
      simp [lexemes, sign_word, sign_mark, signs_params]
    rw [hsigns]
    refine reads_choice [_] [_] (fun r hr => ?_) ((reads_seq_end (reads_literal .ident "list" _)
      (reads_last (reads_listLine name params))).map _)
    obtain rfl := List.mem_singleton.mp hr
    exact (refuses_seq (refuses_literal (by simp)) _).map _
  | choice value label params =>
    have hsigns : (ChoicesLine.choice value label params).lexemes.map Lexeme.sign =
        (.text, value) :: (.text, label) :: params.flatMap paramSigns := by
      simp [lexemes, sign_quoted, signs_params]
    rw [hsigns]
    refine reads_choice [_, _] [] (fun r hr => ?_) (reads_choiceLine value label params)
    simp only [List.mem_cons, List.not_mem_nil, or_false] at hr
    rcases hr with rfl | rfl
    · exact (refuses_quoted fun _ => (refuses_seq (refuses_token _ (by simp)) _).named _).map _
    · exact (refuses_quoted fun _ =>
        ((refuses_seq (refuses_token _ (by simp)) _).map _).named _).map _

def ChoicesLine.text (line : ChoicesLine) : List Char := spaced line.lexemes

end Grammar

open Grammar (ChoicesLine parseLine choicesLine)

def ChoicesLeaf.line? : ChoicesLeaf → Option ChoicesLine
  | .comment _ _ => none
  | .command c => some (.command c.name c.first c.others)
  | .choice c => some (.choice c.value c.label c.params)

def ChoiceList.line (l : ChoiceList) : ChoicesLine := .list l.name l.params

def choicesWriter : LineWriter ChoicesLeaf ChoiceList where
  leaf a := (a.line?.map (·.text)).getD []
  header l := l.line.text
  leafAt pos
    | .comment _ text => .comment pos text
    | .command c => .command { c with pos }
    | .choice c => .choice { c with pos }
  headerAt pos l := { l with pos }

/-- A choices forest that can be written: without comments and without empty lists, and every line
of it can be written. -/
def Choices.Expressible (f : Choices) : Prop :=
  f.All (fun a => ∃ line ∈ a.line?, line.Expressible) fun l => l.line.Expressible

private theorem tidy_choicesText {line : ChoicesLine} (h : line.Expressible) : Tidy line.text :=
  tidy_spaced (ChoicesLine.plain_lexemes h) (by cases line <;> exact List.cons_ne_nil _ _)

/-- What is written as a choices line is read as it was. -/
theorem choicesReader_inverts (file : String) : (choicesReader file).Inverts choicesWriter file
    (fun a => ∃ line ∈ a.line?, line.Expressible) fun l => l.line.Expressible := by
  have hparse {line : ChoicesLine} (h : line.Expressible) (depth : Nat) :
      parseLine choicesLine (List.replicate depth ' ' ++ line.text) = .ok line := by
    refine eq_ok_of_toOption (Grammar.parseLine_spaced (ChoicesLine.plain_lexemes h)
      (ChoicesLine.reads h) fun b hb => ?_)
    rw [List.eq_of_mem_replicate hb]
    rfl
  have htext {a : ChoicesLeaf} {line : ChoicesLine} (h : line ∈ a.line?) :
      choicesWriter.leaf a = line.text := by
    show (a.line?.map (·.text)).getD [] = line.text
    rw [h]
    rfl
  constructor
  case leaf =>
    rintro a ⟨line, hline, h⟩ n depth
    rw [htext hline]
    cases a with
    | comment => cases hline
    | command c => cases hline; simp only [choicesReader, hparse h]; rfl
    | choice c => cases hline; simp only [choicesReader, hparse h]; rfl
  case header =>
    intro l h n depth
    exact ⟨none, "list " ++ l.name, by simp only [choicesReader, choicesWriter, hparse h]; rfl⟩
  case isComment =>
    rintro a ⟨line, hline, _⟩ pos
    cases a with
    | comment => cases hline
    | command c => rfl
    | choice c => rfl
  case tidyLeaf =>
    rintro a ⟨line, hline, h⟩
    rw [htext hline]
    exact tidy_choicesText h
  case tidyHeader => exact tidy_choicesText

/-- Every choices forest that can be written is read back from its text, at any indentation that
shows its lists, with the line and the column of every statement. -/
theorem Choices.ofText_written {f : Choices} (hf : f.Expressible) {indent : Nat → Nat}
    (hfits : f.Fits indent 1 (indent 1)) (breaks : Nat) (file : String) :
    Choices.ofText file (choicesWriter.text indent f breaks) =
      .ok (choicesWriter.placed indent file 1 f) :=
  eq_ok_of_toOption
    (LineReader.forest?_text (choicesReader_inverts file) indent hf hfits breaks)

/-- Choices whose texts look like marks and words of the grammar, in a list that is called
`list`. -/
def markedChoices (pos : Nat → Nat → Position) : Choices :=
  .leaf (.command ⟨pos 1 1, "include", "", ["@", "list"]⟩)
    (.block ⟨pos 2 1, "list", [⟨"list", ":"⟩]⟩
      (.leaf (.choice ⟨pos 3 3, "@", "a\n\"\\", []⟩)
        (.block ⟨pos 4 3, "inner", []⟩
          (.leaf (.choice ⟨pos 5 7, "list", ":", [⟨"filter", "#"⟩]⟩) .nil)
          (.leaf (.choice ⟨pos 6 3, "", "", []⟩) .nil)))
      .nil)

def markedChoicesText : String :=
  "@ include \"\" \"@\" \"list\"\n" ++ "list list list \":\" :\n" ++
  "  \"@\" \"a\\n\\\"\\\\\"\n" ++ "  list inner :\n" ++
  "      \"list\" \":\" filter \"#\"\n" ++ "  \"\" \"\"\n"

theorem markedChoices_read_back : Choices.ofText "/form.choices" markedChoicesText =
    .ok (markedChoices fun line col => ⟨"/form.choices", line, col⟩) := by
  let f := markedChoices fun _ _ => default
  let indent (line : Nat) : Nat := [0, 0, 2, 2, 6, 2].getD (line - 1) 0
  have hf : f.Expressible := by
    exact ⟨⟨_, rfl, by decide⟩, by decide, by decide, ⟨⟨_, rfl, by decide⟩, by decide, by decide,
      ⟨⟨_, rfl, by decide⟩, trivial⟩, ⟨_, rfl, by decide⟩, trivial⟩, trivial⟩
  have hfits : f.Fits indent 1 (indent 1) := by
    simp [f, markedChoices, indent, Forest.Fits, Forest.size]
  have htext : choicesWriter.text indent f 1 = markedChoicesText := by decide +kernel
  rw [← htext]
  exact Choices.ofText_written hf hfits 1 "/form.choices"

end SurveyForms
