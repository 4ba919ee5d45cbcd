import SurveyForms.Proofs.Renaming
import SurveyForms.Proofs.Spacing

/-! Columns of tokens. A rule goes by the classes and the values of its tokens, so lines that differ
in their indentation are read alike: as the same statement, or with the same fault. -/
namespace SurveyForms

def Source.Token.anywhere (t : Source.Token) : Source.Token := { t with col := 0 }

namespace Grammar

open Source (Token TokenClass solids tokensFrom)

def Obstacle.anywhere (o : Obstacle) : Obstacle := { o with found := o.found.map (·.anywhere) }

def State.anywhere (s : State) : State :=
  { s with rest := s.rest.map (·.anywhere), deepest := s.deepest.map (·.anywhere) }

def Outcome.anywhere : Outcome α → Outcome α
  | .matched a => .matched a
  | .absent => .absent
  | .stopped o => .stopped o.anywhere

/-- A rule, or a part of one, that does not look at columns. -/
def Blind (run : State → Outcome α × State) : Prop :=
  ∀ s, run s.anywhere = ((run s).1.anywhere, (run s).2.anywhere)

namespace State

variable (s trial : State) (o : Obstacle)

theorem anywhere_accept : s.anywhere.accept trial.anywhere = (s.accept trial).anywhere := by
  by_cases h : s.depth ≤ trial.depth <;> simp [accept, anywhere, h]

theorem anywhere_note : s.anywhere.note o.anywhere = (s.note o).anywhere := by
  by_cases h : s.depth ≤ s.passed <;> simp [note, anywhere, h]

theorem anywhere_abandon :
    s.anywhere.abandon trial.anywhere o.anywhere = (s.abandon trial o).anywhere := by
  by_cases h : s.depth < trial.depth
  · simp [abandon, anywhere, h]
  · by_cases h' : s.depth ≤ trial.passed <;> simp [abandon, anywhere, h, h']

theorem anywhere_obstacle (wanted : Option String) :
    s.anywhere.obstacle wanted = (s.obstacle wanted).anywhere := by
  simp only [obstacle, anywhere, Obstacle.anywhere, List.head?_map]

theorem length_anywhere : s.anywhere.rest.length = s.rest.length := List.length_map _

end State

theorem Outcome.anywhere_map (o : Outcome α) (f : α → β) :
    (o.map f).anywhere = o.anywhere.map f := by
  cases o <;> rfl

namespace Rule

theorem blind_accepting {test : Token → Bool} (h : ∀ t, test t.anywhere = test t) :
    Blind (accepting test) := by
  intro s
  cases hrest : s.rest with
  | nil => simp [accepting, State.anywhere, hrest, Outcome.anywhere]
  | cons t rest =>
    simp only [accepting, State.anywhere, hrest, List.map_cons, h]
    split
    · rfl
    · simp only [Outcome.anywhere, hrest, List.map_cons]

theorem blind_map {r : Rule α} (h : Blind r.run) (f : α → β) : Blind (r.map f).run := by
  intro s
  show (((r.run s.anywhere).1.map f), (r.run s.anywhere).2) =
    (((r.run s).1.map f).anywhere, (r.run s).2.anywhere)
  rw [h s, Outcome.anywhere_map]

private theorem blind_tryAll {rs : List (Rule α)} (h : ∀ r ∈ rs, Blind r.run) (s : State)
    (failed : Option (Nat × Obstacle)) :
    tryAll s.anywhere (failed.map fun f => (f.1, f.2.anywhere)) rs =
      ((tryAll s failed rs).1.anywhere, (tryAll s failed rs).2.anywhere) := by
  induction rs generalizing s failed with
  | nil =>
    cases failed with
    | none => rfl
    | some f => exact Prod.ext rfl (s.anywhere_note f.2)
  | cons r rs ih =>
    obtain ⟨hr, hrs⟩ := List.forall_mem_cons.mp h
    have hrun := hr s
    cases htrial : r.run s with
    | mk outcome trial =>
      rw [htrial] at hrun
      cases outcome with
      | matched a =>
        simp only [tryAll, hrun, htrial, Outcome.anywhere, State.anywhere_accept]
      | absent =>
        have hrun : r.run s.anywhere = (.absent, trial.anywhere) := hrun
        simp only [tryAll, hrun, htrial]
        exact ih hrs s failed
      | stopped o =>
        have hrun : r.run s.anywhere = (.stopped o.anywhere, trial.anywhere) := hrun
        simp only [tryAll, hrun, htrial, State.anywhere_abandon]
        rw [← ih hrs]
        -- the same one of the two faults is kept
        cases failed with
        | none => rfl
        | some f =>
          show tryAll _ (if decide (f.1 ≤ trial.passed) then _ else _) _ =
            tryAll _ (Option.map _ (if decide (f.1 ≤ trial.passed) then _ else _)) _
          cases decide (f.1 ≤ trial.passed) <;> rfl

theorem blind_choice {rs : List (Rule α)} (h : ∀ r ∈ rs, Blind r.run) : Blind (choice rs).run :=
  fun s => blind_tryAll h s none

private theorem blind_repeated {r : Rule α} (h : Blind r.run) (s : State) :
    repeated r s.anywhere = ((repeated r s).1, (repeated r s).2.anywhere) := by
  fun_induction repeated r s with
  | case1 s o trial hrun =>
    rw [repeated, h s, hrun]
    simp only [Outcome.anywhere, State.anywhere_note, State.anywhere_abandon]
  | case2 s trial hrun =>
    rw [repeated, h s, hrun]
    simp only [Outcome.anywhere, State.anywhere_accept]
  | case3 s a trial hrun next hshorter as last hrest ih =>
    rw [hrest] at ih
    rw [repeated, h s, hrun]
    simp only [Outcome.anywhere, State.anywhere_accept, State.length_anywhere]
    rw [if_pos hshorter, ih]
  | case4 s a trial hrun next hlong =>
    rw [repeated, h s, hrun]
    simp only [Outcome.anywhere, State.anywhere_accept, State.length_anywhere]
    rw [if_neg hlong]

theorem blind_many {r : Rule α} (h : Blind r.run) : Blind (many r).run := by
  intro s
  simp only [many, blind_repeated h]
  rfl

theorem blind_atLeastOnce {r : Rule α} (h : Blind r.run) : Blind (atLeastOnce r).run := by
  intro s
  simp only [atLeastOnce, blind_repeated h]
  split <;> rfl

theorem blind_optional {r : Rule α} (h : Blind r.run) : Blind (optional r).run := by
  intro s
  simp only [optional, h s]
  cases hrun : r.run s with
  | mk outcome trial =>
    cases outcome with
    | matched a => exact Prod.ext rfl (s.anywhere_accept trial)
    | absent => exact Prod.ext rfl (s.anywhere_accept trial)
    | stopped o =>
      simp only [Outcome.anywhere, State.anywhere_note, State.anywhere_abandon]

theorem blind_named {r : Rule α} (h : Blind r.run) (name : String) : Blind (named name r).run := by
  intro s
  simp only [named, h s]
  cases hrun : r.run s with
  | mk outcome t =>
    cases outcome with
    | matched a => rfl
    | absent => rfl
    | stopped o => exact Prod.ext rfl (t.anywhere_note o)

end Rule

namespace Tail

theorem blind_demand {r : Rule α} (h : Blind r.run) (shown : String) : Blind (demand shown r) := by
  intro s
  simp only [demand, h s]
  cases hrun : r.run s with
  | mk outcome t =>
    cases outcome with
    | matched a => rfl
    | absent => exact Prod.ext (congrArg Outcome.stopped (t.anywhere_obstacle _)) rfl
    | stopped o => rfl

theorem blind_last {r : Rule α} (h : Blind r.run) : Blind (last r).run := blind_demand h r.shown

end Tail

/-- A part and, once that has matched, the part behind it. -/
private theorem blind_andThen {first : State → Outcome α × State} {run : State → Outcome β × State}
    (hfirst : Blind first) (hrun : Blind run) : Blind fun s => match first s with
      | (.matched a, s) => let (o, s) := run s; (o.map (a, ·), s)
      | (.absent, s) => (.absent, s)
      | (.stopped o, s) => (.stopped o, s) := by
  intro s
  simp only [hfirst s]
  cases first s with
  | mk outcome t =>
    cases outcome with
    | matched a =>
      show ((run t.anywhere).1.map (a, ·), (run t.anywhere).2) = _
      rw [hrun t]
      exact Prod.ext (Outcome.anywhere_map _ _).symm rfl
    | absent => rfl
    | stopped o => rfl

theorem Tail.blind_next {r : Rule α} {t : Tail β} (hr : Blind r.run) (ht : Blind t.run) :
    Blind (next r t).run := blind_andThen (blind_demand hr _) ht

theorem Rule.blind_seq {r : Rule α} {t : Tail β} (hr : Blind r.run) (ht : Blind t.run) :
    Blind (seq r t).run := blind_andThen hr ht

/-- A blind rule finds the same in tokens at other columns. -/
theorem Rule.parse_anywhere {r : Rule α} (h : Blind r.run) (ts : List Token) :
    r.parse (ts.map (·.anywhere)) = (r.parse ts).mapError (·.anywhere) := by
  have hreported (s : State) : parse.reported s.anywhere = (parse.reported s).anywhere := by
    simp only [parse.reported, State.anywhere_obstacle]
    show (if s.depth ≤ s.passed then _ else (s.deepest.map (·.anywhere)).getD _) = _
    split
    · rfl
    · cases s.deepest <;> rfl
  have hrun : r.run (State.start (ts.map (·.anywhere))) = _ := h (State.start ts)
  simp only [parse, hrun]
  cases r.run (State.start ts) with
  | mk outcome s =>
    cases outcome with
    | stopped o => rfl
    | absent => exact congrArg Except.error (hreported s)
    | matched a =>
      have hempty : s.anywhere.rest.isEmpty = s.rest.isEmpty := List.isEmpty_map
      simp only [Outcome.anywhere, hempty, hreported]
      split <;> rfl

section Lines

open Rule Tail

private theorem blind_token (cls : TokenClass) (shown : String) : Blind (token cls shown).run :=
  blind_accepting fun _ => rfl

private theorem blind_literal (value : String) : Blind (literal value).run :=
  blind_accepting fun _ => rfl

private theorem blind_numberOrText : Blind numberOrText.run :=
  blind_choice (by simp [number, text, blind_token])

private theorem blind_word : Blind word.run :=
  blind_choice (by simp [ident, number, text, blind_token])

private theorem blind_param : Blind param.run :=
  blind_named (blind_map (blind_seq (blind_token _ _) (blind_last blind_word)) _) _

private theorem blind_condition : Blind condition.run := by
  have hleft : Blind (choice [varRef, literal "."]).run :=
    blind_choice (by simp [varRef, blind_token, blind_literal])
  have hcomparison : Blind comparison.run :=
    blind_map (blind_seq hleft (blind_next (blind_token _ _) (blind_last blind_numberOrText))) _
  exact blind_named (blind_choice (by simp [hcomparison, blind_map blind_numberOrText])) _

private theorem blind_command : Blind (Rule.seq (literal "@") (last commandLine)).run :=
  blind_seq (blind_literal _) (blind_last (blind_named (blind_seq (blind_token _ _)
    (blind_last (blind_map (blind_atLeastOnce blind_word) _))) _))

private theorem blind_groupLine : Blind groupLine.run := by
  have hword : Blind groupWord.run := blind_choice (by simp [blind_map (blind_literal _)])
  have hcondition : Blind inlineCondition.run :=
    blind_map (blind_seq (blind_literal _) (blind_last blind_condition)) _
  exact blind_named (blind_map (blind_seq hword <| blind_next (blind_token _ _) <|
    blind_next (blind_optional (blind_token _ _)) <| blind_next (blind_many blind_param) <|
    blind_next (blind_optional hcondition) <| blind_last (blind_literal _)) _) _

theorem blind_questionLine : Blind questionLine.run := by
  have hlabel : Blind (choice [text, number]).run :=
    blind_choice (by simp [text, number, blind_token])
  exact blind_named (blind_map (blind_seq (blind_token _ _) <|
    blind_next (blind_atLeastOnce (blind_token _ _)) <| blind_next (blind_literal _) <|
    blind_next (blind_optional hlabel) <| blind_last (blind_many blind_param)) _) _

theorem blind_surveyLine : Blind surveyLine.run := by
  have hif : Blind ifLine.run :=
    blind_named (blind_map (blind_seq blind_condition (blind_last (blind_literal _))) _) _
  refine blind_named (blind_choice ?_) _
  simp only [List.forall_mem_cons, List.not_mem_nil, false_implies, implies_true, and_true]
  exact ⟨blind_map blind_command _, blind_map (blind_seq (blind_literal _) (blind_last hif)) _,
    blind_groupLine, blind_questionLine⟩

theorem blind_choicesLine : Blind choicesLine.run := by
  have hlist : Blind listLine.run :=
    blind_named (blind_map (blind_seq (blind_token _ _) <| blind_next (blind_many blind_param) <|
      blind_last (blind_literal _)) _) _
  have hchoice : Blind choiceLine.run :=
    blind_named (blind_map (blind_seq blind_numberOrText <| blind_next blind_numberOrText <|
      blind_last (blind_many blind_param)) _) _
  refine blind_named (blind_choice ?_) _
  simp only [List.forall_mem_cons, List.not_mem_nil, false_implies, implies_true, and_true]
  exact ⟨blind_map blind_command _, blind_map (blind_seq (blind_literal _) (blind_last hlist)) _,
    hchoice⟩

end Lines

/-- Up to their columns, tokens are told by the lexemes that are no blanks. -/
theorem tokensFrom_anywhere (col col' : Nat) (ls : List Source.Lexeme) :
    (tokensFrom col ls).map (·.anywhere) =
      (tokensFrom col' (ls.filter (·.cls ≠ .blank))).map (·.anywhere) := by
  induction ls generalizing col col' with
  | nil => rfl
  | cons l ls ih =>
    by_cases hblank : l.cls = .blank
    · rw [List.filter_cons_of_neg (by simpa using hblank), tokensFrom, if_pos (.inl hblank)]
      exact ih _ _
    · rw [List.filter_cons_of_pos (by simpa using hblank), tokensFrom, tokensFrom]
      split
      · exact ih _ _
      · rw [List.map_cons, List.map_cons, ih _ (col' + l.raw.length)]
        rfl

/-- What a rule makes of the lexemes of a line, with no token at a column. -/
private def parseSolids (rule : Rule α) : List Source.Lexeme × List Char → Except Fault α
  | (ls, []) => (rule.parse ((tokensFrom 1 ls).map (·.anywhere))).mapError fun o =>
      .unexpected (o.found.map (·.value)) o.wanted
  | (_, rest) => .error (.unreadable rest)

/-- Lines with the same lexemes, blanks apart, are read alike, up to the column of a fault. -/
theorem parseLine_of_solids_eq {rule : Rule α} (h : Blind rule.run) {line line' : List Char}
    (hsolids : solids line = solids line') :
    (parseLine rule line).mapError (·.2) = (parseLine rule line').mapError (·.2) := by
  have hcanonical (line : List Char) :
      (parseLine rule line).mapError (·.2) = parseSolids rule (solids line) := by
    simp only [parseLine, parseSolids, solids]
    cases hscan : Source.scan line with
    | mk ls rest =>
      cases rest with
      | cons c rest => rfl
      | nil =>
        simp only [← tokensFrom_anywhere 1 1 ls, Rule.parse_anywhere h]
        cases rule.parse (tokensFrom 1 ls) with
        | ok a => rfl
        | error o =>
          show Except.error (Fault.unexpected (o.found.map (·.value)) o.wanted) =
            .error (.unexpected ((o.found.map (·.anywhere)).map (·.value)) o.wanted)
          rw [Option.map_map]
          rfl
  rw [hcanonical, hcanonical, hsolids]

end Grammar
end SurveyForms
