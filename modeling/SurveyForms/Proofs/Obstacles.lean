import SurveyForms.Proofs.Lexemes
import SurveyForms.Proofs.Matching

/-! What stops a rule is one of the tokens of its line, or the end of the line. So a line that
cannot be read is reported at a column of the line, or right behind it. -/
namespace SurveyForms.Grammar

open Source (Token TokenClass Lexeme raws tokensFrom)

/-- An obstacle that is one of these tokens, or the end behind them. -/
def Obstacle.On (ts : List Token) (o : Obstacle) : Prop := ∀ t ∈ o.found, t ∈ ts

/-- A place among these tokens, with one of them as the deepest obstacle. -/
structure State.On (ts : List Token) (s : State) : Prop where
  rest : s.rest ⊆ ts
  deepest : ∀ o ∈ s.deepest, o.On ts

namespace State.On

variable {ts : List Token} {s trial : State} {o : Obstacle}

theorem start (ts : List Token) : (State.start ts).On ts :=
  ⟨List.Subset.refl ts, fun _ h => by cases h⟩

theorem obstacle (h : s.On ts) (wanted : Option String) : (s.obstacle wanted).On ts :=
  fun _ ht => h.rest (List.mem_of_mem_head? ht)

theorem accept (h : s.On ts) (htrial : trial.On ts) : (s.accept trial).On ts := by
  unfold State.accept
  split
  · exact htrial
  · exact ⟨htrial.rest, h.deepest⟩

theorem note (h : s.On ts) (ho : o.On ts) : (s.note o).On ts := by
  unfold State.note
  split
  · exact ⟨h.rest, by rintro _ ⟨⟩; exact ho⟩
  · exact h

theorem abandon (h : s.On ts) (htrial : trial.On ts) (ho : o.On ts) :
    (s.abandon trial o).On ts := by
  unfold State.abandon
  split
  · exact ⟨h.rest, htrial.deepest⟩
  · split
    · exact ⟨h.rest, by rintro _ ⟨⟩; exact ho⟩
    · exact h

end State.On

/-- A rule has come to an end among these tokens. -/
structure EndsOn (ts : List Token) (end' : Outcome α × State) : Prop where
  state : end'.2.On ts
  stopped : ∀ o, end'.1 = .stopped o → o.On ts

/-- A rule, or a part of one, that reports nothing but tokens it was given. -/
def Faithful (run : State → Outcome α × State) : Prop :=
  ∀ ts s, s.On ts → EndsOn ts (run s)

theorem EndsOn.map {ts : List Token} {o : Outcome α} {s : State} (h : EndsOn ts (o, s))
    (f : α → β) : EndsOn ts (o.map f, s) := by
  refine ⟨h.state, fun o' ho' => ?_⟩
  cases o with
  | matched a => cases ho'
  | absent => cases ho'
  | stopped o'' =>
    cases ho'
    exact h.stopped o' rfl

namespace Rule

theorem faithful_accepting (test : Token → Bool) : Faithful (accepting test) := by
  intro ts s h
  unfold accepting
  split
  · next t rest hrest =>
    split
    · refine ⟨⟨fun t' ht' => h.rest ?_, h.deepest⟩, fun _ ho => by cases ho⟩
      rw [hrest]
      exact List.mem_cons_of_mem t ht'
    · exact ⟨h, fun _ ho => by cases ho⟩
  · exact ⟨h, fun _ ho => by cases ho⟩

theorem faithful_map {r : Rule α} (h : Faithful r.run) (f : α → β) : Faithful (r.map f).run :=
  fun ts s hs => (h ts s hs).map f

private theorem faithful_tryAll {rs : List (Rule α)} (h : ∀ r ∈ rs, Faithful r.run)
    {ts : List Token} {s : State} (hs : s.On ts) {failed : Option (Nat × Obstacle)}
    (hfailed : ∀ f ∈ failed, f.2.On ts) : EndsOn ts (tryAll s failed rs) := by
  induction rs generalizing s failed with
  | nil =>
    unfold tryAll
    split
    · next depth o =>
      have ho : o.On ts := hfailed (depth, o) rfl
      exact ⟨hs.note ho, by rintro _ ⟨⟩; exact ho⟩
    · exact ⟨hs, fun _ ho => by cases ho⟩
  | cons r rs ih =>
    obtain ⟨hr, hrs⟩ := List.forall_mem_cons.mp h
    have hrun := hr ts s hs
    unfold tryAll
    cases htrial : r.run s with
    | mk outcome trial =>
      rw [htrial] at hrun
      cases outcome with
      | matched a => exact ⟨hs.accept hrun.state, fun _ ho => by cases ho⟩
      | absent => exact ih hrs hs hfailed
      | stopped o =>
        have ho : o.On ts := hrun.stopped o rfl
        -- whichever of the two is deeper
        have heither (deeper : Bool) : ∀ f ∈ if deeper then some (trial.passed, o) else failed,
            f.2.On ts := by
          cases deeper with
          | true => rintro _ ⟨⟩; exact ho
          | false => exact hfailed
        exact ih hrs (hs.abandon hrun.state ho) (heither _)

theorem faithful_choice {rs : List (Rule α)} (h : ∀ r ∈ rs, Faithful r.run) :
    Faithful (choice rs).run :=
  fun _ _ hs => faithful_tryAll h hs fun _ hf => by cases hf

private theorem on_repeated {r : Rule α} (h : Faithful r.run) {ts : List Token} {s : State}
    (hs : s.On ts) : (repeated r s).2.On ts := by
  have hrun := h ts s hs
  rw [repeated]
  split
  · next o trial htrial =>
    rw [htrial] at hrun
    have ho : o.On ts := hrun.stopped o rfl
    exact (hs.note ho).abandon hrun.state ho
  · next trial htrial =>
    rw [htrial] at hrun
    exact hs.accept hrun.state
  · next a trial htrial =>
    rw [htrial] at hrun
    simp only
    split
    · next hshorter => exact on_repeated h (hs.accept hrun.state)
    · exact hs.accept hrun.state
termination_by s.rest.length

theorem faithful_many {r : Rule α} (h : Faithful r.run) : Faithful (many r).run :=
  fun _ _ hs => ⟨on_repeated h hs, fun _ ho => by cases ho⟩

theorem faithful_atLeastOnce {r : Rule α} (h : Faithful r.run) :
    Faithful (atLeastOnce r).run := by
  refine fun ts s hs => ⟨on_repeated h hs, fun o ho => ?_⟩
  simp only [atLeastOnce] at ho
  split at ho <;> cases ho

theorem faithful_optional {r : Rule α} (h : Faithful r.run) : Faithful (optional r).run := by
  intro ts s hs
  have hrun := h ts s hs
  simp only [optional]
  split
  · next o trial htrial =>
    rw [htrial] at hrun
    have ho : o.On ts := hrun.stopped o rfl
    exact ⟨(hs.note ho).abandon hrun.state ho, fun _ ho => by cases ho⟩
  · next trial htrial =>
    rw [htrial] at hrun
    exact ⟨hs.accept hrun.state, fun _ ho => by cases ho⟩
  · next a trial htrial =>
    rw [htrial] at hrun
    exact ⟨hs.accept hrun.state, fun _ ho => by cases ho⟩

theorem faithful_named {r : Rule α} (h : Faithful r.run) (name : String) :
    Faithful (named name r).run := by
  intro ts s hs
  have hrun := h ts s hs
  simp only [named]
  split
  · next o trial htrial =>
    rw [htrial] at hrun
    have ho : o.On ts := hrun.stopped o rfl
    exact ⟨hrun.state.note ho, by rintro _ ⟨⟩; exact ho⟩
  · exact hrun

end Rule

namespace Tail

theorem faithful_demand {r : Rule α} (h : Faithful r.run) (shown : String) :
    Faithful (demand shown r) := by
  intro ts s hs
  have hrun := h ts s hs
  unfold demand
  split
  · next trial htrial =>
    rw [htrial] at hrun
    exact ⟨hrun.state, by rintro _ ⟨⟩; exact hrun.state.obstacle _⟩
  · exact hrun

theorem faithful_last {r : Rule α} (h : Faithful r.run) : Faithful (last r).run :=
  faithful_demand h r.shown

end Tail

/-- A part and, once that has matched, the part behind it. -/
private theorem EndsOn.andThen {ts : List Token} {first : Outcome α × State}
    (h : EndsOn ts first) {run : State → Outcome β × State} (hrun : Faithful run) :
    EndsOn ts (match first with
      | (.matched a, s) => let (o, s) := run s; (o.map (a, ·), s)
      | (.absent, s) => (.absent, s)
      | (.stopped o, s) => (.stopped o, s)) := by
  split
  · exact (hrun ts _ h.state).map _
  · exact ⟨h.state, fun _ ho => by cases ho⟩
  · next o s => exact ⟨h.state, by rintro _ ⟨⟩; exact h.stopped o rfl⟩

theorem Tail.faithful_next {r : Rule α} {t : Tail β} (hr : Faithful r.run)
    (ht : Faithful t.run) : Faithful (next r t).run :=
  fun ts s hs => (faithful_demand hr _ ts s hs).andThen ht

theorem Rule.faithful_seq {r : Rule α} {t : Tail β} (hr : Faithful r.run)
    (ht : Faithful t.run) : Faithful (seq r t).run :=
  fun ts s hs => (hr ts s hs).andThen ht

section Lines

open Rule Tail

private theorem faithful_token (cls : TokenClass) (shown : String) :
    Faithful (token cls shown).run := faithful_accepting _

private theorem faithful_literal (value : String) : Faithful (literal value).run :=
  faithful_accepting _

private theorem faithful_numberOrText : Faithful numberOrText.run :=
  faithful_choice (by simp [number, text, faithful_token])

private theorem faithful_word : Faithful word.run :=
  faithful_choice (by simp [ident, number, text, faithful_token])

private theorem faithful_param : Faithful param.run :=
  faithful_named (faithful_map (faithful_seq (faithful_token _ _) (faithful_last faithful_word)) _)
    _

private theorem faithful_condition : Faithful condition.run := by
  have hleft : Faithful (choice [varRef, literal "."]).run :=
    faithful_choice (by simp [varRef, faithful_token, faithful_literal])
  have hcomparison : Faithful comparison.run :=
    faithful_map (faithful_seq hleft
      (faithful_next (faithful_token _ _) (faithful_last faithful_numberOrText))) _
  exact faithful_named (faithful_choice
    (by simp [hcomparison, faithful_map faithful_numberOrText])) _

private theorem faithful_commandLine : Faithful commandLine.run :=
  faithful_named (faithful_seq (faithful_token _ _)
    (faithful_last (faithful_map (faithful_atLeastOnce faithful_word) _))) _

private theorem faithful_groupLine : Faithful groupLine.run := by
  have hword : Faithful groupWord.run :=
    faithful_choice (by simp [faithful_map (faithful_literal _)])
  have hcondition : Faithful inlineCondition.run :=
    faithful_map (faithful_seq (faithful_literal _) (faithful_last faithful_condition)) _
  exact faithful_named (faithful_map (faithful_seq hword <| faithful_next (faithful_token _ _) <|
    faithful_next (faithful_optional (faithful_token _ _)) <|
    faithful_next (faithful_many faithful_param) <|
    faithful_next (faithful_optional hcondition) <| faithful_last (faithful_literal _)) _) _

private theorem faithful_questionLine : Faithful questionLine.run := by
  have hlabel : Faithful (choice [text, number]).run :=
    faithful_choice (by simp [text, number, faithful_token])
  exact faithful_named (faithful_map (faithful_seq (faithful_token _ _) <|
    faithful_next (faithful_atLeastOnce (faithful_token _ _)) <|
    faithful_next (faithful_literal _) <| faithful_next (faithful_optional hlabel) <|
    faithful_last (faithful_many faithful_param)) _) _

theorem faithful_surveyLine : Faithful surveyLine.run := by
  have hif : Faithful ifLine.run :=
    faithful_named (faithful_map
      (faithful_seq faithful_condition (faithful_last (faithful_literal _))) _) _
  refine faithful_named (faithful_choice ?_) _
  simp only [List.forall_mem_cons, List.not_mem_nil, false_implies, implies_true, and_true]
  exact ⟨faithful_map (faithful_seq (faithful_literal _) (faithful_last faithful_commandLine)) _,
    faithful_map (faithful_seq (faithful_literal _) (faithful_last hif)) _, faithful_groupLine,
    faithful_questionLine⟩

theorem faithful_choicesLine : Faithful choicesLine.run := by
  have hlist : Faithful listLine.run :=
    faithful_named (faithful_map (faithful_seq (faithful_token _ _) <|
      faithful_next (faithful_many faithful_param) <| faithful_last (faithful_literal _)) _) _
  have hchoice : Faithful choiceLine.run :=
    faithful_named (faithful_map (faithful_seq faithful_numberOrText <|
      faithful_next faithful_numberOrText <| faithful_last (faithful_many faithful_param)) _) _
  refine faithful_named (faithful_choice ?_) _
  simp only [List.forall_mem_cons, List.not_mem_nil, false_implies, implies_true, and_true]
  exact ⟨faithful_map (faithful_seq (faithful_literal _) (faithful_last faithful_commandLine)) _,
    faithful_map (faithful_seq (faithful_literal _) (faithful_last hlist)) _, hchoice⟩

end Lines

theorem Rule.on_of_parse_error {r : Rule α} (h : Faithful r.run) {ts : List Token} {o : Obstacle}
    (herror : r.parse ts = .error o) : o.On ts := by
  have hrun := h ts _ (.start ts)
  have hreported (s : State) (hs : s.On ts) : (parse.reported s).On ts := by
    unfold parse.reported
    simp only
    split
    · exact hs.obstacle none
    · cases hdeepest : s.deepest with
      | none => exact hs.obstacle none
      | some o => exact hs.deepest o hdeepest
  unfold parse at herror
  split at herror
  · next o' s hstop =>
    cases herror
    rw [hstop] at hrun
    exact hrun.stopped o rfl
  · next a s hmatch =>
    rw [hmatch] at hrun
    split at herror
    · cases herror
    · cases herror
      exact hreported s hrun.state
  · next s habsent =>
    cases herror
    rw [habsent] at hrun
    exact hreported s hrun.state

/-- Tokens stand where their lexemes do. -/
theorem col_of_mem_tokensFrom {col : Nat} {ls : List Lexeme} {t : Token}
    (h : t ∈ tokensFrom col ls) : col ≤ t.col ∧ t.col ≤ col + (raws ls).length := by
  induction ls generalizing col with
  | nil => cases h
  | cons l ls ih =>
    have hlength : (raws (l :: ls)).length = l.raw.length + (raws ls).length := by simp [raws]
    have hbehind (h : t ∈ tokensFrom (col + l.raw.length) ls) :
        col ≤ t.col ∧ t.col ≤ col + (raws (l :: ls)).length := by
      have := ih h
      omega
    unfold tokensFrom at h
    simp only at h
    split at h
    · exact hbehind h
    · rcases List.mem_cons.mp h with rfl | h
      · exact ⟨Nat.le_refl _, Nat.le_add_right _ _⟩
      · exact hbehind h

/-- A line that cannot be read is reported at one of its columns, or right behind it. -/
theorem parseLine_error_column {rule : Rule α} (h : Faithful rule.run) {line : List Char}
    {col : Nat} {fault : Fault} (herror : parseLine rule line = .error (col, fault)) :
    1 ≤ col ∧ col ≤ line.length + 1 := by
  unfold parseLine at herror
  split at herror
  · next lexemes hscan =>
    split at herror
    · cases herror
    · next o ho =>
      cases herror
      have hlexes := Source.lexes_scan line
      rw [hscan] at hlexes
      have hline : line = raws lexemes := by
        rw [hlexes.eq_raws_append, List.append_nil]
      cases hfound : o.found with
      | none => exact ⟨Nat.le_add_left _ _, Nat.le_refl _⟩
      | some t =>
        have ht := col_of_mem_tokensFrom (Rule.on_of_parse_error h ho t hfound)
        rw [← hline] at ht
        simp only [Option.map_some, Option.getD_some]
        omega
  · cases herror
    omega

end SurveyForms.Grammar
