import SurveyForms.Grammar.Lines

/-! What a match says about the tokens it took, one lemma for each way to build a rule. Main
result: how the header of a block begins. -/
namespace SurveyForms.Grammar

open Source (Token TokenClass)

namespace Rule

theorem matched_accepting {test : Token → Bool} {s t : State} {value : String}
    (h : accepting test s = (.matched value, t)) :
    ∃ token, s.rest = token :: t.rest ∧ test token ∧ token.value = value := by
  unfold accepting at h
  split at h
  · next token rest hrest =>
    split at h
    · next htest =>
      cases h
      exact ⟨token, hrest, htest, rfl⟩
    · cases h
  · cases h

theorem matched_map {r : Rule α} {f : α → β} {s t : State} {b : β}
    (h : (r.map f).run s = (.matched b, t)) : ∃ a, r.run s = (.matched a, t) ∧ f a = b := by
  change ((r.run s).1.map f, (r.run s).2) = _ at h
  cases hrun : r.run s with
  | mk o u =>
    rw [hrun] at h
    cases o <;> cases h
    exact ⟨_, rfl, rfl⟩

theorem matched_named {name : String} {r : Rule α} {s t : State} {a : α}
    (h : (r.named name).run s = (.matched a, t)) : r.run s = (.matched a, t) := by
  simp only [named] at h
  split at h
  · cases h
  · exact h

theorem matched_seq {r : Rule α} {tail : Tail β} {s t : State} {a : α} {b : β}
    (h : (seq r tail).run s = (.matched (a, b), t)) :
    ∃ u, r.run s = (.matched a, u) ∧ tail.run u = (.matched b, t) := by
  simp only [seq] at h
  split at h
  · next a' u hr =>
    change ((tail.run u).1.map (a', ·), (tail.run u).2) = _ at h
    cases htail : tail.run u with
    | mk o v =>
      rw [htail] at h
      cases o <;> cases h
      exact ⟨u, hr, htail⟩
  · cases h
  · cases h

theorem matched_demand {shown : String} {r : Rule α} {s t : State} {a : α}
    (h : Tail.demand shown r s = (.matched a, t)) : r.run s = (.matched a, t) := by
  unfold Tail.demand at h
  split at h
  · cases h
  · exact h

theorem matched_next {r : Rule α} {tail : Tail β} {s t : State} {a : α} {b : β}
    (h : (Tail.next r tail).run s = (.matched (a, b), t)) :
    ∃ u, r.run s = (.matched a, u) ∧ tail.run u = (.matched b, t) := by
  simp only [Tail.next] at h
  split at h
  · next a' u hr =>
    change ((tail.run u).1.map (a', ·), (tail.run u).2) = _ at h
    cases htail : tail.run u with
    | mk o v =>
      rw [htail] at h
      cases o <;> cases h
      exact ⟨u, matched_demand hr, htail⟩
  · cases h
  · cases h

theorem rest_abandon (s trial : State) (o : Obstacle) : (s.abandon trial o).rest = s.rest := by
  unfold State.abandon
  split
  · rfl
  · split <;> rfl

theorem rest_note (s : State) (o : Obstacle) : (s.note o).rest = s.rest := by
  unfold State.note
  split <;> rfl

theorem rest_accept (s trial : State) : (s.accept trial).rest = trial.rest := by
  unfold State.accept
  split <;> rfl

/-- A choice matches by one of its alternatives, tried at the same place. -/
theorem matched_choice {rs : List (Rule α)} {s t : State} {a : α}
    (h : (choice rs).run s = (.matched a, t)) :
    ∃ r ∈ rs, ∃ u v, u.rest = s.rest ∧ v.rest = t.rest ∧ r.run u = (.matched a, v) := by
  have key (rs : List (Rule α)) (u : State) (failed : Option (Nat × Obstacle))
      (hu : u.rest = s.rest) (hrun : tryAll u failed rs = (.matched a, t)) :
      ∃ r ∈ rs, ∃ u v, u.rest = s.rest ∧ v.rest = t.rest ∧ r.run u = (.matched a, v) := by
    induction rs generalizing u failed with
    | nil =>
      unfold tryAll at hrun
      split at hrun <;> cases hrun
    | cons r rs ih =>
      unfold tryAll at hrun
      cases hr : r.run u with
      | mk o v =>
        rw [hr] at hrun
        cases o with
        | matched b =>
          cases hrun
          exact ⟨r, by simp, u, v, hu, (rest_accept u v).symm, hr⟩
        | absent =>
          obtain ⟨r', hr', found⟩ := ih u failed hu hrun
          exact ⟨r', by simp [hr'], found⟩
        | stopped o =>
          obtain ⟨r', hr', found⟩ := ih _ _ ((rest_abandon u v o).trans hu) hrun
          exact ⟨r', by simp [hr'], found⟩
  exact key rs s none rfl h

theorem ne_nil_of_atLeastOnce {r : Rule α} {s t : State} {as : List α}
    (h : (Rule.atLeastOnce r).run s = (.matched as, t)) : as ≠ [] := by
  have hfst := congrArg Prod.fst h
  change (if (repeated r s).1.isEmpty then Outcome.absent else .matched (repeated r s).1) = _
    at hfst
  split at hfst
  · cases hfst
  · next hempty =>
    cases hfst
    simpa using hempty

theorem matched_of_parse {r : Rule α} {ts : List Token} {a : α}
    (h : (r.parse ts).toOption = some a) : ∃ s, r.run (State.start ts) = (.matched a, s) := by
  unfold parse at h
  split at h
  · cases h
  · next b s hrun =>
    split at h
    · cases h
      exact ⟨s, hrun⟩
    · cases h
  · cases h

/-- Every match of the rule takes such a token first. -/
def Starts (r : Rule α) (P : Token → Prop) : Prop :=
  ∀ s a t, r.run s = (.matched a, t) → ∃ token ∈ s.rest.head?, P token

theorem starts_token (cls : TokenClass) (shown : String) :
    (token cls shown).Starts (·.cls = cls) := by
  intro s a t h
  obtain ⟨token, hrest, htest, _⟩ := matched_accepting h
  exact ⟨token, by simp [hrest], by simpa using htest⟩

theorem starts_literal (value : String) : (literal value).Starts (·.value = value) := by
  intro s a t h
  obtain ⟨token, hrest, htest, _⟩ := matched_accepting h
  exact ⟨token, by simp [hrest], by simpa using htest⟩

theorem Starts.map {r : Rule α} {P : Token → Prop} (h : r.Starts P) (f : α → β) :
    (r.map f).Starts P := by
  intro s b t hrun
  obtain ⟨a, ha, _⟩ := matched_map hrun
  exact h s a t ha

theorem Starts.named {r : Rule α} {P : Token → Prop} (h : r.Starts P) (name : String) :
    (r.named name).Starts P := by
  intro s a t hrun
  exact h s a t (matched_named hrun)

theorem Starts.seq {r : Rule α} {P : Token → Prop} (h : r.Starts P) (tail : Tail β) :
    (Rule.seq r tail).Starts P := by
  intro s (a, b) t hrun
  obtain ⟨u, hr, _⟩ := matched_seq hrun
  exact h s a u hr

theorem starts_choice {rs : List (Rule α)} {P : Token → Prop} (h : ∀ r ∈ rs, r.Starts P) :
    (choice rs).Starts P := by
  intro s a t hrun
  obtain ⟨r, hr, u, v, hu, _, hmatch⟩ := matched_choice hrun
  rw [← hu]
  exact h r hr u a v hmatch

theorem Starts.mono {r : Rule α} {P Q : Token → Prop} (h : r.Starts P) (hPQ : ∀ t, P t → Q t) :
    r.Starts Q := by
  intro s a t hrun
  obtain ⟨token, htoken, hP⟩ := h s a t hrun
  exact ⟨token, htoken, hPQ token hP⟩

end Rule

open Rule

def beginsCondition (t : Token) : Prop :=
  t.cls = .varRef ∨ t.cls = .number ∨ t.cls = .text ∨ t.value = "."

private theorem starts_condition : condition.Starts beginsCondition := by
  have hvalue : numberOrText.Starts beginsCondition := by
    refine starts_choice fun r hr => ?_
    simp only [List.mem_cons, List.not_mem_nil, or_false] at hr
    rcases hr with rfl | rfl
    · exact (starts_token _ _).mono fun t ht => .inr (.inl ht)
    · exact (starts_token _ _).mono fun t ht => .inr (.inr (.inl ht))
  have hleft : (choice [varRef, literal "."]).Starts beginsCondition := by
    refine starts_choice fun r hr => ?_
    simp only [List.mem_cons, List.not_mem_nil, or_false] at hr
    rcases hr with rfl | rfl
    · exact (starts_token _ _).mono fun t ht => .inl ht
    · exact (starts_literal _).mono fun t ht => .inr (.inr (.inr ht))
  refine Starts.named (starts_choice fun r hr => ?_) "Condition"
  simp only [List.mem_cons, List.not_mem_nil, or_false] at hr
  rcases hr with rfl | rfl
  · exact (hleft.seq _).map _
  · exact hvalue.map _

/-- How the header of a block begins: its word, and behind it a condition or the name of a
group. -/
inductive SurveyLine.HeaderTokens : SurveyLine → List Token → Prop
  | conditional {c : Condition} {first second : Token} {rest : List Token}
      (hword : first.value = "if") (hcondition : beginsCondition second) :
      HeaderTokens (.conditional c) (first :: second :: rest)
  | group {kind : GroupKind} {name : String} {label : Option String} {params : List Param}
      {c : Option Condition} {first second : Token} {rest : List Token}
      (hword : first.value = kind.word) (hname : second.cls = .ident) :
      HeaderTokens (.group kind name label params c) (first :: second :: rest)

def SurveyLine.isHeader : SurveyLine → Bool
  | .conditional _ | .group _ _ _ _ _ => true
  | _ => false

private theorem matched_groupWord {s t : State} {kind : GroupKind}
    (h : groupWord.run s = (.matched kind, t)) :
    ∃ token, s.rest = token :: t.rest ∧ token.value = kind.word := by
  obtain ⟨r, hr, u, v, hu, hv, hmatch⟩ := matched_choice h
  rw [← hu, ← hv]
  simp only [List.mem_cons, List.not_mem_nil, or_false] at hr
  rcases hr with rfl | rfl
  · obtain ⟨_, hword, rfl⟩ := matched_map hmatch
    obtain ⟨token, hrest, htest, _⟩ := matched_accepting hword
    exact ⟨token, hrest, of_decide_eq_true htest⟩
  · obtain ⟨_, hword, rfl⟩ := matched_map hmatch
    obtain ⟨token, hrest, htest, _⟩ := matched_accepting hword
    exact ⟨token, hrest, of_decide_eq_true htest⟩

theorem headerTokens_of_parse {ts : List Token} {line : SurveyLine}
    (h : (surveyLine.parse ts).toOption = some line) (hheader : line.isHeader) :
    line.HeaderTokens ts := by
  obtain ⟨s, hrun⟩ := matched_of_parse h
  obtain ⟨r, hr, u, v, hu, _, hmatch⟩ := matched_choice (matched_named hrun)
  replace hu : u.rest = ts := hu
  simp only [List.mem_cons, List.not_mem_nil, or_false] at hr
  rcases hr with rfl | rfl | rfl | rfl
  · obtain ⟨⟨_, name, first, others⟩, _, rfl⟩ := matched_map hmatch
    cases hheader
  · obtain ⟨⟨_, c⟩, hseq, rfl⟩ := matched_map hmatch
    obtain ⟨w, hif, hlast⟩ := matched_seq hseq
    obtain ⟨first, hfirst, hvalue, _⟩ := matched_accepting hif
    have hstart := ((starts_condition.seq _).map _).named "IfLine" w c v (matched_demand hlast)
    obtain ⟨second, hsecond, hbegins⟩ := hstart
    obtain ⟨rest, hrest⟩ := List.head?_eq_some_iff.mp hsecond
    rw [← hu, hfirst, hrest]
    exact .conditional (of_decide_eq_true hvalue) hbegins
  · obtain ⟨⟨kind, name, label, params, c, colon⟩, hseq, rfl⟩ := matched_map (matched_named hmatch)
    obtain ⟨w, hkind, hnext⟩ := matched_seq hseq
    obtain ⟨x, hname, _⟩ := matched_next hnext
    obtain ⟨first, hfirst, hvalue⟩ := matched_groupWord hkind
    obtain ⟨second, hsecond, hident, _⟩ := matched_accepting hname
    rw [← hu, hfirst, hsecond]
    exact .group hvalue (of_decide_eq_true hident)
  · obtain ⟨⟨name, type, _, label, params⟩, _, rfl⟩ := matched_map (matched_named hmatch)
    cases hheader

end SurveyForms.Grammar
