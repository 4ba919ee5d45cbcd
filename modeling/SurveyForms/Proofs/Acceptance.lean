import SurveyForms.Proofs.Matching

/-! From tokens to a match. Rules look at the class and the value of a token only, so it is enough
to know these: `Reads` says that a rule takes the tokens in front of it, `Refuses` that it takes
none of them. Faults met before change nothing here. -/
namespace SurveyForms.Grammar

open Source (Token TokenClass)

/-- What rules see of a token. -/
abbrev Sign := TokenClass × String

def sign (t : Token) : Sign := (t.cls, t.value)

def State.signs (s : State) : List Sign := s.rest.map sign

/-- Wherever these signs come next, in front of `more`, the rule takes them with this value. -/
def Rule.Reads (r : Rule α) (taken : List Sign) (a : α) (more : List Sign) : Prop :=
  ∀ s : State, s.signs = taken ++ more → ∃ t, r.run s = (.matched a, t) ∧ t.signs = more

/-- Wherever these signs come next, the rule does not match, and moves on only if it had begun. -/
def Rule.Refuses (r : Rule α) (more : List Sign) : Prop :=
  ∀ s : State, s.signs = more →
    (∃ t, r.run s = (.absent, t) ∧ t.signs = more) ∨ ∃ o t, r.run s = (.stopped o, t)

def Tail.Reads (t : Tail α) (taken : List Sign) (a : α) (more : List Sign) : Prop :=
  ∀ s : State, s.signs = taken ++ more → ∃ u, t.run s = (.matched a, u) ∧ u.signs = more

def Tail.Stops (t : Tail α) (more : List Sign) : Prop :=
  ∀ s : State, s.signs = more → ∃ o u, t.run s = (.stopped o, u)

namespace State

theorem signs_accept (s trial : State) : (s.accept trial).signs = trial.signs := by
  rw [signs, Rule.rest_accept, signs]

theorem signs_abandon (s trial : State) (o : Obstacle) : (s.abandon trial o).signs = s.signs := by
  rw [signs, Rule.rest_abandon, signs]

theorem signs_note (s : State) (o : Obstacle) : (s.note o).signs = s.signs := by
  rw [signs, Rule.rest_note, signs]

end State

namespace Rule

private theorem accepting_reads {test : Token → Bool} {x : Sign}
    (htest : ∀ t, sign t = x → test t) {s : State} {more : List Sign}
    (hs : s.signs = x :: more) :
    ∃ t, accepting test s = (.matched x.2, t) ∧ t.signs = more := by
  obtain ⟨t, rest, hrest, hsign, hmore⟩ := List.map_eq_cons_iff.mp hs
  refine ⟨{ s with rest, passed := s.passed + 1 }, ?_, hmore⟩
  simp only [accepting, hrest, htest t hsign, if_true, ← hsign]
  rfl

private theorem accepting_refuses {test : Token → Bool} {s : State}
    (htest : ∀ t, sign t ∈ s.signs.head? → ¬ test t) : accepting test s = (.absent, s) := by
  unfold accepting
  split
  · next t rest hrest =>
    rw [if_neg (htest t (by simp [State.signs, hrest]))]
  · rfl

theorem reads_token (cls : TokenClass) (shown value : String) (more : List Sign) :
    (token cls shown).Reads [(cls, value)] value more :=
  fun _ hs => accepting_reads (fun _ ht => decide_eq_true (Prod.ext_iff.mp ht).1) hs

theorem refuses_token {cls : TokenClass} (shown : String) {more : List Sign}
    (h : ∀ x ∈ more.head?, x.1 ≠ cls) : (token cls shown).Refuses more := by
  rintro s rfl
  exact .inl ⟨s, accepting_refuses fun t ht => fun heq => h _ ht (of_decide_eq_true heq), rfl⟩

theorem reads_literal (cls : TokenClass) (value : String) (more : List Sign) :
    (literal value).Reads [(cls, value)] value more :=
  fun _ hs => accepting_reads (fun _ ht => decide_eq_true (Prod.ext_iff.mp ht).2) hs

theorem refuses_literal {value : String} {more : List Sign}
    (h : ∀ x ∈ more.head?, x.2 ≠ value) : (literal value).Refuses more := by
  rintro s rfl
  exact .inl ⟨s, accepting_refuses fun t ht => fun heq => h _ ht (of_decide_eq_true heq), rfl⟩

theorem Reads.map {r : Rule α} {taken more : List Sign} {a : α} (h : r.Reads taken a more)
    (f : α → β) : (r.map f).Reads taken (f a) more := by
  intro s hs
  obtain ⟨t, hrun, ht⟩ := h s hs
  refine ⟨t, ?_, ht⟩
  show ((r.run s).1.map f, (r.run s).2) = _
  rw [hrun]
  rfl

theorem Refuses.map {r : Rule α} {more : List Sign} (h : r.Refuses more) (f : α → β) :
    (r.map f).Refuses more := by
  intro s hs
  show (∃ t, ((r.run s).1.map f, (r.run s).2) = _ ∧ _) ∨
    ∃ o t, ((r.run s).1.map f, (r.run s).2) = _
  obtain ⟨t, hrun, ht⟩ | ⟨o, t, hrun⟩ := h s hs
  · exact .inl ⟨t, by rw [hrun]; rfl, ht⟩
  · exact .inr ⟨o, t, by rw [hrun]; rfl⟩

theorem Reads.named {r : Rule α} {taken more : List Sign} {a : α} (h : r.Reads taken a more)
    (name : String) : (r.named name).Reads taken a more := by
  intro s hs
  obtain ⟨t, hrun, ht⟩ := h s hs
  exact ⟨t, by simp only [Rule.named, hrun], ht⟩

theorem Refuses.named {r : Rule α} {more : List Sign} (h : r.Refuses more) (name : String) :
    (r.named name).Refuses more := by
  intro s hs
  obtain ⟨t, hrun, ht⟩ | ⟨o, t, hrun⟩ := h s hs
  · exact .inl ⟨t, by simp only [Rule.named, hrun], ht⟩
  · exact .inr ⟨o, t.note o, by simp only [Rule.named, hrun]⟩

/-- An alternative is reached if those in front of it refuse. -/
theorem reads_choice (before after : List (Rule α)) {r : Rule α} {taken more : List Sign} {a : α}
    (hbefore : ∀ r ∈ before, r.Refuses (taken ++ more)) (h : r.Reads taken a more) :
    (choice (before ++ r :: after)).Reads taken a more := by
  have key (s : State) (failed : Option (Nat × Obstacle)) (hs : s.signs = taken ++ more) :
      ∃ t, tryAll s failed (before ++ r :: after) = (.matched a, t) ∧ t.signs = more := by
    induction before generalizing s failed with
    | nil =>
      obtain ⟨t, hrun, ht⟩ := h s hs
      refine ⟨s.accept t, ?_, (s.signs_accept t).trans ht⟩
      simp only [List.nil_append, tryAll, hrun]
    | cons b before ih =>
      obtain ⟨hb, hbefore⟩ := List.forall_mem_cons.mp hbefore
      obtain ⟨t, hrun, _⟩ | ⟨o, t, hrun⟩ := hb s hs
      · obtain ⟨u, hu, hmore⟩ := ih hbefore s failed hs
        exact ⟨u, by simpa only [List.cons_append, tryAll, hrun] using hu, hmore⟩
      · simp only [List.cons_append, tryAll, hrun]
        exact ih hbefore _ _ ((s.signs_abandon t o).trans hs)
  exact fun s hs => key s none hs

theorem refuses_choice {rs : List (Rule α)} {more : List Sign} (h : ∀ r ∈ rs, r.Refuses more) :
    (choice rs).Refuses more := by
  have key (s : State) (failed : Option (Nat × Obstacle)) (hs : s.signs = more) :
      (∃ t, tryAll s failed rs = (.absent, t) ∧ t.signs = more) ∨
        ∃ o t, tryAll s failed rs = (.stopped o, t) := by
    induction rs generalizing s failed with
    | nil =>
      cases failed with
      | none => exact .inl ⟨s, rfl, hs⟩
      | some x => exact .inr ⟨x.2, s.note x.2, rfl⟩
    | cons r rs ih =>
      obtain ⟨hr, hrs⟩ := List.forall_mem_cons.mp h
      obtain ⟨t, hrun, _⟩ | ⟨o, t, hrun⟩ := hr s hs
      · simpa only [tryAll, hrun] using ih hrs s failed hs
      · simp only [tryAll, hrun]
        exact ih hrs _ _ ((s.signs_abandon t o).trans hs)
  exact fun s hs => key s none hs

theorem Reads.optional {r : Rule α} {taken more : List Sign} {a : α} (h : r.Reads taken a more) :
    (Rule.optional r).Reads taken (some a) more := by
  intro s hs
  obtain ⟨t, hrun, ht⟩ := h s hs
  exact ⟨s.accept t, by simp only [Rule.optional, hrun], (s.signs_accept t).trans ht⟩

theorem Refuses.optional {r : Rule α} {more : List Sign} (h : r.Refuses more) :
    (Rule.optional r).Reads [] none more := by
  intro s hs
  obtain ⟨t, hrun, ht⟩ | ⟨o, t, hrun⟩ := h s hs
  · exact ⟨s.accept t, by simp only [Rule.optional, hrun], (s.signs_accept t).trans ht⟩
  · refine ⟨(s.note o).abandon t o, by simp only [Rule.optional, hrun], ?_⟩
    rw [State.signs_abandon, State.signs_note, hs]
    rfl

/-- A repetition takes all matches in a row, and ends where the rule refuses. -/
private theorem repeated_reads {r : Rule α} {f : γ → List Sign} {v : γ → α} {xs : List γ}
    {more : List Sign} (hne : ∀ x ∈ xs, f x ≠ []) (h : ∀ x ∈ xs, ∀ more, r.Reads (f x) (v x) more)
    (hmore : r.Refuses more) {s : State} (hs : s.signs = xs.flatMap f ++ more) :
    ∃ t, repeated r s = (xs.map v, t) ∧ t.signs = more := by
  induction xs generalizing s with
  | nil =>
    unfold repeated
    obtain ⟨t, hrun, ht⟩ | ⟨o, t, hrun⟩ := hmore s hs
    · exact ⟨s.accept t, by simp only [hrun, List.map_nil], (s.signs_accept t).trans ht⟩
    · refine ⟨(s.note o).abandon t o, by simp only [hrun, List.map_nil], ?_⟩
      rw [State.signs_abandon, State.signs_note, hs]
      rfl
  | cons x xs ih =>
    obtain ⟨hx, hxs⟩ := List.forall_mem_cons.mp h
    obtain ⟨hnx, hnxs⟩ := List.forall_mem_cons.mp hne
    rw [List.flatMap_cons, List.append_assoc] at hs
    obtain ⟨t, hrun, ht⟩ := hx _ s hs
    have ht : (s.accept t).signs = xs.flatMap f ++ more := (s.signs_accept t).trans ht
    have hlt : (s.accept t).rest.length < s.rest.length := by
      have hs := congrArg List.length hs
      have ht := congrArg List.length ht
      have := List.length_pos_iff.mpr hnx
      simp only [State.signs, List.length_map, List.length_append] at hs ht
      omega
    obtain ⟨u, hu, hlast⟩ := ih hnxs hxs ht
    refine ⟨u, ?_, hlast⟩
    unfold repeated
    simp only [hrun, if_pos hlt, hu, List.map_cons]

theorem reads_many {r : Rule α} {f : γ → List Sign} {v : γ → α} {xs : List γ} {more : List Sign}
    (hne : ∀ x ∈ xs, f x ≠ []) (h : ∀ x ∈ xs, ∀ more, r.Reads (f x) (v x) more)
    (hmore : r.Refuses more) : (many r).Reads (xs.flatMap f) (xs.map v) more := by
  intro s hs
  obtain ⟨t, hrun, ht⟩ := repeated_reads hne h hmore hs
  exact ⟨t, by simp only [many, hrun], ht⟩

theorem reads_atLeastOnce {r : Rule α} {f : α → List Sign} {as : List α} {more : List Sign}
    (has : as ≠ []) (hne : ∀ a ∈ as, f a ≠ []) (h : ∀ a ∈ as, ∀ more, r.Reads (f a) a more)
    (hmore : r.Refuses more) : (atLeastOnce r).Reads (as.flatMap f) as more := by
  intro s hs
  obtain ⟨t, hrun, ht⟩ := repeated_reads (v := id) hne h hmore hs
  exact ⟨t, by simp [atLeastOnce, hrun, has], ht⟩

end Rule

namespace Tail

private theorem demand_reads {r : Rule α} {taken more : List Sign} {a : α}
    (h : r.Reads taken a more) (shown : String) {s : State} (hs : s.signs = taken ++ more) :
    ∃ t, demand shown r s = (.matched a, t) ∧ t.signs = more := by
  obtain ⟨t, hrun, ht⟩ := h s hs
  exact ⟨t, by simp only [demand, hrun], ht⟩

private theorem demand_stops {r : Rule α} {more : List Sign} (h : r.Refuses more) (shown : String)
    {s : State} (hs : s.signs = more) : ∃ o t, demand shown r s = (.stopped o, t) := by
  obtain ⟨t, hrun, _⟩ | ⟨o, t, hrun⟩ := h s hs
  · exact ⟨t.obstacle (some shown), t, by simp only [demand, hrun]⟩
  · exact ⟨o, t, by simp only [demand, hrun]⟩

theorem reads_last {r : Rule α} {taken more : List Sign} {a : α} (h : r.Reads taken a more) :
    (last r).Reads taken a more := fun _ hs => demand_reads h r.shown hs

theorem stops_last {r : Rule α} {more : List Sign} (h : r.Refuses more) : (last r).Stops more :=
  fun _ hs => demand_stops h r.shown hs

theorem reads_next {r : Rule α} {t : Tail β} {taken taken' more : List Sign} {a : α} {b : β}
    (h : r.Reads taken a (taken' ++ more)) (ht : t.Reads taken' b more) :
    (next r t).Reads (taken ++ taken') (a, b) more := by
  intro s hs
  rw [List.append_assoc] at hs
  obtain ⟨u, hu, hmid⟩ := demand_reads h (r.shown ++ " " ++ t.shown) hs
  obtain ⟨v, hv, hmore⟩ := ht u hmid
  exact ⟨v, by simp only [next, hu, hv]; rfl, hmore⟩

/-- The last part of a line. -/
theorem reads_next_end {r : Rule α} {t : Tail β} {taken rest : List Sign} {a : α} {b : β}
    (h : r.Reads taken a rest) (ht : t.Reads rest b []) :
    (next r t).Reads (taken ++ rest) (a, b) [] := reads_next (by rwa [List.append_nil]) ht

theorem stops_next {r : Rule α} {more : List Sign} (h : r.Refuses more) (t : Tail β) :
    (next r t).Stops more := by
  intro s hs
  obtain ⟨o, u, hu⟩ := demand_stops h (r.shown ++ " " ++ t.shown) hs
  exact ⟨o, u, by simp only [next, hu]⟩

/-- A tail stops where one of its later rules does. -/
theorem stops_next_of_stops {r : Rule α} {t : Tail β} {taken more : List Sign} {a : α}
    (h : r.Reads taken a more) (ht : t.Stops more) : (next r t).Stops (taken ++ more) := by
  intro s hs
  obtain ⟨u, hu, hmid⟩ := demand_reads h (r.shown ++ " " ++ t.shown) hs
  obtain ⟨o, v, hv⟩ := ht u hmid
  exact ⟨o, v, by simp only [next, hu, hv]; rfl⟩

theorem reads_seq {r : Rule α} {t : Tail β} {taken taken' more : List Sign} {a : α} {b : β}
    (h : r.Reads taken a (taken' ++ more)) (ht : t.Reads taken' b more) :
    (Rule.seq r t).Reads (taken ++ taken') (a, b) more := by
  intro s hs
  rw [List.append_assoc] at hs
  obtain ⟨u, hu, hmid⟩ := h s hs
  obtain ⟨v, hv, hmore⟩ := ht u hmid
  exact ⟨v, by simp only [Rule.seq, hu, hv]; rfl, hmore⟩

/-- A whole line. -/
theorem reads_seq_end {r : Rule α} {t : Tail β} {taken rest : List Sign} {a : α} {b : β}
    (h : r.Reads taken a rest) (ht : t.Reads rest b []) :
    (Rule.seq r t).Reads (taken ++ rest) (a, b) [] := reads_seq (by rwa [List.append_nil]) ht

/-- A sequence whose first rule refuses is refused. -/
theorem refuses_seq {r : Rule α} {more : List Sign} (h : r.Refuses more) (t : Tail β) :
    (Rule.seq r t).Refuses more := by
  intro s hs
  obtain ⟨u, hu, hmore⟩ | ⟨o, u, hu⟩ := h s hs
  · exact .inl ⟨u, by simp only [Rule.seq, hu], hmore⟩
  · exact .inr ⟨o, u, by simp only [Rule.seq, hu]⟩

/-- A sequence that has begun is refused where its tail stops. -/
theorem refuses_seq_of_stops {r : Rule α} {t : Tail β} {taken more : List Sign} {a : α}
    (h : r.Reads taken a more) (ht : t.Stops more) : (Rule.seq r t).Refuses (taken ++ more) := by
  intro s hs
  obtain ⟨u, hu, hmid⟩ := h s hs
  obtain ⟨o, v, hv⟩ := ht u hmid
  exact .inr ⟨o, v, by simp only [Rule.seq, hu, hv]; rfl⟩

end Tail

/-- A line is read if a rule reads all its signs. -/
theorem Rule.Reads.parse {r : Rule α} {ts : List Token} {a : α} (h : r.Reads (ts.map sign) a []) :
    r.parse ts = .ok a := by
  obtain ⟨t, hrun, ht⟩ := h (State.start ts) (by rw [List.append_nil]; rfl)
  have hempty : t.rest.isEmpty := by
    rw [List.isEmpty_iff]
    exact List.map_eq_nil_iff.mp ht
  simp only [Rule.parse, hrun, hempty, if_true]

/-- A line is refused if a rule leaves some of its signs. -/
theorem Rule.Reads.toOption_parse {r : Rule α} {ts : List Token} {taken more : List Sign} {a : α}
    (h : r.Reads taken a more) (hts : ts.map sign = taken ++ more) (hmore : more ≠ []) :
    (r.parse ts).toOption = none := by
  obtain ⟨t, hrun, ht⟩ := h (State.start ts) hts
  have hempty : ¬ t.rest.isEmpty := by
    rw [List.isEmpty_iff]
    rintro hnil
    exact hmore (by rw [← ht, State.signs, hnil, List.map_nil])
  simp only [Rule.parse, hrun, if_neg hempty]
  rfl

end SurveyForms.Grammar
