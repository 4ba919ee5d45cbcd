import SurveyForms.Proofs.TextPlaces

/-! Putting bound texts in is one pass over the references of a source. Main statement: either every
reference that is found from left to right gives way to the text that is bound to its name, with
all text in between as it was, or the first one without a bound text is reported at its place. -/
namespace SurveyForms

open Text

namespace Text

/-- A text from a place on, with another text in place of each of these references. -/
def spliced (opening cs : List Char) (value : String → String) : Nat → List Mention → List Char
  | start, [] => cs.drop start
  | start, m :: ms =>
    (cs.take m.start).drop start ++ (value m.text).toList ++
      spliced opening cs value (m.stop opening) ms

/-- The character in front of all references stays where it is. -/
theorem spliced_succ {opening cs rest : List Char} {value : String → String} {c : Char}
    {start : Nat} {ms : List Mention} (h : cs.drop start = c :: rest)
    (hms : ∀ m ∈ ms, start + 1 ≤ m.start) :
    spliced opening cs value start ms = c :: spliced opening cs value (start + 1) ms := by
  have hrest := drop_succ_of_cons h
  cases ms with
  | nil => rw [spliced, spliced, h, hrest]
  | cons m ms =>
    obtain ⟨room, hroom⟩ := Nat.exists_eq_add_of_le (hms m List.mem_cons_self)
    have hfront : (cs.take m.start).drop start = c :: (cs.take m.start).drop (start + 1) := by
      rw [List.drop_take, List.drop_take, h, hrest, hroom,
        show start + 1 + room - start = room + 1 by omega, List.take_succ_cons]
      congr 2
      omega
    rw [spliced, spliced, hfront, List.cons_append, List.cons_append]

end Text

namespace Source

/-- What comes of the references of a source that are found from a place on. -/
def Outcome (cs : List Char) (bindings : Row) (start : Nat) (ms : List Mention)
    (result : Except (Nat × String) (List Char)) : Prop :=
  (∀ value : String → String, (∀ m ∈ ms, bindings.get? m.text = some (value m.text)) →
    result = .ok (spliced opening cs value start ms)) ∧
  ∀ before m behind, ms = before ++ m :: behind → (∀ n ∈ before, bindings.get? n.text ≠ none) →
    bindings.get? m.text = none → result = .error (byteLength (cs.take m.start), m.text)

section Outcome
variable {cs : List Char} {bindings : Row} {start : Nat} {ms : List Mention}
  {result : Except (Nat × String) (List Char)}

theorem outcome_nil : Outcome cs bindings start [] (.ok (cs.drop start)) :=
  ⟨fun _ _ => rfl, fun before _ _ h => absurd h.symm (List.append_ne_nil_of_right_ne_nil before
    (List.cons_ne_nil _ _))⟩

/-- The character in front of all references is kept. -/
theorem Outcome.plain {c : Char} {rest : List Char} (hcs : cs.drop start = c :: rest)
    (hms : ∀ m ∈ ms, start + 1 ≤ m.start) (h : Outcome cs bindings (start + 1) ms result) :
    Outcome cs bindings start ms (result.map ([c] ++ ·)) := by
  refine ⟨fun value hvalue => ?_, fun before m behind hsplit hbefore hm => ?_⟩
  · rw [h.1 value hvalue, spliced_succ hcs hms]
    rfl
  · rw [h.2 before m behind hsplit hbefore hm]
    rfl

/-- The text that is bound to the name of the first reference is put in. -/
theorem Outcome.bound {m : Mention} {put : String} (hput : bindings.get? m.text = some put)
    (h : Outcome cs bindings (m.stop opening) ms result) :
    Outcome cs bindings m.start (m :: ms) (result.map (put.toList ++ ·)) := by
  refine ⟨fun value hvalue => ?_, fun before n behind hsplit hbefore hn => ?_⟩
  · obtain ⟨hfirst, hrest⟩ := List.forall_mem_cons.mp hvalue
    rw [h.1 value hrest, spliced, List.drop_take_self, List.nil_append,
      Option.some.inj (hfirst.symm.trans hput)]
    rfl
  · cases before with
    | nil =>
      cases hsplit
      rw [hput] at hn
      cases hn
    | cons _ before =>
      cases hsplit
      rw [h.2 before n behind rfl (fun k hk => hbefore k (List.mem_cons_of_mem _ hk)) hn]
      rfl

/-- Nothing is put in once a reference has no text to give way to. -/
theorem outcome_unbound {m : Mention} (h : bindings.get? m.text = none) :
    Outcome cs bindings start (m :: ms) (.error (byteLength (cs.take m.start), m.text)) := by
  refine ⟨fun value hvalue => ?_, fun before n behind hsplit hbefore hn => ?_⟩
  · rw [hvalue m List.mem_cons_self] at h
    cases h
  · cases before with
    | nil =>
      cases hsplit
      rfl
    | cons _ before =>
      cases hsplit
      exact absurd h (hbefore _ List.mem_cons_self)

end Outcome

theorem byteLength_take_add (cs a : List Char) {start : Nat} {rest : List Char}
    (h : cs.drop start = a ++ rest) :
    byteLength (cs.take (start + a.length)) = byteLength (cs.take start) + byteLength a := by
  rw [List.take_add, h, List.take_left, byteLength_append]

/-- Reading a source from a place on, piece by piece, does what its references ask for. -/
theorem outcome_replace {cs rest : List Char} {bindings : Row} {start : Nat}
    (h : cs.drop start = rest) :
    Outcome cs bindings start (mentions opening start (pieces opening rest))
      (replace bindings (byteLength (cs.take start)) (pieces opening rest)) := by
  fun_induction pieces opening rest generalizing start with
  | case1 rest name more href ih =>
    let m : Mention := ⟨start, name⟩
    have htext : cs.drop m.start = opening ++ m.name ++ '\x7d' :: more :=
      h.trans (reference?_eq_some_iff.mp href).2.2
    have hoffset : byteLength (cs.take (m.stop opening)) = byteLength (cs.take m.start) +
        byteLength ((Piece.reference name).source opening) := by
      have hsource : cs.drop m.start = (Piece.reference name).source opening ++ more := by
        rw [htext, Piece.source]
        simp [m]
      rw [← byteLength_take_add cs _ hsource]
      simp [m, Mention.stop, Piece.source, Nat.add_assoc]
    have hrest := ih (drop_stop htext)
    rw [hoffset] at hrest
    rcases replace_cons bindings (byteLength (cs.take start)) (.reference name)
        (pieces opening more) with ⟨put, hput, hreplace⟩ | ⟨_, hname, hnone, hreplace⟩
    · rw [hreplace]
      cases hput with
      | reference hbound => exact hrest.bound hbound
    · cases hname
      rw [hreplace]
      exact outcome_unbound hnone
  | case2 href =>
    have hend : Outcome cs bindings start [] (.ok (cs.drop start)) := outcome_nil
    rw [h] at hend
    exact hend
  | case3 c rest href ih =>
    have hdrop := drop_succ_of_cons h
    have hoffset := byteLength_take_add cs [c] h
    have hrest := ih hdrop
    rw [List.length_singleton] at hoffset
    rw [hoffset] at hrest
    rcases replace_cons bindings (byteLength (cs.take start)) (.plain c)
        (pieces opening rest) with ⟨put, hput, hreplace⟩ | ⟨_, hname, _⟩
    · rw [hreplace]
      cases hput
      exact hrest.plain h (found_mentions hdrop).le_start
    · cases hname

/-- Putting texts in is one pass from left to right. The references of a source are found in just
one way. If every name is bound, each reference gives way to its text. If not, the first unbound
one is reported where it starts in the source. -/
theorem substitute_one_pass (file src : String) (bindings : Row) :
    (∃! ms, Found opening src.toList 0 ms) ∧ ∀ ms, Found opening src.toList 0 ms →
      (∀ value : String → String, (∀ m ∈ ms, bindings.get? m.text = some (value m.text)) →
        substitute file src bindings =
          .ok (String.ofList (spliced opening src.toList value 0 ms))) ∧
      ∀ before m behind, ms = before ++ m :: behind →
        (∀ n ∈ before, bindings.get? n.text ≠ none) → bindings.get? m.text = none →
          substitute file src bindings =
            .error ⟨Position.ofChar file src m.start, .unboundName m.text⟩ := by
  refine ⟨⟨_, found_iff.mpr rfl, fun ms h => found_iff.mp h⟩, fun ms h => ?_⟩
  have houtcome : Outcome src.toList bindings 0 (mentions opening 0 (pieces opening src.toList))
      (replace bindings _ (pieces opening src.toList)) := outcome_replace rfl
  rw [← found_iff.mp h] at houtcome
  obtain ⟨hbound, hunbound⟩ := houtcome
  constructor
  · intro value hvalue
    have hreplace := hbound value hvalue
    simp only [List.take_zero, byteLength] at hreplace
    rw [substitute, hreplace]
  · intro before m behind hms hbefore hm
    have hreplace := hunbound before m behind hms hbefore hm
    simp only [List.take_zero, byteLength] at hreplace
    rw [substitute, hreplace]
    simp only [Position.ofOffset_byteLength]

end Source
end SurveyForms
