import Mathlib.Data.List.Forall2
import SurveyForms.Proofs.Matching

/-! The productions of the grammar of one line, as rows of slots: what may stand at each place of
a line with these parts. Main result: a line that was read fills its slots, the words of the
grammar told by their text alone. -/
namespace SurveyForms

namespace Grammar

open Source (Token TokenClass)

/-- A place in a line: the classes of tokens that belong there, the text of the token, and whether
the grammar fixes that text. -/
structure Slot where
  classes : List TokenClass
  value : String
  fixed : Bool
  deriving DecidableEq, Repr

namespace Slot

def keyword (s : String) : Slot := ⟨[.ident], s, true⟩

def mark (s : String) : Slot := ⟨[.punct], s, true⟩

def ident (s : String) : Slot := ⟨[.ident], s, false⟩

def literal (s : String) : Slot := ⟨[.number, .text], s, false⟩

def argument (s : String) : Slot := ⟨[.ident, .number, .text], s, false⟩

def operator (s : String) : Slot := ⟨[.operator], s, false⟩

/-- The left side of a comparison: a dot or a reference. -/
def operand (s : String) : Slot := if s = "." then mark "." else ⟨[.varRef], s, false⟩

/-- The token belongs there. -/
def Admits (slot : Slot) (t : Token) : Prop := t.cls ∈ slot.classes ∧ t.value = slot.value

/-- The token is taken there by a rule, which looks at the class only where the text is free. -/
def Passes (slot : Slot) (t : Token) : Prop :=
  t.value = slot.value ∧ (slot.fixed = false → t.cls ∈ slot.classes)

end Slot

end Grammar

def Param.slots (p : Param) : List Grammar.Slot := [.ident p.key, .argument p.value]

def Condition.slots : Condition → List Grammar.Slot
  | .comparison left operator value => [.operand left, .operator operator, .literal value]
  | .literal value => [.literal value]

namespace Grammar

open Source (Token TokenClass)

def SurveyLine.slots : SurveyLine → List Slot
  | .command name first others =>
    .mark "@" :: .ident name :: (first :: others).map .argument
  | .conditional condition => .keyword "if" :: condition.slots ++ [.mark ":"]
  | .group kind name label params condition =>
    .keyword kind.word :: .ident name :: label.elim [] ([.literal ·]) ++
      params.flatMap (·.slots) ++ condition.elim [] (fun c => .keyword "if" :: c.slots) ++
      [.mark ":"]
  | .question name type label params =>
    .ident name :: type.map .ident ++ .mark ":" :: label.elim [] ([.literal ·]) ++
      params.flatMap (·.slots)

def ChoicesLine.slots : ChoicesLine → List Slot
  | .command name first others =>
    .mark "@" :: .ident name :: (first :: others).map .argument
  | .list name params =>
    .keyword "list" :: .ident name :: params.flatMap (·.slots) ++ [.mark ":"]
  | .choice value label params =>
    .literal value :: .literal label :: params.flatMap (·.slots)

/-- What a trial from `s` may do: a match takes tokens that fill the slots of its value, and a
rule that does not begin takes none. -/
def Outcome.Fills (f : α → List Slot) (s : State) : Outcome α × State → Prop
  | (.matched a, t) => ∃ taken, s.rest = taken ++ t.rest ∧ List.Forall₂ Slot.Passes (f a) taken
  | (.absent, t) => t.rest = s.rest
  | (.stopped _, _) => True

/-- A rule whose value says which slots its tokens fill. -/
def Rule.Fills (r : Rule α) (f : α → List Slot) : Prop := ∀ s, Outcome.Fills f s (r.run s)

/-- A tail whose value says which slots its tokens fill. It never counts as not begun. -/
def Tail.Fills (t : Tail α) (f : α → List Slot) : Prop :=
  ∀ s, Outcome.Fills f s (t.run s) ∧ (t.run s).1 ≠ .absent

namespace Outcome

/-- Only the tokens that are left count. -/
theorem Fills.congr {f : α → List Slot} {s s' : State} {result : Outcome α × State}
    (h : Fills f s result) (hs : s.rest = s'.rest) : Fills f s' result := by
  obtain ⟨o, t⟩ := result
  cases o with
  | matched a =>
    obtain ⟨taken, htaken, hfills⟩ := h
    exact ⟨taken, hs ▸ htaken, hfills⟩
  | absent => exact Eq.trans h hs
  | stopped o => trivial

end Outcome

namespace Rule

theorem fills_accepting {test : Token → Bool} {f : String → List Slot} (shown : String)
    (h : ∀ t, test t → List.Forall₂ Slot.Passes (f t.value) [t]) :
    (⟨shown, accepting test⟩ : Rule String).Fills f := by
  intro s
  simp only [accepting]
  split
  · next t rest hrest =>
    split
    · next htest => exact ⟨[t], hrest, h t htest⟩
    · rfl
  · rfl

theorem fills_token {cls : TokenClass} (shown : String) {slot : String → Slot}
    (hvalue : ∀ s, (slot s).value = s) (hcls : ∀ s, cls ∈ (slot s).classes) :
    (token cls shown).Fills fun s => [slot s] := by
  refine fills_accepting shown fun t ht => .cons ⟨(hvalue _).symm, fun _ => ?_⟩ .nil
  rw [show t.cls = cls from of_decide_eq_true ht]
  exact hcls _

/-- A word of the grammar takes any token with its text. -/
theorem fills_literal {slot : Slot} (hfixed : slot.fixed) :
    (literal slot.value).Fills fun _ => [slot] := by
  refine fills_accepting _ fun t ht => .cons ⟨of_decide_eq_true ht, fun hfree => ?_⟩ .nil
  rw [hfixed] at hfree
  cases hfree

/-- A value made from another keeps the slots, if it does so wherever the rule matches. -/
theorem Fills.map_of {r : Rule α} {f : α → List Slot} (h : r.Fills f) {g : α → β}
    {f' : β → List Slot} (hg : ∀ s a t, r.run s = (.matched a, t) → f' (g a) = f a) :
    (r.map g).Fills f' := by
  intro s
  have hs := h s
  show Outcome.Fills f' s ((r.run s).1.map g, (r.run s).2)
  cases hrun : r.run s with
  | mk o t =>
    rw [hrun] at hs
    cases o with
    | matched a =>
      obtain ⟨taken, htaken, hfills⟩ := hs
      exact ⟨taken, htaken, hg s a t hrun ▸ hfills⟩
    | absent => exact hs
    | stopped o => trivial

theorem Fills.map {r : Rule α} {f : α → List Slot} (h : r.Fills f) {g : α → β}
    {f' : β → List Slot} (hg : ∀ a, f' (g a) = f a) : (r.map g).Fills f' :=
  h.map_of fun _ a _ _ => hg a

private theorem tryAll_fills {f : α → List Slot} {rs : List (Rule α)} (h : ∀ r ∈ rs, r.Fills f)
    (s : State) (failed : Option (Nat × Obstacle)) : Outcome.Fills f s (tryAll s failed rs) := by
  induction rs generalizing s failed with
  | nil =>
    unfold tryAll
    split
    · trivial
    · rfl
  | cons r rs ih =>
    obtain ⟨hr, hrs⟩ := List.forall_mem_cons.mp h
    have hrun := hr s
    unfold tryAll
    cases hout : r.run s with
    | mk o trial =>
      rw [hout] at hrun
      cases o with
      | matched a =>
        obtain ⟨taken, htaken, hfills⟩ := hrun
        exact ⟨taken, by rw [rest_accept, htaken], hfills⟩
      | absent => exact ih hrs s failed
      | stopped o => exact (ih hrs _ _).congr (rest_abandon s trial o)

theorem fills_choice {f : α → List Slot} {rs : List (Rule α)} (h : ∀ r ∈ rs, r.Fills f) :
    (choice rs).Fills f := fun s => tryAll_fills h s none

private theorem repeated_fills {r : Rule α} {f : α → List Slot} (h : r.Fills f) (s : State) :
    ∃ taken, s.rest = taken ++ (repeated r s).2.rest ∧
      List.Forall₂ Slot.Passes ((repeated r s).1.flatMap f) taken := by
  fun_induction repeated r s with
  | case1 s o trial hrun => exact ⟨[], by simp [rest_abandon, rest_note], .nil⟩
  | case2 s trial hrun =>
    have hs := h s
    rw [hrun] at hs
    have hs : trial.rest = s.rest := hs
    exact ⟨[], by simp [rest_accept, hs], .nil⟩
  | case3 s a trial hrun next hlt as last hrest ih =>
    have hs := h s
    rw [hrun] at hs
    obtain ⟨first, hfirst, hfills⟩ := hs
    rw [hrest] at ih
    obtain ⟨others, hothers, hmore⟩ := ih
    refine ⟨first ++ others, ?_, List.rel_append hfills hmore⟩
    rw [hfirst, List.append_assoc, ← hothers, rest_accept]
  | case4 s a trial hrun next hlt =>
    have hs := h s
    rw [hrun] at hs
    obtain ⟨taken, htaken, hfills⟩ := hs
    exact ⟨taken, by rw [htaken, rest_accept], by simpa using hfills⟩

theorem Fills.many {r : Rule α} {f : α → List Slot} (h : r.Fills f) :
    (Rule.many r).Fills fun as => as.flatMap f := fun s => repeated_fills h s

theorem Fills.atLeastOnce {r : Rule α} {f : α → List Slot} (h : r.Fills f) :
    (Rule.atLeastOnce r).Fills fun as => as.flatMap f := by
  intro s
  obtain ⟨taken, htaken, hfills⟩ := repeated_fills h s
  show Outcome.Fills _ s (if (repeated r s).1.isEmpty then .absent else .matched (repeated r s).1,
    (repeated r s).2)
  split
  · next hempty =>
    rw [List.isEmpty_iff.mp hempty] at hfills
    cases hfills
    exact htaken.symm
  · exact ⟨taken, htaken, hfills⟩

theorem Fills.optional {r : Rule α} {f : α → List Slot} (h : r.Fills f) :
    (Rule.optional r).Fills fun a => a.elim [] f := by
  intro s
  have hs := h s
  simp only [Rule.optional]
  split
  · next o trial hrun => exact ⟨[], by simp [rest_abandon, rest_note], .nil⟩
  · next trial hrun =>
    rw [hrun] at hs
    have hs : trial.rest = s.rest := hs
    exact ⟨[], by simp [rest_accept, hs], .nil⟩
  · next a trial hrun =>
    rw [hrun] at hs
    obtain ⟨taken, htaken, hfills⟩ := hs
    exact ⟨taken, by rw [rest_accept, htaken], hfills⟩

theorem Fills.named {r : Rule α} {f : α → List Slot} (h : r.Fills f) (name : String) :
    (Rule.named name r).Fills f := by
  intro s
  have hs := h s
  simp only [Rule.named]
  split
  · trivial
  · exact hs

end Rule

namespace Tail

/-- What a first part and the tail behind it fill together. Only the first part can be absent. -/
private theorem fills_behind {t : Tail β} {f : α → List Slot} {g : β → List Slot}
    (ht : t.Fills g) {s s' : State} {a : α} (h : Outcome.Fills f s (.matched a, s')) :
    Outcome.Fills (fun (a, b) => f a ++ g b) s ((t.run s').1.map (a, ·), (t.run s').2) ∧
      (t.run s').1.map (a, ·) ≠ .absent := by
  obtain ⟨first, hfirst, hfills⟩ := h
  obtain ⟨hs', habsent⟩ := ht s'
  cases hrun : t.run s' with
  | mk o s'' =>
    rw [hrun] at hs' habsent
    cases o with
    | matched b =>
      obtain ⟨others, hothers, hmore⟩ := hs'
      refine ⟨⟨first ++ others, ?_, List.rel_append hfills hmore⟩, by simp [Outcome.map]⟩
      rw [hfirst, hothers, List.append_assoc]
    | absent => exact absurd rfl habsent
    | stopped o => exact ⟨trivial, by simp [Outcome.map]⟩

private theorem demand_fills {r : Rule α} {f : α → List Slot} (h : r.Fills f) (shown : String)
    (s : State) : Outcome.Fills f s (demand shown r s) ∧ (demand shown r s).1 ≠ .absent := by
  have hs := h s
  unfold demand
  split
  · exact ⟨trivial, by simp⟩
  · next hnone =>
    refine ⟨hs, fun habsent => ?_⟩
    exact hnone _ (Prod.ext habsent rfl)

theorem fills_last {r : Rule α} {f : α → List Slot} (h : r.Fills f) : (last r).Fills f :=
  demand_fills h r.shown

theorem fills_next {r : Rule α} {t : Tail β} {f : α → List Slot} {g : β → List Slot}
    (h : r.Fills f) (ht : t.Fills g) : (next r t).Fills fun (a, b) => f a ++ g b := by
  intro s
  obtain ⟨hs, habsent⟩ := demand_fills h (r.shown ++ " " ++ t.shown) s
  simp only [next]
  split
  · next a s' hrun =>
    rw [hrun] at hs
    exact fills_behind ht hs
  · next s' hrun =>
    rw [hrun] at habsent
    exact absurd rfl habsent
  · exact ⟨trivial, by simp⟩

theorem fills_seq {r : Rule α} {t : Tail β} {f : α → List Slot} {g : β → List Slot}
    (h : r.Fills f) (ht : t.Fills g) : (Rule.seq r t).Fills fun (a, b) => f a ++ g b := by
  intro s
  have hs := h s
  simp only [Rule.seq]
  split
  · next a s' hrun =>
    rw [hrun] at hs
    exact (fills_behind ht hs).1
  · next s' hrun =>
    rw [hrun] at hs
    exact hs
  · trivial

end Tail

/-- A line that was read fills its slots to the end. -/
theorem Rule.Fills.forall₂_of_parse {r : Rule α} {f : α → List Slot} (h : r.Fills f)
    {ts : List Token} {a : α} (hparse : (r.parse ts).toOption = some a) :
    List.Forall₂ Slot.Passes (f a) ts := by
  have hs := h (State.start ts)
  unfold Rule.parse at hparse
  cases hrun : r.run (State.start ts) with
  | mk o s =>
    rw [hrun] at hs hparse
    cases o with
    | stopped o => cases hparse
    | absent => cases hparse
    | matched b =>
      obtain ⟨taken, htaken, hfills⟩ := hs
      simp only at hparse
      split at hparse
      · next hempty =>
        cases hparse
        rw [List.isEmpty_iff.mp hempty, List.append_nil] at htaken
        rwa [show ts = taken from htaken]
      · cases hparse

open Rule Tail

theorem fills_ident : ident.Fills fun s => [.ident s] :=
  fills_token _ (fun _ => rfl) (by simp [Slot.ident])

private theorem fills_text : text.Fills fun s => [.literal s] :=
  fills_token _ (fun _ => rfl) (by simp [Slot.literal])

private theorem fills_number : number.Fills fun s => [.literal s] :=
  fills_token _ (fun _ => rfl) (by simp [Slot.literal])

private theorem fills_numberOrText : numberOrText.Fills fun s => [.literal s] := by
  refine fills_choice fun r hr => ?_
  simp only [List.mem_cons, List.not_mem_nil, or_false] at hr
  rcases hr with rfl | rfl
  · exact fills_number
  · exact fills_text

private theorem fills_word : word.Fills fun s => [.argument s] := by
  refine fills_choice fun r hr => ?_
  simp only [List.mem_cons, List.not_mem_nil, or_false] at hr
  rcases hr with rfl | rfl | rfl <;>
    exact fills_token _ (fun _ => rfl) (by simp [Slot.argument])

private theorem fills_keyword (s : String) : (literal s).Fills fun _ => [.keyword s] :=
  @fills_literal (.keyword s) rfl

private theorem fills_mark (s : String) : (literal s).Fills fun _ => [.mark s] :=
  @fills_literal (.mark s) rfl

private theorem fills_param : param.Fills Param.slots :=
  ((fills_seq fills_ident (fills_last fills_word)).map fun _ => rfl).named "Param"

private theorem fills_operand : (choice [varRef, literal "."]).Fills fun s => [.operand s] := by
  refine fills_choice fun r hr => ?_
  simp only [List.mem_cons, List.not_mem_nil, or_false] at hr
  rcases hr with rfl | rfl
  · refine fills_accepting _ fun t ht => .cons ?_ .nil
    unfold Slot.operand
    split
    · next hdot => exact ⟨hdot, fun hfree => by cases hfree⟩
    · exact ⟨rfl, fun _ => by simpa using ht⟩
  · refine fills_accepting _ fun t ht => .cons ?_ .nil
    rw [Slot.operand, if_pos (of_decide_eq_true ht)]
    exact ⟨of_decide_eq_true ht, fun hfree => by cases hfree⟩

private theorem fills_condition : condition.Fills Condition.slots := by
  have hoperator : Grammar.operator.Fills fun s => [.operator s] :=
    fills_token _ (fun _ => rfl) (by simp [Slot.operator])
  refine Fills.named (fills_choice fun r hr => ?_) "Condition"
  simp only [List.mem_cons, List.not_mem_nil, or_false] at hr
  rcases hr with rfl | rfl
  · exact (fills_seq fills_operand (fills_next hoperator (fills_last fills_numberOrText))).map
      fun _ => rfl
  · exact fills_numberOrText.map fun _ => rfl

private theorem fills_commandLine : commandLine.Fills fun (name, first, others) =>
    .ident name :: (first :: others).map .argument := by
  have harguments : arguments.Fills fun (first, others) =>
      (first :: others).map .argument := by
    refine fills_word.atLeastOnce.map_of fun s args t hrun => ?_
    have hne := ne_nil_of_atLeastOnce hrun
    cases args with
    | nil => exact absurd rfl hne
    | cons first others => exact List.map_eq_flatMap
  exact (fills_seq fills_ident (fills_last harguments)).named "CommandLine"

private theorem fills_groupWord : groupWord.Fills fun kind => [.keyword kind.word] := by
  refine fills_choice fun r hr => ?_
  simp only [List.mem_cons, List.not_mem_nil, or_false] at hr
  rcases hr with rfl | rfl
  · exact (fills_keyword "group").map fun _ => rfl
  · exact (fills_keyword "repeat").map fun _ => rfl

private theorem fills_groupLine : groupLine.Fills SurveyLine.slots := by
  have hinline : inlineCondition.Fills fun c => .keyword "if" :: c.slots :=
    (fills_seq (fills_keyword "if") (fills_last fills_condition)).map fun _ => rfl
  have hseq := fills_seq fills_groupWord (fills_next fills_ident
    (fills_next fills_text.optional (fills_next fills_param.many
      (fills_next hinline.optional (fills_last (fills_mark ":"))))))
  refine Fills.named (hseq.map fun a => ?_) "GroupLine"
  obtain ⟨kind, name, label, params, condition, _⟩ := a
  simp [SurveyLine.slots]

theorem fills_questionLine : questionLine.Fills SurveyLine.slots := by
  have hlabel : (choice [text, number]).Fills fun s => [.literal s] := by
    refine fills_choice fun r hr => ?_
    simp only [List.mem_cons, List.not_mem_nil, or_false] at hr
    rcases hr with rfl | rfl
    · exact fills_text
    · exact fills_number
  have hseq := fills_seq fills_ident (fills_next fills_ident.atLeastOnce
    (fills_next (fills_mark ":") (fills_next hlabel.optional
      (fills_last fills_param.many))))
  refine Fills.named (hseq.map fun a => ?_) "QuestionLine"
  obtain ⟨name, type, _, label, params⟩ := a
  simp [SurveyLine.slots, List.map_eq_flatMap]

theorem fills_surveyLine : surveyLine.Fills SurveyLine.slots := by
  refine Fills.named (fills_choice fun r hr => ?_) "SurveyLine"
  simp only [List.mem_cons, List.not_mem_nil, or_false] at hr
  rcases hr with rfl | rfl | rfl | rfl
  · exact (fills_seq (fills_mark "@") (fills_last fills_commandLine)).map fun _ => rfl
  · have hif : ifLine.Fills fun c => c.slots ++ [.mark ":"] :=
      Fills.named ((fills_seq fills_condition (fills_last (fills_mark ":"))).map
        fun _ => rfl) "IfLine"
    exact (fills_seq (fills_keyword "if") (fills_last hif)).map fun _ => rfl
  · exact fills_groupLine
  · exact fills_questionLine

private theorem list_of_listLine {s t : State} {line : ChoicesLine}
    (h : listLine.run s = (.matched line, t)) : ∃ name params, line = .list name params := by
  obtain ⟨⟨name, params, _⟩, _, hlist⟩ := matched_map (matched_named h)
  exact ⟨name, params, hlist.symm⟩

private theorem fills_list :
    ((Rule.seq (literal "list") (last listLine)).map (·.2)).Fills ChoicesLine.slots := by
  have hparts := fills_seq fills_ident (fills_next fills_param.many
    (fills_last (fills_mark ":")))
  -- the word in front is no part of the rule for a list
  have hlist : listLine.Fills fun line => line.slots.tail :=
    Fills.named (hparts.map fun _ => rfl) "ListLine"
  refine (fills_seq (fills_keyword "list") (fills_last hlist)).map_of fun s a t hrun => ?_
  obtain ⟨u, _, hline⟩ := matched_seq hrun
  obtain ⟨name, params, heq⟩ := list_of_listLine (matched_demand hline)
  show a.2.slots = .keyword "list" :: a.2.slots.tail
  rw [heq]
  rfl

theorem fills_choicesLine : choicesLine.Fills ChoicesLine.slots := by
  refine Fills.named (fills_choice fun r hr => ?_) "ChoicesLine"
  simp only [List.mem_cons, List.not_mem_nil, or_false] at hr
  rcases hr with rfl | rfl | rfl
  · exact (fills_seq (fills_mark "@") (fills_last fills_commandLine)).map fun _ => rfl
  · exact fills_list
  · have hseq := fills_seq fills_numberOrText (fills_next fills_numberOrText
      (fills_last fills_param.many))
    exact Fills.named (hseq.map fun _ => rfl) "ChoiceLine"

end Grammar
end SurveyForms
