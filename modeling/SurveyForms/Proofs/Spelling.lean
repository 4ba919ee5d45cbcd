import SurveyForms.Proofs.Lexemes
import SurveyForms.Proofs.Slots
import SurveyForms.Statement.Block

/-! A statement that was read spells its line: put back in order, the parts it is made of are the
words of the line, with none left out and none added. So the forest of a source tells how many
lines with a statement there are and what the words of each are. Whether a word was quoted is
lost. -/
namespace SurveyForms

def Param.words (p : Param) : List String := [p.key, p.value]

def Condition.words : Condition → List String
  | .comparison left operator value => [left, operator, value]
  | .literal value => [value]

namespace Grammar

open Source (Token TokenClass tokens? words?)

def SurveyLine.words : SurveyLine → List String
  | .command name first others => "@" :: name :: first :: others
  | .conditional condition => "if" :: condition.words ++ [":"]
  | .group kind name label params condition =>
    kind.word :: name :: label.elim [] ([·]) ++ params.flatMap (·.words) ++
      condition.elim [] (fun c => "if" :: c.words) ++ [":"]
  | .question name type label params =>
    name :: type ++ ":" :: label.elim [] ([·]) ++ params.flatMap (·.words)

def ChoicesLine.words : ChoicesLine → List String
  | .command name first others => "@" :: name :: first :: others
  | .list name params => "list" :: name :: params.flatMap (·.words) ++ [":"]
  | .choice value label params => value :: label :: params.flatMap (·.words)

@[simp]
theorem Slot.value_operand (s : String) : (Slot.operand s).value = s := by
  unfold operand
  split
  · next hdot => exact hdot.symm
  · rfl

private theorem values_params (params : List Param) :
    (params.flatMap (·.slots)).map (·.value) = params.flatMap (·.words) := List.map_flatMap

private theorem values_condition (c : Condition) : c.slots.map (·.value) = c.words := by
  cases c with
  | comparison left operator value =>
    rw [Condition.slots, List.map_cons, Slot.value_operand]
    rfl
  | literal value => rfl

theorem SurveyLine.values_slots (line : SurveyLine) : line.slots.map (·.value) = line.words := by
  cases line with
  | command name first others =>
    simp [slots, words, Slot.mark, Slot.ident, Slot.argument, Function.comp_def]
  | conditional c => simp [slots, words, values_condition, Slot.keyword, Slot.mark]
  | group kind name label params c =>
    cases label <;> cases c <;>
      simp [slots, words, values_params, values_condition, Slot.keyword, Slot.ident, Slot.literal,
        Slot.mark]
  | question name type label params =>
    cases label <;>
      simp [slots, words, values_params, Slot.ident, Slot.literal, Slot.mark, Function.comp_def]

theorem ChoicesLine.values_slots (line : ChoicesLine) :
    line.slots.map (·.value) = line.words := by
  cases line with
  | command name first others =>
    simp [slots, words, Slot.mark, Slot.ident, Slot.argument, Function.comp_def]
  | list name params => simp [slots, words, values_params, Slot.keyword, Slot.ident, Slot.mark]
  | choice value label params => simp [slots, words, values_params, Slot.literal]

theorem exists_mem_of_forall₂ {R : α → β → Prop} {as : List α} {bs : List β} {a : α}
    (h : List.Forall₂ R as bs) (ha : a ∈ as) : ∃ b ∈ bs, R a b := by
  induction h with
  | nil => cases ha
  | cons hab _ ih =>
    rcases List.mem_cons.mp ha with rfl | ha
    · exact ⟨_, by simp, hab⟩
    · obtain ⟨b, hb, hab⟩ := ih ha
      exact ⟨b, by simp [hb], hab⟩

/-- Tokens that fill slots have the words of the slots. -/
theorem values_of_forall₂ {slots : List Slot} {ts : List Token}
    (h : List.Forall₂ Slot.Passes slots ts) : ts.map (·.value) = slots.map (·.value) := by
  induction h with
  | nil => rfl
  | cons hpasses _ ih => rw [List.map_cons, List.map_cons, ih, hpasses.1]

/-- Whether a line is read, and as what, depends on its tokens alone. -/
theorem toOption_parseLine (rule : Rule α) (line : List Char) :
    (parseLine rule line).toOption = (tokens? line).bind fun ts => (rule.parse ts).toOption := by
  unfold parseLine tokens?
  cases hscan : Source.scan line with
  | mk lexemes rest =>
    cases rest with
    | nil =>
      simp only [if_true, Option.bind_some]
      cases rule.parse (Source.tokensFrom 1 lexemes) <;> rfl
    | cons c rest => rfl

/-- The tokens of a line that was read fill the slots of its value. -/
theorem forall₂_of_parseLine {rule : Rule α} {f : α → List Slot} (h : rule.Fills f)
    {line : List Char} {a : α} (hparse : (parseLine rule line).toOption = some a) :
    ∃ ts, tokens? line = some ts ∧ List.Forall₂ Slot.Passes (f a) ts := by
  rw [toOption_parseLine] at hparse
  obtain ⟨ts, hts, hrule⟩ := Option.bind_eq_some_iff.mp hparse
  exact ⟨ts, hts, h.forall₂_of_parse hrule⟩

theorem words?_of_parseLine {rule : Rule α} {f : α → List Slot} {g : α → List String}
    (h : rule.Fills f) (hwords : ∀ a, (f a).map (·.value) = g a) {line : List Char} {a : α}
    (hparse : (parseLine rule line).toOption = some a) : words? line = some (g a) := by
  obtain ⟨ts, hts, hfills⟩ := forall₂_of_parseLine h hparse
  rw [words?, hts, Option.map_some, values_of_forall₂ hfills, hwords]

end Grammar
end SurveyForms
